import Kmsrs.Policy.Isolation

/-! What the counting model remembers. With readings that never decrease and no
more applications than it tracks, the bucket of an application is a function of
the sightings so far: the last sighting of each machine, less those thirty days
old, and of these the two hundred most recent. Every field of an answer follows
from that. -/

namespace Kmsrs.Policy.Counting

open Kmsrs.Kms Kmsrs.Wire

/-- The machines still held at a reading, least recently seen first. -/
def remembered (seen : List Cached) (now : Instant) : List Cached :=
  Recency.held Cached.cmid (fun entry => entry.seen.toNat) cmidExpiry maxCachedPerApplication now.toNat seen

/-- The distinct machines last seen less than thirty days ago. -/
def recentIds (seen : List Cached) (now : Instant) : Finset Guid :=
  Recency.current Cached.cmid (Cached.live now) seen

/-- The machines held when the last of the sightings was recorded. -/
def recalled (seen : List Cached) : List Cached :=
  match seen.getLast? with
  | none => []
  | some last => remembered seen last.seen

/-- The readings of the sightings never decrease. -/
def Ordered (seen : List Cached) : Prop := seen.Pairwise fun a b => a.seen.toNat ≤ b.seen.toNat

theorem recalled_concat (seen : List Cached) (entry : Cached) :
    recalled (seen ++ [entry]) = remembered (seen ++ [entry]) entry.seen := by
  simp [recalled]

theorem recall_sublist (seen : List Cached) : (recalled seen).Sublist seen := by
  rw [recalled]
  split
  · exact List.nil_sublist _
  · exact Recency.held_sublist _ _ _ _ _ _

theorem remembered_ordered {seen : List Cached} (h : Ordered seen) (now : Instant) :
    Ordered (remembered seen now) := h.sublist (Recency.held_sublist _ _ _ _ _ _)

theorem recall_aged {seen : List Cached} (h : Ordered seen) (now : Instant) :
    Recency.Aged (Cached.live now) (recalled seen) :=
  Recency.aged_fresh _ _ (h.sublist (recall_sublist seen)) _

/-- What is still live of what was held is what is held now. -/
theorem filter_recall {seen : List Cached} {now : Instant} (h : Ordered seen)
    (hnow : ∀ entry ∈ seen, entry.seen.toNat ≤ now.toNat) :
    (recalled seen).filter (Cached.live now) = remembered seen now := by
  rw [recalled]
  cases hlast : seen.getLast? with
  | none =>
    rw [List.getLast?_eq_none_iff] at hlast
    subst hlast
    simp [remembered, Recency.held]
  | some last =>
    have hle := hnow last (List.mem_of_getLast? hlast)
    have hfilter := Recency.filter_held Cached.cmid (fun entry => entry.seen.toNat) cmidExpiry
      maxCachedPerApplication hle h
    rw [← Cached.live, ← remembered, ← remembered] at hfilter
    exact hfilter

theorem live_self (cmid : Guid) (now : Instant) : (⟨cmid, now⟩ : Cached).live now := by
  rw [Cached.live_iff, Instant.saturatingDurationSince, Nat.sub_self]
  decide

theorem length_remembered (seen : List Cached) (now : Instant) :
    (remembered seen now).length = min 200 (recentIds seen now).card :=
  Recency.length_held _ _ _ _ _ _

theorem nodup_remembered (seen : List Cached) (now : Instant) :
    ((remembered seen now).map Cached.cmid).Nodup :=
  Recency.nodup_held _ _ _ _ _ _

/-- A sighting renews a machine, or joins the others, or pushes out the one least
recently seen. -/
theorem remembered_concat (seen : List Cached) (cmid : Guid) (now : Instant) :
    remembered (seen ++ [⟨cmid, now⟩]) now =
      if cmid ∈ (remembered seen now).map Cached.cmid then
        Recency.renew Cached.cmid (remembered seen now) ⟨cmid, now⟩
      else if (remembered seen now).length < maxCachedPerApplication then
        remembered seen now ++ [⟨cmid, now⟩]
      else (remembered seen now).tail ++ [⟨cmid, now⟩] := by
  have hlive := live_self cmid now
  rw [Cached.live] at hlive
  have hheld := Recency.held_concat Cached.cmid (fun entry => entry.seen.toNat) cmidExpiry
    maxCachedPerApplication seen (by decide) hlive
  rw [← remembered, ← remembered] at hheld
  convert hheld

/-- Only a new machine among two hundred makes the model forget one, and that is
the one least recently seen. -/
theorem forgotten_iff (seen : List Cached) (cmid : Guid) (now : Instant) {entry : Cached}
    (hentry : entry ∈ remembered seen now) :
    entry.cmid ∉ (remembered (seen ++ [⟨cmid, now⟩]) now).map Cached.cmid ↔
      (cmid ∉ (remembered seen now).map Cached.cmid ∧ maxCachedPerApplication ≤ (remembered seen now).length) ∧
        (remembered seen now).head? = some entry := by
  have hnodup := nodup_remembered seen now
  rw [remembered_concat]
  generalize remembered seen now = held at hentry hnodup ⊢
  have hid : entry.cmid ∈ held.map Cached.cmid := List.mem_map_of_mem hentry
  split_ifs with hmem hroom
  · have hkept : entry.cmid ∈ (Recency.renew Cached.cmid held ⟨cmid, now⟩).map Cached.cmid := by
      by_cases hsame : entry.cmid = cmid
      · simp [Recency.renew, hsame]
      · rw [Recency.renew, List.map_append, List.mem_append]
        exact .inl (List.mem_map.mpr ⟨entry, List.mem_filter.mpr ⟨hentry, by simpa using hsame⟩, rfl⟩)
    simp [hkept, hmem]
  · rw [List.map_append, List.mem_append]
    constructor
    · intro hgone
      exact absurd (.inl hid) hgone
    · rintro ⟨⟨-, hfull⟩, -⟩
      omega
  · cases held with
    | nil => simp at hentry
    | cons first rest =>
      have hne : entry.cmid ≠ cmid := fun h => hmem (h ▸ hid)
      have hfirst : entry.cmid ∈ rest.map Cached.cmid ↔ first ≠ entry := by
        constructor
        · rintro hrest rfl
          exact (List.nodup_cons.mp hnodup).1 hrest
        · intro hother
          exact List.mem_map_of_mem ((List.mem_cons.mp hentry).resolve_left (Ne.symm hother))
      have hlast : entry.cmid ∉ [(⟨cmid, now⟩ : Cached)].map Cached.cmid := by simpa using hne
      rw [List.tail_cons, List.map_append, List.mem_append, hfirst, List.head?_cons, Option.some.injEq,
        or_iff_left hlast, not_not]
      exact (and_iff_right ⟨hmem, Nat.le_of_not_lt hroom⟩).symm

namespace Bucket

variable {bucket : Bucket} {seen : List Cached} {now : Instant}

theorem expire_recall (hbucket : bucket.entries = recalled seen) (h : Ordered seen)
    (hnow : ∀ entry ∈ seen, entry.seen.toNat ≤ now.toNat) :
    (bucket.expire now).2.entries = remembered seen now := by
  rw [expire_entries, hbucket, (recall_aged h now).dropWhile, filter_recall h hnow]

/-- Everything stale is removed, and nothing else is counted. -/
theorem expire_count_recall (hbucket : bucket.entries = recalled seen) (h : Ordered seen)
    (hbound : bucket.entries.length ≤ maxCachedPerApplication) :
    (bucket.expire now).1.toNat = ((recalled seen).filter fun entry => !entry.live now).length := by
  have hdrop := congrArg List.length (recall_aged h now).dropWhile
  have hsplit := congrArg List.length
    (List.takeWhile_append_dropWhile (p := fun e : Cached => !e.live now) (l := recalled seen))
  have hparts := List.length_eq_length_filter_add (l := recalled seen) (Cached.live now)
  have hcap : maxCachedPerApplication < 2 ^ 32 := by decide
  rw [List.length_append] at hsplit
  rw [expire_count, hbucket]
  rw [hbucket] at hbound
  omega

theorem record_remembered (hbucket : bucket.entries = remembered seen now) (cmid : Guid) :
    (bucket.record cmid now).2.entries = remembered (seen ++ [⟨cmid, now⟩]) now := by
  have hnodup : (bucket.entries.map Cached.cmid).Nodup := hbucket ▸ nodup_remembered seen now
  rw [remembered_concat, ← hbucket]
  obtain ⟨hmem, -, heq⟩ | ⟨hnew, hroom, -, heq⟩ | ⟨hnew, hfull, -, heq⟩ :=
    bucket.record_cases cmid now hnodup
  · rw [heq, if_pos hmem]
  · rw [heq, if_neg hnew, if_pos hroom]
  · rw [heq, if_neg hnew, if_neg (by omega)]

end Bucket

/-! ### Runs -/

/-- A history with readings that never decrease. -/
def Monotone (history : List Observation) : Prop :=
  history.Pairwise fun a b => a.now ≤ b.now

/-- The applications of a history. -/
def applications (history : List Observation) : Finset Guid :=
  (history.map Observation.application).toFinset

theorem applications_concat (history : List Observation) (o : Observation) :
    applications (history ++ [o]) = insert o.application (applications history) := by
  ext application
  simp [applications, eq_comm]

section Readings

variable {history : List Observation} {o : Observation}

theorem Monotone.of_concat (h : Monotone (history ++ [o])) : Monotone history :=
  h.sublist (List.sublist_append_left _ _)

theorem Monotone.ordered (h : Monotone history) (application : Guid) :
    Ordered (sightings history application) := by
  refine List.pairwise_map.mpr ((h.sublist List.filter_sublist).imp ?_)
  intro a b hab
  exact UInt64.le_iff_toNat_le.mp hab

theorem Monotone.le_now (h : Monotone (history ++ [o])) (application : Guid) :
    ∀ entry ∈ sightings history application, entry.seen.toNat ≤ o.now.toNat := by
  intro entry hentry
  obtain ⟨a, ha, rfl⟩ := List.mem_map.mp hentry
  have hle := (List.pairwise_append.mp h).2.2 a (List.mem_filter.mp ha).1 o (by simp)
  exact UInt64.le_iff_toNat_le.mp hle

end Readings

namespace ClientCounts

/-- The buckets hold what the history lets them recall. -/
structure Tracks (history : List Observation) (world : ClientCounts) : Prop where
  entries : ∀ application, (world.bucketOf application).entries = recalled (sightings history application)
  tracked : ∀ application ∈ applications history, (world.bucket? application).isSome

variable {history : List Observation} {world : ClientCounts} {o : Observation}

theorem Sound.length_le (h : Sound history world) :
    world.buckets.length ≤ (applications history).card := by
  have hsub : (world.buckets.map Bucket.application).toFinset ⊆ (applications history).image some := by
    intro k hk
    obtain ⟨bucket, hbucket, rfl⟩ := List.mem_map.mp (List.mem_toFinset.mp hk)
    obtain ⟨application, happ, hholds⟩ := h.holds bucket hbucket
    obtain ⟨entry, hentry⟩ := List.exists_mem_of_ne_nil _ (h.nonempty bucket hbucket)
    obtain ⟨o, ho, -⟩ := List.mem_map.mp (hholds.seen entry hentry)
    obtain ⟨ho, hoapp⟩ := List.mem_filter.mp ho
    rw [happ, Finset.mem_image]
    refine ⟨application, ?_, rfl⟩
    rw [applications, List.mem_toFinset]
    exact List.mem_map.mpr ⟨o, ho, by simpa using hoapp⟩
  calc world.buckets.length = (world.buckets.map Bucket.application).toFinset.card := by
        rw [List.toFinset_card_of_nodup h.distinct, List.length_map]
    _ ≤ ((applications history).image some).card := Finset.card_le_card hsub
    _ ≤ (applications history).card := Finset.card_image_le

/-- While the applications fit, nothing is discarded. -/
theorem Tracks.discarded_eq_none (h : Tracks history world) (hsound : Sound history world)
    (happs : (applications (history ++ [o])).card ≤ maxApplications) : world.discarded o = none := by
  cases hbucket : world.bucket? o.application with
  | some bucket => exact Slots.evicted_of_lookup hbucket
  | none =>
    have hnew : o.application ∉ applications history := by
      intro hmem
      have := h.tracked _ hmem
      simp [hbucket] at this
    have hlen := hsound.length_le
    rw [applications_concat, Finset.card_insert_of_notMem hnew] at happs
    exact Slots.evicted_of_lt (by omega)

theorem Sound.bucket?_count_self (h : Sound history world) (o : Observation) :
    (world.count o).2.bucket? o.application = some (world.counted o.application o.cmid o.now) := by
  have hpos : 0 < maxApplications := by decide
  rw [bucket?, count_buckets]
  have happ : (world.counted o.application o.cmid o.now).application =
      (⟨some o.application, []⟩ : Bucket).application := world.counted_application _ _ _
  exact Slots.lookup_store_self hpos h.distinct happ

theorem Tracks.expire (h : Tracks history world) (hclock : Monotone (history ++ [o])) :
    ((world.bucketOf o.application).expire o.now).2.entries =
      remembered (sightings history o.application) o.now :=
  Bucket.expire_recall (h.entries _) (hclock.of_concat.ordered _) (hclock.le_now _)

theorem Tracks.counted (h : Tracks history world) (hclock : Monotone (history ++ [o])) :
    (world.counted o.application o.cmid o.now).entries =
      remembered (sightings (history ++ [o]) o.application) o.now := by
  rw [sightings_concat, if_pos rfl]
  exact Bucket.record_remembered (h.expire hclock) o.cmid

theorem Tracks.count (h : Tracks history world) (hsound : Sound history world)
    (hclock : Monotone (history ++ [o]))
    (happs : (applications (history ++ [o])).card ≤ maxApplications) :
    Tracks (history ++ [o]) (world.count o).2 := by
  have hself := hsound.bucket?_count_self o
  have hother : ∀ application ≠ o.application,
      (world.count o).2.bucket? application = world.bucket? application := by
    intro application hne
    rw [hsound.bucket?_count o hne, h.discarded_eq_none hsound happs, if_neg (by simp)]
  constructor
  · intro application
    by_cases heq : application = o.application
    · subst heq
      have hentries := h.counted hclock
      rw [sightings_concat, if_pos rfl] at hentries ⊢
      rw [recalled_concat, bucketOf, ← bucket?, hself]
      exact hentries
    · rw [sightings_concat, if_neg (Ne.symm heq), ← h.entries, bucketOf, ← bucket?, hother _ heq]
      rfl
  · intro application hmem
    rw [applications_concat, Finset.mem_insert] at hmem
    by_cases heq : application = o.application
    · simp [heq, hself]
    · rw [hother _ heq]
      exact h.tracked _ (hmem.resolve_left heq)

theorem tracks_after (history : List Observation) (hclock : Monotone history)
    (happs : (applications history).card ≤ maxApplications) : Tracks history (after history) := by
  induction history using List.reverseRecOn with
  | nil => exact ⟨fun _ => rfl, by simp [applications]⟩
  | append_singleton history o ih =>
    have hfewer : (applications history).card ≤ maxApplications := by
      refine (Finset.card_le_card ?_).trans happs
      rw [applications_concat]
      exact Finset.subset_insert _ _
    rw [after_concat]
    exact (ih hclock.of_concat hfewer).count (sound_after history) hclock happs

end ClientCounts

/-- The answer to the call after a history. -/
def answer (past : List Observation) (o : Observation) : CountView := ((ClientCounts.after past).count o).1

/-- The unexpired entries the application's bucket holds when the call is made. -/
def heldBefore (past : List Observation) (o : Observation) : List Cached :=
  ((ClientCounts.after past).bucketOf o.application).entries.filter (Cached.live o.now)

/-- The entries of the bucket once the call is over. -/
def heldAfter (past : List Observation) (o : Observation) : List Cached :=
  ((ClientCounts.after (past ++ [o])).bucketOf o.application).entries

section Call

variable {past : List Observation} {o : Observation}

theorem heldBefore_eq (hclock : Monotone (past ++ [o]))
    (htracks : ClientCounts.Tracks past (ClientCounts.after past)) :
    heldBefore past o = remembered (sightings past o.application) o.now := by
  rw [heldBefore, htracks.entries]
  exact filter_recall (hclock.of_concat.ordered _) (hclock.le_now _)

theorem heldAfter_eq (past : List Observation) (o : Observation) :
    heldAfter past o = ((ClientCounts.after past).counted o.application o.cmid o.now).entries := by
  have hself := (ClientCounts.sound_after past).bucket?_count_self o
  rw [heldAfter, ClientCounts.bucketOf, ← ClientCounts.bucket?, ClientCounts.after_concat, hself]
  rfl

theorem cached_eq (past : List Observation) (o : Observation) :
    (answer past o).cached.toNat = (heldAfter past o).length := by
  have hbound := (((ClientCounts.sound_after past).holds_expired o.application o.now).record o.cmid o.now).bounded
  have hcap : maxCachedPerApplication < 2 ^ 32 := by decide
  rw [heldAfter_eq, answer, ClientCounts.count, ClientCounts.observe_eq, toNat_saturateU32]
  rw [ClientCounts.counted]
  omega

/-- The outcome says whether the machine was held, and whether there was room. -/
theorem outcome_iff (hclock : Monotone (past ++ [o]))
    (htracks : ClientCounts.Tracks past (ClientCounts.after past)) :
    ((answer past o).outcome = .renewed ↔ o.cmid ∈ (heldBefore past o).map Cached.cmid) ∧
    ((answer past o).outcome = .insertedWithEviction ↔
      o.cmid ∉ (heldBefore past o).map Cached.cmid ∧ maxCachedPerApplication ≤ (heldBefore past o).length) ∧
    ((answer past o).outcome = .inserted ↔
      o.cmid ∉ (heldBefore past o).map Cached.cmid ∧ (heldBefore past o).length < maxCachedPerApplication) := by
  have hentries := htracks.expire hclock
  have hholds := (ClientCounts.sound_after past).holds_expired o.application o.now
  rw [heldBefore_eq hclock htracks, ← hentries, answer, ClientCounts.count, ClientCounts.observe_eq]
  obtain ⟨hmem, hout, -⟩ | ⟨hnew, hroom, hout, -⟩ | ⟨hnew, hfull, hout, -⟩ :=
    Bucket.record_cases _ o.cmid o.now hholds.nodup
  · simp only [hout, hmem, not_true_eq_false, false_and, reduceCtorEq, and_self]
  · simp only [hout, hnew, hroom, not_false_eq_true, true_and, reduceCtorEq, false_iff, not_le, and_self]
  · simp only [hout, hnew, hfull, not_false_eq_true, true_and, reduceCtorEq, false_iff, not_lt, and_self]

end Call

/-- Each call of a run with readings that never decrease and at most eight
applications. The count is the number of distinct machines seen less than thirty
days ago, up to two hundred; a machine is forgotten early only when two hundred
others are held, and then it is the one least recently seen; the outcome, the
number expired and the answer follow from what was held. -/
theorem observe_refines_recall (past : List Observation) (o : Observation)
    (hclock : Monotone (past ++ [o])) (happs : (applications (past ++ [o])).card ≤ 8) :
    (answer past o).cached.toNat = min 200 (recentIds (sightings (past ++ [o]) o.application) o.now).card ∧
    heldBefore past o = remembered (sightings past o.application) o.now ∧
    heldAfter past o = remembered (sightings (past ++ [o]) o.application) o.now ∧
    (heldBefore past o).Pairwise (fun a b => a.seen ≤ b.seen) ∧
    (∀ entry ∈ heldBefore past o, entry.cmid ∉ (heldAfter past o).map Cached.cmid ↔
      (answer past o).outcome = .insertedWithEviction ∧ (heldBefore past o).head? = some entry) ∧
    ((answer past o).outcome = .renewed ↔ o.cmid ∈ (heldBefore past o).map Cached.cmid) ∧
    ((answer past o).outcome = .insertedWithEviction ↔
      o.cmid ∉ (heldBefore past o).map Cached.cmid ∧ (heldBefore past o).length = 200) ∧
    ((answer past o).outcome = .inserted ↔
      o.cmid ∉ (heldBefore past o).map Cached.cmid ∧ (heldBefore past o).length ≠ 200) ∧
    (answer past o).expired.toNat =
      ((recalled (sightings past o.application)).filter fun entry => !entry.live o.now).length ∧
    (answer past o).reported.toNat =
      if o.required.toNat ≤ 100 then
        max (min (answer past o).cached.toNat (2 * max o.required.toNat 1)) o.required.toNat
      else min (answer past o).cached.toNat 200 := by
  have hfewer : (applications past).card ≤ maxApplications := by
    refine (Finset.card_le_card ?_).trans happs
    rw [applications_concat]
    exact Finset.subset_insert _ _
  have hsound := ClientCounts.sound_after past
  have htracks := ClientCounts.tracks_after past hclock.of_concat hfewer
  have hordered := hclock.of_concat.ordered o.application
  have hbefore := heldBefore_eq hclock htracks
  have hafter : heldAfter past o = remembered (sightings (past ++ [o]) o.application) o.now := by
    rw [heldAfter_eq]
    exact htracks.counted hclock
  obtain ⟨hrenewed, hevicted, hinserted⟩ := outcome_iff hclock htracks
  have hbound : (heldBefore past o).length ≤ 200 := by
    rw [hbefore, length_remembered]
    exact Nat.min_le_left _ _
  have hcap : maxCachedPerApplication = 200 := rfl
  refine ⟨?_, hbefore, hafter, ?_, ?_, hrenewed, ?_, ?_, ?_, ?_⟩
  · rw [cached_eq, hafter, length_remembered]
  · rw [hbefore]
    exact (remembered_ordered hordered o.now).imp UInt64.le_iff_toNat_le.mpr
  · intro entry hentry
    rw [hevicted, hafter, sightings_concat, if_pos rfl, hbefore]
    rw [hbefore] at hentry
    exact forgotten_iff _ o.cmid o.now hentry
  · rw [hevicted]
    exact and_congr_right fun _ => by omega
  · rw [hinserted]
    exact and_congr_right fun _ => by omega
  · rw [answer, ClientCounts.count, ClientCounts.observe_eq]
    exact Bucket.expire_count_recall (htracks.entries _) hordered (hsound.holds_bucketOf _).bounded
  · rw [answer, ClientCounts.count, ClientCounts.observe_eq]
    exact reported_toNat _ _

/-- Machine `id` of one application, seen on a given day. -/
def seenOnDay (id : UInt8) (day : ℕ) : Observation :=
  ⟨Vector.replicate 16 1, Vector.replicate 16 id, 25, .ofNat (day * 86400 * 10 ^ 9)⟩

/-- A machine seen on day 0 expires on day 30; one seen on day 10 is still counted. -/
theorem machine_expires_on_day_thirty :
    (answer [seenOnDay 1 0, seenOnDay 2 10] (seenOnDay 3 30)).cached.toNat = 2 ∧
      (answer [seenOnDay 1 0, seenOnDay 2 10] (seenOnDay 3 30)).expired.toNat = 1 ∧
      (answer [seenOnDay 1 0, seenOnDay 2 10] (seenOnDay 3 30)).reported.toNat = 25 := by
  have hclock : Monotone ([seenOnDay 1 0, seenOnDay 2 10] ++ [seenOnDay 3 30]) := by
    unfold Monotone
    decide +kernel
  have hrecent : (recentIds (sightings ([seenOnDay 1 0, seenOnDay 2 10] ++ [seenOnDay 3 30])
      (seenOnDay 3 30).application) (seenOnDay 3 30).now).card = 2 := by decide +kernel
  have hexpired : ((recalled (sightings [seenOnDay 1 0, seenOnDay 2 10] (seenOnDay 3 30).application)).filter
      fun entry => !entry.live (seenOnDay 3 30).now).length = 1 := by decide +kernel
  obtain ⟨hcached, -, -, -, -, -, -, -, hstale, hreported⟩ :=
    observe_refines_recall [seenOnDay 1 0, seenOnDay 2 10] (seenOnDay 3 30) hclock (by decide +kernel)
  rw [hrecent] at hcached
  rw [hcached] at hreported
  exact ⟨hcached, hstale.trans hexpired, hreported⟩

end Kmsrs.Policy.Counting
