import Kmsrs.Policy.Counting

/-! Whole runs of the counting model, under any clock readings and any number of
applications. What a client demands never reaches the state, every bucket holds
only machines seen for its own application, and counting for one application
leaves every other bucket alone, unless it has to take the stalest one. -/

namespace Kmsrs.Policy.Counting

open Kmsrs.Kms Kmsrs.Wire

/-- One call of `observe`. -/
structure Observation where
  application : Guid
  cmid : Guid
  required : UInt32
  now : Instant
deriving DecidableEq

/-- The entry an observation leaves. -/
def Observation.cached (o : Observation) : Cached := ⟨o.cmid, o.now⟩

/-- The entries left for one application, in order. -/
def sightings (history : List Observation) (application : Guid) : List Cached :=
  (history.filter fun o => o.application = application).map Observation.cached

theorem sightings_concat (history : List Observation) (o : Observation) (application : Guid) :
    sightings (history ++ [o]) application =
      if o.application = application then sightings history application ++ [o.cached]
      else sightings history application := by
  by_cases h : o.application = application
  · simp [sightings, h]
  · simp [sightings, h]

/-- What a bucket can hold of the entries left for its application. -/
structure Holds (seen entries : List Cached) : Prop where
  nodup : (entries.map Cached.cmid).Nodup
  bounded : entries.length ≤ maxCachedPerApplication
  seen : ∀ entry ∈ entries, entry ∈ seen

namespace Holds

variable {seen entries : List Cached}

theorem nil : Holds seen [] := ⟨by simp, by simp, by simp⟩

theorem of_sublist {fewer : List Cached} (h : Holds seen entries) (hsub : fewer.Sublist entries) :
    Holds seen fewer where
  nodup := (hsub.map Cached.cmid).nodup h.nodup
  bounded := hsub.length_le.trans h.bounded
  seen entry hentry := h.seen entry (hsub.subset hentry)

theorem concat (h : Holds seen entries) {entry : Cached} (hnew : entry.cmid ∉ entries.map Cached.cmid)
    (hroom : entries.length < maxCachedPerApplication) :
    Holds (seen ++ [entry]) (entries ++ [entry]) where
  nodup := by
    rw [List.map_append, List.nodup_append]
    refine ⟨h.nodup, by simp, ?_⟩
    rintro id hid _ hentry rfl
    simp only [List.map_cons, List.map_nil, List.mem_singleton] at hentry
    exact hnew (hentry ▸ hid)
  bounded := by simpa using hroom
  seen x hx := by
    rcases List.mem_append.mp hx with hx | hx
    · exact List.mem_append_left _ (h.seen x hx)
    · exact List.mem_append_right _ hx

/-- Recording keeps a bucket within what was seen for its application. -/
theorem record {bucket : Bucket} (h : Holds seen bucket.entries) (cmid : Guid) (now : Instant) :
    Holds (seen ++ [⟨cmid, now⟩]) (bucket.record cmid now).2.entries := by
  obtain ⟨hmem, -, heq⟩ | ⟨hnew, hroom, -, heq⟩ | ⟨hnew, hfull, -, heq⟩ :=
    bucket.record_cases cmid now h.nodup
  · have hlen := Recency.length_renew_of_mem Cached.cmid (e := ⟨cmid, now⟩) h.nodup hmem
    rw [heq, Recency.renew]
    refine (h.of_sublist List.filter_sublist).concat ?_ ?_
    · simp
    · have := h.bounded
      rw [Recency.renew, List.length_append, List.length_singleton] at hlen
      omega
  · rw [heq]
    exact h.concat hnew hroom
  · rw [heq]
    refine (h.of_sublist (List.tail_sublist _)).concat ?_ ?_
    · exact fun hmem => hnew (((List.tail_sublist _).map Cached.cmid).subset hmem)
    · have := h.bounded
      rw [List.length_tail]
      have : 0 < maxCachedPerApplication := by decide
      omega

end Holds

theorem Bucket.record_ne_nil (bucket : Bucket) (cmid : Guid) (now : Instant) :
    (bucket.record cmid now).2.entries ≠ [] := by
  rw [record]
  split
  · simp
  · split_ifs <;> simp

namespace ClientCounts

/-- The world and the answer after one observation. -/
def count (world : ClientCounts) (o : Observation) : CountView × ClientCounts :=
  world.observe o.application o.cmid o.required o.now

def run (world : ClientCounts) (history : List Observation) : ClientCounts :=
  history.foldl (fun world o => (world.count o).2) world

/-- The answers along a run. -/
def answers (world : ClientCounts) : List Observation → List CountView
  | [] => []
  | o :: history => (world.count o).1 :: answers (world.count o).2 history

/-- The world after a history, from the empty one. -/
def after (history : List Observation) : ClientCounts := new.run history

theorem after_concat (history : List Observation) (o : Observation) :
    after (history ++ [o]) = ((after history).count o).2 := by
  simp [after, run, List.foldl_append]

/-- The bucket of an application. -/
def bucket? (world : ClientCounts) (application : Guid) : Option Bucket :=
  Slots.lookup Bucket.application (some application) world.buckets

/-- The bucket a new application takes the place of. -/
def discarded (world : ClientCounts) (o : Observation) : Option Bucket :=
  Slots.evicted Bucket.application (Bucket.newest o.now) maxApplications (some o.application) world.buckets

/-- What holds of every world a run reaches. -/
structure Sound (history : List Observation) (world : ClientCounts) : Prop where
  bounded : world.buckets.length ≤ maxApplications
  distinct : (world.buckets.map Bucket.application).Nodup
  nonempty : ∀ bucket ∈ world.buckets, bucket.entries ≠ []
  holds : ∀ bucket ∈ world.buckets, ∃ application, bucket.application = some application ∧
    Holds (sightings history application) bucket.entries

variable {history : List Observation} {world : ClientCounts}

theorem count_buckets (world : ClientCounts) (o : Observation) :
    (world.count o).2.buckets =
      Slots.store Bucket.application (Bucket.newest o.now) maxApplications ⟨some o.application, []⟩
        world.buckets (world.counted o.application o.cmid o.now) := by
  rw [count, observe_eq]

theorem Sound.holds_bucketOf (h : Sound history world) (application : Guid) :
    Holds (sightings history application) (world.bucketOf application).entries := by
  rw [bucketOf]
  cases hlook : Slots.lookup Bucket.application (some application) world.buckets with
  | none => exact .nil
  | some bucket =>
    obtain ⟨hmem, happ⟩ := Slots.mem_of_lookup hlook
    obtain ⟨own, hown, hholds⟩ := h.holds bucket hmem
    obtain rfl : own = application := Option.some.inj (hown.symm.trans happ)
    exact hholds

theorem Sound.holds_expired (h : Sound history world) (application : Guid) (now : Instant) :
    Holds (sightings history application) ((world.bucketOf application).expire now).2.entries := by
  refine (h.holds_bucketOf application).of_sublist ?_
  rw [Bucket.expire_entries]
  exact List.dropWhile_sublist _

theorem Sound.new : Sound [] ClientCounts.new :=
  ⟨by decide, by simp [ClientCounts.new], by simp [ClientCounts.new], by simp [ClientCounts.new]⟩

theorem Sound.count (h : Sound history world) (o : Observation) :
    Sound (history ++ [o]) (world.count o).2 := by
  have hpos : 0 < maxApplications := by decide
  have happ := world.counted_application o.application o.cmid o.now
  have hmem : ∀ bucket, bucket ∈ (world.count o).2.buckets →
      bucket = world.counted o.application o.cmid o.now ∨
        bucket ∈ world.buckets ∧ bucket.application ≠ some o.application := by
    intro bucket hbucket
    rw [count_buckets, Slots.mem_store_iff hpos h.distinct] at hbucket
    exact hbucket.imp_right fun hold => ⟨hold.1, hold.2.1⟩
  constructor
  · rw [count_buckets]
    exact Slots.length_store_le hpos h.bounded
  · rw [count_buckets]
    exact Slots.nodup_store hpos h.distinct happ
  · intro bucket hbucket
    rcases hmem bucket hbucket with rfl | ⟨hold, -⟩
    · exact Bucket.record_ne_nil _ _ _
    · exact h.nonempty bucket hold
  · intro bucket hbucket
    rcases hmem bucket hbucket with rfl | ⟨hold, hother⟩
    · refine ⟨o.application, happ, ?_⟩
      rw [sightings_concat, if_pos rfl]
      exact (h.holds_expired o.application o.now).record o.cmid o.now
    · obtain ⟨application, hown, hholds⟩ := h.holds bucket hold
      have hne : o.application ≠ application := fun heq => hother (heq ▸ hown)
      refine ⟨application, hown, ?_⟩
      rwa [sightings_concat, if_neg hne]

theorem sound_after (history : List Observation) : Sound history (after history) := by
  induction history using List.reverseRecOn with
  | nil => exact .new
  | append_singleton history o ih =>
    rw [after_concat]
    exact ih.count o

/-- Counting for one application changes no other bucket but the discarded one. -/
theorem Sound.bucket?_count (h : Sound history world) (o : Observation) {other : Guid}
    (hne : other ≠ o.application) :
    (world.count o).2.bucket? other =
      if (world.discarded o).map Bucket.application = some (some other) then none
      else world.bucket? other := by
  have happ := world.counted_application o.application o.cmid o.now
  rw [bucket?, count_buckets]
  exact Slots.lookup_store_of_ne (by decide) h.distinct happ (by simpa using hne)

theorem discarded_spec {o : Observation} {victim : Bucket} (h : Sound history world)
    (hvictim : world.discarded o = some victim) :
    victim ∈ world.buckets ∧ ∃ newest, victim.entries.getLast? = some newest ∧
      ∀ bucket ∈ world.buckets, ∀ entry, bucket.entries.getLast? = some entry → newest.seen ≤ entry.seen := by
  obtain ⟨hmem, -, -, hleast⟩ := Slots.evicted_spec hvictim
  obtain ⟨newest, hnewest⟩ := Option.ne_none_iff_exists'.mp
    (mt List.getLast?_eq_none_iff.mp (h.nonempty victim hmem))
  refine ⟨hmem, newest, hnewest, ?_⟩
  intro bucket hbucket entry hentry
  have := hleast bucket hbucket
  simp only [Bucket.newest, hnewest, hentry, Option.map_some, Option.getD_some] at this
  exact UInt64.le_iff_toNat_le.mpr this

end ClientCounts

/-! ### The demand never reaches the state -/

/-- Two calls that differ in `RequiredClients` alone. -/
def SameButDemand (a b : Observation) : Prop :=
  a.application = b.application ∧ a.cmid = b.cmid ∧ a.now = b.now

/-- Two answers that agree on all but what depends on the demand. -/
def SameButAnswer (v w : CountView) : Prop :=
  v.cached = w.cached ∧ v.outcome = w.outcome ∧ v.expired = w.expired

theorem SameButDemand.count {a b : Observation} (h : SameButDemand a b) (world : ClientCounts) :
    (world.count a).2 = (world.count b).2 ∧ SameButAnswer (world.count a).1 (world.count b).1 := by
  obtain ⟨happlication, hcmid, hnow⟩ := h
  simp only [ClientCounts.count, ClientCounts.observe_eq, happlication, hcmid, hnow, SameButAnswer,
    and_self]

theorem run_sameButDemand {a b : List Observation} (h : List.Forall₂ SameButDemand a b)
    (world : ClientCounts) :
    world.run a = world.run b ∧ List.Forall₂ SameButAnswer (world.answers a) (world.answers b) := by
  induction h generalizing world with
  | nil => exact ⟨rfl, .nil⟩
  | @cons x y a b hxy _ ih =>
    obtain ⟨hstate, hanswer⟩ := hxy.count world
    obtain ⟨hrun, hanswers⟩ := ih (world.count y).2
    rw [ClientCounts.run, ClientCounts.run, List.foldl_cons, List.foldl_cons, hstate]
    refine ⟨hrun, ?_⟩
    rw [ClientCounts.answers, ClientCounts.answers, hstate]
    exact .cons hanswer hanswers

/-- Runs that differ in the demands alone end in the same world and give the same
answers up to the demand. In every run the buckets belong to distinct applications,
hold distinct machines seen for that application, and counting for one application
changes no other bucket, except that a ninth application takes the place of one
whose newest entry is least recent. -/
theorem demand_and_applications_isolated :
    (∀ a b, List.Forall₂ SameButDemand a b → ClientCounts.after a = ClientCounts.after b ∧
      List.Forall₂ SameButAnswer (ClientCounts.new.answers a) (ClientCounts.new.answers b)) ∧
    ∀ history, ((ClientCounts.after history).buckets.length ≤ 8 ∧
      ((ClientCounts.after history).buckets.map Bucket.application).Nodup ∧
      ∀ bucket ∈ (ClientCounts.after history).buckets, bucket.entries ≠ [] ∧
        bucket.entries.length ≤ 200 ∧ (bucket.entries.map Cached.cmid).Nodup ∧
        ∃ application, bucket.application = some application ∧ ∀ entry ∈ bucket.entries,
          ∃ o ∈ history, o.application = application ∧ o.cmid = entry.cmid ∧ o.now = entry.seen) ∧
    ∀ o, ((((ClientCounts.after history).bucket? o.application).isSome ∨
          (ClientCounts.after history).buckets.length < 8 →
        ∀ other ≠ o.application,
          (ClientCounts.after (history ++ [o])).bucket? other = (ClientCounts.after history).bucket? other) ∧
      ((ClientCounts.after history).bucket? o.application = none →
        (ClientCounts.after history).buckets.length = 8 →
        ∃ victim ∈ (ClientCounts.after history).buckets, ∃ discarded newest,
          victim.application = some discarded ∧ victim.entries.getLast? = some newest ∧
          (∀ bucket ∈ (ClientCounts.after history).buckets, ∀ entry,
            bucket.entries.getLast? = some entry → newest.seen ≤ entry.seen) ∧
          (ClientCounts.after (history ++ [o])).bucket? discarded = none ∧
          ∀ other ≠ o.application, other ≠ discarded →
            (ClientCounts.after (history ++ [o])).bucket? other =
              (ClientCounts.after history).bucket? other)) := by
  refine ⟨fun a b h => run_sameButDemand h .new, fun history => ?_⟩
  have hsound := ClientCounts.sound_after history
  refine ⟨⟨hsound.bounded, hsound.distinct, ?_⟩, fun o => ⟨?_, ?_⟩⟩
  · intro bucket hbucket
    obtain ⟨application, happ, hholds⟩ := hsound.holds bucket hbucket
    refine ⟨hsound.nonempty bucket hbucket, hholds.bounded, hholds.nodup, application, happ, ?_⟩
    intro entry hentry
    obtain ⟨o, ho, rfl⟩ := List.mem_map.mp (hholds.seen entry hentry)
    obtain ⟨ho, hoapp⟩ := List.mem_filter.mp ho
    exact ⟨o, ho, by simpa using hoapp, rfl, rfl⟩
  · intro hroom other hother
    have hnone : (ClientCounts.after history).discarded o = none := by
      rcases hroom with hsome | hlt
      · obtain ⟨bucket, hbucket⟩ := Option.isSome_iff_exists.mp hsome
        exact Slots.evicted_of_lookup hbucket
      · exact Slots.evicted_of_lt hlt
    rw [ClientCounts.after_concat, hsound.bucket?_count o hother, hnone, if_neg (by simp)]
  · intro hnew hfull
    have hsome : ((ClientCounts.after history).discarded o).isSome :=
      Slots.evicted_isSome (by decide) hnew hfull.ge
    obtain ⟨victim, hvictim⟩ := Option.isSome_iff_exists.mp hsome
    obtain ⟨hmem, newest, hnewest, hleast⟩ := ClientCounts.discarded_spec hsound hvictim
    obtain ⟨discarded, happ, -⟩ := hsound.holds victim hmem
    have hne : discarded ≠ o.application := by
      rintro rfl
      exact Slots.lookup_eq_none_iff.mp hnew (happ ▸ List.mem_map_of_mem hmem)
    refine ⟨victim, hmem, discarded, newest, happ, hnewest, hleast, ?_, ?_⟩
    · rw [ClientCounts.after_concat, hsound.bucket?_count o hne, hvictim, if_pos (by simp [happ])]
    · intro other hother hkept
      have : (some victim).map Bucket.application ≠ some (some other) := by
        simpa [happ] using hkept.symm
      rw [ClientCounts.after_concat, hsound.bucket?_count o hother, hvictim, if_neg this]

/-- Application `n`, seen at second `n` with a given demand. -/
def sightingOf (required : UInt32) (n : ℕ) : Observation :=
  ⟨Vector.replicate 16 (.ofNat n), Vector.replicate 16 7, required, .ofNat (n * 10 ^ 9)⟩

/-- A ninth application discards the bucket of the first, and an overcharging
demand leaves the same world as an honest one. -/
theorem ninth_application_takes_first_place :
    ((ClientCounts.after ((List.range 8).map (sightingOf 25))).buckets.length = 8 ∧
      ∃ victim ∈ (ClientCounts.after ((List.range 8).map (sightingOf 25))).buckets,
        ∃ discarded, victim.application = some discarded ∧
          (ClientCounts.after ((List.range 8).map (sightingOf 25) ++ [sightingOf 25 8])).bucket? discarded =
            none) ∧
    ClientCounts.after [sightingOf 25 0] = ClientCounts.after [sightingOf 5000 0] := by
  have hfull : (ClientCounts.after ((List.range 8).map (sightingOf 25))).buckets.length = 8 := by
    decide +kernel
  have hnew : (ClientCounts.after ((List.range 8).map (sightingOf 25))).bucket?
      (sightingOf 25 8).application = none := by decide +kernel
  obtain ⟨hdemand, hruns⟩ := demand_and_applications_isolated
  obtain ⟨victim, hmem, discarded, -, happ, -, -, hgone, -⟩ :=
    ((hruns _).2 (sightingOf 25 8)).2 hnew hfull
  refine ⟨⟨hfull, victim, hmem, discarded, happ, hgone⟩, ?_⟩
  exact (hdemand _ _ (.cons ⟨rfl, rfl, rfl⟩ .nil)).1

end Kmsrs.Policy.Counting
