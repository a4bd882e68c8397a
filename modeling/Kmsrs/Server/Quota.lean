import Kmsrs.Server.Keys

/-! A source's quota over whole runs. A read is charged to its address and to the
application of some logged request, or to none; so as long as the requests name
applications of the catalogue, an address has one bucket for each of these and one
more, and together they bound what it is admitted for. -/

namespace Kmsrs.Server.Driver

open Kmsrs.Kms Kmsrs.Wire Kmsrs.Db Kmsrs.Policy Kmsrs.Policy.Access Kmsrs.Policy.Gate Kmsrs.Policy.Events

variable {ε : Type} {catalogue : Catalogue}

/-- What the reads of a run were charged to, and the limiter's answers. -/
def charges (past : List (Driver ε catalogue × Wake catalogue)) : List (Attempt × Admission) :=
  past.filterMap fun turn => (turn.1.attempt? turn.2).map fun a => (a, (turn.1.server.limiter.attempt a).1)

def attempts (past : List (Driver ε catalogue × Wake catalogue)) : List Attempt :=
  past.filterMap fun turn => turn.1.attempt? turn.2

variable {features : Features} {digests : Crypto.Digests} {rng : EntropySource ε} {driver : Driver ε catalogue}

/-! ### The limiter along a run -/

theorem attempts_cons (wake : Wake catalogue) (wakes : List (Wake catalogue)) :
    attempts (path (next features digests rng) driver (wake :: wakes)) = (driver.attempt? wake).toList ++
      attempts (path (next features digests rng) (driver.next features digests rng wake) wakes) := by
  rw [attempts, path, List.filterMap_cons, attempts]
  cases driver.attempt? wake <;> rfl

theorem charges_eq (wakes : List (Wake catalogue)) :
    charges (path (next features digests rng) driver wakes) =
      driver.server.limiter.answered (attempts (path (next features digests rng) driver wakes)) := by
  induction wakes generalizing driver with
  | nil => rfl
  | cons wake wakes ih =>
    have hrest := @ih (driver.next features digests rng wake)
    have hlimiter := limiter_next features digests rng driver wake
    rw [attempts_cons, charges, path, List.filterMap_cons, ← charges, hrest, hlimiter]
    cases driver.attempt? wake <;> rfl

/-- The limiter that an attempt finds is that of a state of the run. -/
theorem limiter_of_attempts (wakes : List (Wake catalogue)) {before later : List Attempt} {a : Attempt}
    (h : attempts (path (next features digests rng) driver wakes) = before ++ a :: later) :
    ∃ turn ∈ path (next features digests rng) driver wakes,
      turn.1.server.limiter = driver.server.limiter.run before := by
  induction wakes generalizing driver before with
  | nil => simp [attempts, path] at h
  | cons wake wakes ih =>
    have hlimiter := limiter_next features digests rng driver wake
    rw [attempts_cons] at h
    cases hattempt : driver.attempt? wake with
    | none =>
      rw [hattempt, Option.toList_none] at h hlimiter
      obtain ⟨turn, hturn, hrun⟩ := ih h
      rw [hlimiter] at hrun
      exact ⟨turn, List.mem_cons_of_mem _ hturn, hrun⟩
    | some first =>
      rw [hattempt, Option.toList_some] at h hlimiter
      cases before with
      | nil => exact ⟨_, List.mem_cons_self .., rfl⟩
      | cons first' before =>
        obtain ⟨rfl, hrest⟩ := List.cons.inj h
        obtain ⟨turn, hturn, hrun⟩ := ih hrest
        rw [hlimiter] at hrun
        exact ⟨turn, List.mem_cons_of_mem _ hturn, hrun⟩

variable (features digests rng driver) in
theorem now_le_next (wake : Wake catalogue) : driver.now ≤ (driver.next features digests rng wake).now := by
  have hgrows := (next_grows features digests rng driver wake).1
  rw [UInt64.le_iff_toNat_le, now, now, toNat_saturateU64, toNat_saturateU64]
  omega

theorem now_of_attempt {wake : Wake catalogue} {a : Attempt} (h : driver.attempt? wake = some a) :
    a.now = driver.now := by
  cases wake with
  | read id bytes hostTime site =>
    rw [attempt?] at h
    split_ifs at h
    obtain ⟨client, -, rfl⟩ := Option.map_eq_some_iff.mp h
    rfl
  | tick nanos => cases h
  | acceptKms peer port => cases h
  | acceptWeb peer => cases h
  | drop id => cases h

variable (features digests rng driver) in
/-- The readings of a run never decrease. -/
theorem attempts_monotone (wakes : List (Wake catalogue)) :
    (∀ a ∈ attempts (path (next features digests rng) driver wakes), driver.now ≤ a.now) ∧
      RateLimiter.Monotone (attempts (path (next features digests rng) driver wakes)) := by
  induction wakes generalizing driver with
  | nil => exact ⟨by simp [attempts, path], .nil⟩
  | cons wake wakes ih =>
    obtain ⟨hlater, hordered⟩ := @ih (driver.next features digests rng wake)
    have hnow := now_le_next features digests rng driver wake
    rw [attempts_cons]
    cases hattempt : driver.attempt? wake with
    | none => exact ⟨fun a ha => UInt64.le_trans hnow (hlater a ha), hordered⟩
    | some first =>
      have hfirst := now_of_attempt hattempt
      refine ⟨?_, List.pairwise_cons.mpr ⟨fun a ha => ?_, hordered⟩⟩
      · intro a ha
        rcases List.mem_cons.mp ha with rfl | hmem
        · exact hfirst ▸ UInt64.le_refl _
        · exact UInt64.le_trans hnow (hlater a hmem)
      · rw [hfirst]
        exact UInt64.le_trans hnow (hlater a ha)

/-! ### The keys of a run -/

/-- The applications of the catalogue, and the key of a connection that has asked
nothing. -/
def chargeable (catalogue : Catalogue) : Finset Guid :=
  insert Guid.zero (catalogue.applications.map Application.guid).toFinset

theorem card_chargeable_le (catalogue : Catalogue) :
    (chargeable catalogue).card ≤ catalogue.applications.length + 1 := by
  refine (Finset.card_insert_le _ _).trans (Nat.succ_le_succ ?_)
  refine (List.toFinset_card_le _).trans ?_
  rw [List.length_map]

/-- What is put to the host is about applications of the catalogue. -/
def Listed (catalogue : Catalogue) (asks : List Ask) : Prop :=
  ∀ ask ∈ asks, ask.request.application ∈ catalogue.applications.map Application.guid

/-- Every key, and the newest event, is of such an application. -/
structure Charged (driver : Driver ε catalogue) : Prop where
  clients : ∀ id client, driver.clients id = some client → client.lastApplication ∈ chargeable catalogue
  newest : ∀ application, Server.newest driver.server.host = some application → application ∈ chargeable catalogue

theorem mem_chargeable {application : Guid} (h : application ∈ catalogue.applications.map Application.guid) :
    application ∈ chargeable catalogue :=
  Finset.mem_insert_of_mem (List.mem_toFinset.mpr h)

theorem charged_next (h : Charged driver) {wake : Wake catalogue}
    (hlisted : Listed catalogue (driver.asks features digests rng wake)) :
    Charged (driver.next features digests rng wake) := by
  have hnewest : ∀ application, Server.newest (driver.next features digests rng wake).server.host = some application →
      application ∈ chargeable catalogue := by
    intro application happlication
    rw [host_next, newest_run] at happlication
    cases hlast : (driver.asks features digests rng wake).getLast? with
    | none =>
      rw [hlast] at happlication
      exact h.newest application happlication
    | some ask =>
      rw [hlast] at happlication
      cases happlication
      exact mem_chargeable (hlisted ask (List.mem_of_getLast? hlast))
  refine ⟨fun id client' hclient' => ?_, hnewest⟩
  rcases clients_next features digests rng driver wake hclient' with
    ⟨hold, -⟩ | ⟨-, -, hzero, -⟩ | ⟨client, hclient, -, -, hlast⟩
  · exact h.clients id client' hold
  · rw [hzero]
    exact Finset.mem_insert_self _ _
  · rw [hlast]
    cases hafter : Server.newest (driver.next features digests rng wake).server.host with
    | none => exact h.clients id client hclient
    | some application => exact hnewest application hafter

/-- Every read is charged to one of these applications. -/
theorem charged_attempts (h : Charged driver) {wakes : List (Wake catalogue)}
    (hlisted : ∀ turn ∈ path (next features digests rng) driver wakes,
      Listed catalogue (turn.1.asks features digests rng turn.2)) :
    ∀ a ∈ attempts (path (next features digests rng) driver wakes), a.application ∈ chargeable catalogue := by
  induction wakes generalizing driver with
  | nil => simp [attempts, path]
  | cons wake wakes ih =>
    have hnext := charged_next h (hlisted (driver, wake) (List.mem_cons_self ..))
    have hrest := ih hnext fun turn hturn => hlisted turn (List.mem_cons_of_mem _ hturn)
    intro a ha
    rw [attempts_cons, List.mem_append] at ha
    rcases ha with hown | hlater
    · cases wake with
      | read id bytes hostTime site =>
        rw [attempt?] at hown
        split_ifs at hown
        · cases hown
        obtain ⟨client, hclient, rfl⟩ := Option.map_eq_some_iff.mp (Option.mem_toList.mp hown)
        exact h.clients id client hclient
      | tick nanos => cases hown
      | acceptKms peer port => cases hown
      | acceptWeb peer => cases hown
      | drop id => cases hown
    · exact hrest a hlater

/-! ### The quota -/

/-- A run in which every request names an application of the catalogue admits an
address for no more than a bucket for each of them, and one more, allows. -/
theorem quota_kept (features : Features) (digests : Crypto.Digests) (rng : EntropySource ε) (burst refillPerSecond : UInt32)
    (intervals : Intervals) (operational : Config.Operational) (identity : HostIdentity catalogue)
    (advertisesNdr64 : Bool) (entropy : ε) (wakes : List (Wake catalogue)) (address : IpAddr) (s t : Instant)
    (hroom : ∀ turn ∈ path (next features digests rng) (start ((Server.new intervals operational identity).withLimiter
      (.withBounds burst refillPerSecond)) advertisesNdr64 entropy) wakes,
      turn.1.server.limiter.buckets.length < 4096)
    (hlisted : ∀ turn ∈ path (next features digests rng) (start ((Server.new intervals operational identity).withLimiter
      (.withBounds burst refillPerSecond)) advertisesNdr64 entropy) wakes,
      Listed catalogue (turn.1.asks features digests rng turn.2)) :
    RateLimiter.allowedFrom address s t (charges (path (next features digests rng)
        (start ((Server.new intervals operational identity).withLimiter (.withBounds burst refillPerSecond))
          advertisesNdr64 entropy) wakes)) ≤
      (catalogue.applications.length + 1) *
        (burst.toNat + refillPerSecond.toNat * ((t.toNat - s.toNat) / 10 ^ 9) + refillPerSecond.toNat) := by
  generalize hstart : start ((Server.new intervals operational identity).withLimiter (.withBounds burst refillPerSecond))
    advertisesNdr64 entropy = driver at hroom hlisted ⊢
  have hlimiter : driver.server.limiter = .withBounds burst refillPerSecond := by rw [← hstart]; rfl
  have hcharged : Charged driver := by
    rw [← hstart]
    refine ⟨fun id client hclient => ?_, fun application hnewest => ?_⟩
    · cases hclient
    · cases hnewest
  have hclock := (attempts_monotone features digests rng driver wakes).2
  have hkeys : ∀ entry ∈ charges (path (next features digests rng) driver wakes),
      entry.1.application ∈ chargeable catalogue := by
    intro entry hentry
    rw [charges_eq] at hentry
    refine charged_attempts hcharged hlisted entry.1 ?_
    have hfirst := List.mem_map_of_mem (f := Prod.fst) hentry
    rwa [RateLimiter.map_fst_answered] at hfirst
  have hbucket : ∀ application, RateLimiter.allowedWithin (canonical address, application) s t
      (charges (path (next features digests rng) driver wakes)) ≤
        burst.toNat + refillPerSecond.toNat * ((t.toNat - s.toNat) / 10 ^ 9) + refillPerSecond.toNat := by
    intro application
    rw [charges_eq, hlimiter]
    refine RateLimiter.allowedWithin_le burst refillPerSecond hclock ?_ s t
    refine RateLimiter.neverEvicted_of_room _ fun before a later hattempts => ?_
    obtain ⟨turn, hturn, hrun⟩ := limiter_of_attempts wakes hattempts
    rw [hlimiter] at hrun
    exact hrun ▸ hroom turn hturn
  calc RateLimiter.allowedFrom address s t (charges (path (next features digests rng) driver wakes))
      ≤ ∑ application ∈ chargeable catalogue, RateLimiter.allowedWithin (canonical address, application) s t
          (charges (path (next features digests rng) driver wakes)) :=
        RateLimiter.allowedFrom_le_sum address s t _ hkeys
    _ ≤ ∑ _application ∈ chargeable catalogue,
          (burst.toNat + refillPerSecond.toNat * ((t.toNat - s.toNat) / 10 ^ 9) + refillPerSecond.toNat) :=
        Finset.sum_le_sum fun application _ => hbucket application
    _ = (chargeable catalogue).card *
          (burst.toNat + refillPerSecond.toNat * ((t.toNat - s.toNat) / 10 ^ 9) + refillPerSecond.toNat) := by
        rw [Finset.sum_const, smul_eq_mul]
    _ ≤ _ := Nat.mul_le_mul_right _ (card_chargeable_le catalogue)

/-- A limiter with two tokens, of which one comes back each second. -/
def smallDriver : Driver Unit twoKeys :=
  start ((Server.new .default .default twoIdentities).withLimiter (.withBounds 2 1)) false ()

/-- A connection that binds and then asks about each of the applications. -/
def asking (applications : List Guid) : List (Wake twoKeys) :=
  [.acceptKms (samplePeer 1) 1688, .read 0 bindBytes none sampleSite] ++
    applications.map fun application => .read 0 (callBytes application) none sampleSite

theorem listed_applications_kept :
    RateLimiter.allowedFrom (samplePeer 1).address 0 0
        (charges (path (next .default Connection.denying.digests Connection.denying.rng) smallDriver
          (asking [office]))) ≤
      (twoKeys.applications.length + 1) * (2 + 1 * (0 / 10 ^ 9) + 1) :=
  quota_kept .default Connection.denying.digests Connection.denying.rng 2 1 .default .default twoIdentities false ()
    (asking [office]) (samplePeer 1).address 0 0 (by decide +kernel)
    (by unfold Listed; decide +kernel)

/-- Nine made-up applications: each read finds a fresh bucket, and ten reads are
admitted at one reading where the quota is nine. -/
theorem quota_escaped :
    RateLimiter.allowedFrom (samplePeer 1).address 0 0
        (charges (path (next .default Connection.denying.digests Connection.denying.rng) smallDriver
          (asking ((List.range 9).map fun n => Vector.replicate 16 (.ofNat (n + 1)))))) = 10 ∧
      (twoKeys.applications.length + 1) * (2 + 1 * (0 / 10 ^ 9) + 1) = 9 ∧
      ∀ turn ∈ path (next .default Connection.denying.digests Connection.denying.rng) smallDriver
          (asking ((List.range 9).map fun n => Vector.replicate 16 (.ofNat (n + 1)))),
        turn.1.server.limiter.buckets.length < 4096 := by
  decide +kernel

end Kmsrs.Server.Driver
