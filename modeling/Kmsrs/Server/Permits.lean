import Kmsrs.Lib.Crew

/-! Who may be served, and how the driver stops. A connection takes its permits before it
is a task, and gives them back when it ends; a run ends once every accept loop has returned
and all permits are back. The tasks run in any order, and share counters and a watch that
remembers how often it was sent. -/

namespace Kmsrs.Server.Permits

open Crew

inductive Role where
  | kms
  | web
deriving DecidableEq

/-- The share of the limit that the pages may take. -/
def webLimit (limit : ℕ) : ℕ := if limit / 4 = 0 then 1 else limit / 4

/-- What the tasks of a driver share: the listeners it has yet to adopt, the permits that are
left, the flags of a shutdown, and what is left to join. -/
structure Common where
  listeners : List Role
  permits : ℕ
  webPermits : ℕ
  inFlight : ℕ
  requested : Bool
  version : ℕ
  loops : ℕ
  watching : Bool

/-- Where `run` stands; it has seen the watch as it was sent so many times. -/
inductive Run where
  | adopting
  | subscribing
  | checking (seen : ℕ)
  | waiting (seen : ℕ)
  | joining
  | joiningWatch
  | draining
  | failed
  | done

/-- Where an accept loop stands. -/
inductive Loop where
  | checking
  | selecting
  | admitting
  | webAdmitting
  | refusing
  | opening
  | spawning
  | returned

/-- Where the task of a connection stands. -/
inductive Task where
  | serving
  | leaving
  | releasing
  | releasingWeb
  | ended

/-- Where the watch of the entropy stands. -/
inductive Watch where
  | ticking
  | checking
  | selecting
  | testing
  | returned

/-- Where a caller stands that asks for a shutdown. -/
inductive Caller where
  | requesting
  | sending
  | waking
  | done

inductive Party where
  | run (place : Run)
  | loop (role : Role) (seen : ℕ) (place : Loop)
  | task (role : Role) (place : Task)
  | watch (seen : ℕ) (place : Watch)
  | caller (place : Caller)

/-- What happens to a party as it steps. -/
inductive Event where
  | nothing
  | failure
  | shutdown
  | accepted (denied : Bool)

/-- Adopt the listeners, wait for a shutdown, join the tasks, and take the whole budget. -/
def Run.step (limit : ℕ) (common : Common) (event : Event) : Run → Option (Common × Run × List Party)
  | adopting =>
    match common.listeners, event with
    | [], _ => some ({ common with watching := true }, subscribing, [.watch common.version .ticking])
    | _ :: _, .failure => some ({ common with listeners := [] }, failed, [])
    | role :: listeners, _ =>
      some ({ common with listeners, loops := common.loops + 1 }, adopting, [.loop role common.version .checking])
  | subscribing => some (common, checking common.version, [])
  | checking seen => some (common, if common.requested then joining else waiting seen, [])
  | waiting seen => if seen < common.version then some (common, checking common.version, []) else none
  | joining => if common.loops = 0 then some (common, joiningWatch, []) else none
  | joiningWatch => if common.watching then none else some (common, draining, [])
  | draining => if min limit (2 ^ 32 - 1) ≤ common.permits then some (common, done, []) else none
  | failed | done => none

/-- Accept everything a listener offers, until shutdown: first a permit, then a task. -/
def Loop.step (role : Role) (seen : ℕ) (common : Common) (event : Event) : Loop → Option (Common × Loop × List Party)
  | checking =>
    if common.requested then some ({ common with loops := common.loops - 1 }, returned, []) else some (common, selecting, [])
  | selecting =>
    match event with
    | .nothing => none
    | .shutdown => if seen < common.version then some ({ common with loops := common.loops - 1 }, returned, []) else none
    | .failure => some (common, checking, [])
    | .accepted denied => some (common, if denied then checking else admitting, [])
  | admitting =>
    if common.permits = 0 then some (common, checking, [])
    else
      let common := { common with permits := common.permits - 1 }
      match role with
      | .kms => some (common, opening, [])
      | .web => some (common, webAdmitting, [])
  | webAdmitting =>
    if common.webPermits = 0 then some (common, refusing, [])
    else some ({ common with webPermits := common.webPermits - 1 }, opening, [])
  | refusing => some ({ common with permits := common.permits + 1 }, checking, [])
  | opening => some ({ common with inFlight := common.inFlight + 1 }, spawning, [])
  | spawning => some (common, checking, [.task role .serving])
  | returned => none

/-- Serve a connection to its end, and give back what it held. -/
def Task.step (role : Role) (common : Common) : Task → Option (Common × Task)
  | serving => some (common, leaving)
  | leaving => some ({ common with inFlight := common.inFlight - 1 }, releasing)
  | releasing =>
    let common := { common with permits := common.permits + 1 }
    match role with
    | .kms => some (common, ended)
    | .web => some (common, releasingWeb)
  | releasingWeb => some ({ common with webPermits := common.webPermits + 1 }, ended)
  | ended => none

/-- Test the source again whenever the ticker ticks. -/
def Watch.step (seen : ℕ) (common : Common) (event : Event) : Watch → Option (Common × ℕ × Watch)
  | ticking => some (common, seen, checking)
  | checking =>
    if 0 < common.version then some ({ common with watching := false }, common.version, returned)
    else some (common, common.version, selecting)
  | selecting =>
    match event with
    | .shutdown => if seen < common.version then some ({ common with watching := false }, seen, returned) else none
    | _ => some (common, seen, testing)
  | testing => some (common, seen, checking)
  | returned => none

/-- Ask for a shutdown: set the flag, then send on the watch. -/
def Caller.step (common : Common) : Caller → Option (Common × Caller)
  | requesting => some ({ common with requested := true }, sending)
  | sending => some ({ common with version := common.version + 1 }, waking)
  | waking => some (common, done)
  | done => none

/-- One step of any of them. -/
def step (limit : ℕ) (common : Common) (party : Party) (event : Event) : Option (Common × Party × List Party) :=
  match party with
  | .run place => (place.step limit common event).map fun next => (next.1, .run next.2.1, next.2.2)
  | .loop role seen place => (place.step role seen common event).map fun next => (next.1, .loop role seen next.2.1, next.2.2)
  | .task role place => (place.step role common).map fun next => (next.1, .task role next.2, [])
  | .watch seen place => (place.step seen common event).map fun next => (next.1, .watch next.2.1 next.2.2, [])
  | .caller place => (place.step common).map fun next => (next.1, .caller next.2, [])

/-- A driver of at least one permit, with whoever is going to ask it to stop. -/
def start (limit : ℕ) (listeners : List Role) (callers : ℕ) : Crew Common Party :=
  ⟨⟨listeners, max limit 1, webLimit (max limit 1), 0, false, 0, 0, false⟩,
    .run .adopting :: List.replicate callers (.caller .requesting)⟩

/-! ### What a step can do -/

inductive Moves (limit : ℕ) (common : Common) : Party → Common → Party → List Party → Prop
  | adopt {role : Role} {listeners : List Role} : common.listeners = role :: listeners →
      Moves limit common (.run .adopting) { common with listeners, loops := common.loops + 1 } (.run .adopting)
        [.loop role common.version .checking]
  | fail : Moves limit common (.run .adopting) { common with listeners := [] } (.run .failed) []
  | adopted : common.listeners = [] → Moves limit common (.run .adopting) { common with listeners := [], watching := true }
      (.run .subscribing) [.watch common.version .ticking]
  | subscribe : Moves limit common (.run .subscribing) common (.run (.checking common.version)) []
  | proceed {seen : ℕ} : common.requested = true → Moves limit common (.run (.checking seen)) common (.run .joining) []
  | wait {seen : ℕ} : common.requested = false → Moves limit common (.run (.checking seen)) common (.run (.waiting seen)) []
  | wake {seen : ℕ} : seen < common.version →
      Moves limit common (.run (.waiting seen)) common (.run (.checking common.version)) []
  | join : common.loops = 0 → Moves limit common (.run .joining) common (.run .joiningWatch) []
  | joinWatch : common.watching = false → Moves limit common (.run .joiningWatch) common (.run .draining) []
  | drain : min limit (2 ^ 32 - 1) ≤ common.permits → Moves limit common (.run .draining) common (.run .done) []
  | leave {role : Role} {seen : ℕ} {place : Loop} : (place = .checking ∧ common.requested = true) ∨
      (place = .selecting ∧ seen < common.version) →
      Moves limit common (.loop role seen place) { common with loops := common.loops - 1 } (.loop role seen .returned) []
  | listen {role : Role} {seen : ℕ} : common.requested = false →
      Moves limit common (.loop role seen .checking) common (.loop role seen .selecting) []
  | ignore {role : Role} {seen : ℕ} : Moves limit common (.loop role seen .selecting) common (.loop role seen .checking) []
  | accept {role : Role} {seen : ℕ} : Moves limit common (.loop role seen .selecting) common (.loop role seen .admitting) []
  | full {role : Role} {seen : ℕ} : common.permits = 0 →
      Moves limit common (.loop role seen .admitting) common (.loop role seen .checking) []
  | permitKms {seen : ℕ} : common.permits ≠ 0 → Moves limit common (.loop .kms seen .admitting)
      { common with permits := common.permits - 1 } (.loop .kms seen .opening) []
  | permitWeb {seen : ℕ} : common.permits ≠ 0 → Moves limit common (.loop .web seen .admitting)
      { common with permits := common.permits - 1 } (.loop .web seen .webAdmitting) []
  | webFull {role : Role} {seen : ℕ} : common.webPermits = 0 →
      Moves limit common (.loop role seen .webAdmitting) common (.loop role seen .refusing) []
  | webPermit {role : Role} {seen : ℕ} : common.webPermits ≠ 0 → Moves limit common (.loop role seen .webAdmitting)
      { common with webPermits := common.webPermits - 1 } (.loop role seen .opening) []
  | refuse {role : Role} {seen : ℕ} : Moves limit common (.loop role seen .refusing)
      { common with permits := common.permits + 1 } (.loop role seen .checking) []
  | open {role : Role} {seen : ℕ} : Moves limit common (.loop role seen .opening)
      { common with inFlight := common.inFlight + 1 } (.loop role seen .spawning) []
  | spawn {role : Role} {seen : ℕ} :
      Moves limit common (.loop role seen .spawning) common (.loop role seen .checking) [.task role .serving]
  | finish {role : Role} : Moves limit common (.task role .serving) common (.task role .leaving) []
  | uncount {role : Role} : Moves limit common (.task role .leaving) { common with inFlight := common.inFlight - 1 }
      (.task role .releasing) []
  | releaseKms : Moves limit common (.task .kms .releasing) { common with permits := common.permits + 1 } (.task .kms .ended) []
  | releaseWeb : Moves limit common (.task .web .releasing) { common with permits := common.permits + 1 }
      (.task .web .releasingWeb) []
  | releaseShare {role : Role} : Moves limit common (.task role .releasingWeb)
      { common with webPermits := common.webPermits + 1 } (.task role .ended) []
  | tick {seen : ℕ} {place : Watch} : place = .ticking ∨ place = .testing →
      Moves limit common (.watch seen place) common (.watch seen .checking) []
  | unwatch {seen seen' : ℕ} {place : Watch} : place = .checking ∨ place = .selecting → 0 < common.version →
      Moves limit common (.watch seen place) { common with watching := false } (.watch seen' .returned) []
  | watchOn {seen : ℕ} : common.version = 0 → Moves limit common (.watch seen .checking) common (.watch 0 .selecting) []
  | retest {seen : ℕ} : Moves limit common (.watch seen .selecting) common (.watch seen .testing) []
  | request : Moves limit common (.caller .requesting) { common with requested := true } (.caller .sending) []
  | send : Moves limit common (.caller .sending) { common with version := common.version + 1 } (.caller .waking) []
  | awake : Moves limit common (.caller .waking) common (.caller .done) []

theorem moves_of_step {limit : ℕ} {common common' : Common} {party party' : Party} {event : Event} {hired : List Party}
    (h : step limit common party event = some (common', party', hired)) : Moves limit common party common' party' hired := by
  unfold step at h
  cases party with
  | run place =>
    obtain ⟨next, hnext, heq⟩ := Option.map_eq_some_iff.mp h
    cases heq
    cases place with
    | adopting =>
      cases hlisteners : common.listeners with
      | nil =>
        simp only [Run.step, hlisteners, Option.some.injEq] at hnext
        subst hnext
        exact .adopted hlisteners
      | cons role listeners =>
        cases event with
        | failure =>
          simp only [Run.step, hlisteners, Option.some.injEq] at hnext
          subst hnext
          exact .fail
        | nothing | shutdown | accepted _ =>
          simp only [Run.step, hlisteners, Option.some.injEq] at hnext
          subst hnext
          exact .adopt hlisteners
    | subscribing =>
      cases hnext
      exact .subscribe
    | checking seen =>
      cases hnext
      cases hrequested : common.requested with
      | true => exact .proceed hrequested
      | false => exact .wait hrequested
    | waiting seen =>
      obtain ⟨hseen, hnext⟩ := Option.ite_none_right_eq_some.mp hnext
      cases hnext
      exact .wake hseen
    | joining =>
      obtain ⟨hloops, hnext⟩ := Option.ite_none_right_eq_some.mp hnext
      cases hnext
      exact .join hloops
    | joiningWatch =>
      obtain ⟨hwatching, hnext⟩ := Option.ite_none_left_eq_some.mp hnext
      cases hnext
      exact .joinWatch (Bool.eq_false_iff.mpr hwatching)
    | draining =>
      obtain ⟨hall, hnext⟩ := Option.ite_none_right_eq_some.mp hnext
      cases hnext
      exact .drain hall
    | failed | done => cases hnext
  | loop role seen place =>
    obtain ⟨next, hnext, heq⟩ := Option.map_eq_some_iff.mp h
    cases heq
    cases place with
    | checking =>
      rw [Loop.step] at hnext
      split_ifs at hnext with hrequested
      · cases hnext
        exact .leave (.inl ⟨rfl, hrequested⟩)
      · cases hnext
        exact .listen (Bool.eq_false_iff.mpr hrequested)
    | selecting =>
      cases event with
      | nothing => cases hnext
      | shutdown =>
        obtain ⟨hseen, hnext⟩ := Option.ite_none_right_eq_some.mp hnext
        cases hnext
        exact .leave (.inr ⟨rfl, hseen⟩)
      | failure =>
        cases hnext
        exact .ignore
      | accepted denied =>
        cases hnext
        cases denied with
        | true => exact .ignore
        | false => exact .accept
    | admitting =>
      rw [Loop.step] at hnext
      split_ifs at hnext with hfull
      · cases hnext
        exact .full hfull
      · cases role with
        | kms =>
          cases hnext
          exact .permitKms hfull
        | web =>
          cases hnext
          exact .permitWeb hfull
    | webAdmitting =>
      rw [Loop.step] at hnext
      split_ifs at hnext with hfull
      · cases hnext
        exact .webFull hfull
      · cases hnext
        exact .webPermit hfull
    | refusing =>
      cases hnext
      exact .refuse
    | opening =>
      cases hnext
      exact .open
    | spawning =>
      cases hnext
      exact .spawn
    | returned => cases hnext
  | task role place =>
    obtain ⟨next, hnext, heq⟩ := Option.map_eq_some_iff.mp h
    cases heq
    cases place with
    | serving =>
      cases hnext
      exact .finish
    | leaving =>
      cases hnext
      exact .uncount
    | releasing =>
      cases role with
      | kms =>
        cases hnext
        exact .releaseKms
      | web =>
        cases hnext
        exact .releaseWeb
    | releasingWeb =>
      cases hnext
      exact .releaseShare
    | ended => cases hnext
  | watch seen place =>
    obtain ⟨next, hnext, heq⟩ := Option.map_eq_some_iff.mp h
    cases heq
    cases place with
    | ticking =>
      cases hnext
      exact .tick (.inl rfl)
    | checking =>
      rw [Watch.step] at hnext
      split_ifs at hnext with hsent
      · cases hnext
        exact .unwatch (.inl rfl) hsent
      · cases hnext
        obtain hnone : common.version = 0 := by omega
        rw [hnone]
        exact .watchOn hnone
    | selecting =>
      cases event with
      | shutdown =>
        obtain ⟨hseen, hnext⟩ := Option.ite_none_right_eq_some.mp hnext
        cases hnext
        exact .unwatch (.inr rfl) (Nat.zero_lt_of_lt hseen)
      | nothing | failure | accepted _ =>
        cases hnext
        exact .retest
    | testing =>
      cases hnext
      exact .tick (.inr rfl)
    | returned => cases hnext
  | caller place =>
    obtain ⟨next, hnext, heq⟩ := Option.map_eq_some_iff.mp h
    cases heq
    cases place with
    | requesting =>
      cases hnext
      exact .request
    | sending =>
      cases hnext
      exact .send
    | waking =>
      cases hnext
      exact .awake
    | done => cases hnext

/-! ### What each of them holds -/

/-- A web connection takes a share of the budget. -/
def Role.share : Role → ℕ
  | kms => 0
  | web => 1

/-- The permits. -/
def permit : Party → ℕ
  | .loop _ _ .webAdmitting | .loop _ _ .refusing | .loop _ _ .opening | .loop _ _ .spawning => 1
  | .task _ .serving | .task _ .leaving | .task _ .releasing => 1
  | _ => 0

/-- The permits of the pages. -/
def webPermit : Party → ℕ
  | .loop role _ .opening | .loop role _ .spawning => role.share
  | .task role .serving | .task role .leaving | .task role .releasing => role.share
  | .task _ .releasingWeb => 1
  | _ => 0

/-- The connections that `in_flight` counts. -/
def flying : Party → ℕ
  | .loop _ _ .spawning => 1
  | .task _ .serving | .task _ .leaving => 1
  | _ => 0

/-- The accept loops that have not returned. -/
def running : Party → ℕ
  | .loop _ _ .returned => 0
  | .loop _ _ _ => 1
  | _ => 0

/-- The watches of the entropy that have not returned. -/
def watches : Party → ℕ
  | .watch _ .returned => 0
  | .watch _ _ => 1
  | _ => 0

/-- Runs that have listeners to adopt. -/
def fresh : Party → ℕ
  | .run .adopting => 1
  | _ => 0

/-- Runs that have not joined the accept loops. -/
def early : Party → ℕ
  | .run .adopting | .run .subscribing | .run (.checking _) | .run (.waiting _) | .run .joining | .run .failed => 1
  | _ => 0

/-- Runs that have joined the accept loops. -/
def joined : Party → ℕ
  | .run .joiningWatch | .run .draining | .run .done => 1
  | _ => 0

/-- Runs that have joined the watch as well. -/
def unwatched : Party → ℕ
  | .run .draining | .run .done => 1
  | _ => 0

/-- Runs that have returned in good order. -/
def drained : Party → ℕ
  | .run .done => 1
  | _ => 0

/-- Whoever has seen a shutdown without being told is about to find the flag. -/
def Fit (requested : Bool) : Party → Prop
  | .loop role seen place => (seen ≠ 0 → requested = true ∧ (place = .checking ∨ place = .returned)) ∧
      (place = .webAdmitting ∨ place = .refusing → role = .web)
  | .run (.checking seen) => seen ≠ 0 → requested = true
  | .run (.waiting seen) => seen = 0
  | .caller .sending => requested = true
  | _ => True

section
variable {limit : ℕ} {common common' : Common} {party party' : Party} {hired : List Party}

theorem permits_of_moves (h : Moves limit common party common' party' hired) :
    common'.permits + permit party' + (hired.map permit).sum = common.permits + permit party := by
  cases h with
  | leave hplace => obtain ⟨rfl, -⟩ | ⟨rfl, -⟩ := hplace <;> simp [permit]
  | tick hplace => obtain rfl | rfl := hplace <;> simp [permit]
  | unwatch hplace _ => obtain rfl | rfl := hplace <;> simp [permit]
  | permitKms | permitWeb =>
    simp only [permit, List.map_nil, List.sum_nil]
    omega
  | _ => simp [permit]

theorem webPermits_of_moves (h : Moves limit common party common' party' hired) (hfit : Fit common.requested party) :
    common'.webPermits + webPermit party' + (hired.map webPermit).sum = common.webPermits + webPermit party := by
  cases h with
  | leave hplace => obtain ⟨rfl, -⟩ | ⟨rfl, -⟩ := hplace <;> simp [webPermit]
  | tick hplace => obtain rfl | rfl := hplace <;> simp [webPermit]
  | unwatch hplace _ => obtain rfl | rfl := hplace <;> simp [webPermit]
  | webPermit hfree =>
    obtain rfl := hfit.2 (.inl rfl)
    simp only [webPermit, Role.share, List.map_nil, List.sum_nil]
    omega
  | _ => simp [webPermit, Role.share]

theorem inFlight_of_moves (h : Moves limit common party common' party' hired) (hle : flying party ≤ common.inFlight) :
    common'.inFlight + flying party = common.inFlight + flying party' + (hired.map flying).sum := by
  cases h with
  | leave hplace => obtain ⟨rfl, -⟩ | ⟨rfl, -⟩ := hplace <;> simp [flying]
  | tick hplace => obtain rfl | rfl := hplace <;> simp [flying]
  | unwatch hplace _ => obtain rfl | rfl := hplace <;> simp [flying]
  | uncount =>
    simp only [flying, List.map_nil, List.sum_nil] at hle ⊢
    omega
  | _ => simp [flying]

theorem loops_of_moves (h : Moves limit common party common' party' hired) (hle : running party ≤ common.loops) :
    common'.loops + running party = common.loops + running party' + (hired.map running).sum := by
  cases h with
  | leave hplace =>
    obtain ⟨rfl, -⟩ | ⟨rfl, -⟩ := hplace <;>
      simp only [running, List.map_nil, List.sum_nil] at hle ⊢ <;> omega
  | _ => simp [running]

theorem watching_of_moves (h : Moves limit common party common' party' hired) (hle : watches party ≤ common.watching.toNat)
    (hfresh : fresh party = 0 ∨ common.watching = false) :
    common'.watching.toNat + watches party = common.watching.toNat + watches party' + (hired.map watches).sum := by
  cases h with
  | adopted => simp [watches, hfresh.resolve_left one_ne_zero]
  | tick hplace => obtain rfl | rfl := hplace <;> simp [watches]
  | unwatch hplace _ =>
    obtain hwatching : common.watching = true := by
      cases hwatching : common.watching with
      | true => rfl
      | false =>
        rw [hwatching] at hle
        obtain rfl | rfl := hplace <;> cases hle
    obtain rfl | rfl := hplace <;> simp [watches, hwatching]
  | _ => simp [watches]

/-- There is one run, from first to last. -/
theorem main_of_moves (h : Moves limit common party common' party' hired) :
    early party' + joined party' + (hired.map early).sum + (hired.map joined).sum = early party + joined party := by
  cases h with
  | _ => simp [early, joined]

theorem fit_mono {requested : Bool} (h : requested = true → common.requested = true) (hfit : Fit requested party) :
    Fit common.requested party := by
  cases party with
  | run place =>
    cases place with
    | checking seen => exact fun hseen => h (hfit hseen)
    | _ => exact hfit
  | loop role seen place => exact ⟨fun hseen => ⟨h (hfit.1 hseen).1, (hfit.1 hseen).2⟩, hfit.2⟩
  | task role place => trivial
  | watch seen place => trivial
  | caller place =>
    cases place with
    | sending => exact h hfit
    | _ => trivial

theorem requested_of_moves (h : Moves limit common party common' party' hired) (hrequested : common.requested = true) :
    common'.requested = true := by
  cases h with
  | request => rfl
  | _ => exact hrequested

theorem version_of_moves (h : Moves limit common party common' party' hired) (hfit : Fit common.requested party)
    (hversion : common.version ≠ 0 → common.requested = true) : common'.version ≠ 0 → common'.requested = true := by
  cases h with
  | send => exact fun _ => hfit
  | request => exact fun _ => rfl
  | _ => exact hversion

/-- The party that moves, and those it hires, are as they should be. -/
theorem fit_of_moves (h : Moves limit common party common' party' hired) (hfit : Fit common.requested party)
    (hversion : common.version ≠ 0 → common.requested = true) :
    Fit common'.requested party' ∧ ∀ other ∈ hired, Fit common'.requested other := by
  cases h with
  | adopt _ => exact ⟨trivial, by simpa [Fit] using hversion⟩
  | adopted _ => exact ⟨trivial, by simp [Fit]⟩
  | subscribe | wake _ => exact ⟨hversion, by simp⟩
  | @wait seen hrequested =>
    refine ⟨?_, by simp⟩
    by_contra hseen
    exact Bool.false_ne_true (hrequested.symm.trans (hfit hseen))
  | leave hplace => exact ⟨⟨fun hseen => ⟨(hfit.1 hseen).1, .inr rfl⟩, by simp⟩, by simp⟩
  | @listen role seen hrequested =>
    have hseen : seen = 0 := by
      by_contra hseen
      exact Bool.false_ne_true (hrequested.symm.trans (hfit.1 hseen).1)
    exact ⟨⟨fun hne => absurd hseen hne, by simp⟩, by simp⟩
  | _ => simp_all [Fit]

/-! What a run has waited for stays so: nobody adopts a listener or a watch behind its back. -/

theorem fresh_of_moves (h : Moves limit common party common' party' hired) :
    fresh party' + (hired.map fresh).sum ≤ fresh party ∧ (common'.watching = true →
      common.watching = true ∨ fresh party = 1 ∧ fresh party' + (hired.map fresh).sum = 0) := by
  cases h with
  | adopted => exact ⟨Nat.zero_le _, fun _ => .inr ⟨rfl, rfl⟩⟩
  | unwatch => exact ⟨le_rfl, fun hwatching => nomatch hwatching⟩
  | adopt | spawn => exact ⟨le_rfl, .inl⟩
  | _ => exact ⟨Nat.zero_le _, .inl⟩

theorem joined_of_moves (h : Moves limit common party common' party' hired) :
    common'.loops = 0 ∨ joined party' + (hired.map joined).sum = joined party ∧
      (common'.loops ≤ common.loops ∨ early party = 1) := by
  cases h with
  | join hloops => exact .inl hloops
  | adopt => exact .inr ⟨rfl, .inr rfl⟩
  | leave => exact .inr ⟨rfl, .inl (Nat.sub_le _ _)⟩
  | _ => exact .inr ⟨rfl, .inl le_rfl⟩

theorem unwatched_of_moves (h : Moves limit common party common' party' hired) :
    common'.watching = false ∨ unwatched party' + (hired.map unwatched).sum = unwatched party ∧
      (common'.watching = common.watching ∨ early party = 1) := by
  cases h with
  | joinWatch hwatching => exact .inl hwatching
  | unwatch => exact .inl rfl
  | adopted => exact .inr ⟨rfl, .inr rfl⟩
  | _ => exact .inr ⟨rfl, .inl rfl⟩

theorem drained_of_moves (h : Moves limit common party common' party' hired) :
    min limit (2 ^ 32 - 1) ≤ common'.permits ∨ drained party' + (hired.map drained).sum = drained party ∧
      (common.permits ≤ common'.permits ∨ running party = 1) := by
  cases h with
  | drain hall => exact .inl hall
  | permitKms | permitWeb => exact .inr ⟨rfl, .inr rfl⟩
  | refuse | releaseKms | releaseWeb => exact .inr ⟨rfl, .inl (Nat.le_succ _)⟩
  | _ => exact .inr ⟨rfl, .inl le_rfl⟩

end

theorem fresh_le_early (party : Party) : fresh party ≤ early party := by
  unfold fresh
  split
  · exact le_rfl
  · exact Nat.zero_le _

theorem unwatched_le_joined (party : Party) : unwatched party ≤ joined party := by
  unfold unwatched
  split
  · exact le_rfl
  · exact le_rfl
  · exact Nat.zero_le _

theorem drained_le_joined (party : Party) : drained party ≤ joined party := by
  unfold drained
  split
  · exact le_rfl
  · exact Nat.zero_le _

/-- Nothing is lost: every permit is with the driver or with one connection, whoever is
counted is there, and what the run has waited for has come about. -/
structure Sound (limit : ℕ) (crew : Crew Common Party) : Prop where
  fit : ∀ party ∈ crew.places, Fit crew.shared.requested party
  version : crew.shared.version ≠ 0 → crew.shared.requested = true
  permits : crew.shared.permits + held permit crew = limit
  webPermits : crew.shared.webPermits + held webPermit crew = webLimit limit
  inFlight : crew.shared.inFlight = held flying crew
  loops : crew.shared.loops = held running crew
  watching : crew.shared.watching.toNat = held watches crew
  main : held early crew + held joined crew = 1
  fresh : held fresh crew = 0 ∨ crew.shared.watching = false
  joined : held joined crew = 0 ∨ crew.shared.loops = 0
  unwatched : held unwatched crew = 0 ∨ crew.shared.watching = false
  drained : held drained crew = 0 ∨ min limit (2 ^ 32 - 1) ≤ crew.shared.permits

theorem sound_start (limit : ℕ) (listeners : List Role) (callers : ℕ) :
    Sound (max limit 1) (start limit listeners callers) where
  fit party hmem := by
    rcases List.mem_cons.mp hmem with rfl | hmem
    · trivial
    · obtain rfl := List.eq_of_mem_replicate hmem
      trivial
  version hversion := absurd rfl hversion
  permits := by simp [start, held, permit]
  webPermits := by simp [start, held, webPermit]
  inFlight := by simp [start, held, flying]
  loops := by simp [start, held, running]
  watching := by simp [start, held, watches]
  main := by simp [start, held, early, Permits.joined]
  fresh := .inr rfl
  joined := .inr rfl
  unwatched := .inr rfl
  drained := .inl (by simp [start, held, Permits.drained])

section
variable {limit worker : ℕ} {crew : Crew Common Party} {common : Common} {party party' : Party} {hired : List Party}

theorem Sound.move (h : Sound limit crew) (hplace : crew.places[worker]? = some party)
    (hmoves : Moves limit crew.shared party common party' hired) : Sound limit (crew.move worker common party' hired) := by
  have hfit := h.fit party (List.mem_of_getElem? hplace)
  have hmove (weight : Party → ℕ) := @held_move _ _ _ crew worker common party' party hired _ weight hplace
  have hle (weight : Party → ℕ) : weight party ≤ held weight crew := le_held hplace
  have hmain := h.main
  constructor
  case fit =>
    obtain ⟨hnext, hhired⟩ := fit_of_moves hmoves hfit h.version
    intro other hmem
    obtain hold | rfl | hnew := mem_move hmem
    · exact fit_mono (requested_of_moves hmoves) (h.fit other hold)
    · exact hnext
    · exact hhired other hnew
  case version => exact version_of_moves hmoves hfit h.version
  case permits =>
    have := permits_of_moves hmoves
    have := hmove permit
    have := h.permits
    rw [shared_move]
    omega
  case webPermits =>
    have := webPermits_of_moves hmoves hfit
    have := hmove webPermit
    have := h.webPermits
    rw [shared_move]
    omega
  case inFlight =>
    have := inFlight_of_moves hmoves ((hle flying).trans_eq h.inFlight.symm)
    have := hmove flying
    have := h.inFlight
    rw [shared_move]
    omega
  case loops =>
    have := loops_of_moves hmoves ((hle running).trans_eq h.loops.symm)
    have := hmove running
    have := h.loops
    rw [shared_move]
    omega
  case watching =>
    have := watching_of_moves hmoves ((hle watches).trans_eq h.watching.symm)
      (h.fresh.imp_left fun hnone => Nat.le_zero.mp ((hle Permits.fresh).trans_eq hnone))
    have := hmove watches
    have := h.watching
    rw [shared_move]
    omega
  case main =>
    have := main_of_moves hmoves
    have := hmove early
    have := hmove Permits.joined
    omega
  case fresh =>
    obtain ⟨hless, hwatching⟩ := fresh_of_moves hmoves
    have := hmove Permits.fresh
    have : held Permits.fresh crew ≤ held early crew := held_mono fresh_le_early
    cases hnow : common.watching with
    | false => exact .inr hnow
    | true =>
      left
      obtain hbefore | ⟨hone, hnone⟩ := hwatching hnow
      · have := h.fresh.resolve_right (Bool.not_eq_false _ ▸ hbefore)
        omega
      · omega
  case joined =>
    obtain hloops | ⟨hsame, hless⟩ := joined_of_moves hmoves
    · exact .inr hloops
    · have := hmove Permits.joined
      have := h.joined
      have := hle early
      rw [shared_move]
      omega
  case unwatched =>
    obtain hwatching | ⟨hsame, hwatching⟩ := unwatched_of_moves hmoves
    · exact .inr hwatching
    · have := hmove Permits.unwatched
      obtain hwatching | hearly := hwatching
      · rw [shared_move, hwatching]
        exact h.unwatched.imp_left fun hnone => by omega
      · have : held Permits.unwatched crew ≤ held Permits.joined crew := held_mono unwatched_le_joined
        have := hle early
        omega
  case drained =>
    obtain hall | ⟨hsame, hless⟩ := drained_of_moves hmoves
    · exact .inr hall
    · have := hmove Permits.drained
      have := h.drained
      have := h.joined
      have := h.loops
      have := hle running
      have : held Permits.drained crew ≤ held Permits.joined crew := held_mono drained_le_joined
      rw [shared_move]
      omega

theorem sound_of_reaches {start : Crew Common Party} {past : List (Common × Party × Event)} (hstart : Sound limit start)
    (h : Reaches (step limit) start past crew) : Sound limit crew := by
  refine h.invariant (fun _ crew => Sound limit crew) hstart ?_
  intro past crew worker party event common party' hired hsound hplace hstep
  exact hsound.move hplace (moves_of_step hstep)

end

/-! ### Admission -/

/-- The connections of one role that are served. -/
def served (role : Role) : Party → ℕ
  | .task other .serving | .task other .leaving => if other = role then 1 else 0
  | _ => 0

/-- The permits of those who hold nothing but a permit for good. -/
def kmsPermit : Party → ℕ
  | .loop .kms _ .opening | .loop .kms _ .spawning => 1
  | .task .kms .serving | .task .kms .leaving | .task .kms .releasing => 1
  | _ => 0

theorem webLimit_max (limit : ℕ) : webLimit (max limit 1) = max 1 (limit / 4) := by
  unfold webLimit
  split_ifs <;> omega

theorem flying_le_permit (party : Party) : flying party ≤ permit party := by
  unfold flying
  split
  · exact le_rfl
  · exact le_rfl
  · exact le_rfl
  · exact Nat.zero_le _

theorem served_le_webPermit (party : Party) : served .web party ≤ webPermit party := by
  unfold served
  split
  · rename_i other
    cases other <;> simp [webPermit, Role.share]
  · rename_i other
    cases other <;> simp [webPermit, Role.share]
  · exact Nat.zero_le _

theorem served_add_le_flying (party : Party) : served .kms party + served .web party ≤ flying party := by
  unfold served flying
  cases party with
  | task role place => cases role <;> cases place <;> simp
  | _ => simp

/-- A permit is with a client, with a page that has its share, or with a loop. -/
theorem permit_le (party : Party) : permit party ≤ kmsPermit party + (webPermit party + running party) := by
  cases party with
  | loop role seen place => cases role <;> cases place <;> simp [permit, kmsPermit, webPermit, running, Role.share]
  | task role place => cases role <;> cases place <;> simp [permit, kmsPermit, webPermit, Role.share]
  | _ => simp [permit]

/-- A driver of one permit has a client. -/
def sampleBusy : Crew Common Party :=
  ⟨⟨[], 0, 1, 1, false, 0, 1, false⟩, [.run .adopting, .caller .requesting, .loop .kms 0 .checking, .task .kms .serving]⟩

theorem reaches_busy : ∃ past, Reaches (step 1) (start 1 [.kms] 1) past sampleBusy := by
  refine Reaches.nil.follow (show (start 1 [.kms] 1).follow (step 1) [(0, .nothing), (2, .nothing), (2, .accepted false),
    (2, .nothing), (2, .nothing), (2, .nothing)] = some sampleBusy from rfl)

section
variable {limit callers : ℕ} {listeners : List Role} {crew : Crew Common Party} {past : List (Common × Party × Event)}

/-- However the tasks are ordered, no more connections are in flight than the limit, the
pages have no more than their share of them, and where every permit is taken, all but that
share and one for each loop are with clients. -/
theorem admits_within (h : Reaches (step (max limit 1)) (start limit listeners callers) past crew) :
    crew.shared.permits + held permit crew = max limit 1 ∧
      held (served .kms) crew + held (served .web) crew ≤ crew.shared.inFlight ∧ crew.shared.inFlight ≤ max limit 1 ∧
      held (served .web) crew ≤ max 1 (limit / 4) ∧
      (crew.shared.permits = 0 → max limit 1 ≤ held kmsPermit crew + max 1 (limit / 4) + crew.shared.loops) := by
  have hsound := sound_of_reaches (sound_start limit listeners callers) h
  have hpermits := hsound.permits
  have hweb := hsound.webPermits
  have hflying := hsound.inFlight
  have hloops := hsound.loops
  rw [webLimit_max] at hweb
  refine ⟨hpermits, ?_, ?_, ?_, fun hnone => ?_⟩
  · rw [hflying, ← held_add]
    exact held_mono served_add_le_flying
  · have : held flying crew ≤ held permit crew := held_mono flying_le_permit
    omega
  · have : held (served .web) crew ≤ held webPermit crew := held_mono served_le_webPermit
    omega
  · have hall : held permit crew ≤ held kmsPermit crew + (held webPermit crew + held running crew) := by
      rw [← held_add, ← held_add]
      exact held_mono permit_le
    omega

theorem admits_within_sample : ∃ past, Reaches (step 1) (start 1 [.kms] 1) past sampleBusy ∧
    sampleBusy.shared.permits = 0 ∧ max 1 1 ≤ held kmsPermit sampleBusy + max 1 (1 / 4) + 1 := by
  obtain ⟨past, hreaches⟩ := reaches_busy
  exact ⟨past, hreaches, rfl, (admits_within hreaches).2.2.2.2 rfl⟩

end

/-! ### Shutdown -/

/-- How many steps a party has left once a shutdown has been sent. -/
def own : Party → ℕ
  | .run .adopting => 8
  | .run .subscribing | .run (.waiting _) => 5
  | .run (.checking _) => 4
  | .run .joining => 3
  | .run .joiningWatch => 2
  | .run .draining => 1
  | .run .failed | .run .done => 0
  | .loop _ _ .selecting => 10
  | .loop _ _ .admitting => 9
  | .loop _ _ .webAdmitting => 8
  | .loop _ _ .opening => 7
  | .loop _ _ .spawning => 6
  | .loop _ _ .refusing => 2
  | .loop _ _ .checking => 1
  | .loop _ _ .returned => 0
  | .task _ .serving => 4
  | .task _ .leaving => 3
  | .task _ .releasing => 2
  | .task _ .releasingWeb => 1
  | .task _ .ended => 0
  | .watch _ .selecting => 3
  | .watch _ .ticking | .watch _ .testing => 2
  | .watch _ .checking => 1
  | .watch _ .returned => 0
  | .caller .requesting => 3
  | .caller .sending => 2
  | .caller .waking => 1
  | .caller .done => 0

theorem own_le (party : Party) : own party ≤ 10 := by
  unfold own
  split <;> decide

section
variable {limit : ℕ} {common common' : Common} {party party' : Party} {hired : List Party}

theorem sent_of_moves (h : Moves limit common party common' party' hired)
    (hsent : 0 < common.version ∧ common.requested = true) : 0 < common'.version ∧ common'.requested = true := by
  refine ⟨?_, requested_of_moves h hsent.2⟩
  cases h with
  | send => exact Nat.zero_lt_succ _
  | _ => exact hsent.1

theorem own_of_moves (h : Moves limit common party common' party' hired)
    (hsent : 0 < common.version ∧ common.requested = true) :
    2 * common'.listeners.length + own party' + (hired.map own).sum + 1 ≤ 2 * common.listeners.length + own party := by
  cases h with
  | adopt hlisteners =>
    rw [hlisteners, List.length_cons]
    simp only [own, List.map_cons, List.map_nil, List.sum_cons, List.sum_nil]
    omega
  | fail =>
    simp only [own, List.length_nil, List.map_nil, List.sum_nil]
    omega
  | adopted hlisteners =>
    rw [hlisteners]
    simp [own]
  | wait hrequested | listen hrequested => exact absurd (hrequested.symm.trans hsent.2) Bool.false_ne_true
  | watchOn hversion => exact absurd hversion hsent.1.ne'
  | leave hplace => obtain ⟨rfl, -⟩ | ⟨rfl, -⟩ := hplace <;> simp [own]
  | tick hplace => obtain rfl | rfl := hplace <;> simp [own]
  | unwatch hplace _ => obtain rfl | rfl := hplace <;> simp [own]
  | _ => simp [own]

end

section
variable {limit : ℕ} {common : Common} {event : Event}

theorem returned_of_stuck {role : Role} {seen : ℕ} {place : Loop} (hfit : Fit common.requested (.loop role seen place))
    (hsent : 0 < common.version) (h : ∀ event, step limit common (.loop role seen place) event = none) : place = .returned := by
  have hnone (event : Event) : place.step role seen common event = none := Option.map_eq_none_iff.mp (h event)
  cases place with
  | returned => rfl
  | selecting =>
    have hseen : seen = 0 := by
      by_contra hseen
      obtain hfalse | hfalse := (hfit.1 hseen).2 <;> cases hfalse
    have hshutdown := hnone .shutdown
    rw [Loop.step, if_pos (hseen ▸ hsent)] at hshutdown
    cases hshutdown
  | checking | webAdmitting =>
    have := hnone .nothing
    rw [Loop.step] at this
    split_ifs at this
  | admitting =>
    have := hnone .nothing
    rw [Loop.step] at this
    split_ifs at this
    cases role <;> cases this
  | refusing | opening | spawning => cases hnone .nothing

theorem ended_of_stuck {role : Role} {place : Task} (h : ∀ event, step limit common (.task role place) event = none) :
    place = .ended := by
  have hnone : place.step role common = none := Option.map_eq_none_iff.mp (h .nothing)
  cases place with
  | ended => rfl
  | releasing => cases role <;> cases hnone
  | serving | leaving | releasingWeb => cases hnone

theorem unwatched_of_stuck {seen : ℕ} {place : Watch} (hsent : 0 < common.version)
    (h : ∀ event, step limit common (.watch seen place) event = none) : place = .returned := by
  have hnone (event : Event) : place.step seen common event = none := Option.map_eq_none_iff.mp (h event)
  cases place with
  | returned => rfl
  | checking =>
    have := hnone .nothing
    rw [Watch.step, if_pos hsent] at this
    cases this
  | ticking | selecting | testing => cases hnone .nothing

theorem stopped_of_stuck {place : Run} (hfit : Fit common.requested (.run place)) (hsent : 0 < common.version)
    (hloops : common.loops = 0) (hwatching : common.watching = false) (hpermits : common.permits = limit)
    (h : ∀ event, step limit common (.run place) event = none) : place = .done ∨ place = .failed := by
  have hnone (event : Event) : place.step limit common event = none := Option.map_eq_none_iff.mp (h event)
  cases place with
  | done => exact .inl rfl
  | failed => exact .inr rfl
  | adopting =>
    have := hnone .nothing
    cases hlisteners : common.listeners <;> simp [Run.step, hlisteners] at this
  | subscribing | checking seen => cases hnone .nothing
  | waiting seen =>
    have := hnone .nothing
    rw [Run.step, if_pos (hfit ▸ hsent)] at this
    cases this
  | joining =>
    have := hnone .nothing
    rw [Run.step, if_pos hloops] at this
    cases this
  | joiningWatch =>
    have := hnone .nothing
    rw [Run.step, hwatching] at this
    cases this
  | draining =>
    have := hnone .nothing
    rw [Run.step, if_pos (hpermits ▸ min_le_left _ _)] at this
    cases this

end

/-- The same driver as it has been told to stop, and as it has. -/
def sampleSent : Crew Common Party :=
  ⟨⟨[], 0, 1, 1, true, 1, 1, false⟩, [.run .adopting, .caller .waking, .loop .kms 0 .checking, .task .kms .serving]⟩

def sampleDone : Crew Common Party :=
  ⟨⟨[], 1, 1, 0, true, 1, 0, false⟩,
    [.run .done, .caller .done, .loop .kms 0 .returned, .task .kms .ended, .watch 1 .returned]⟩

theorem reaches_sent : ∃ past, Reaches (step 1) (start 1 [.kms] 1) past sampleSent := by
  obtain ⟨_, hreaches⟩ := reaches_busy
  exact hreaches.follow (show sampleBusy.follow (step 1) [(1, .nothing), (1, .nothing)] = some sampleSent from rfl)

theorem reaches_done : ∃ past, Reaches (step 1) sampleSent past sampleDone := by
  obtain ⟨_, hdraining⟩ := Reaches.nil.follow (show sampleSent.follow (step 1) [(0, .nothing), (0, .nothing), (1, .nothing),
    (0, .nothing), (2, .nothing), (0, .nothing), (3, .nothing), (3, .nothing), (3, .nothing), (4, .nothing), (4, .nothing),
    (0, .nothing)] = some ⟨sampleDone.shared, .run .draining :: sampleDone.places.tail⟩ from rfl)
  exact ⟨_, hdraining.snoc 0 .nothing rfl (by simp [step, Run.step, sampleDone])⟩

section
variable {limit callers : ℕ} {listeners : List Role} {crew crew' : Crew Common Party}
  {past after : List (Common × Party × Event)}

/-- Somebody is the run. -/
theorem Sound.exists_run (h : Sound limit crew) : ∃ place, .run place ∈ crew.places := by
  by_contra hnone
  have hzero (weight : Party → ℕ) (hweight : ∀ party, (∀ place, party ≠ .run place) → weight party = 0) :
      held weight crew = 0 := by
    refine held_eq_zero fun party hmem => hweight party fun place heq => hnone ⟨place, heq ▸ hmem⟩
  have hearly := hzero early fun party hparty => by
    cases party with
    | run place => exact absurd rfl (hparty place)
    | _ => rfl
  have hjoined := hzero Permits.joined fun party hparty => by
    cases party with
    | run place => exact absurd rfl (hparty place)
    | _ => rfl
  have := h.main
  omega

/-- Where nothing is held any more, all permits are back and nobody is left to join. -/
theorem Sound.idle (h : Sound limit crew) (hloop : ∀ role seen place, .loop role seen place ∈ crew.places → place = .returned)
    (htask : ∀ role place, .task role place ∈ crew.places → place = .ended)
    (hwatch : ∀ seen place, .watch seen place ∈ crew.places → place = .returned) :
    crew.shared.permits = limit ∧ crew.shared.loops = 0 ∧ crew.shared.watching = false ∧ crew.shared.inFlight = 0 := by
  have hzero (weight : Party → ℕ) (hrun : ∀ place, weight (.run place) = 0) (hcaller : ∀ place, weight (.caller place) = 0)
      (hreturned : ∀ role seen, weight (.loop role seen .returned) = 0) (hended : ∀ role, weight (.task role .ended) = 0)
      (hunwatched : ∀ seen, weight (.watch seen .returned) = 0) : held weight crew = 0 := by
    refine held_eq_zero fun party hmem => ?_
    cases party with
    | run place => exact hrun place
    | loop role seen place => rw [hloop role seen place hmem, hreturned]
    | task role place => rw [htask role place hmem, hended]
    | watch seen place => rw [hwatch seen place hmem, hunwatched]
    | caller place => exact hcaller place
  have hpermit := hzero permit (fun _ => rfl) (fun _ => rfl) (fun _ _ => rfl) (fun _ => rfl) fun _ => rfl
  have hflying := hzero flying (fun _ => rfl) (fun _ => rfl) (fun _ _ => rfl) (fun _ => rfl) fun _ => rfl
  have hrunning := hzero running (fun _ => rfl) (fun _ => rfl) (fun _ _ => rfl) (fun _ => rfl) fun _ => rfl
  have hwatches := hzero watches (fun _ => rfl) (fun _ => rfl) (fun _ _ => rfl) (fun _ => rfl) fun _ => rfl
  refine ⟨?_, h.loops.trans hrunning, ?_, h.inFlight.trans hflying⟩
  · have := h.permits
    omega
  · exact Bool.toNat_eq_zero.mp (h.watching.trans hwatches)

/-- Once `run` has returned in good order, every accept loop has returned and the watch too,
and, of a limit that a `u32` can hold, no connection is left. -/
theorem done_drained (h : Reaches (step (max limit 1)) (start limit listeners callers) past crew)
    (hdone : .run .done ∈ crew.places) :
    crew.shared.inFlight ≤ limit - (2 ^ 32 - 1) ∧
      (∀ role seen place, .loop role seen place ∈ crew.places → place = .returned) ∧
      (∀ seen place, .watch seen place ∈ crew.places → place = .returned) ∧
      (limit < 2 ^ 32 → ∀ role place, .task role place ∈ crew.places → place = .ended ∨ place = .releasingWeb) := by
  have hsound := sound_of_reaches (sound_start limit listeners callers) h
  obtain ⟨worker, hplace⟩ := List.getElem?_of_mem hdone
  have hle (weight : Party → ℕ) : weight (.run .done) ≤ held weight crew := le_held hplace
  have hnone {weight : Party → ℕ} {total : ℕ} (htotal : total = held weight crew) (hzero : total = 0) {party : Party}
      (hmem : party ∈ crew.places) : weight party = 0 := by
    obtain ⟨other, hother⟩ := List.getElem?_of_mem hmem
    have : weight party ≤ held weight crew := le_held hother
    omega
  have hloops := hsound.joined.resolve_left (Nat.pos_iff_ne_zero.mp (hle Permits.joined))
  have hwatching := hsound.unwatched.resolve_left (Nat.pos_iff_ne_zero.mp (hle Permits.unwatched))
  have hall := hsound.drained.resolve_left (Nat.pos_iff_ne_zero.mp (hle Permits.drained))
  have hpermits := hsound.permits
  refine ⟨?_, fun role seen place hmem => ?_, fun seen place hmem => ?_, fun hlimit role place hmem => ?_⟩
  · have hflying := hsound.inFlight
    have : held flying crew ≤ held permit crew := held_mono flying_le_permit
    omega
  · have := hnone hsound.loops hloops hmem
    cases place with
    | returned => rfl
    | _ => cases this
  · have := hnone hsound.watching (Bool.toNat_eq_zero.mpr hwatching) hmem
    cases place with
    | returned => rfl
    | _ => cases this
  · have := hnone rfl (show held permit crew = 0 by omega) hmem
    cases place with
    | ended => exact .inl rfl
    | releasingWeb => exact .inr rfl
    | _ => cases this

theorem done_drained_sample : ∃ past, Reaches (step 1) (start 1 [.kms] 1) past sampleDone ∧
    sampleDone.shared.inFlight ≤ 1 - (2 ^ 32 - 1) := by
  obtain ⟨_, hsent⟩ := reaches_sent
  obtain ⟨_, hdone⟩ := reaches_done
  obtain ⟨past, hreaches⟩ := hsent.trans hdone
  exact ⟨past, hreaches, (@done_drained 1 1 [.kms] _ _ hreaches List.mem_cons_self).1⟩

/-- No shutdown is lost: once it has been sent, however the tasks are ordered, they have so many
steps left, and where none of them has one, `run` has returned and nothing is held. -/
theorem stops (h : Reaches (step (max limit 1)) (start limit listeners callers) past crew) (hsent : 0 < crew.shared.version)
    (hafter : Reaches (step (max limit 1)) crew after crew') :
    after.length ≤ 10 * crew.places.length + 2 * crew.shared.listeners.length ∧
      (Stuck (step (max limit 1)) crew' → (.run .done ∈ crew'.places ∨ .run .failed ∈ crew'.places) ∧
        crew'.shared.permits = max limit 1 ∧ crew'.shared.loops = 0 ∧ crew'.shared.watching = false ∧
        crew'.shared.inFlight = 0) := by
  have hsound := sound_of_reaches (sound_start limit listeners callers) h
  have hstart : 0 < crew.shared.version ∧ crew.shared.requested = true := ⟨hsent, hsound.version hsent.ne'⟩
  constructor
  · have hlength : after.length + 2 * crew'.shared.listeners.length + held own crew' ≤
        2 * crew.shared.listeners.length + held own crew := hafter.length_le
      (fun common => 0 < common.version ∧ common.requested = true)
      (fun _ _ _ _ _ _ hsent hstep => sent_of_moves (moves_of_step hstep) hsent)
      (fun _ _ _ _ _ _ hsent hstep => own_of_moves (moves_of_step hstep) hsent) hstart
    have : held own crew ≤ crew.places.length * 10 := held_le_mul own_le
    omega
  · intro hstuck
    have hsound' := sound_of_reaches hsound hafter
    have hsent' : 0 < crew'.shared.version := by
      refine (hafter.invariant (fun _ crew => 0 < crew.shared.version ∧ crew.shared.requested = true) hstart ?_).1
      intro _ _ _ _ _ _ _ _ hsent _ hstep
      exact sent_of_moves (moves_of_step hstep) hsent
    have hidle := hsound'.idle
      (fun _ _ _ hmem => returned_of_stuck (hsound'.fit _ hmem) hsent' (hstuck _ hmem))
      (fun _ _ hmem => ended_of_stuck (hstuck _ hmem))
      (fun _ _ hmem => unwatched_of_stuck hsent' (hstuck _ hmem))
    obtain ⟨place, hmem⟩ := hsound'.exists_run
    refine ⟨?_, hidle⟩
    obtain rfl | rfl := stopped_of_stuck (hsound'.fit _ hmem) hsent' hidle.2.1 hidle.2.2.1 hidle.1 (hstuck _ hmem)
    · exact .inl hmem
    · exact .inr hmem

theorem stops_sample : ∃ after, Reaches (step 1) sampleSent after sampleDone ∧ after.length ≤ 40 ∧
    (Stuck (step 1) sampleDone → sampleDone.shared.inFlight = 0) := by
  obtain ⟨_, hsent⟩ := reaches_sent
  obtain ⟨after, hdone⟩ := reaches_done
  obtain ⟨hlength, hstuck⟩ := @stops 1 1 [.kms] _ _ _ _ hsent Nat.one_pos hdone
  exact ⟨after, hdone, hlength, fun h => (hstuck h).2.2.2.2⟩

end

end Kmsrs.Server.Permits
