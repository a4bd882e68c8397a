import Kmsrs.Db.Date
import Kmsrs.Kms.FileTime
import Kmsrs.Os.Dhcp
import Kmsrs.Os.Sntp
import Kmsrs.Policy.Gate

/-! The two clocks of a host: the one of the machine, which a good reading steps, and the
reading that requests are measured against, which is projected from the last step. Between
steps both run with the time since boot. Times are nanoseconds. -/

namespace Kmsrs.Os.Sntp

open Kms

def poll : ℕ := 1024 * 10 ^ 9
def retry : ℕ := 60 * 10 ^ 9
def stepThreshold : ℕ := 10 ^ 9
def surprising : ℕ := 24 * 3600 * 10 ^ 9

/-- What the machine counts from its boot, what its clock shows, and the reading that the
wall clock of the server is anchored to, with the moment it was taken. -/
structure Clocks where
  monotonic : ℕ
  realtime : ℤ
  anchor : Option (FileTime × ℕ)
deriving DecidableEq

namespace Clocks

def pass (clocks : Clocks) (duration : ℕ) : Clocks :=
  { clocks with monotonic := clocks.monotonic + duration, realtime := clocks.realtime + duration }

@[simp] theorem pass_pass (clocks : Clocks) (m n : ℕ) : (clocks.pass m).pass n = clocks.pass (m + n) := by
  simp only [pass, Nat.cast_add, add_assoc]

/-- Anchor the wall clock to a reading. -/
def discipline (clocks : Clocks) (wall : FileTime) : Clocks := { clocks with anchor := some (wall, clocks.monotonic) }

/-- The wall clock now, if there is a reading behind it. -/
def now (clocks : Clocks) : Option FileTime :=
  clocks.anchor.bind fun anchor => FileTime.checkedAdd anchor.1 (clocks.monotonic - anchor.2)

end Clocks

def i32TryFrom (n : ℤ) : Option ℤ := if -2 ^ 31 ≤ n ∧ n < 2 ^ 31 then some n else none

/-- The date and the reading a server starts with, from one look at the clock. -/
def today (realtime : ℤ) : Option (Db.Date × FileTime) := do
  guard (0 ≤ realtime)
  let seconds := realtime / nanos
  let days ← i32TryFrom (seconds / 86400)
  let wall ← FileTime.fromUnixSeconds (← FileTime.i64TryFrom seconds)
  return (Db.Date.fromDaysSinceEpoch days, wall)

def fileTime (unixNanosValue : ℤ) : Option FileTime := do
  FileTime.fromUnixSeconds (← FileTime.i64TryFrom (unixNanosValue.tdiv nanos))

/-- Seconds and nanoseconds; a negative rest borrows a second. -/
def timespec (unixNanosValue : ℤ) : Option (Int64 × Int64) := do
  let seconds := unixNanosValue.tdiv nanos
  let remainder := unixNanosValue.tmod nanos
  let (seconds, nanoseconds) := if remainder < 0 then (seconds - 1, remainder + nanos) else (seconds, remainder)
  return (← FileTime.i64TryFrom seconds, ← FileTime.i64TryFrom nanoseconds)

/-- The lines that are said of the clock. -/
inductive Said where
  | noUse
  | silence (everSynchronised : Bool) (tried : List Ipv4Addr)
  | unfit
  | stepped (loud : Bool) (seconds : ℤ) (stratum : UInt8) (delayMillis : ℤ)
  | unset
deriving DecidableEq

/-- Where the time comes from, as the lease last described it. -/
structure Sources where
  ntp : List Ipv4Addr
  dns : List Ipv4Addr

/-- The servers to ask, given what the pool resolves to. -/
def servers (sources : Sources) (resolvePool : List Ipv4Addr → List Ipv4Addr) : List Ipv4Addr :=
  if sources.ntp.isEmpty then if sources.dns.isEmpty then [] else resolvePool sources.dns else sources.ntp

/-- What happens to the exchange with one server: the random draw, how long it takes, and
what comes back. -/
structure Attempt where
  random : Option UInt32
  elapsed : ℕ
  reply : List UInt8 → Option (List UInt8)

/-- One exchange with one server. A datagram is read as far as the buffer reaches. -/
def Clocks.ask (clocks : Clocks) (attempt : Attempt) : Option Reading × Clocks :=
  let arrived := clocks.pass attempt.elapsed
  match attempt.reply (request (ntpTimestamp (clocks.realtime + nonceNanos attempt.random))) with
  | none => (none, arrived)
  | some datagram =>
    ((Sntp.ask clocks.realtime attempt.random (fun _ => datagram.take 48) arrived.realtime).toOption, arrived)

/-- Ask each server in turn and take the first usable answer. -/
def Clocks.best (clocks : Clocks) : List Attempt → Option Reading × Clocks × List Said
  | [] => (none, clocks, [])
  | attempt :: attempts =>
    match clocks.ask attempt with
    | (some reading, clocks) => (some reading, clocks, [])
    | (none, clocks) =>
      let (reading, clocks, said) := clocks.best attempts
      (reading, clocks, .noUse :: said)

/-- How the kernel takes a new time, and how long it is until the call and from there to the
anchor. -/
structure Setting where
  accepts : Int64 × Int64 → Bool
  before : ℕ
  after : ℕ

/-- Step the clock, if the reading says it is worth doing. -/
def Clocks.apply (clocks : Clocks) (reading : Reading) (setting : Setting) : Clocks × List Said :=
  if reading.offsetNanos.natAbs < stepThreshold then (clocks, [])
  else
    let corrected := clocks.realtime + reading.offsetNanos
    let clocks := clocks.pass setting.before
    match timespec corrected with
    | none => (clocks, [.unfit])
    | some spec =>
      if setting.accepts spec then
        let clocks := { clocks with realtime := corrected }.pass setting.after
        let clocks := match fileTime corrected with
          | some wall => clocks.discipline wall
          | none => clocks
        (clocks, [.stepped (surprising < reading.offsetNanos.natAbs) (reading.offsetNanos.tdiv nanos) reading.stratum
          (reading.delayNanos.tdiv 1000000)])
      else (clocks, [.unset])

/-- The discipline of the clock: whether it has complained, whether a server ever answered,
and how long it sleeps before it asks again. -/
structure Keeper where
  clocks : Clocks
  complained : Bool
  everSynchronised : Bool
  sleep : ℕ
deriving DecidableEq

/-- One turn: how much longer it sleeps, the sources by then, and what the servers do. -/
structure Round where
  late : ℕ
  sources : Sources
  resolvePool : List Ipv4Addr → List Ipv4Addr
  attempt : ℕ → Attempt
  setting : Setting

def Round.addresses (round : Round) : List Ipv4Addr := servers round.sources round.resolvePool
def Round.attempts (round : Round) : List Attempt := (List.range round.addresses.length).map round.attempt

/-- Sleep, ask, and step or complain. -/
def Keeper.turn (keeper : Keeper) (round : Round) : Keeper × List Said :=
  match (keeper.clocks.pass (keeper.sleep + round.late)).best round.attempts with
  | (some reading, clocks, said) =>
    let (clocks, stepped) := clocks.apply reading round.setting
    (⟨clocks, false, true, poll⟩, said ++ stepped)
  | (none, clocks, said) =>
    (⟨clocks, true, keeper.everSynchronised, retry⟩,
      said ++ if keeper.complained then [] else [.silence keeper.everSynchronised round.addresses])

/-- Poll, step, repeat. -/
def Keeper.run (keeper : Keeper) : List Round → Keeper × List Said
  | [] => (keeper, [])
  | round :: rounds =>
    let (next, said) := keeper.turn round
    let (last, more) := next.run rounds
    (last, said ++ more)

theorem fst_run_cons (keeper : Keeper) (round : Round) (rounds : List Round) :
    (keeper.run (round :: rounds)).1 = ((keeper.turn round).1.run rounds).1 := rfl

/-- A server that has looked at its clock once, so long before it anchors to it. -/
def boot (monotonic : ℕ) (realtime : ℤ) (anchoring : ℕ) : Option Keeper :=
  (today realtime).map fun started =>
    ⟨((⟨monotonic, realtime, none⟩ : Clocks).pass anchoring).discipline started.2, false, false, 0⟩

/-! ### The wall clock of the server -/

/-- A reading in nanoseconds since the Unix epoch. -/
def unixOf (time : FileTime) : ℤ := 100 * ((time.ticks.toNat : ℤ) - 116444736000000000)

/-- The kernel takes no second before the epoch, and none from which the clock could leave
the range of its own counter. -/
def Sane (setting : Setting) : Prop :=
  ∀ spec, setting.accepts spec = true → 0 ≤ spec.1.toInt ∧ spec.1.toInt < 8277292036

theorem i64TryFrom_eq_some {n : ℤ} {m : Int64} (h : FileTime.i64TryFrom n = some m) : m.toInt = n := by
  obtain ⟨hfits, h⟩ := Option.ite_none_right_eq_some.mp h
  cases h
  exact Int64.toInt_ofInt_of_le hfits.1 hfits.2

theorem fst_of_timespec {n : ℤ} {spec : Int64 × Int64} (h : timespec n = some spec) : spec.1.toInt = n / 10 ^ 9 := by
  have hdiv : (if n.tmod nanos < 0 then n.tdiv nanos - 1 else n.tdiv nanos) = n / 10 ^ 9 := by
    rw [nanos]
    rcases le_total 0 n with hpos | hneg
    · rw [Int.tmod_eq_emod_of_nonneg hpos, Int.tdiv_eq_ediv_of_nonneg hpos, if_neg (by omega)]
      rfl
    · obtain ⟨m, rfl⟩ : ∃ m : ℕ, n = -m := ⟨(-n).toNat, by omega⟩
      rw [Int.neg_tmod, Int.neg_tdiv, Int.tmod_eq_emod_of_nonneg (by omega), Int.tdiv_eq_ediv_of_nonneg (by omega)]
      split_ifs <;> omega
  rw [timespec] at h
  split_ifs at h hdiv with hborrow
  · obtain ⟨seconds, hseconds, h⟩ := Option.bind_eq_some_iff.mp h
    obtain ⟨nanoseconds, -, h⟩ := Option.bind_eq_some_iff.mp h
    cases h
    exact (i64TryFrom_eq_some hseconds).trans hdiv
  · obtain ⟨seconds, hseconds, h⟩ := Option.bind_eq_some_iff.mp h
    obtain ⟨nanoseconds, -, h⟩ := Option.bind_eq_some_iff.mp h
    cases h
    exact (i64TryFrom_eq_some hseconds).trans hdiv

theorem fileTime_of_nonneg {n : ℤ} (hpos : 0 ≤ n) (hlt : n / 10 ^ 9 < 8277292036) :
    ∃ wall, fileTime n = some wall ∧ unixOf wall = n / 10 ^ 9 * 10 ^ 9 := by
  have hdiv : n.tdiv nanos = n / 10 ^ 9 := Int.tdiv_eq_ediv_of_nonneg hpos
  have hseconds : FileTime.i64TryFrom (n.tdiv nanos) = some (.ofInt (n / 10 ^ 9)) := by
    rw [hdiv, FileTime.i64TryFrom, if_pos (by omega)]
  have htoInt := i64TryFrom_eq_some (hdiv ▸ hseconds)
  obtain ⟨ticks, hticks⟩ : ∃ ticks : ℕ, (ticks : ℤ) = n / 10 ^ 9 * 10000000 + 116444736000000000 :=
    ⟨(n / 10 ^ 9 * 10000000 + 116444736000000000).toNat, by omega⟩
  have hfits : (UInt64.ofNat ticks).toNat = ticks := UInt64.toNat_ofNat_of_lt' (show ticks < 2 ^ 64 by omega)
  refine ⟨⟨.ofNat ticks⟩, ?_, ?_⟩
  · rw [fileTime, hseconds]
    refine FileTime.fromUnixSeconds_eq_some_iff.mpr ?_
    rw [htoInt, hfits, hticks]
  · rw [unixOf, hfits, hticks]
    omega

/-- The wall clock is anchored, and falls short of the machine's by less than a second and
so much. -/
def Follows (slack : ℕ) (clocks : Clocks) : Prop :=
  ∃ wall monotonic, clocks.anchor = some (wall, monotonic) ∧ monotonic ≤ clocks.monotonic ∧
    0 ≤ clocks.realtime - (unixOf wall + (clocks.monotonic - monotonic : ℕ)) ∧
    clocks.realtime - (unixOf wall + (clocks.monotonic - monotonic : ℕ)) < 10 ^ 9 + slack

section
variable {slack : ℕ} {clocks : Clocks}

theorem Follows.pass (h : Follows slack clocks) (duration : ℕ) : Follows slack (clocks.pass duration) := by
  obtain ⟨wall, monotonic, hanchor, hle, hlow, hhigh⟩ := h
  refine ⟨wall, monotonic, hanchor, hle.trans (Nat.le_add_right _ _), ?_, ?_⟩
  · simp only [Clocks.pass]
    omega
  · simp only [Clocks.pass]
    omega

theorem ask_snd (clocks : Clocks) (attempt : Attempt) : (clocks.ask attempt).2 = clocks.pass attempt.elapsed := by
  unfold Clocks.ask
  cases attempt.reply _ with
  | none => rfl
  | some datagram => rfl

/-- Asking takes time, and nothing else. -/
theorem exists_best (clocks : Clocks) (attempts : List Attempt) :
    ∃ duration, (clocks.best attempts).2.1 = clocks.pass duration := by
  induction attempts generalizing clocks with
  | nil => exact ⟨0, by simp [Clocks.best, Clocks.pass]⟩
  | cons attempt attempts ih =>
    have hpass := ask_snd clocks attempt
    rw [Clocks.best]
    cases hask : clocks.ask attempt with
    | mk reading arrived =>
      obtain rfl : arrived = clocks.pass attempt.elapsed := by rw [← hpass, hask]
      cases reading with
      | some reading => exact ⟨_, rfl⟩
      | none =>
        obtain ⟨duration, hduration⟩ := ih (clocks.pass attempt.elapsed)
        exact ⟨attempt.elapsed + duration, hduration.trans (Clocks.pass_pass _ _ _)⟩

/-- A clock that is set: the machine's shows the corrected time when the call is made, and the
wall clock is anchored to it a little later. -/
def Clocks.set (clocks : Clocks) (corrected : ℤ) (setting : Setting) : Clocks :=
  { clocks.pass setting.before with realtime := corrected }.pass setting.after

theorem apply_cases (clocks : Clocks) (reading : Reading) (setting : Setting) :
    (reading.offsetNanos.natAbs < stepThreshold ∧ (clocks.apply reading setting).1 = clocks) ∨
    (stepThreshold ≤ reading.offsetNanos.natAbs ∧
      (∀ spec, timespec (clocks.realtime + reading.offsetNanos) = some spec → setting.accepts spec = false) ∧
      (clocks.apply reading setting).1 = clocks.pass setting.before) ∨
    (stepThreshold ≤ reading.offsetNanos.natAbs ∧
      ∃ spec, timespec (clocks.realtime + reading.offsetNanos) = some spec ∧ setting.accepts spec = true ∧
        (clocks.apply reading setting).1 = (fileTime (clocks.realtime + reading.offsetNanos)).elim
          (clocks.set (clocks.realtime + reading.offsetNanos) setting)
          (clocks.set (clocks.realtime + reading.offsetNanos) setting).discipline) := by
  rw [Clocks.apply]
  split_ifs with hsmall
  · exact .inl ⟨hsmall, rfl⟩
  · right
    cases hspec : timespec (clocks.realtime + reading.offsetNanos) with
    | none => exact .inl ⟨not_lt.mp hsmall, by simp, by simp [hspec]⟩
    | some spec =>
      cases haccepts : setting.accepts spec with
      | false =>
        refine .inl ⟨not_lt.mp hsmall, ?_, by simp [hspec, haccepts]⟩
        rintro _ ⟨⟩
        exact haccepts
      | true =>
        refine .inr ⟨not_lt.mp hsmall, spec, rfl, haccepts, ?_⟩
        cases hwall : fileTime (clocks.realtime + reading.offsetNanos) with
        | none => simp [hspec, hwall, haccepts, Clocks.set]
        | some wall => simp [hspec, hwall, haccepts, Clocks.set]

theorem Follows.apply (h : Follows slack clocks) (reading : Reading) {setting : Setting} (hsane : Sane setting)
    (hafter : setting.after ≤ slack) : Follows slack (clocks.apply reading setting).1 := by
  rcases apply_cases clocks reading setting with ⟨-, heq⟩ | ⟨-, -, heq⟩ | ⟨-, spec, hspec, haccepts, heq⟩
  · rw [heq]
    exact h
  · rw [heq]
    exact h.pass _
  · have hseconds := fst_of_timespec hspec
    obtain ⟨hpos, hlt⟩ := hsane spec haccepts
    obtain ⟨wall, hwall, hunix⟩ := fileTime_of_nonneg (n := clocks.realtime + reading.offsetNanos) (by omega) (by omega)
    rw [heq, hwall]
    refine ⟨wall, _, rfl, le_rfl, ?_, ?_⟩
    · simp only [Option.elim, Clocks.discipline, Clocks.set, Clocks.pass]
      omega
    · simp only [Option.elim, Clocks.discipline, Clocks.set, Clocks.pass]
      omega

theorem turn_clocks (keeper : Keeper) (round : Round) :
    ∃ duration, ((keeper.turn round).1.clocks = keeper.clocks.pass duration) ∨
      ∃ reading, (keeper.turn round).1.clocks = ((keeper.clocks.pass duration).apply reading round.setting).1 := by
  obtain ⟨duration, hduration⟩ := exists_best (keeper.clocks.pass (keeper.sleep + round.late)) round.attempts
  rw [Clocks.pass_pass] at hduration
  refine ⟨keeper.sleep + round.late + duration, ?_⟩
  rw [Keeper.turn]
  cases hbest : (keeper.clocks.pass (keeper.sleep + round.late)).best round.attempts with
  | mk reading rest =>
    obtain ⟨clocks, said⟩ := rest
    rw [hbest] at hduration
    cases reading with
    | none => exact .inl hduration
    | some reading => exact .inr ⟨reading, by rw [← hduration]⟩

theorem Follows.run {keeper : Keeper} (h : Follows slack keeper.clocks) {rounds : List Round}
    (hsane : ∀ round ∈ rounds, Sane round.setting) (hafter : ∀ round ∈ rounds, round.setting.after ≤ slack) :
    Follows slack (keeper.run rounds).1.clocks := by
  induction rounds generalizing keeper with
  | nil => exact h
  | cons round rounds ih =>
    rw [fst_run_cons]
    suffices hturned : Follows slack (keeper.turn round).1.clocks by
      exact ih hturned (fun later hmem => hsane later (List.mem_cons_of_mem _ hmem))
        fun later hmem => hafter later (List.mem_cons_of_mem _ hmem)
    obtain ⟨duration, hturn | ⟨reading, hturn⟩⟩ := turn_clocks keeper round
    · rw [hturn]
      exact h.pass duration
    · rw [hturn]
      exact (h.pass duration).apply reading (hsane round List.mem_cons_self) (hafter round List.mem_cons_self)

theorem Follows.now (h : Follows slack clocks) :
    (∃ wall, clocks.now = some wall ∧ 0 ≤ clocks.realtime - unixOf wall ∧
      clocks.realtime - unixOf wall < 10 ^ 9 + 100 + slack) ∨
    (clocks.now = none ∧ 100 * (2 ^ 64 - 116444736000000000) ≤ clocks.realtime) := by
  obtain ⟨wall, monotonic, hanchor, -, hlow, hhigh⟩ := h
  have hnow : clocks.now = FileTime.checkedAdd wall (clocks.monotonic - monotonic) := by
    rw [Clocks.now, hanchor, Option.bind_some]
  cases hadd : FileTime.checkedAdd wall (clocks.monotonic - monotonic) with
  | some later =>
    have hticks := FileTime.checkedAdd_eq_some_iff.mp hadd
    refine .inl ⟨later, hnow.trans hadd, ?_, ?_⟩
    · rw [unixOf] at hlow ⊢
      omega
    · rw [unixOf] at hhigh ⊢
      omega
  | none =>
    have hover : 2 ^ 64 ≤ wall.ticks.toNat + (clocks.monotonic - monotonic) / 100 := by
      by_contra hfits
      have hroom : (UInt64.ofNat (wall.ticks.toNat + (clocks.monotonic - monotonic) / 100)).toNat = _ :=
        UInt64.toNat_ofNat_of_lt' (not_le.mp hfits)
      have := (@FileTime.checkedAdd_eq_some_iff wall ⟨_⟩ (clocks.monotonic - monotonic)).mpr hroom.symm
      rw [hadd] at this
      cases this
    refine .inr ⟨hnow.trans hadd, ?_⟩
    rw [unixOf] at hlow
    omega

theorem follows_boot {monotonic anchoring : ℕ} {realtime : ℤ} {keeper : Keeper}
    (h : boot monotonic realtime anchoring = some keeper) : Follows anchoring keeper.clocks := by
  obtain ⟨started, htoday, rfl⟩ := Option.map_eq_some_iff.mp h
  rw [today] at htoday
  obtain ⟨-, hpos, htoday⟩ := Option.bind_eq_some_iff.mp htoday
  obtain ⟨days, -, htoday⟩ := Option.bind_eq_some_iff.mp htoday
  obtain ⟨seconds, hseconds, htoday⟩ := Option.bind_eq_some_iff.mp htoday
  obtain ⟨wall, hwall, htoday⟩ := Option.bind_eq_some_iff.mp htoday
  cases htoday
  have hticks := FileTime.fromUnixSeconds_eq_some_iff.mp hwall
  rw [i64TryFrom_eq_some hseconds, nanos] at hticks
  refine ⟨wall, _, rfl, le_rfl, ?_, ?_⟩
  · simp only [Clocks.discipline, Clocks.pass, unixOf]
    omega
  · simp only [Clocks.discipline, Clocks.pass, unixOf]
    omega

theorem never_of_boot {monotonic anchoring : ℕ} {realtime : ℤ} {keeper : Keeper}
    (h : boot monotonic realtime anchoring = some keeper) : keeper.everSynchronised = false := by
  obtain ⟨started, -, rfl⟩ := Option.map_eq_some_iff.mp h
  rfl

theorem Follows.mono {slack' : ℕ} (h : Follows slack clocks) (hle : slack ≤ slack') : Follows slack' clocks := by
  obtain ⟨wall, monotonic, hanchor, hmonotonic, hlow, hhigh⟩ := h
  exact ⟨wall, monotonic, hanchor, hmonotonic, hlow, by omega⟩

end

/-! ### Honest servers -/

/-- How long an answer is waited for. -/
def timeout : ℕ := 3 * 10 ^ 9

/-- How far a clock is behind the time, given the time at boot. -/
def Clocks.behind (truth : ℤ) (clocks : Clocks) : ℤ := truth + clocks.monotonic - clocks.realtime

@[simp] theorem Clocks.behind_pass (truth : ℤ) (clocks : Clocks) (duration : ℕ) :
    (clocks.pass duration).behind truth = clocks.behind truth := by
  simp only [behind, pass]
  omega

/-- What comes back, if anything does, is the answer of a server that keeps the time, within
the window of its era and not before 2001. -/
def Honest (truth : ℤ) (delay : ℕ) (clocks : Clocks) (attempt : Attempt) : Prop :=
  let sent := request (ntpTimestamp (clocks.realtime + nonceNanos attempt.random))
  ∀ datagram, attempt.reply sent = some datagram → ∃ e : Exchange, e.departure = clocks.realtime ∧
    e.offset = clocks.behind truth ∧ e.outbound + e.inbound ≤ delay ∧ attempt.elapsed = e.outbound + e.served + e.inbound ∧
    e.Within attempt.random ∧ 10 ^ 18 + 10 ^ 10 ≤ e.received ∧ datagram = e.server.answer e.received e.transmitted sent

/-- Whoever is asked is honest. -/
def AllHonest (truth : ℤ) (delay : ℕ) (clocks : Clocks) : List Attempt → Prop
  | [] => True
  | attempt :: attempts => Honest truth delay clocks attempt ∧
      ((clocks.ask attempt).1 = none → AllHonest truth delay (clocks.ask attempt).2 attempts)

def HonestRun (truth : ℤ) (delay : ℕ) (keeper : Keeper) : List Round → Prop
  | [] => True
  | round :: rounds => AllHonest truth delay (keeper.clocks.pass (keeper.sleep + round.late)) round.attempts ∧
      HonestRun truth delay (keeper.turn round).1 rounds

/-- The kernel takes the times from 2001 on. -/
def Settable (setting : Setting) : Prop :=
  ∀ spec, 10 ^ 9 ≤ spec.1.toInt → spec.1.toInt < 8277292036 → setting.accepts spec = true

/-- A reading that is wrong by no more than half of the delay and of the nonce, and when it was taken. -/
structure Fair (truth : ℤ) (delay : ℕ) (clocks : Clocks) (reading : Reading) : Prop where
  close : 2 * |reading.offsetNanos - clocks.behind truth| ≤ delay + 10 ^ 9 + 2
  recent : 10 ^ 18 + 10 ^ 10 ≤ truth + clocks.monotonic
  early : truth + clocks.monotonic < 5 * 10 ^ 18

section
variable {truth : ℤ} {delay : ℕ} {clocks : Clocks} {reading : Reading}

theorem length_answer (server : Server) (received transmitted : ℤ) (sent : UInt64) :
    (server.answer received transmitted (request sent)).length = 48 := by
  simp [Server.answer, request]

theorem fair_of_ask {attempt : Attempt} (hdelay : delay ≤ timeout) (hhonest : Honest truth delay clocks attempt)
    (h : (clocks.ask attempt).1 = some reading) : Fair truth delay (clocks.ask attempt).2 reading := by
  rw [ask_snd]
  rw [Clocks.ask] at h
  cases hreply : attempt.reply (request (ntpTimestamp (clocks.realtime + nonceNanos attempt.random))) with
  | none =>
    rw [hreply] at h
    cases h
  | some datagram =>
    obtain ⟨e, hdeparture, hoffset, hboth, helapsed, hwithin, hrecent, hdatagram⟩ := hhonest datagram hreply
    obtain ⟨e₁, e₂, e₃, e₄, h₁, h₂, h₃, h₄, ht₁, ht₂, ht₃, ht₄⟩ := Exchange.rounded hwithin
    have hresult : e.result attempt.random = .ok reading := by
      have harrival : e.arrival = (clocks.pass attempt.elapsed).realtime := by
        simp only [Exchange.arrival, Clocks.pass, hdeparture, helapsed]
        omega
      have hwhole : datagram.take 48 = datagram := by
        rw [hdatagram, List.take_of_length_le (length_answer _ _ _ _).le]
      have hsame : e.result attempt.random =
          Sntp.ask clocks.realtime attempt.random (fun _ => datagram.take 48) (clocks.pass attempt.elapsed).realtime := by
        rw [Exchange.result, hdeparture, harrival, Sntp.ask, Sntp.ask, hwhole, hdatagram]
      rw [hsame]
      simp only [hreply] at h
      cases hask : Sntp.ask clocks.realtime attempt.random (fun _ => datagram.take 48) (clocks.pass attempt.elapsed).realtime with
      | error why =>
        rw [hask] at h
        cases h
      | ok found =>
        rw [hask] at h
        cases h
        rfl
    rw [Exchange.result_eq] at hresult
    split_ifs at hresult
    cases hresult
    have hhalf := two_mul_tdiv ((e.received - e₂ - (e.departure + nonceNanos attempt.random - e₁)) +
      (e.transmitted - e₃ - (e.arrival - e₄)))
    have hnonce := nonceNanos_bounds attempt.random
    have hlate := hwithin.transmitted.2
    simp only [ht₁, ht₂, ht₃, ht₄]
    generalize Int.tdiv _ 2 = half at hhalf ⊢
    simp only [Exchange.transmitted, Exchange.arrival, Exchange.received] at hhalf hrecent hlate
    simp only [Clocks.behind] at hoffset
    simp only [timeout] at hdelay
    refine ⟨?_, ?_, ?_⟩
    · rw [Clocks.behind_pass, Clocks.behind, ← hoffset]
      change 2 * |half - e.offset| ≤ _
      have habs : |half - e.offset| = half - e.offset ∨ |half - e.offset| = -(half - e.offset) := abs_choice _
      omega
    · simp only [Clocks.pass]
      omega
    · simp only [Clocks.pass]
      omega

theorem fair_of_best {attempts : List Attempt} (hdelay : delay ≤ timeout) (hhonest : AllHonest truth delay clocks attempts)
    (h : (clocks.best attempts).1 = some reading) : Fair truth delay (clocks.best attempts).2.1 reading := by
  induction attempts generalizing clocks with
  | nil => cases h
  | cons attempt attempts ih =>
    have hfair := @fair_of_ask truth delay clocks reading attempt hdelay hhonest.1
    have hrest := hhonest.2
    rw [Clocks.best] at h ⊢
    cases hask : clocks.ask attempt with
    | mk found arrived =>
      rw [hask] at h hfair hrest
      cases found with
      | some found =>
        cases h
        exact hfair rfl
      | none => exact ih (hrest rfl) h

theorem timespec_of_nonneg {n : ℤ} (hpos : 0 ≤ n) (hlt : n < 2 ^ 63) :
    ∃ spec, timespec n = some spec ∧ spec.1.toInt = n / 10 ^ 9 := by
  have hdiv : n.tdiv nanos = n / 10 ^ 9 := Int.tdiv_eq_ediv_of_nonneg hpos
  have hmod : n.tmod nanos = n % 10 ^ 9 := Int.tmod_eq_emod_of_nonneg hpos
  have hspec : timespec n = some (.ofInt (n / 10 ^ 9), .ofInt (n % 10 ^ 9)) := by
    have hseconds : FileTime.i64TryFrom (n / 10 ^ 9) = some (.ofInt (n / 10 ^ 9)) := if_pos (by omega)
    have hrest : FileTime.i64TryFrom (n % 10 ^ 9) = some (.ofInt (n % 10 ^ 9)) := if_pos (by omega)
    rw [timespec, hdiv, hmod, if_neg (by omega)]
    simp only [hseconds, hrest]
    rfl
  exact ⟨_, hspec, fst_of_timespec hspec⟩

/-- A fair reading leaves the clock within a second and a half of the time, and half of the
delay: it steps a clock that is further away, and not one that only seems to be. -/
theorem Fair.apply (h : Fair truth delay clocks reading) (hdelay : delay ≤ timeout) {setting : Setting}
    (hsettable : Settable setting) (hbefore : setting.before < 10 ^ 9) :
    2 * |(clocks.apply reading setting).1.behind truth| ≤ delay + 3 * 10 ^ 9 := by
  have hclose := h.close
  have hrecent := h.recent
  have hearly := h.early
  simp only [timeout] at hdelay
  have hover := le_abs_self (reading.offsetNanos - clocks.behind truth)
  have hunder := neg_le_abs (reading.offsetNanos - clocks.behind truth)
  have hbehind : clocks.behind truth = truth + clocks.monotonic - clocks.realtime := rfl
  rcases apply_cases clocks reading setting with ⟨hsmall, heq⟩ | ⟨-, hrefused, -⟩ | ⟨-, spec, hspec, haccepts, heq⟩
  · rw [heq]
    rw [stepThreshold] at hsmall
    have habs : |clocks.behind truth| = clocks.behind truth ∨ |clocks.behind truth| = -clocks.behind truth := abs_choice _
    omega
  · obtain ⟨spec, hspec, hseconds⟩ := @timespec_of_nonneg (clocks.realtime + reading.offsetNanos)
      (by omega) (by omega)
    have haccepts := hsettable spec (by omega) (by omega)
    exact absurd (haccepts.symm.trans (hrefused spec hspec)) (by decide)
  · have hset : (clocks.apply reading setting).1.behind truth =
        truth + clocks.monotonic + setting.before - (clocks.realtime + reading.offsetNanos) := by
      rw [heq]
      cases fileTime (clocks.realtime + reading.offsetNanos) with
      | none =>
        simp only [Option.elim, Clocks.set, Clocks.behind, Clocks.pass]
        omega
      | some wall =>
        simp only [Option.elim, Clocks.discipline, Clocks.set, Clocks.behind, Clocks.pass]
        omega
    rw [hset]
    generalize hleft : truth + clocks.monotonic + setting.before - (clocks.realtime + reading.offsetNanos) = left
    have habs : |left| = left ∨ |left| = -left := abs_choice _
    omega

/-- Once a server has answered, the clock stays as close to the time. -/
theorem synchronised_run {keeper : Keeper} {rounds : List Round} (hdelay : delay ≤ timeout)
    (hhonest : HonestRun truth delay keeper rounds) (hsettable : ∀ round ∈ rounds, Settable round.setting)
    (hbefore : ∀ round ∈ rounds, round.setting.before < 10 ^ 9)
    (hstart : keeper.everSynchronised = true → 2 * |keeper.clocks.behind truth| ≤ delay + 3 * 10 ^ 9)
    (hever : (keeper.run rounds).1.everSynchronised = true) :
    2 * |(keeper.run rounds).1.clocks.behind truth| ≤ delay + 3 * 10 ^ 9 := by
  induction rounds generalizing keeper with
  | nil => exact hstart hever
  | cons round rounds ih =>
    obtain ⟨hround, hrounds⟩ := hhonest
    rw [fst_run_cons] at hever ⊢
    refine ih hrounds (fun later hmem => hsettable later (List.mem_cons_of_mem _ hmem))
      (fun later hmem => hbefore later (List.mem_cons_of_mem _ hmem)) ?_ hever
    have hfair := fun reading => @fair_of_best truth delay _ reading round.attempts hdelay hround
    obtain ⟨duration, hduration⟩ := exists_best (keeper.clocks.pass (keeper.sleep + round.late)) round.attempts
    intro hsynchronised
    rw [Keeper.turn] at hsynchronised ⊢
    cases hbest : (keeper.clocks.pass (keeper.sleep + round.late)).best round.attempts with
    | mk found rest =>
      obtain ⟨clocks, said⟩ := rest
      rw [hbest] at hsynchronised hfair hduration
      cases found with
      | none =>
        simp only at hduration
        simp only [hduration, Clocks.behind_pass]
        exact hstart hsynchronised
      | some reading =>
        exact (hfair reading rfl).apply hdelay (hsettable round List.mem_cons_self) (hbefore round List.mem_cons_self)

end

/-! ### The skew of a client -/

section
open Policy Policy.Gate

theorem absDifference_unixOf (a b : UInt64) : (Gate.absDifference a b : ℤ) = |unixOf ⟨a⟩ - unixOf ⟨b⟩| := by
  simp only [Gate.absDifference, unixOf]
  rcases le_total a.toNat b.toNat with h | h
  · rw [abs_of_nonpos (by omega)]
    omega
  · rw [abs_of_nonneg (by omega)]
    omega

variable {features : Features} {catalogue : Db.Catalogue} {asked : Kms.Request} {hostTime : Option UInt64}

theorem refusal_ne_clockSkew (h : (observations catalogue asked hostTime).clockSkewed = false) (skew : ℕ) :
    refusal features catalogue asked hostTime ≠ some (.clockSkew skew) := by
  simp only [refusal, h, Bool.and_false, Bool.false_eq_true, if_false]
  split_ifs
  · cases catalogue.product asked.counted with
    | none => simp
    | some entry => simp
  all_goals simp

theorem isSome_refusal {host : UInt64} (h : (observations catalogue asked (some host)).clockSkewed = true)
    (hstrict : features.strictClockSkew = true) : (refusal features catalogue asked (some host)).isSome = true := by
  have hskew : (observations catalogue asked (some host)).clockSkew = some (Gate.absDifference host asked.clientTime) := rfl
  simp only [refusal, h, hskew, Features.refuseClockSkew, hstrict, Bool.and_true, if_true]
  split_ifs with hkind
  · cases hproduct : catalogue.product asked.counted with
    | none => simp [hproduct] at hkind
    | some entry => rfl
  all_goals rfl

end

/-! ### The two clocks of a host -/

/-- A machine without a clock of its own boots in 1970. -/
def sampleKeeper : Keeper :=
  ⟨⟨5, 3000000005, some (⟨116444736030000000⟩, 5)⟩, false, false, 0⟩

theorem boot_sample : boot 0 3000000000 5 = some sampleKeeper := by decide +kernel

def sampleTruth : ℤ := 1700000000000000000

def sampleExchange : Exchange :=
  ⟨Exchange.stratumTwo, 3000000005, 1699999997000000000, 40, 2, 30⟩

/-- Its lease names one server, which keeps the time. -/
def sampleRound : Round where
  late := 0
  sources := ⟨[.replicate 4 10], []⟩
  resolvePool _ := []
  attempt _ := ⟨some 3, 72, fun sent => some (sampleExchange.server.answer sampleExchange.received sampleExchange.transmitted sent)⟩
  setting := ⟨fun spec => 0 ≤ spec.1.toInt ∧ spec.1.toInt < 8277292036, 8, 9⟩

theorem honest_sample : HonestRun sampleTruth 70 sampleKeeper [sampleRound] := by
  refine ⟨⟨?_, fun _ => trivial⟩, trivial⟩
  intro datagram hdatagram
  cases hdatagram
  exact ⟨sampleExchange, by decide, by decide, by decide, by decide,
    by constructor <;> (unfold InWindow; decide +kernel), by decide, rfl⟩

theorem sane_sample : Sane sampleRound.setting := fun _ haccepts => of_decide_eq_true haccepts

theorem settable_sample : Settable sampleRound.setting := fun _ hlow hhigh => decide_eq_true ⟨by omega, hhigh⟩

section
variable {truth : ℤ} {delay monotonic anchoring : ℕ} {realtime : ℤ} {keeper : Keeper} {rounds : List Round}

/-- Whatever the servers answer, the wall clock that requests are measured against is never
ahead of the machine's, and behind it by no more than the second it is rounded down to and the
time it takes to anchor it. -/
theorem wall_follows_realtime (slack : ℕ) (hboot : boot monotonic realtime anchoring = some keeper)
    (hsane : ∀ round ∈ rounds, Sane round.setting) (hanchoring : anchoring ≤ slack)
    (hafter : ∀ round ∈ rounds, round.setting.after ≤ slack) (later : ℕ) :
    let clocks := (keeper.run rounds).1.clocks.pass later
    (∃ wall, clocks.now = some wall ∧ 0 ≤ clocks.realtime - unixOf wall ∧
      clocks.realtime - unixOf wall < 10 ^ 9 + 100 + slack) ∨
    (clocks.now = none ∧ 100 * (2 ^ 64 - 116444736000000000) ≤ clocks.realtime) := by
  exact ((((follows_boot hboot).mono hanchoring).run hsane hafter).pass later).now

theorem wall_follows_realtime_sample :
    (∃ wall, ((sampleKeeper.run [sampleRound]).1.clocks.pass 7).now = some wall ∧
      ((sampleKeeper.run [sampleRound]).1.clocks.pass 7).realtime - unixOf wall < 10 ^ 9 + 100 + (9 : ℕ)) ∨
    100 * (2 ^ 64 - 116444736000000000) ≤ ((sampleKeeper.run [sampleRound]).1.clocks.pass 7).realtime := by
  have h := wall_follows_realtime 9 boot_sample (List.forall_mem_singleton.mpr sane_sample) (by decide)
    (List.forall_mem_singleton.mpr (by decide)) 7
  exact h.imp (fun ⟨wall, hnow, _, hlate⟩ => ⟨wall, hnow, hlate⟩) And.right

/-- Where the servers that answer keep the time and the kernel can be set, from the first
answer on the clock stays within a second and a half of the time, and half of the delay. -/
theorem synchronised_stays (hboot : boot monotonic realtime anchoring = some keeper) (hdelay : delay ≤ timeout)
    (hhonest : HonestRun truth delay keeper rounds) (hsettable : ∀ round ∈ rounds, Settable round.setting)
    (hbefore : ∀ round ∈ rounds, round.setting.before < 10 ^ 9)
    (hever : (keeper.run rounds).1.everSynchronised = true) (later : ℕ) :
    2 * |((keeper.run rounds).1.clocks.pass later).behind truth| ≤ delay + 3 * 10 ^ 9 := by
  rw [Clocks.behind_pass]
  refine synchronised_run hdelay hhonest hsettable hbefore (fun hstart => ?_) hever
  rw [never_of_boot hboot] at hstart
  cases hstart

theorem synchronised_stays_sample :
    2 * |((sampleKeeper.run [sampleRound]).1.clocks.pass 7).behind sampleTruth| ≤ (70 : ℕ) + 3 * 10 ^ 9 :=
  synchronised_stays boot_sample (by decide) honest_sample (List.forall_mem_singleton.mpr settable_sample)
    (List.forall_mem_singleton.mpr (by decide)) (by decide +kernel) 7

/-- Then the tolerance of four hours is measured fairly, up to six seconds: no client whose
clock is closer to the time is refused for its clock, and each whose clock is further away is
marked, and refused where clocks are held to it. -/
theorem skew_fair (hboot : boot monotonic realtime anchoring = some keeper) (hdelay : delay ≤ timeout)
    (hhonest : HonestRun truth delay keeper rounds)
    (hsettings : ∀ round ∈ rounds, Sane round.setting ∧ Settable round.setting ∧ round.setting.before < 10 ^ 9 ∧
      round.setting.after < 10 ^ 9) (hanchoring : anchoring < 10 ^ 9)
    (hever : (keeper.run rounds).1.everSynchronised = true) (later : ℕ) {catalogue : Db.Catalogue}
    (features : Policy.Gate.Features) (request : Kms.Request) :
    let clocks := (keeper.run rounds).1.clocks.pass later
    let off := |unixOf ⟨request.clientTime⟩ - (truth + clocks.monotonic)|
    let hostTime := clocks.now.map FileTime.ticks
    (off ≤ Policy.Gate.clockSkewTolerance - 6 * 10 ^ 9 → ∀ skew,
      Policy.Gate.refusal features catalogue request hostTime ≠ some (.clockSkew skew)) ∧
    (Policy.Gate.clockSkewTolerance + 6 * 10 ^ 9 ≤ off → truth + clocks.monotonic < 10 ^ 21 →
      (Policy.Gate.observations catalogue request hostTime).clockSkewed = true ∧
        (features.strictClockSkew = true → (Policy.Gate.refusal features catalogue request hostTime).isSome = true)) := by
  intro clocks off hostTime
  have hsync : 2 * |clocks.behind truth| ≤ delay + 3 * 10 ^ 9 := by
    rw [Clocks.behind_pass]
    exact synchronised_run hdelay hhonest (fun round hmem => (hsettings round hmem).2.1)
      (fun round hmem => (hsettings round hmem).2.2.1) (fun hstart => absurd hstart (by rw [never_of_boot hboot]; decide)) hever
  have hfollows : Follows (10 ^ 9) clocks := ((((follows_boot hboot).mono hanchoring.le).run
    (fun round hmem => (hsettings round hmem).1) fun round hmem => (hsettings round hmem).2.2.2.le).pass later)
  have hover := le_abs_self (clocks.behind truth)
  have hunder := neg_le_abs (clocks.behind truth)
  have hbehind : clocks.behind truth = truth + clocks.monotonic - clocks.realtime := rfl
  have htolerance : Policy.Gate.clockSkewTolerance = 14400 * 10 ^ 9 := rfl
  simp only [timeout] at hdelay
  rcases hfollows.now with ⟨wall, hnow, hlow, hhigh⟩ | ⟨hnow, hlate⟩
  · have hhost : hostTime = some wall.ticks := by simp only [hostTime, hnow, Option.map_some]
    have hskew : (Policy.Gate.absDifference wall.ticks request.clientTime : ℤ) = |unixOf wall - unixOf ⟨request.clientTime⟩| :=
      absDifference_unixOf _ _
    have hmarked : (Policy.Gate.observations catalogue request hostTime).clockSkewed =
        decide (Policy.Gate.clockSkewTolerance < Policy.Gate.absDifference wall.ticks request.clientTime) := by rw [hhost]; rfl
    have hclose : |unixOf wall - (truth + clocks.monotonic)| < 6 * 10 ^ 9 := abs_lt.mpr ⟨by omega, by omega⟩
    have hadd := abs_sub_le (unixOf wall) (truth + clocks.monotonic) (unixOf ⟨request.clientTime⟩)
    have hsub := abs_sub_le (truth + clocks.monotonic : ℤ) (unixOf wall) (unixOf ⟨request.clientTime⟩)
    rw [abs_sub_comm (unixOf wall) (truth + clocks.monotonic)] at hclose hadd
    rw [abs_sub_comm (truth + clocks.monotonic : ℤ) (unixOf ⟨request.clientTime⟩)] at hadd hsub
    refine ⟨fun hoff skew => refusal_ne_clockSkew ?_ skew, fun hoff _ => ?_⟩
    · rw [hmarked]
      exact decide_eq_false (by omega)
    · have hskewed : (Policy.Gate.observations catalogue request hostTime).clockSkewed = true := by
        rw [hmarked]
        exact decide_eq_true (by omega)
      refine ⟨hskewed, fun hstrict => ?_⟩
      rw [hhost] at hskewed ⊢
      exact isSome_refusal hskewed hstrict
  · have hhost : hostTime = none := by simp only [hostTime, hnow, Option.map_none]
    refine ⟨fun _ skew => refusal_ne_clockSkew (by rw [hhost]; rfl) skew, fun _ hearly => ?_⟩
    omega

def sampleRequest : Kms.Request :=
  { Policy.Gate.sampleRequest Policy.Gate.windows Policy.Gate.server2025 with clientTime := 133444736000000000 }

theorem skew_fair_sample : Policy.Gate.refusal ⟨false, true⟩ Policy.Gate.twoKeys sampleRequest
    (((sampleKeeper.run [sampleRound]).1.clocks.pass 7).now.map FileTime.ticks) ≠ some (.clockSkew 0) := by
  have hsettings : ∀ round ∈ [sampleRound], Sane round.setting ∧ Settable round.setting ∧ round.setting.before < 10 ^ 9 ∧
      round.setting.after < 10 ^ 9 :=
    List.forall_mem_singleton.mpr ⟨sane_sample, settable_sample, by decide, by decide⟩
  exact (skew_fair boot_sample (by decide) honest_sample hsettings (by decide) (by decide +kernel) 7 ⟨false, true⟩
    sampleRequest).1 (by decide +kernel) 0

end

end Kmsrs.Os.Sntp
