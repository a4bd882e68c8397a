import Kmsrs.Lib.Rows
import Kmsrs.Lib.Utf8

/-! The log on every console. What the process writes to its standard output is pumped to each
console that the kernel lists. A console that fails is given up and announced on the others; a
console that keeps taking what it is given receives all of it, in order, whatever the others do,
and holds the pump up for at most so long for each byte. -/

namespace Kmsrs.Os.Console

open Text

/-! ### Writing to one console -/

/-- The number of an error, as the kernel gives it. -/
abbrev Errno := ℕ

def eintr : Errno := 4
def eio : Errno := 5
def eagain : Errno := 11

/-- How many refusals in a row before the rest of a write is abandoned. -/
def maxStalls : ℕ := 128

/-- What became of a write: how it ended, if it did, what was taken, how often it paused, and
what the console still has to answer. -/
structure Written where
  ended : Option (Except Errno Unit)
  taken : List UInt8
  pauses : ℕ
  answers : List (Except Errno ℕ)

/-- Write all of some bytes. The console's answers are those it will give to one `write` after
the other; where they end the write is still going on. -/
def writeBounded (stalls : ℕ) (rest : List UInt8) : List (Except Errno ℕ) → Written
  | [] => if rest = [] then ⟨some (.ok ()), [], 0, []⟩ else ⟨none, [], 0, []⟩
  | .ok 0 :: answers => if rest = [] then ⟨some (.ok ()), [], 0, .ok 0 :: answers⟩ else ⟨some (.error eio), [], 0, answers⟩
  | .ok (written + 1) :: answers =>
    if rest = [] then ⟨some (.ok ()), [], 0, .ok (written + 1) :: answers⟩
    else
      let more := writeBounded 0 (rest.drop (written + 1)) answers
      { more with taken := rest.take (written + 1) ++ more.taken }
  | .error error :: answers =>
    if rest = [] then ⟨some (.ok ()), [], 0, .error error :: answers⟩
    else if error = eagain then
      if maxStalls < stalls + 1 then ⟨some (.error eagain), [], 0, answers⟩
      else
        let more := writeBounded (stalls + 1) rest answers
        { more with pauses := more.pauses + 1 }
    else if error = eintr then writeBounded stalls rest answers
    else ⟨some (.error error), [], 0, answers⟩

/-! ### The consoles -/

/-- A console: whether it still accepts output, what it will answer, what it was given and how
often the pump has paused for it. -/
structure Sink where
  name : Text
  writable : Bool
  answers : List (Except Errno ℕ)
  output : List UInt8
  pauses : ℕ

namespace Sink

/-- Offer a console some bytes. -/
def offer (sink : Sink) (bytes : List UInt8) : Option (Except Errno Unit) × Sink :=
  let written := writeBounded 0 bytes sink.answers
  (written.ended, { sink with
    answers := written.answers
    output := sink.output ++ written.taken
    pauses := sink.pauses + written.pauses })

end Sink

/-- The consoles after a pass over them, those that were lost, and whether the pass has ended. -/
structure Pass where
  sinks : List Sink
  lost : List (Text × Errno)
  ended : Bool

/-- Write one chunk to every console that still accepts output. -/
def writeChunk (bytes : List UInt8) : List Sink → Pass
  | [] => ⟨[], [], true⟩
  | sink :: sinks =>
    if sink.writable then
      match sink.offer bytes with
      | (none, sink) => ⟨sink :: sinks, [], false⟩
      | (some (.ok ()), sink) =>
        let pass := writeChunk bytes sinks
        { pass with sinks := sink :: pass.sinks }
      | (some (.error error), sink) =>
        let pass := writeChunk bytes sinks
        { pass with sinks := { sink with writable := false } :: pass.sinks, lost := (sink.name, error) :: pass.lost }
    else
      let pass := writeChunk bytes sinks
      { pass with sinks := sink :: pass.sinks }

/-- Tell every console that still accepts output; one that fails meanwhile is caught on the next chunk. -/
def tell (notice : List UInt8) : List Sink → List Sink × Bool
  | [] => ([], true)
  | sink :: sinks =>
    if sink.writable then
      match sink.offer notice with
      | (none, sink) => (sink :: sinks, false)
      | (some _, sink) =>
        let (sinks, ended) := tell notice sinks
        (sink :: sinks, ended)
    else
      let (sinks, ended) := tell notice sinks
      (sink :: sinks, ended)

def tellAll : List (List UInt8) → List Sink → List Sink × Bool
  | [], sinks => (sinks, true)
  | notice :: notices, sinks =>
    let (sinks, ended) := tell notice sinks
    if ended then tellAll notices sinks else (sinks, false)

/-- What is said of a console that was lost; how an error reads is not the program's to say. -/
def notice (describe : Errno → Text) (lost : Text × Errno) : List UInt8 :=
  toUtf8 ("\x7b\"level\":\"warn\",\"event\":\"console\",\"detail\":\"stopped writing to ".toList ++ lost.1 ++ ": ".toList ++
    describe lost.2 ++ "\"\x7d\n".toList)

/-- `Tee::write` -/
def write (describe : Errno → Text) (bytes : List UInt8) (sinks : List Sink) : List Sink × Bool :=
  let pass := writeChunk bytes sinks
  if pass.ended then tellAll (pass.lost.map (notice describe)) pass.sinks else (pass.sinks, false)

/-- The pump, for what it reads from the pipe: the consoles, and whether it is between two
reads or has come to its end. -/
def pump (describe : Errno → Text) : List (Except Errno (List UInt8)) → List Sink → List Sink × Bool
  | [], sinks => (sinks, true)
  | .ok [] :: _, sinks => (sinks, true)
  | .ok (byte :: bytes) :: reads, sinks =>
    let (sinks, ended) := write describe (byte :: bytes) sinks
    if ended then pump describe reads sinks else (sinks, false)
  | .error error :: reads, sinks => if error = eintr then pump describe reads sinks else (sinks, true)

/-! ### What a console hears -/

/-- A chunk, and the consoles that were lost with it. -/
structure Round where
  chunk : List UInt8
  lost : List (Text × Errno)

def Round.notices (describe : Errno → Text) (round : Round) : List (List UInt8) := round.lost.map (notice describe)

/-- What is read from the pipe until it ends. -/
def received : List (Except Errno (List UInt8)) → List (List UInt8)
  | [] => []
  | .ok [] :: _ => []
  | .ok (byte :: bytes) :: reads => (byte :: bytes) :: received reads
  | .error error :: reads => if error = eintr then received reads else []

/-- The chunks that are pumped, each with the consoles that were lost with it. -/
def history (describe : Errno → Text) : List (Except Errno (List UInt8)) → List Sink → List Round
  | [], _ => []
  | .ok [] :: _, _ => []
  | .ok (byte :: bytes) :: reads, sinks =>
    ⟨byte :: bytes, (writeChunk (byte :: bytes) sinks).lost⟩ :: history describe reads (write describe (byte :: bytes) sinks).1
  | .error error :: reads, sinks => if error = eintr then history describe reads sinks else []

/-- What a chunk can do to a console. -/
inductive Chunked (bytes : List UInt8) (lost : List (Text × Errno)) (sink : Sink) : Sink → Prop
  | deaf : sink.writable = false → Chunked bytes lost sink sink
  | took : sink.writable = true → (sink.offer bytes).1 = some (.ok ()) → Chunked bytes lost sink (sink.offer bytes).2
  | failed {error : Errno} : sink.writable = true → (sink.offer bytes).1 = some (.error error) → (sink.name, error) ∈ lost →
    Chunked bytes lost sink { (sink.offer bytes).2 with writable := false }

/-- What a notice can do to a console. -/
inductive Noticed (notice : List UInt8) (sink : Sink) : Sink → Prop
  | deaf : sink.writable = false → Noticed notice sink sink
  | heard {ended : Except Errno Unit} : sink.writable = true → (sink.offer notice).1 = some ended →
    Noticed notice sink (sink.offer notice).2

inductive NoticedAll : List (List UInt8) → Sink → Sink → Prop
  | nil {sink : Sink} : NoticedAll [] sink sink
  | cons {notice : List UInt8} {notices : List (List UInt8)} {sink next last : Sink} : Noticed notice sink next →
    NoticedAll notices next last → NoticedAll (notice :: notices) sink last

/-- A console through some rounds. -/
inductive Follows (describe : Errno → Text) : List Round → Sink → Sink → Prop
  | nil {sink : Sink} : Follows describe [] sink sink
  | cons {round : Round} {rounds : List Round} {sink given told last : Sink} : Chunked round.chunk round.lost sink given →
    NoticedAll (round.notices describe) given told → Follows describe rounds told last →
    Follows describe (round :: rounds) sink last

theorem Chunked.cons_lost {bytes : List UInt8} {lost : List (Text × Errno)} {sink given : Sink} (console : Text × Errno)
    (h : Chunked bytes lost sink given) : Chunked bytes (console :: lost) sink given := by
  cases h with
  | deaf hdeaf => exact .deaf hdeaf
  | took hwritable hended => exact .took hwritable hended
  | failed hwritable hended hlost => exact .failed hwritable hended (List.mem_cons_of_mem _ hlost)

theorem chunked_of_ended {bytes : List UInt8} {sinks : List Sink} (hended : (writeChunk bytes sinks).ended = true) :
    List.Forall₂ (Chunked bytes (writeChunk bytes sinks).lost) sinks (writeChunk bytes sinks).sinks := by
  induction sinks with
  | nil => exact .nil
  | cons sink sinks ih =>
    rw [writeChunk] at hended ⊢
    cases hwritable : sink.writable with
    | false =>
      simp only [hwritable, Bool.false_eq_true, if_false] at hended ⊢
      exact .cons (.deaf hwritable) (ih hended)
    | true =>
      simp only [hwritable, if_true] at hended ⊢
      rcases hoffer : sink.offer bytes with ⟨_ | error | _, offered⟩
      · simp [hoffer] at hended
      · simp only [hoffer] at hended ⊢
        have hname : sink.name = offered.name := congrArg (fun offer => offer.2.name) hoffer
        have hfailed : Chunked bytes ((offered.name, error) :: (writeChunk bytes sinks).lost) sink
            { (sink.offer bytes).2 with writable := false } :=
          .failed hwritable (congrArg Prod.fst hoffer) (hname ▸ List.mem_cons_self)
        rw [hoffer] at hfailed
        exact .cons hfailed ((ih hended).imp fun _ _ h => h.cons_lost _)
      · simp only [hoffer] at hended ⊢
        have htook : Chunked bytes (writeChunk bytes sinks).lost sink (sink.offer bytes).2 :=
          .took hwritable (congrArg Prod.fst hoffer)
        rw [hoffer] at htook
        exact .cons htook (ih hended)

theorem noticed_of_ended {notice : List UInt8} {sinks : List Sink} (hended : (tell notice sinks).2 = true) :
    List.Forall₂ (Noticed notice) sinks (tell notice sinks).1 := by
  induction sinks with
  | nil => exact .nil
  | cons sink sinks ih =>
    rw [tell] at hended ⊢
    cases hwritable : sink.writable with
    | false =>
      simp only [hwritable, Bool.false_eq_true, if_false] at hended ⊢
      exact .cons (.deaf hwritable) (ih hended)
    | true =>
      simp only [hwritable, if_true] at hended ⊢
      rcases hoffer : sink.offer notice with ⟨_ | ended, offered⟩
      · simp [hoffer] at hended
      · simp only [hoffer] at hended ⊢
        have hheard : Noticed notice sink (sink.offer notice).2 := .heard hwritable (congrArg Prod.fst hoffer)
        rw [hoffer] at hheard
        exact .cons hheard (ih hended)

theorem noticedAll_of_ended {notices : List (List UInt8)} {sinks : List Sink} (hended : (tellAll notices sinks).2 = true) :
    List.Forall₂ (NoticedAll notices) sinks (tellAll notices sinks).1 := by
  induction notices generalizing sinks with
  | nil =>
    rw [tellAll]
    exact List.forall₂_same.mpr fun _ _ => .nil
  | cons notice notices ih =>
    rw [tellAll] at hended ⊢
    cases htold : (tell notice sinks).2 with
    | false => simp [htold] at hended
    | true =>
      simp only [htold, if_true] at hended ⊢
      exact forall₂_mono_comp .cons (noticed_of_ended htold) (ih hended)

theorem write_of_ended {describe : Errno → Text} {bytes : List UInt8} {sinks : List Sink}
    (hended : (write describe bytes sinks).2 = true) :
    List.Forall₂ (fun sink told => ∃ given, Chunked bytes (writeChunk bytes sinks).lost sink given ∧
        NoticedAll ((writeChunk bytes sinks).lost.map (notice describe)) given told)
      sinks (write describe bytes sinks).1 := by
  rw [write] at hended ⊢
  cases hpass : (writeChunk bytes sinks).ended with
  | false => simp [hpass] at hended
  | true =>
    simp only [hpass, if_true] at hended ⊢
    exact forall₂_mono_comp (fun hgiven htold => ⟨_, hgiven, htold⟩) (chunked_of_ended hpass) (noticedAll_of_ended hended)

/-- The pump leads each console through the same rounds, whatever the others do. -/
theorem follows_of_ended (describe : Errno → Text) {reads : List (Except Errno (List UInt8))} {sinks : List Sink}
    (hended : (pump describe reads sinks).2 = true) :
    List.Forall₂ (Follows describe (history describe reads sinks)) sinks (pump describe reads sinks).1 := by
  induction reads generalizing sinks with
  | nil => exact List.forall₂_same.mpr fun _ _ => .nil
  | cons read reads ih =>
    rcases read with error | (_ | ⟨byte, bytes⟩)
    · rw [pump] at hended ⊢
      rw [history]
      by_cases hagain : error = eintr
      · simp only [if_pos hagain] at hended ⊢
        exact ih hended
      · simp only [if_neg hagain]
        exact List.forall₂_same.mpr fun _ _ => .nil
    · exact List.forall₂_same.mpr fun _ _ => .nil
    · rw [pump] at hended ⊢
      cases hwrite : (write describe (byte :: bytes) sinks).2 with
      | false => simp [hwrite] at hended
      | true =>
        simp only [hwrite, if_true] at hended ⊢
        exact forall₂_mono_comp (fun ⟨_, hgiven, htold⟩ hlater => .cons hgiven htold hlater) (write_of_ended hwrite) (ih hended)

theorem chunks_history {describe : Errno → Text} {reads : List (Except Errno (List UInt8))} {sinks : List Sink} :
    (history describe reads sinks).map Round.chunk = received reads := by
  induction reads generalizing sinks with
  | nil => rfl
  | cons read reads ih =>
    rcases read with error | (_ | ⟨byte, bytes⟩)
    · rw [history, received]
      split_ifs
      · exact ih
      · rfl
    · rfl
    · rw [history, received, List.map_cons, ih]

/-! ### Which consoles are lost -/

/-- The names of the consoles that accept no more output. -/
def dead (sinks : List Sink) : List Text := (sinks.filter fun sink => !sink.writable).map Sink.name

theorem dead_cons (sink : Sink) (sinks : List Sink) :
    dead (sink :: sinks) = if sink.writable then dead sinks else sink.name :: dead sinks := by
  cases hwritable : sink.writable <;> simp [dead, hwritable]

theorem dead_writeChunk (bytes : List UInt8) (sinks : List Sink) :
    (dead (writeChunk bytes sinks).sinks).Perm ((writeChunk bytes sinks).lost.map Prod.fst ++ dead sinks) := by
  induction sinks with
  | nil => exact .refl _
  | cons sink sinks ih =>
    rw [writeChunk, dead_cons]
    cases hwritable : sink.writable with
    | false =>
      simp only [Bool.false_eq_true, if_false, dead_cons, hwritable]
      exact (ih.cons _).trans List.perm_middle.symm
    | true =>
      have hstill : (sink.offer bytes).2.writable = true := hwritable
      rcases hoffer : sink.offer bytes with ⟨_ | _ | _, offered⟩
      · rw [hoffer] at hstill
        simp only [if_true, dead_cons, show offered.writable = true from hstill, List.map_nil, List.nil_append]
        exact .refl _
      · simp only [if_true, dead_cons, Bool.false_eq_true, if_false, List.map_cons, List.cons_append]
        exact ih.cons _
      · rw [hoffer] at hstill
        simp only [if_true, dead_cons, show offered.writable = true from hstill]
        exact ih

theorem dead_of_kept {sinks told : List Sink}
    (h : List.Forall₂ (fun sink told : Sink => told.name = sink.name ∧ told.writable = sink.writable) sinks told) :
    dead told = dead sinks := by
  induction h with
  | nil => rfl
  | cons hhead _ ih => rw [dead_cons, dead_cons, hhead.1, hhead.2, ih]

theorem Noticed.kept {notice : List UInt8} {sink told : Sink} (h : Noticed notice sink told) :
    told.name = sink.name ∧ told.writable = sink.writable := by
  cases h <;> exact ⟨rfl, rfl⟩

theorem NoticedAll.kept {notices : List (List UInt8)} {sink told : Sink} (h : NoticedAll notices sink told) :
    told.name = sink.name ∧ told.writable = sink.writable := by
  induction h with
  | nil => exact ⟨rfl, rfl⟩
  | cons hhead _ ih => exact ⟨ih.1.trans hhead.kept.1, ih.2.trans hhead.kept.2⟩

theorem dead_write {describe : Errno → Text} {bytes : List UInt8} {sinks : List Sink}
    (hended : (write describe bytes sinks).2 = true) :
    (dead (write describe bytes sinks).1).Perm ((writeChunk bytes sinks).lost.map Prod.fst ++ dead sinks) := by
  rw [write] at hended ⊢
  cases hpass : (writeChunk bytes sinks).ended with
  | false => simp [hpass] at hended
  | true =>
    simp only [hpass, if_true] at hended ⊢
    rw [dead_of_kept ((noticedAll_of_ended hended).imp fun _ _ h => h.kept)]
    exact dead_writeChunk bytes sinks

/-- Each console that accepts no more output was announced in one round. -/
theorem dead_pump {describe : Errno → Text} {reads : List (Except Errno (List UInt8))} {sinks : List Sink}
    (hended : (pump describe reads sinks).2 = true) :
    (dead (pump describe reads sinks).1).Perm
      ((history describe reads sinks).flatMap (fun round => round.lost.map Prod.fst) ++ dead sinks) := by
  induction reads generalizing sinks with
  | nil => exact .refl _
  | cons read reads ih =>
    rcases read with error | (_ | ⟨byte, bytes⟩)
    · rw [pump] at hended ⊢
      rw [history]
      split_ifs with hagain
      · simp only [if_pos hagain] at hended
        exact ih hended
      · exact .refl _
    · exact .refl _
    · rw [pump] at hended ⊢
      cases hwrite : (write describe (byte :: bytes) sinks).2 with
      | false => simp [hwrite] at hended
      | true =>
        simp only [hwrite, if_true] at hended ⊢
        refine (ih hended).trans ?_
        rw [history, List.flatMap_cons, List.append_assoc]
        exact ((dead_write hwrite).append_left _).trans (List.perm_append_comm_assoc _ _ _)

/-! ### One write -/

theorem writeBounded_nil (stalls : ℕ) (answers : List (Except Errno ℕ)) :
    writeBounded stalls [] answers = ⟨some (.ok ()), [], 0, answers⟩ := by
  rcases answers with _ | ⟨_ | _ | _, answers⟩ <;> rfl

theorem taken_begins (stalls : ℕ) (rest : List UInt8) (answers : List (Except Errno ℕ)) :
    (writeBounded stalls rest answers).taken <+: rest := by
  induction answers generalizing stalls rest with
  | nil =>
    rw [writeBounded]
    split_ifs <;> exact List.nil_prefix
  | cons answer answers ih =>
    rcases answer with error | _ | written
    · rw [writeBounded]
      split_ifs
      · exact List.nil_prefix
      · exact List.nil_prefix
      · exact ih (stalls + 1) rest
      · exact ih stalls rest
      · exact List.nil_prefix
    · rw [writeBounded]
      split_ifs <;> exact List.nil_prefix
    · rw [writeBounded]
      split_ifs
      · exact List.nil_prefix
      · have hmore := (List.prefix_append_right_inj (rest.take (written + 1))).mpr (ih 0 (rest.drop (written + 1)))
        rwa [List.take_append_drop] at hmore

/-- A write ends well just when all was taken. -/
theorem ended_iff (stalls : ℕ) (rest : List UInt8) (answers : List (Except Errno ℕ)) :
    (writeBounded stalls rest answers).ended = some (.ok ()) ↔ (writeBounded stalls rest answers).taken = rest := by
  induction answers generalizing stalls rest with
  | nil =>
    rw [writeBounded]
    split_ifs with hrest
    · simp [hrest]
    · simp [Ne.symm hrest]
  | cons answer answers ih =>
    by_cases hrest : rest = []
    · rw [hrest, writeBounded_nil]
      simp
    rcases answer with error | _ | written
    · rw [writeBounded, if_neg hrest]
      split_ifs
      · simp [Ne.symm hrest]
      · exact ih (stalls + 1) rest
      · exact ih stalls rest
      · simp [Ne.symm hrest]
    · rw [writeBounded, if_neg hrest]
      simp [Ne.symm hrest]
    · rw [writeBounded, if_neg hrest]
      refine (ih 0 (rest.drop (written + 1))).trans ?_
      have hcut := List.take_append_drop (written + 1) rest
      constructor
      · intro htaken
        change rest.take (written + 1) ++ (writeBounded 0 (rest.drop (written + 1)) answers).taken = rest
        rw [htaken, hcut]
      · intro htaken
        exact List.append_cancel_left (htaken.trans hcut.symm)

/-- The answers at which a write is given up, after so many refusals in a row, and the error of
it. -/
def Refused (stalls : ℕ) (spent : List (Except Errno ℕ)) (error : Errno) : Prop :=
  ∃ before, spent = before ++ [.ok 0] ∧ error = eio ∨
    spent = before ++ [.error error] ∧ error ≠ eintr ∧ (error = eagain → maxStalls < stalls + spent.count (.error eagain))

theorem Refused.cons {answer : Except Errno ℕ} {stalls stalls' : ℕ} {spent : List (Except Errno ℕ)} {error : Errno}
    (h : Refused stalls' spent error) (hstalls : stalls' ≤ stalls + [answer].count (.error eagain)) :
    Refused stalls (answer :: spent) error := by
  obtain ⟨before, ⟨rfl, rfl⟩ | ⟨hspent, herror, hagain⟩⟩ := h
  · exact ⟨answer :: before, .inl ⟨rfl, rfl⟩⟩
  · refine ⟨answer :: before, .inr ⟨by rw [hspent, List.cons_append], herror, fun hsame => ?_⟩⟩
    have hmany := hagain hsame
    rw [← List.singleton_append, List.count_append]
    omega

/-- What a write has used up of a console's answers; where it failed they end in a refusal. -/
theorem exists_spent {stalls : ℕ} {rest : List UInt8} {answers : List (Except Errno ℕ)} {ended : Except Errno Unit}
    (h : (writeBounded stalls rest answers).ended = some ended) :
    ∃ spent, answers = spent ++ (writeBounded stalls rest answers).answers ∧
      ∀ error, ended = .error error → Refused stalls spent error := by
  by_cases hrest : rest = []
  · rw [hrest, writeBounded_nil] at h ⊢
    obtain rfl := Option.some.inj h
    exact ⟨[], rfl, fun error herror => nomatch herror⟩
  induction answers generalizing stalls rest with
  | nil =>
    rw [writeBounded, if_neg hrest] at h
    cases h
  | cons answer answers ih =>
    -- the answer in front was used up, whatever became of the rest
    have hcons {stalls' : ℕ} {rest' : List UInt8} (hrest' : rest' ≠ [])
        (hended : (writeBounded stalls' rest' answers).ended = some ended)
        (hstalls : stalls' ≤ stalls + [answer].count (.error eagain)) :
        ∃ spent, answer :: answers = spent ++ (writeBounded stalls' rest' answers).answers ∧
          ∀ error, ended = .error error → Refused stalls spent error := by
      obtain ⟨spent, hspent, hrefused⟩ := ih hended hrest'
      exact ⟨answer :: spent, by rw [List.cons_append, ← hspent], fun error herror => (hrefused error herror).cons hstalls⟩
    rcases answer with error | _ | written
    · rw [writeBounded, if_neg hrest] at h ⊢
      split_ifs at h ⊢ with hagain hmany hintr
      · obtain rfl := Option.some.inj h
        refine ⟨[.error error], rfl, fun _ hsame => ?_⟩
        cases hsame
        refine ⟨[], .inr ⟨by rw [hagain]; rfl, by decide, fun _ => ?_⟩⟩
        rw [hagain, List.count_singleton_self]
        exact hmany
      · exact hcons hrest h (by rw [hagain, List.count_singleton_self])
      · exact hcons hrest h (Nat.le_add_right _ _)
      · obtain rfl := Option.some.inj h
        refine ⟨[.error error], rfl, fun _ hsame => ?_⟩
        cases hsame
        exact ⟨[], .inr ⟨rfl, hintr, fun hsame => absurd hsame hagain⟩⟩
    · rw [writeBounded, if_neg hrest] at h ⊢
      obtain rfl := Option.some.inj h
      refine ⟨[.ok 0], rfl, fun _ hsame => ?_⟩
      cases hsame
      exact ⟨[], .inl ⟨rfl, rfl⟩⟩
    · rw [writeBounded, if_neg hrest] at h ⊢
      by_cases hmore : rest.drop (written + 1) = []
      · rw [hmore, writeBounded_nil] at h ⊢
        obtain rfl := Option.some.inj h
        exact ⟨[.ok (written + 1)], rfl, fun error herror => nomatch herror⟩
      · exact hcons hmore h (Nat.zero_le _)

/-- A console that keeps taking something: it never fails, and refuses no more than so often in a row. -/
def Steady : (stalls : ℕ) → List (Except Errno ℕ) → Prop
  | _, [] => True
  | _, .ok written :: answers => written ≠ 0 ∧ Steady 0 answers
  | stalls, .error error :: answers =>
    if error = eagain then stalls < maxStalls ∧ Steady (stalls + 1) answers else error = eintr ∧ Steady stalls answers

/-- A steady console takes all it is given, with no more pauses than so many for each byte, and
is steady still. -/
theorem writeBounded_of_steady {stalls : ℕ} {rest : List UInt8} {answers : List (Except Errno ℕ)} (hrest : rest ≠ [])
    (hstalls : stalls ≤ maxStalls) (h : Steady stalls answers) :
    (∀ error, (writeBounded stalls rest answers).ended ≠ some (.error error)) ∧
      ((writeBounded stalls rest answers).ended = some (.ok ()) →
        Steady 0 (writeBounded stalls rest answers).answers ∧
        (writeBounded stalls rest answers).pauses + stalls ≤ maxStalls * (writeBounded stalls rest answers).taken.length) := by
  induction answers generalizing stalls rest with
  | nil =>
    rw [writeBounded, if_neg hrest]
    simp
  | cons answer answers ih =>
    rcases answer with error | _ | written
    · rw [writeBounded, if_neg hrest]
      rw [Steady] at h
      split_ifs at h ⊢ with hagain hmany
      · omega
      · obtain ⟨hnever, hwhole⟩ := ih hrest (show stalls + 1 ≤ maxStalls from h.1) h.2
        refine ⟨hnever, fun hended => ⟨(hwhole hended).1, ?_⟩⟩
        have hpauses := (hwhole hended).2
        change (writeBounded (stalls + 1) rest answers).pauses + 1 + stalls ≤
          maxStalls * (writeBounded (stalls + 1) rest answers).taken.length
        omega
      · exact ih hrest hstalls h.2
      · exact absurd h.1 ‹_›
    · exact absurd rfl h.1
    · rw [writeBounded, if_neg hrest]
      have hsome : 1 ≤ (rest.take (written + 1)).length := by
        have := List.length_pos_iff.mpr hrest
        rw [List.length_take]
        omega
      have hmax : maxStalls = 128 := rfl
      by_cases hmore : rest.drop (written + 1) = []
      · rw [hmore, writeBounded_nil]
        refine ⟨fun _ hended => by simp at hended, fun _ => ⟨h.2, ?_⟩⟩
        change 0 + stalls ≤ maxStalls * (rest.take (written + 1) ++ []).length
        rw [List.append_nil, hmax]
        omega
      · obtain ⟨hnever, hwhole⟩ := ih hmore (Nat.zero_le _) h.2
        refine ⟨hnever, fun hended => ⟨(hwhole hended).1, ?_⟩⟩
        have hpauses := (hwhole hended).2
        change (writeBounded 0 (rest.drop (written + 1)) answers).pauses + stalls ≤
          maxStalls * (rest.take (written + 1) ++ (writeBounded 0 (rest.drop (written + 1)) answers).taken).length
        rw [hmax] at hpauses ⊢
        rw [List.length_append]
        omega

/-! ### Whole runs -/

variable {describe : Errno → Text}

/-- Each notice, whole unless the console refused it; with the answers that were used up. -/
inductive Told : List (List UInt8) → (spent : List (Except Errno ℕ)) → List UInt8 → Prop
  | nil : Told [] [] []
  | whole {notice told : List UInt8} {notices : List (List UInt8)} {spent later : List (Except Errno ℕ)} :
    Told notices later told → Told (notice :: notices) (spent ++ later) (notice ++ told)
  | refused {notice part told : List UInt8} {notices : List (List UInt8)} {spent later : List (Except Errno ℕ)} {error : Errno} :
    part <+: notice → part ≠ notice → Refused 0 spent error → Told notices later told →
    Told (notice :: notices) (spent ++ later) (part ++ told)

/-- What a console has been given after some rounds, while it accepts output and after, and
the answers that were used up. -/
inductive Heard (describe : Errno → Text) (console : Text) :
    List Round → (writable : Bool) → (spent : List (Except Errno ℕ)) → List UInt8 → Prop
  | fresh : Heard describe console [] true [] []
  | took {rounds : List Round} {output told : List UInt8} {spent taking telling : List (Except Errno ℕ)} (round : Round) :
    Heard describe console rounds true spent output → Told (round.notices describe) telling told →
    Heard describe console (rounds ++ [round]) true (spent ++ taking ++ telling) (output ++ round.chunk ++ told)
  | failed {rounds : List Round} {output part : List UInt8} {spent taking : List (Except Errno ℕ)} {error : Errno} (round : Round) :
    Heard describe console rounds true spent output → part <+: round.chunk → part ≠ round.chunk → Refused 0 taking error →
    (console, error) ∈ round.lost → Heard describe console (rounds ++ [round]) false (spent ++ taking) (output ++ part)
  | deaf {rounds : List Round} {output : List UInt8} {spent : List (Except Errno ℕ)} (round : Round) :
    Heard describe console rounds false spent output → Heard describe console (rounds ++ [round]) false spent output

theorem NoticedAll.eq_of_deaf {notices : List (List UInt8)} {sink told : Sink} (h : NoticedAll notices sink told)
    (hdeaf : sink.writable = false) : told = sink := by
  induction h with
  | nil => rfl
  | cons hhead _ ih =>
    cases hhead with
    | deaf _ => exact ih hdeaf
    | heard hwritable _ =>
      rw [hwritable] at hdeaf
      cases hdeaf

/-- What an offer that has ended gave a console, and the answers that it used up. -/
theorem Sink.given_of_ended {sink : Sink} {bytes : List UInt8} {ended : Except Errno Unit}
    (hended : (sink.offer bytes).1 = some ended) :
    ∃ spent part, sink.answers = spent ++ (sink.offer bytes).2.answers ∧ (sink.offer bytes).2.output = sink.output ++ part ∧
      (ended = .ok () ∧ part = bytes ∨
        ∃ error, ended = .error error ∧ part <+: bytes ∧ part ≠ bytes ∧ Refused 0 spent error) := by
  change (writeBounded 0 bytes sink.answers).ended = some ended at hended
  obtain ⟨spent, hspent, hrefused⟩ := exists_spent hended
  refine ⟨spent, (writeBounded 0 bytes sink.answers).taken, hspent, rfl, ?_⟩
  rcases ended with error | _
  · refine .inr ⟨error, rfl, taken_begins 0 bytes sink.answers, fun hall => ?_, hrefused error rfl⟩
    rw [(ended_iff 0 bytes sink.answers).mpr hall] at hended
    cases hended
  · exact .inl ⟨rfl, (ended_iff 0 bytes sink.answers).mp hended⟩

theorem NoticedAll.told {notices : List (List UInt8)} {sink last : Sink} (h : NoticedAll notices sink last)
    (hwritable : sink.writable = true) :
    ∃ spent told, sink.answers = spent ++ last.answers ∧ Told notices spent told ∧ last.output = sink.output ++ told := by
  induction h with
  | nil => exact ⟨[], [], rfl, .nil, (List.append_nil _).symm⟩
  | @cons notice notices sink next last hhead _ ih =>
    cases hhead with
    | deaf hdeaf =>
      rw [hwritable] at hdeaf
      cases hdeaf
    | heard _ hended =>
      obtain ⟨later, told, hlater, htold, houtput⟩ := ih hwritable
      obtain ⟨spent, part, hspent, hpart, hgiven⟩ := Sink.given_of_ended hended
      refine ⟨spent ++ later, part ++ told, ?_, ?_, ?_⟩
      · rw [hspent, hlater, List.append_assoc]
      · rcases hgiven with ⟨-, rfl⟩ | ⟨_, -, hbegins, hshort, hrefused⟩
        · exact .whole htold
        · exact .refused hbegins hshort hrefused htold
      · rw [houtput, hpart, List.append_assoc]

/-- Where a console stands: what it has heard, by the answers it has used up of those it had. -/
def Sink.Stands (describe : Errno → Text) (rounds : List Round) (console : Text × List (Except Errno ℕ)) (sink : Sink) : Prop :=
  sink.name = console.1 ∧
    ∃ spent, console.2 = spent ++ sink.answers ∧ Heard describe console.1 rounds sink.writable spent sink.output

theorem Sink.Stands.round {rounds : List Round} {round : Round} {console : Text × List (Except Errno ℕ)} {sink given told : Sink}
    (h : sink.Stands describe rounds console) (hgiven : Chunked round.chunk round.lost sink given)
    (htold : NoticedAll (round.notices describe) given told) : told.Stands describe (rounds ++ [round]) console := by
  obtain ⟨hname, spent, hanswers, hheard⟩ := h
  cases hgiven with
  | deaf hdeaf =>
    rw [htold.eq_of_deaf hdeaf]
    rw [hdeaf] at hheard
    exact ⟨hname, spent, hanswers, by rw [hdeaf]; exact hheard.deaf round⟩
  | took hwritable hended =>
    obtain ⟨taking, part, htaking, hpart, ⟨-, rfl⟩ | ⟨_, herror, -⟩⟩ := Sink.given_of_ended hended
    · obtain ⟨telling, notices, htelling, hnotices, houtput⟩ := htold.told hwritable
      rw [hwritable] at hheard
      refine ⟨htold.kept.1.trans hname, spent ++ taking ++ telling, ?_, ?_⟩
      · rw [hanswers, htaking, htelling, List.append_assoc, List.append_assoc]
      · rw [htold.kept.2, houtput, hpart, show (sink.offer round.chunk).2.writable = true from hwritable]
        exact hheard.took round hnotices
    · cases herror
  | failed hwritable hended hlost =>
    obtain ⟨taking, part, htaking, hpart, ⟨herror, -⟩ | ⟨_, herror, hbegins, hshort, hrefused⟩⟩ := Sink.given_of_ended hended
    · cases herror
    · cases herror
      rw [htold.eq_of_deaf rfl]
      rw [hwritable] at hheard
      refine ⟨hname, spent ++ taking, by rw [hanswers, htaking, List.append_assoc], ?_⟩
      change Heard describe console.1 (rounds ++ [round]) false (spent ++ taking) (sink.offer round.chunk).2.output
      rw [hpart]
      exact hheard.failed round hbegins hshort hrefused (hname ▸ hlost)

theorem Sink.Stands.follows {before rounds : List Round} {console : Text × List (Except Errno ℕ)} {sink last : Sink}
    (h : sink.Stands describe before console) (hfollows : Follows describe rounds sink last) :
    last.Stands describe (before ++ rounds) console := by
  induction hfollows generalizing before with
  | nil => rwa [List.append_nil]
  | cons hgiven htold _ ih =>
    rw [List.append_cons]
    exact ih (h.round hgiven htold)

/-- A console as it is opened. -/
def Sink.fresh (console : Text × List (Except Errno ℕ)) : Sink := ⟨console.1, true, console.2, [], 0⟩

theorem dead_fresh (consoles : List (Text × List (Except Errno ℕ))) : dead (consoles.map Sink.fresh) = [] := by
  induction consoles with
  | nil => rfl
  | cons console consoles ih =>
    rw [List.map_cons, dead_cons, ih]
    rfl

section
variable (describe : Errno → Text) (consoles : List (Text × List (Except Errno ℕ))) (reads : List (Except Errno (List UInt8)))

/-- The rounds of a run, from consoles as they are opened. -/
def rounds : List Round := history describe reads (consoles.map Sink.fresh)

/-- The consoles when the pump has come to its end. -/
def pumped : List Sink := (pump describe reads (consoles.map Sink.fresh)).1

variable (hended : (pump describe reads (consoles.map Sink.fresh)).2 = true)
include hended

theorem dead_pumped : (dead (pumped describe consoles reads)).Perm
    ((rounds describe consoles reads).flatMap fun round => round.lost.map Prod.fst) := by
  have hdead := dead_pump hended
  rwa [dead_fresh, List.append_nil] at hdead

/-- However the consoles behave, each that still accepts output has been given every chunk that
was pumped, whole and in order, and after each the notices of those that were lost with it, whole
unless it refused them; one that failed has been given every chunk before and its notices, a part
of the chunk it refused and nothing more, and is lost in that round; and each that failed is lost
in one round only. -/
theorem consoles_hear :
    (rounds describe consoles reads).map Round.chunk = received reads ∧
      List.Forall₂ (fun console sink => sink.Stands describe (rounds describe consoles reads) console) consoles
        (pumped describe consoles reads) ∧
      (dead (pumped describe consoles reads)).Perm
        ((rounds describe consoles reads).flatMap fun round => round.lost.map Prod.fst) := by
  refine ⟨chunks_history, ?_, dead_pumped describe consoles reads hended⟩
  refine (List.forall₂_map_left_iff.mp (follows_of_ended describe hended)).imp fun console sink hfollows => ?_
  have hfresh : (Sink.fresh console).Stands describe [] console := ⟨rfl, [], rfl, .fresh⟩
  exact hfresh.follows hfollows

end

/-- One console is slow, the other goes away in the middle of the first chunk. -/
def sampleConsoles : List (Text × List (Except Errno ℕ)) :=
  [("tty0".toList, [.error eagain, .ok 3, .error eintr, .ok 500, .ok 500, .ok 1]), ("ttyS0".toList, [.ok 2, .error eio])]

def sampleReads : List (Except Errno (List UInt8)) := [.ok [1, 2, 3, 4, 5], .error eintr, .ok [6], .ok []]

def sampleDescribe (_ : Errno) : Text := "Input/output error (os error 5)".toList

theorem ended_sample : (pump sampleDescribe sampleReads (sampleConsoles.map Sink.fresh)).2 = true := by decide +kernel

theorem consoles_hear_sample :
    List.Forall₂ (fun console sink => sink.Stands sampleDescribe (rounds sampleDescribe sampleConsoles sampleReads) console)
        sampleConsoles (pumped sampleDescribe sampleConsoles sampleReads) ∧
      (rounds sampleDescribe sampleConsoles sampleReads).map Round.chunk = [[1, 2, 3, 4, 5], [6]] ∧
      (rounds sampleDescribe sampleConsoles sampleReads).map Round.lost = [[("ttyS0".toList, eio)], []] ∧
      dead (pumped sampleDescribe sampleConsoles sampleReads) = ["ttyS0".toList] := by
  obtain ⟨hchunks, hstands, -⟩ := consoles_hear sampleDescribe sampleConsoles sampleReads ended_sample
  exact ⟨hstands, hchunks, by decide +kernel, by decide +kernel⟩

/-! ### Steady consoles -/

/-- All that is pumped in a round. -/
def Round.all (describe : Errno → Text) (round : Round) : List UInt8 := round.chunk ++ (round.notices describe).flatten

/-- A steady console that has taken all it was given so far. -/
structure Sink.Took (sink : Sink) (total : List UInt8) : Prop where
  writable : sink.writable = true
  steady : Steady 0 sink.answers
  output : sink.output = total
  pauses : sink.pauses ≤ maxStalls * total.length

theorem Sink.Took.offer {sink : Sink} {total bytes : List UInt8} (h : sink.Took total) {ended : Except Errno Unit}
    (hended : (sink.offer bytes).1 = some ended) : ended = .ok () ∧ (sink.offer bytes).2.Took (total ++ bytes) := by
  by_cases hbytes : bytes = []
  · have hnil : sink.offer [] = (some (.ok ()), sink) := by
      rw [Sink.offer, writeBounded_nil, List.append_nil, Nat.add_zero]
    rw [hbytes, hnil] at hended ⊢
    rw [List.append_nil]
    exact ⟨(Option.some.inj hended).symm, h⟩
  · obtain ⟨hnever, hwhole⟩ := writeBounded_of_steady hbytes (Nat.zero_le _) h.steady
    change (writeBounded 0 bytes sink.answers).ended = some ended at hended
    rcases ended with error | _
    · exact absurd hended (hnever error)
    · obtain ⟨hsteady, hpauses⟩ := hwhole hended
      have htaken := (ended_iff 0 bytes sink.answers).mp hended
      have hbefore := h.pauses
      refine ⟨rfl, h.writable, hsteady, ?_, ?_⟩
      · change sink.output ++ (writeBounded 0 bytes sink.answers).taken = total ++ bytes
        rw [htaken, h.output]
      · change sink.pauses + (writeBounded 0 bytes sink.answers).pauses ≤ maxStalls * (total ++ bytes).length
        rw [htaken] at hpauses
        rw [List.length_append, Nat.mul_add]
        omega

theorem Sink.Took.noticedAll {notices : List (List UInt8)} {sink last : Sink} {total : List UInt8} (h : sink.Took total)
    (hnoticed : NoticedAll notices sink last) : last.Took (total ++ notices.flatten) := by
  induction hnoticed generalizing total with
  | nil => rwa [List.flatten_nil, List.append_nil]
  | cons hhead _ ih =>
    rw [List.flatten_cons, ← List.append_assoc]
    refine ih ?_
    cases hhead with
    | deaf hdeaf =>
      have hwritable := h.writable
      rw [hdeaf] at hwritable
      cases hwritable
    | heard _ hended => exact (h.offer hended).2

theorem Sink.Took.follows {rounds : List Round} {sink last : Sink} {total : List UInt8} (h : sink.Took total)
    (hfollows : Follows describe rounds sink last) : last.Took (total ++ rounds.flatMap (Round.all describe)) := by
  induction hfollows generalizing total with
  | nil => rwa [List.flatMap_nil, List.append_nil]
  | @cons round rounds sink given told last hgiven htold _ ih =>
    have hchunk : given.Took (total ++ round.chunk) := by
      cases hgiven with
      | deaf hdeaf =>
        have hwritable := h.writable
        rw [hdeaf] at hwritable
        cases hwritable
      | took _ hended => exact (h.offer hended).2
      | failed _ hended _ => exact nomatch (h.offer hended).1
    rw [List.flatMap_cons, ← List.append_assoc, Round.all, ← List.append_assoc]
    exact ih (hchunk.noticedAll htold)

/-- A console that keeps taking what it is given has been given all of it: every chunk, each with
the notices of all the consoles that were lost with it, like any other that does; and for it the
pump has paused no more than so often for each byte. -/
theorem steady_consoles_hear_all (describe : Errno → Text) (consoles : List (Text × List (Except Errno ℕ)))
    (reads : List (Except Errno (List UInt8))) (hended : (pump describe reads (consoles.map Sink.fresh)).2 = true) :
    (rounds describe consoles reads).map Round.chunk = received reads ∧
      (dead (pumped describe consoles reads)).Perm
        ((rounds describe consoles reads).flatMap fun round => round.lost.map Prod.fst) ∧
      List.Forall₂ (fun console sink => Steady 0 console.2 → sink.writable = true ∧
        sink.output = (rounds describe consoles reads).flatMap (Round.all describe) ∧
        sink.pauses ≤ maxStalls * sink.output.length) consoles (pumped describe consoles reads) := by
  refine ⟨chunks_history, dead_pumped describe consoles reads hended, ?_⟩
  refine (List.forall₂_map_left_iff.mp (follows_of_ended describe hended)).imp fun console sink hfollows hsteady => ?_
  have hfresh : (Sink.fresh console).Took [] := ⟨rfl, hsteady, rfl, Nat.zero_le _⟩
  have htook := hfresh.follows hfollows
  rw [List.nil_append] at htook
  exact ⟨htook.writable, htook.output, htook.output ▸ htook.pauses⟩

theorem steady_consoles_hear_all_sample :
    (rounds sampleDescribe sampleConsoles sampleReads).map Round.lost = [[("ttyS0".toList, eio)], []] ∧
      List.Forall₂ (fun console sink => Steady 0 console.2 → sink.writable = true ∧
        sink.output = (rounds sampleDescribe sampleConsoles sampleReads).flatMap (Round.all sampleDescribe) ∧
        sink.pauses ≤ maxStalls * sink.output.length) sampleConsoles (pumped sampleDescribe sampleConsoles sampleReads) := by
  obtain ⟨-, -, hsteady⟩ := steady_consoles_hear_all sampleDescribe sampleConsoles sampleReads ended_sample
  exact ⟨by decide +kernel, hsteady⟩

end Kmsrs.Os.Console
