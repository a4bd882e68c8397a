import Kmsrs.Server.Handle

/-! Delivering a stream of whole PDUs. While the connection is kept, it holds what was delivered
behind the PDUs it has taken: all that are whole, or those up to a fragment that it stalls
behind. A read overflows exactly when it does not fit behind that. -/

namespace Kmsrs.Server

open Kmsrs.Bytes Kmsrs.Kms Kmsrs.Wire

/-- A PDU of its declared length, which is one the host accepts. -/
def WellFramed (pdu : List UInt8) : Prop :=
  ∃ header rest, RpcHeader.layout.readFromPrefix pdu = some (header, rest) ∧
    header.fragLength.toNat = pdu.length ∧ pdu.length ≤ maxPduLen

/-- The buffer holds what was delivered after some of the PDUs. -/
def AtBoundary (pdus : List (List UInt8)) (delivered : List UInt8) (connection : Connection) : Prop :=
  ∃ taken ≤ pdus.length, delivered = (pdus.take taken).flatten ++ connection.inbound.items

variable {ε σ : Type} {pdus : List (List UInt8)} {delivered : List UInt8}

/-- A buffer that starts at a boundary goes on with the next PDU of the stream. -/
theorem ahead_of_boundary {taken : ℕ} {inbound more : List UInt8} (hmore : delivered ++ more = pdus.flatten)
    (hheld : delivered = (pdus.take taken).flatten ++ inbound) : inbound ++ more = (pdus.drop taken).flatten := by
  have hsplit : (pdus.take taken).flatten ++ (pdus.drop taken).flatten = pdus.flatten := by
    rw [← List.flatten_append, List.take_append_drop]
  rw [hheld, ← hsplit, List.append_assoc] at hmore
  exact List.append_cancel_left hmore

/-- A buffer that holds a whole PDU in front. -/
theorem front_of_ahead {inbound more pdu later : List UInt8} (h : inbound ++ more = pdu ++ later)
    (hfits : pdu.length ≤ inbound.length) : pdu ++ inbound.drop pdu.length = inbound :=
  List.prefix_iff_eq_append.mp (List.prefix_of_prefix_length_le ⟨later, h.symm⟩ (List.prefix_append _ _) hfits)

/-- The first PDU found in a buffer that starts at a boundary is the next of the
stream. -/
theorem next_pdu {taken : ℕ} {inbound body rest : List UInt8} {header : RpcHeader}
    (hpdus : ∀ pdu ∈ pdus, WellFramed pdu) (hstream : delivered <+: pdus.flatten)
    (hheld : delivered = (pdus.take taken).flatten ++ inbound)
    (hframe : Frame.next inbound = some (.pdu header body, rest)) :
    taken + 1 ≤ pdus.length ∧
      delivered = (pdus.take (taken + 1)).flatten ++ inbound.drop header.fragLength.toNat ∧
      ∃ pdu ∈ pdus, ∃ behind, RpcHeader.layout.readFromPrefix pdu = some (header, behind) := by
  obtain ⟨⟨behind, hread⟩, hmin, -, hfits, -, -⟩ := Frame.next_eq_pdu hframe
  obtain ⟨more, hmore⟩ := hstream
  have hahead := ahead_of_boundary hmore hheld
  rcases Nat.lt_or_ge taken pdus.length with hlt | hge
  · have hmem : pdus[taken] ∈ pdus := List.getElem_mem hlt
    obtain ⟨header', behind', hread', hlength, -⟩ := hpdus _ hmem
    rw [List.drop_eq_getElem_cons hlt, List.flatten_cons] at hahead
    have hsame : header = header' := by
      have h₁ := Frame.readHeader_append hread more
      have h₂ := Frame.readHeader_append hread' (pdus.drop (taken + 1)).flatten
      rw [hahead, h₂] at h₁
      exact (Prod.mk.inj (Option.some.inj h₁)).1.symm
    subst hsame
    have hfront := front_of_ahead hahead (hlength ▸ hfits)
    refine ⟨hlt, ?_, _, hmem, behind', hread'⟩
    rw [List.take_succ_eq_append_getElem hlt, List.flatten_append, List.flatten_singleton, hlength, hheld,
      List.append_assoc, hfront]
  · rw [List.drop_eq_nil_of_le hge, List.flatten_nil, List.append_eq_nil_iff] at hahead
    rw [hahead.1] at hfits
    simp only [headerLen, List.length_nil] at hmin hfits
    omega

theorem atBoundary_after {machine : Machine ε σ} {env : Env ε σ} {now : Instant} {out : List UInt8}
    (hpdus : ∀ pdu ∈ pdus, WellFramed pdu) (hstream : delivered <+: pdus.flatten)
    (h : AtBoundary pdus delivered machine.connection)
    (hopen : (machine.stepped env now out).step.closes = false) :
    AtBoundary pdus delivered (Machine.after (machine.stepped env now out)).connection := by
  obtain ⟨taken, htaken, hheld⟩ := h
  have hstep := Connection.inbound_step env machine.connection machine.entropy machine.host out now
  rcases hstep with ⟨-, -, hsame⟩ | ⟨header, body, rest, hframe, hdropped⟩ | ⟨-, hcloses⟩
  · refine ⟨taken, htaken, ?_⟩
    show delivered = _ ++ (machine.connection.step env now machine.entropy machine.host out).connection.inbound.items
    rw [hsame]
    exact hheld
  · obtain ⟨hnext, heq, -⟩ := next_pdu hpdus hstream hheld hframe
    refine ⟨taken + 1, hnext, ?_⟩
    show delivered = _ ++ (machine.connection.step env now machine.entropy machine.host out).connection.inbound.items
    rw [hdropped, ArrayVec.items_drop]
    exact heq
  · exact absurd (hopen.symm.trans hcloses) (by simp)

theorem atBoundary_answerAll (env : Env ε σ) (now : Instant) (machine : Machine ε σ) (scratch : List UInt8)
    (hpdus : ∀ pdu ∈ pdus, WellFramed pdu) (hstream : delivered <+: pdus.flatten)
    (h : AtBoundary pdus delivered machine.connection)
    (hopen : (answerAll env now machine scratch).2.close = false) :
    AtBoundary pdus delivered (answerAll env now machine scratch).1.connection := by
  induction machine, scratch using answerAll_induction env now with
  | waits machine scratch hwaits =>
    rw [answerAll_of_needMore hwaits]
    exact atBoundary_after hpdus hstream h (by rw [hwaits]; rfl)
  | closes machine scratch hcloses =>
    rw [(answerAll_of_closes hcloses).2] at hopen
    cases hopen
  | sends machine scratch len hsend ih =>
    rw [answerAll_of_send hsend] at hopen ⊢
    exact ih (atBoundary_after hpdus hstream h (by rw [hsend]; rfl)) hopen

/-- A read that keeps the connection keeps it at a boundary. -/
theorem atBoundary_handle {machine : Machine ε σ} {read : Read ε σ} (hpdus : ∀ pdu ∈ pdus, WellFramed pdu)
    (hstream : delivered ++ read.input <+: pdus.flatten) (h : AtBoundary pdus delivered machine.connection)
    (hopen : (handle machine read).handled.close = false) :
    AtBoundary pdus (delivered ++ read.input) (next machine read).connection := by
  unfold next
  unfold handle at hopen ⊢
  cases hreceive : machine.connection.receive read.input with
  | none =>
    rw [hreceive] at hopen
    cases hopen
  | some connection =>
    rw [hreceive] at hopen
    obtain ⟨inbound, hextend, rfl⟩ := Option.map_eq_some_iff.mp hreceive
    have hreceived : AtBoundary pdus (delivered ++ read.input) { machine.connection with inbound } := by
      obtain ⟨taken, htaken, hheld⟩ := h
      refine ⟨taken, htaken, ?_⟩
      rw [ArrayVec.items_of_tryExtendFromSlice hextend, hheld, List.append_assoc]
    obtain ⟨taken, htaken, hheld⟩ := atBoundary_answerAll read.env read.now
      { machine with connection := { machine.connection with inbound } } (List.replicate maxResponseLen 0) hpdus
      hstream hreceived hopen
    exact ⟨taken, htaken, by rw [hheld, ← (logged_drainEvents _).inbound]⟩

/-- Every read of a run so far has kept the connection. -/
def Kept (machine : Machine ε σ) (reads : List (Read ε σ)) : Prop :=
  ∀ turn ∈ path next machine reads, (handle turn.1 turn.2).handled.close = false

/-- After reads that kept the connection, it holds what they delivered after some
number of whole PDUs. -/
theorem atBoundary_run {machine : Machine ε σ} {reads : List (Read ε σ)} (hpdus : ∀ pdu ∈ pdus, WellFramed pdu)
    (hstream : delivered ++ (reads.map Read.input).flatten <+: pdus.flatten)
    (h : AtBoundary pdus delivered machine.connection) (hkept : Kept machine reads) :
    AtBoundary pdus (delivered ++ (reads.map Read.input).flatten) (reads.foldl next machine).connection := by
  induction reads generalizing machine delivered with
  | nil => simpa using h
  | cons read reads ih =>
    rw [List.map_cons, List.flatten_cons, ← List.append_assoc] at hstream ⊢
    have hfirst := atBoundary_handle hpdus ((List.prefix_append _ _).trans hstream) h
      (hkept (machine, read) List.mem_cons_self)
    exact ih hstream hfirst fun turn hturn => hkept turn (List.mem_cons_of_mem _ hturn)

theorem receive_eq_none_iff (connection : Connection) (bytes : List UInt8) :
    connection.receive bytes = none ↔ maxPduLen < connection.inbound.length + bytes.length := by
  unfold Connection.receive
  rw [Option.map_eq_none_iff, ArrayVec.tryExtendFromSlice_isNone]
  rfl

/-! ### What a read takes -/

/-- How many PDUs of a stream are whole in so many of its bytes. -/
def whole : List (List UInt8) → ℕ → ℕ
  | [], _ => 0
  | pdu :: pdus, received => if pdu.length ≤ received then whole pdus (received - pdu.length) + 1 else 0

/-- At a boundary behind which the next PDU is not whole, all that are whole have been taken. -/
theorem whole_of_boundary {taken held : ℕ} (h : taken ≤ pdus.length)
    (hrest : ∀ pdu, pdus[taken]? = some pdu → held < pdu.length) :
    whole pdus ((pdus.take taken).flatten.length + held) = taken := by
  induction pdus generalizing taken with
  | nil =>
    obtain rfl := Nat.le_zero.mp h
    rfl
  | cons pdu pdus ih =>
    cases taken with
    | zero =>
      have hshort := hrest pdu rfl
      rw [List.take_zero, List.flatten_nil, List.length_nil, Nat.zero_add, whole, if_neg (by omega)]
    | succ taken =>
      rw [List.take_succ_cons, List.flatten_cons, List.length_append, whole, if_pos (by omega), Nat.add_assoc,
        Nat.add_sub_cancel_left]
      rw [ih (Nat.le_of_succ_le_succ h) fun later hlater => hrest later hlater]

/-- A buffer at a boundary that holds no whole PDU begins with less than the next one. -/
theorem short_of_boundary {connection : Connection} (hpdus : ∀ pdu ∈ pdus, WellFramed pdu)
    (hstream : delivered <+: pdus.flatten) {taken : ℕ}
    (hheld : delivered = (pdus.take taken).flatten ++ connection.inbound.items) (hnone : connection.hasCompletePdu = false)
    {pdu : List UInt8} (hnext : pdus[taken]? = some pdu) : connection.inbound.items.length < pdu.length := by
  obtain ⟨more, hmore⟩ := hstream
  obtain ⟨hlt, hget⟩ := List.getElem?_eq_some_iff.mp hnext
  have hahead := ahead_of_boundary hmore hheld
  rw [List.drop_eq_getElem_cons hlt, hget, List.flatten_cons] at hahead
  obtain ⟨header, behind, hread, hlength, -⟩ := hpdus pdu (List.mem_of_getElem? hnext)
  by_contra hfits
  have hfits := Nat.le_of_not_lt hfits
  have hfront := front_of_ahead hahead hfits
  have hcomplete : connection.hasCompletePdu = true := by
    have hfound := Frame.readHeader_append hread (connection.inbound.items.drop pdu.length)
    rw [hfront] at hfound
    rw [Connection.hasCompletePdu, Connection.pduLen, hfound]
    exact decide_eq_true (hlength.trans_le hfits)
  rw [hcomplete] at hnone
  cases hnone

section
variable {env : Env ε σ} {now : Instant} {machine visited : Machine ε σ} {scratch out : List UInt8}

theorem atBoundary_visits (hpdus : ∀ pdu ∈ pdus, WellFramed pdu) (hstream : delivered <+: pdus.flatten)
    (hvisits : Visits env now machine scratch visited out) (h : AtBoundary pdus delivered machine.connection) :
    AtBoundary pdus delivered visited.connection := by
  induction hvisits with
  | here _ _ => exact h
  | later hsend _ ih => exact ih (atBoundary_after hpdus hstream h (by rw [hsend]; rfl))

theorem sound_visits (hvisits : Visits env now machine scratch visited out) (h : machine.connection.Sound) :
    visited.connection.Sound := by
  induction hvisits with
  | here _ _ => exact h
  | later _ _ ih => exact ih (sound_after h)

/-- The loop ends where it waits. -/
theorem answerAll_of_visits (hvisits : Visits env now machine scratch visited out)
    (hwaits : (visited.stepped env now out).step = .needMore) :
    (answerAll env now machine scratch).1 = .after (visited.stepped env now out) := by
  induction hvisits with
  | here _ _ => rw [answerAll_of_needMore hwaits]
  | later hsend _ ih =>
    rw [answerAll_of_send hsend]
    exact ih hwaits

/-- A stall takes the fragment, and nothing behind it. -/
theorem inbound_of_stalls (hsound : machine.connection.Sound) (hpdus : ∀ pdu ∈ pdus, WellFramed pdu)
    (hstream : delivered <+: pdus.flatten) (hstalls : Stalls machine.connection) {taken : ℕ}
    (hheld : delivered = (pdus.take taken).flatten ++ machine.connection.inbound.items) :
    delivered = (pdus.take (taken + 1)).flatten ++ (Machine.after (machine.stepped env now out)).connection.inbound.items := by
  have hwaits : (machine.stepped env now out).step = .needMore := needMore_of_stalls hsound hstalls
  obtain ⟨header, body, rest, hframe, -⟩ := hstalls
  have hafter : (machine.connection.step env now machine.entropy machine.host out).connection.inbound =
      machine.connection.inbound.drop header.fragLength.toNat := by
    rcases Connection.inbound_step env machine.connection machine.entropy machine.host out now with
      ⟨hnone, -, -⟩ | ⟨header', body', rest', hframe', hdropped⟩ | ⟨-, hcloses⟩
    · obtain ⟨⟨behind, hread⟩, -, -, hfits, -⟩ := Frame.next_eq_pdu hframe
      rw [Connection.hasCompletePdu, Connection.pduLen, hread] at hnone
      exact absurd hfits (of_decide_eq_false hnone)
    · rw [hframe] at hframe'
      cases hframe'
      exact hdropped
    · rw [show (machine.connection.step env now machine.entropy machine.host out).step = .needMore from hwaits] at hcloses
      cases hcloses
  change delivered = _ ++ (machine.connection.step env now machine.entropy machine.host out).connection.inbound.items
  rw [hafter, ArrayVec.items_drop]
  exact (next_pdu hpdus hstream hheld hframe).2.1

end

/-! ### What a delivery takes -/

/-- The bytes of some reads. -/
def delivery (reads : List (Read ε σ)) : List UInt8 := (reads.map Read.input).flatten

/-- How many PDUs of a stream have been taken by the end of some reads: all that are whole in what
was delivered; or, where the last read stalls, those up to the fragment that it stalls behind. -/
inductive Taken (pdus : List (List UInt8)) (start : Machine ε σ) : List (Read ε σ) → ℕ → Prop
  | nothing : Taken pdus start [] 0
  | swept {earlier : List (Read ε σ)} {read : Read ε σ} :
      (∀ visited out, Steps (earlier.foldl next start) read visited out → ¬ Stalls visited.connection) →
      Taken pdus start (earlier ++ [read]) (whole pdus (delivery (earlier ++ [read])).length)
  | stalled {earlier : List (Read ε σ)} {read : Read ε σ} {visited : Machine ε σ} {out : List UInt8} {taken : ℕ} :
      Steps (earlier.foldl next start) read visited out → Stalls visited.connection →
      delivery (earlier ++ [read]) = (pdus.take taken).flatten ++ visited.connection.inbound.items →
      Taken pdus start (earlier ++ [read]) (taken + 1)

theorem delivery_concat (earlier : List (Read ε σ)) (read : Read ε σ) :
    delivery (earlier ++ [read]) = delivery earlier ++ read.input := by
  rw [delivery, List.map_append, List.flatten_append]
  simp [delivery]

section
variable {machine : Machine ε σ} {read : Read ε σ} (hpdus : ∀ pdu ∈ pdus, WellFramed pdu)
  (hstream : delivered ++ read.input <+: pdus.flatten) (h : AtBoundary pdus delivered machine.connection)
  (hsound : machine.connection.Sound)
include hpdus hstream h hsound

/-- What the loop of a read comes to is at a boundary. -/
theorem atBoundary_steps {visited : Machine ε σ} {out : List UInt8} (hsteps : Steps machine read visited out) :
    AtBoundary pdus (delivered ++ read.input) visited.connection ∧ visited.connection.Sound := by
  obtain ⟨connection, hreceive, hvisits⟩ := hsteps
  obtain ⟨inbound, hextend, rfl⟩ := Option.map_eq_some_iff.mp hreceive
  obtain ⟨taken, htaken, hheld⟩ := h
  constructor
  · refine atBoundary_visits hpdus hstream hvisits ⟨taken, htaken, ?_⟩
    rw [ArrayVec.items_of_tryExtendFromSlice hextend, hheld, List.append_assoc]
  · exact sound_visits hvisits (sound_of_receive hsound hreceive)

/-- A read that stalls holds what is behind the fragment it took. -/
theorem held_of_stalls {visited : Machine ε σ} {out : List UInt8} (hsteps : Steps machine read visited out)
    (hstalls : Stalls visited.connection) {taken : ℕ}
    (hheld : delivered ++ read.input = (pdus.take taken).flatten ++ visited.connection.inbound.items) :
    delivered ++ read.input = (pdus.take (taken + 1)).flatten ++ (next machine read).connection.inbound.items := by
  have hvisited := (atBoundary_steps hpdus hstream h hsound hsteps).2
  obtain ⟨connection, hreceive, hvisits⟩ := hsteps
  have hend := answerAll_of_visits hvisits (needMore_of_stalls hvisited hstalls)
  have hinbound : (next machine read).connection.inbound =
      (Machine.after (visited.stepped read.env read.now out)).connection.inbound := by
    unfold next handle
    rw [hreceive]
    exact (logged_drainEvents _).inbound.trans (by rw [hend])
  rw [hinbound]
  exact inbound_of_stalls hvisited hpdus hstream hstalls hheld

/-- A read that stalls nowhere and keeps the connection holds what is behind all whole PDUs. -/
theorem held_of_swept (hopen : (handle machine read).handled.close = false)
    (hnever : ∀ visited out, Steps machine read visited out → ¬ Stalls visited.connection) :
    delivered ++ read.input = (pdus.take (whole pdus (delivered ++ read.input).length)).flatten ++
      (next machine read).connection.inbound.items := by
  have hnone : (next machine read).connection.hasCompletePdu = false := (handle_waits_iff hsound read).mpr hnever hopen
  obtain ⟨taken, htaken, hheld⟩ := atBoundary_handle hpdus hstream h hopen
  have hwhole := whole_of_boundary htaken fun pdu hnext => short_of_boundary hpdus hstream hheld hnone hnext
  have hlength : (delivered ++ read.input).length =
      (pdus.take taken).flatten.length + (next machine read).connection.inbound.items.length := by
    rw [hheld, List.length_append]
  rw [hlength, hwhole]
  exact hheld

end

theorem sound_run {machine : Machine ε σ} (h : machine.connection.Sound) (reads : List (Read ε σ)) :
    (reads.foldl next machine).connection.Sound := by
  induction reads generalizing machine with
  | nil => exact h
  | cons read reads ih => exact ih (sound_handle h read)

section
variable {start : Machine ε σ} (hpdus : ∀ pdu ∈ pdus, WellFramed pdu) (hempty : start.connection.inbound.items = [])
  {reads : List (Read ε σ)} (hstream : delivery reads <+: pdus.flatten) (hkept : Kept start reads)
include hpdus hempty hstream hkept

theorem atBoundary_delivery : AtBoundary pdus (delivery reads) (reads.foldl next start).connection := by
  have hstart : AtBoundary pdus [] start.connection := ⟨0, Nat.zero_le _, by rw [hempty]; rfl⟩
  have hrun := atBoundary_run hpdus (by rwa [List.nil_append]) hstart hkept
  rwa [List.nil_append] at hrun

omit hstream hkept in
/-- The last read of a delivery that is kept. -/
theorem of_concat {earlier : List (Read ε σ)} {read : Read ε σ} (hstream : delivery (earlier ++ [read]) <+: pdus.flatten)
    (hkept : Kept start (earlier ++ [read])) : delivery earlier ++ read.input <+: pdus.flatten ∧
      (handle (earlier.foldl next start) read).handled.close = false ∧
      AtBoundary pdus (delivery earlier) (earlier.foldl next start).connection := by
  rw [delivery_concat] at hstream
  rw [Kept, path_append] at hkept
  refine ⟨hstream, hkept _ (List.mem_append_right _ List.mem_cons_self), ?_⟩
  exact atBoundary_delivery hpdus hempty ((List.prefix_append _ _).trans hstream) fun turn hturn =>
    hkept turn (List.mem_append_left _ hturn)

variable (hsound : start.connection.Sound)
include hsound

/-- While the connection is kept, it holds what was delivered behind the PDUs that were taken. -/
theorem held_of_taken {taken : ℕ} (h : Taken pdus start reads taken) :
    delivery reads = (pdus.take taken).flatten ++ (reads.foldl next start).connection.inbound.items := by
  cases h with
  | nothing =>
    rw [List.foldl_nil, hempty]
    rfl
  | @swept earlier read hnever =>
    obtain ⟨hstream', hopen, hboundary⟩ := of_concat hpdus hempty hstream hkept
    rw [delivery_concat, List.foldl_append]
    exact held_of_swept hpdus hstream' hboundary (sound_run hsound earlier) hopen hnever
  | @stalled earlier read visited out taken hsteps hstalls hheld =>
    obtain ⟨hstream', -, hboundary⟩ := of_concat hpdus hempty hstream hkept
    rw [delivery_concat] at hheld ⊢
    rw [List.foldl_append]
    exact held_of_stalls hpdus hstream' hboundary (sound_run hsound earlier) hsteps hstalls hheld

theorem exists_taken : ∃ taken, Taken pdus start reads taken := by
  rcases List.eq_nil_or_concat reads with rfl | ⟨earlier, read, rfl⟩
  · exact ⟨0, .nothing⟩
  · rw [List.concat_eq_append] at hstream hkept ⊢
    obtain ⟨hstream', -, hboundary⟩ := of_concat hpdus hempty hstream hkept
    by_cases hnever : ∀ visited out, Steps (earlier.foldl next start) read visited out → ¬ Stalls visited.connection
    · exact ⟨_, .swept hnever⟩
    · push Not at hnever
      obtain ⟨visited, out, hsteps, hstalls⟩ := hnever
      obtain ⟨⟨taken, -, hheld⟩, -⟩ := atBoundary_steps hpdus hstream' hboundary (sound_run hsound earlier) hsteps
      exact ⟨taken + 1, .stalled hsteps hstalls (by rw [delivery_concat]; exact hheld)⟩

/-- The next read fits just when it does behind the PDUs that were taken. -/
theorem receives_iff (bytes : List UInt8) : (reads.foldl next start).connection.receive bytes ≠ none ↔
    ∀ taken, Taken pdus start reads taken →
      (delivery reads).length - (pdus.take taken).flatten.length + bytes.length ≤ maxPduLen := by
  have hbehind {taken : ℕ} (htaken : Taken pdus start reads taken) :
      (delivery reads).length - (pdus.take taken).flatten.length = (reads.foldl next start).connection.inbound.length := by
    rw [held_of_taken hpdus hempty hstream hkept hsound htaken, List.length_append, Nat.add_sub_cancel_left]
    rfl
  rw [ne_eq, receive_eq_none_iff, not_lt]
  constructor
  · intro hfits taken htaken
    rwa [hbehind htaken]
  · intro hfits
    obtain ⟨taken, htaken⟩ := exists_taken hpdus hempty hstream hkept hsound
    rw [← hbehind htaken]
    exact hfits taken htaken

/-- Where every PDU ends its call nothing stalls, and all that are whole are taken. -/
theorem taken_of_complete (hcomplete : ∀ pdu ∈ pdus, ∀ header behind,
    RpcHeader.layout.readFromPrefix pdu = some (header, behind) → header.flags.contains .lastFrag = true)
    (hsome : reads ≠ []) (taken : ℕ) : Taken pdus start reads taken ↔ taken = whole pdus (delivery reads).length := by
  have hnever {earlier : List (Read ε σ)} {read : Read ε σ} (hreads : reads = earlier ++ [read]) {visited : Machine ε σ}
      {out : List UInt8} (hsteps : Steps (earlier.foldl next start) read visited out) : ¬ Stalls visited.connection := by
    subst hreads
    obtain ⟨hstream', -, hboundary⟩ := of_concat hpdus hempty hstream hkept
    obtain ⟨⟨k, -, hheld⟩, -⟩ := atBoundary_steps hpdus hstream' hboundary (sound_run hsound earlier) hsteps
    rintro ⟨header, body, rest, hframe, ⟨-, hmore, -⟩, -⟩
    obtain ⟨-, -, pdu, hmem, behind, hread⟩ := next_pdu hpdus hstream' hheld hframe
    rw [hcomplete pdu hmem header behind hread] at hmore
    cases hmore
  constructor
  · intro htaken
    cases htaken with
    | nothing => exact absurd rfl hsome
    | swept _ => rfl
    | stalled hsteps hstalls _ => exact absurd hstalls (hnever rfl hsteps)
  · rintro rfl
    rcases List.eq_nil_or_concat reads with rfl | ⟨earlier, read, rfl⟩
    · exact absurd rfl hsome
    · rw [List.concat_eq_append] at hnever ⊢
      exact .swept fun visited out hsteps => hnever rfl hsteps

end

/-- A stream of whole PDUs, delivered in any reads to a connection of the server. As long as it is
kept, the connection holds what was delivered behind the PDUs it has taken; and no read is dropped
by buffering exactly when each one, and what was delivered before it behind those PDUs, fits into
the room of one PDU. -/
theorem delivery_overflows_iff (assocGroup : UInt32) (advertisesNdr64 : Bool) (acceptingPort : UInt16) (entropy : ε)
    (host : σ) {reads : List (Read ε σ)} (hpdus : ∀ pdu ∈ pdus, WellFramed pdu) (hstream : delivery reads <+: pdus.flatten) :
    (∀ earlier later, reads = earlier ++ later →
        Kept (accept assocGroup advertisesNdr64 acceptingPort entropy host) earlier →
        (∃ taken, Taken pdus (accept assocGroup advertisesNdr64 acceptingPort entropy host) earlier taken) ∧
        ∀ taken, Taken pdus (accept assocGroup advertisesNdr64 acceptingPort entropy host) earlier taken →
          delivery earlier = (pdus.take taken).flatten ++
            (earlier.foldl next (accept assocGroup advertisesNdr64 acceptingPort entropy host)).connection.inbound.items) ∧
      ((∀ earlier read later, reads = earlier ++ read :: later →
          Kept (accept assocGroup advertisesNdr64 acceptingPort entropy host) earlier →
          (earlier.foldl next (accept assocGroup advertisesNdr64 acceptingPort entropy host)).connection.receive
            read.input ≠ none) ↔
        ∀ earlier read later, reads = earlier ++ read :: later →
          Kept (accept assocGroup advertisesNdr64 acceptingPort entropy host) earlier →
          ∀ taken, Taken pdus (accept assocGroup advertisesNdr64 acceptingPort entropy host) earlier taken →
            (delivery earlier).length - (pdus.take taken).flatten.length + read.input.length ≤ maxPduLen) := by
  have hsound := sound_connection assocGroup advertisesNdr64 acceptingPort
  have hbegins {earlier later : List (Read ε σ)} (hsplit : reads = earlier ++ later) : delivery earlier <+: pdus.flatten := by
    rw [hsplit, delivery, List.map_append, List.flatten_append] at hstream
    exact (List.prefix_append _ _).trans hstream
  constructor
  · intro earlier later hsplit hkept
    exact ⟨exists_taken hpdus rfl (hbegins hsplit) hkept hsound, fun taken htaken =>
      held_of_taken hpdus rfl (hbegins hsplit) hkept hsound htaken⟩
  · exact forall₅_congr fun earlier read later hsplit hkept =>
      receives_iff hpdus rfl (hbegins hsplit) hkept hsound read.input

theorem wellFramed_framed (packetType : PacketType) (flags : PacketFlags) (callId : UInt32) {body : List UInt8}
    (h : headerLen + body.length ≤ maxPduLen) : WellFramed (Machine.framed packetType flags callId body) := by
  have hlength : (Machine.framed packetType flags callId body).length = headerLen + body.length := by
    simp [Machine.framed, Layout.length_encode, headerLen]
  refine ⟨_, body, Layout.readFromPrefix_append _ _ _, ?_, hlength.trans_le h⟩
  rw [hlength]
  simp only [headerLen, maxPduLen] at h ⊢
  simp only [UInt16.toNat_ofNat']
  omega

/-- A request of 284 bytes. -/
def request : List UInt8 := Machine.framed .request .complete 1 (Machine.blankCall 0)

def requests (count : ℕ) : List UInt8 := (List.replicate count request).flatten

def readOf (input : List UInt8) : Read Unit Unit := ⟨input, 0, Connection.denying⟩

theorem wellFramed_request (count : ℕ) : ∀ pdu ∈ List.replicate count request, WellFramed pdu := by
  intro pdu hpdu
  rw [List.eq_of_mem_replicate hpdu]
  exact wellFramed_framed .request .complete 1 (by decide +kernel)

theorem complete_request (count : ℕ) : ∀ pdu ∈ List.replicate count request, ∀ header behind,
    RpcHeader.layout.readFromPrefix pdu = some (header, behind) → header.flags.contains .lastFrag = true := by
  intro pdu hpdu header behind hread
  rw [List.eq_of_mem_replicate hpdu] at hread
  have hlast : ((RpcHeader.layout.readFromPrefix request).map fun found => found.1.flags.contains .lastFrag) = some true := by
    decide +kernel
  rw [hread] at hlast
  exact Option.some.inj hlast

/-- Fourteen requests in two reads, cut in the eighth. -/
def earlierHalf : Read Unit Unit := readOf ((requests 14).take 2038)

def laterHalf : Read Unit Unit := readOf ((requests 14).drop 2038)

theorem kept_earlierHalf : Kept (accept 0 false 1688 () ()) [earlierHalf] := by
  intro turn hturn
  rw [List.mem_singleton.mp hturn]
  decide +kernel

theorem delivery_halves : delivery [earlierHalf, laterHalf] <+: requests 14 ∧ delivery [earlierHalf] <+: requests 14 := by
  simp [delivery, earlierHalf, laterHalf, readOf, List.take_prefix]

/-- The second read fits behind the beginning of the eighth. -/
theorem delivery_fits_two_reads :
    ([earlierHalf].foldl next (accept 0 false 1688 () ())).connection.receive laterHalf.input ≠ none := by
  refine (delivery_overflows_iff 0 false 1688 () () (wellFramed_request 14) delivery_halves.1).2.mpr ?_ [earlierHalf]
    laterHalf [] rfl kept_earlierHalf
  intro earlier last later hsplit hkept taken htaken
  rcases earlier with _ | ⟨first, _ | ⟨second, more⟩⟩
  · obtain ⟨rfl, -⟩ := List.cons.inj hsplit
    rw [show delivery ([] : List (Read Unit Unit)) = [] from rfl, List.length_nil, Nat.zero_sub, Nat.zero_add]
    decide +kernel
  · obtain ⟨rfl, hrest⟩ := List.cons.inj hsplit
    obtain ⟨rfl, -⟩ := List.cons.inj hrest
    have htake := (taken_of_complete (wellFramed_request 14) rfl delivery_halves.2 hkept (sound_connection 0 false 1688)
      (complete_request 14) (List.cons_ne_nil _ _) taken).mp htaken
    rw [htake]
    decide +kernel
  · have hlength := congrArg List.length hsplit
    simp at hlength

/-- Eight whole requests in one read of 2272 bytes, and the connection is closed
without an answer. -/
theorem eight_requests_overflow :
    (∀ pdu ∈ List.replicate 8 request, WellFramed pdu) ∧ (requests 8).length = 2272 ∧
      (accept 0 false 1688 () ()).connection.receive (requests 8) = none ∧
      (handle (accept 0 false 1688 () ()) (readOf (requests 8))).handled = ⟨[], true⟩ :=
  ⟨wellFramed_request 8, by decide +kernel, (receive_eq_none_iff _ _).mpr (by decide +kernel), by decide +kernel⟩

end Kmsrs.Server
