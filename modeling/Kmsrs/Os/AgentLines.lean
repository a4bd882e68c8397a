import Kmsrs.Lib.Lines
import Kmsrs.Lib.Run
import Kmsrs.Os.Agent

/-! How the agent's channel is cut into requests. The length of what is pending is looked
at before the lines in it, and clearing it forgets that a line has begun. -/

namespace Kmsrs

/-! ### Bytes that may not be text -/

namespace Text

/-- What is still to come of a character: how many bytes, from which range the next one,
and the bits so far. -/
inductive Pending where
  | nothing
  | more (bytes : ℕ) (low high : UInt8) (bits : ℕ)

/-- The first byte of a character. -/
def firstByte (byte : UInt8) : Text × Pending :=
  if byte < 0x80 then ([.ofNat byte.toNat], .nothing)
  else if 0xC2 ≤ byte ∧ byte ≤ 0xDF then ([], .more 1 0x80 0xBF (byte.toNat % 0x20))
  else if byte = 0xE0 then ([], .more 2 0xA0 0xBF 0)
  else if byte = 0xED then ([], .more 2 0x80 0x9F (byte.toNat % 0x10))
  else if 0xE1 ≤ byte ∧ byte ≤ 0xEF then ([], .more 2 0x80 0xBF (byte.toNat % 0x10))
  else if byte = 0xF0 then ([], .more 3 0x90 0xBF 0)
  else if 0xF1 ≤ byte ∧ byte ≤ 0xF3 then ([], .more 3 0x80 0xBF (byte.toNat % 8))
  else if byte = 0xF4 then ([], .more 3 0x80 0x8F 4)
  else (['\uFFFD'], .nothing)

/-- A character that breaks off is replaced, and the byte that breaks it off is the first
of the next. -/
def nextByte : Pending → UInt8 → Text × Pending
  | .nothing, byte => firstByte byte
  | .more bytes low high bits, byte =>
    if low ≤ byte ∧ byte ≤ high then
      let bits := 0x40 * bits + byte.toNat % 0x40
      if bytes ≤ 1 then ([.ofNat bits], .nothing) else ([], .more (bytes - 1) 0x80 0xBF bits)
    else ('\uFFFD' :: (firstByte byte).1, (firstByte byte).2)

def lossyFrom : Pending → List UInt8 → Text
  | .nothing, [] => []
  | .more _ _ _ _, [] => ['\uFFFD']
  | pending, byte :: rest => (nextByte pending byte).1 ++ lossyFrom (nextByte pending byte).2 rest

/-- `String::from_utf8_lossy` -/
def fromUtf8Lossy (bytes : List UInt8) : Text := lossyFrom .nothing bytes

example : fromUtf8Lossy [0x61, 0xE2, 0x82, 0xAC, 0xF0, 0x90, 0x80, 0x62, 0xC0] = ['a', '€', '\uFFFD', 'b', '\uFFFD'] := by
  decide +kernel

end Text

namespace Os.Agent

open Text

def newline : UInt8 := 0x0A

/-! ### The loop -/

/-- What a read of the channel gives. A read that fails ends the loop. -/
inductive Read where
  | disconnected
  | interrupted
  | data (bytes : List UInt8)

/-- The lines a read completes, which are passed on with their newline, and what is
pending after it. -/
def receive (pending : List UInt8) : Read → List (List UInt8) × List UInt8
  | .disconnected => ([], [])
  | .interrupted => ([], pending)
  | .data bytes =>
    let pending := pending ++ bytes
    if maxLine < pending.length then ([], []) else Lines.cut newline [] pending

/-- A line is answered as text without the space around it. -/
def answerLine (facts : Facts) (line : List UInt8) : Answer := answer facts (trim (fromUtf8Lossy line))

/-- A channel with everything it has carried and every line that was passed on. -/
structure Channel where
  received : List UInt8
  pending : List UInt8
  passed : List (List UInt8)

namespace Channel

def start : Channel := ⟨[], [], []⟩

def next (channel : Channel) (bytes : List UInt8) : Channel where
  received := channel.received ++ bytes
  pending := (receive channel.pending (.data bytes)).2
  passed := channel.passed ++ (receive channel.pending (.data bytes)).1

/-- The line that has begun and not ended. -/
def begun (channel : Channel) : List UInt8 := (Lines.cut newline [] channel.received).2

/-- The lines of a stream that are not too long. -/
def requests (stream : List UInt8) : List (List UInt8) :=
  (Lines.cut newline [] stream).1.filter fun line => line.length ≤ maxLine

/-- What was passed on is what should have been. -/
def Exact (channel : Channel) : Prop := channel.passed = requests channel.received

/-- If too much is pending, every line that this read ends is too long; if not, either
what is pending is the whole of the line that has begun or the read ends no line. -/
def Tolerates (channel : Channel) (bytes : List UInt8) : Prop :=
  if maxLine < (channel.pending ++ bytes).length then
    ∀ line ∈ (Lines.cut newline channel.begun bytes).1, maxLine < line.length
  else channel.pending = channel.begun ∨ newline ∉ bytes

/-- Pending is the end of the line that has begun, and not too long. -/
structure Sound (channel : Channel) : Prop where
  not_newline : newline ∉ channel.pending
  length_le : channel.pending.length ≤ maxLine
  suffix : channel.pending <:+ channel.begun

variable {channel : Channel}

theorem begun_next (channel : Channel) (bytes : List UInt8) :
    (channel.next bytes).begun = (Lines.cut newline channel.begun bytes).2 := by
  rw [begun, next, Lines.cut_append, ← begun]

theorem requests_next (channel : Channel) (bytes : List UInt8) :
    requests (channel.next bytes).received = requests channel.received ++
      (Lines.cut newline channel.begun bytes).1.filter fun line => line.length ≤ maxLine := by
  rw [requests, next, Lines.cut_append, List.filter_append, ← begun]
  rfl

/-- What a read gives that does not make too much pending. -/
theorem receive_data (h : channel.Sound) {bytes : List UInt8} (hfits : ¬ maxLine < (channel.pending ++ bytes).length) :
    receive channel.pending (.data bytes) = Lines.cut newline channel.pending bytes := by
  rw [receive, if_neg hfits, Lines.cut_nil_append h.not_newline]

theorem receive_overfull {bytes : List UInt8} (hover : maxLine < (channel.pending ++ bytes).length) :
    receive channel.pending (.data bytes) = ([], []) := by
  rw [receive, if_pos hover]

theorem sound_next (h : channel.Sound) (bytes : List UInt8) : (channel.next bytes).Sound := by
  by_cases hover : maxLine < (channel.pending ++ bytes).length
  · have hpending : (channel.next bytes).pending = [] := congrArg Prod.snd (receive_overfull hover)
    refine ⟨?_, ?_, ?_⟩
    · rw [hpending]
      exact List.not_mem_nil
    · rw [hpending]
      exact Nat.zero_le _
    · rw [hpending]
      exact List.nil_suffix
  · have hpending : (channel.next bytes).pending = (Lines.cut newline channel.pending bytes).2 :=
      congrArg Prod.snd (receive_data h hover)
    refine ⟨?_, ?_, ?_⟩
    · rw [hpending]
      exact Lines.not_mem_left h.not_newline bytes
    · rw [hpending]
      exact (Lines.length_left_le _ _).trans (not_lt.mp hover)
    · rw [hpending, begun_next]
      by_cases hnewline : newline ∈ bytes
      · obtain ⟨first, more, left, -, hcut⟩ := Lines.cut_of_mem hnewline
        rw [hcut, hcut]
      · rw [Lines.cut_of_not_mem _ hnewline, Lines.cut_of_not_mem _ hnewline]
        obtain ⟨dropped, hdropped⟩ := h.suffix
        exact ⟨dropped, by rw [← hdropped, List.append_assoc]⟩

/-- One read: what has been passed on stays right just when the read is tolerated. -/
theorem exact_next_iff (h : channel.Sound) (hexact : channel.Exact) (bytes : List UInt8) :
    (channel.next bytes).Exact ↔ channel.Tolerates bytes := by
  have hlines : (channel.next bytes).Exact ↔ (receive channel.pending (.data bytes)).1 =
      (Lines.cut newline channel.begun bytes).1.filter fun line => line.length ≤ maxLine := by
    rw [Exact, requests_next, ← hexact]
    exact List.append_right_inj _
  rw [hlines, Tolerates]
  split_ifs with hover
  · rw [receive_overfull hover, eq_comm, List.filter_eq_nil_iff]
    simp only [decide_eq_true_eq, not_le]
  · rw [receive_data h hover]
    constructor
    · intro heq
      by_contra hneither
      rw [not_or, not_not] at hneither
      obtain ⟨hdropped, hnewline⟩ := hneither
      -- The line that ends first is too short by what was dropped of it.
      obtain ⟨first, more, left, -, hcut⟩ := Lines.cut_of_mem hnewline
      rw [hcut, hcut, List.filter_cons] at heq
      split_ifs at heq with hfits
      · exact hdropped (List.append_cancel_right (List.cons.inj heq).1)
      · have hlength := congrArg List.length heq
        have := List.length_filter_le (fun line : List UInt8 => line.length ≤ maxLine) more
        rw [List.length_cons] at hlength
        omega
    · rintro (hwhole | hnone)
      · rw [← hwhole, eq_comm, List.filter_eq_self]
        intro line hline
        exact decide_eq_true ((Lines.length_le_of_mem_cut hline).trans (not_lt.mp hover))
      · rw [Lines.cut_of_not_mem _ hnone, Lines.cut_of_not_mem _ hnone]
        rfl

/-- The lines passed on are those of the stream after every read just when every read
is tolerated, whatever the reads are. -/
theorem exact_iff (reads : List (List UInt8)) :
    (∀ channel ∈ reads.scanl next start, channel.Exact) ↔
      ∀ read ∈ path next start reads, read.1.Tolerates read.2 := by
  have hsound : start.Sound := ⟨List.not_mem_nil, Nat.zero_le _, List.nil_suffix⟩
  have hexact : start.Exact := rfl
  exact forall_scanl_iff (I := Sound) (P := Exact) (fun _ bytes h => sound_next h bytes)
    (fun _ bytes h hexact => exact_next_iff h hexact bytes) hsound hexact reads

/-! ### A line that is cleared in the middle -/

/-- A read that ends no line and does not make too much pending. -/
theorem next_of_not_mem (h : channel.Sound) {bytes : List UInt8} (hnewline : newline ∉ bytes)
    (hfits : ¬ maxLine < (channel.pending ++ bytes).length) :
    channel.next bytes = ⟨channel.received ++ bytes, channel.pending ++ bytes, channel.passed⟩ := by
  rw [next, receive_data h hfits, Lines.cut_of_not_mem _ hnewline, List.append_nil]

/-- A full read without a newline in it. -/
def filler : List UInt8 := List.replicate 1024 0x78

theorem newline_not_mem_filler (n : ℕ) : newline ∉ (List.replicate n filler).flatten := by
  simp only [filler, List.mem_flatten, List.mem_replicate, not_exists, not_and]
  rintro bytes ⟨-, rfl⟩ hmem
  exact absurd (List.eq_of_mem_replicate hmem) (by decide)

theorem length_filler (n : ℕ) : (List.replicate n filler).flatten.length = n * 1024 := by
  rw [List.length_flatten, List.map_replicate, List.sum_replicate, filler, List.length_replicate, smul_eq_mul]

/-- Eight full reads are kept. -/
theorem foldl_filler {n : ℕ} (h : n ≤ 8) : (List.replicate n filler).foldl next start =
    ⟨(List.replicate n filler).flatten, (List.replicate n filler).flatten, []⟩ := by
  induction n with
  | zero => rfl
  | succ n ih =>
    have hsound : (Channel.mk (List.replicate n filler).flatten (List.replicate n filler).flatten []).Sound := by
      refine ⟨newline_not_mem_filler n, ?_, ?_⟩
      · rw [length_filler, maxLine]
        omega
      · rw [begun, Lines.cut_of_not_mem _ (newline_not_mem_filler n)]
        exact List.suffix_rfl
    have hfiller : newline ∉ filler := by simpa using newline_not_mem_filler 1
    have hfits : ¬ maxLine < ((List.replicate n filler).flatten ++ filler).length := by
      rw [List.length_append, length_filler, filler, List.length_replicate, maxLine]
      omega
    rw [List.replicate_succ', List.foldl_append, ih (by omega), List.foldl_cons, List.foldl_nil,
      next_of_not_mem hsound hfiller hfits, List.flatten_append, List.flatten_singleton]

/-- The ninth makes too much pending, and all nine are forgotten. -/
theorem foldl_filler_nine : (List.replicate 9 filler).foldl next start =
    ⟨(List.replicate 9 filler).flatten, [], []⟩ := by
  have hover : maxLine < ((List.replicate 8 filler).flatten ++ filler).length := by
    rw [List.length_append, length_filler, filler, List.length_replicate, maxLine]
    omega
  rw [List.replicate_succ', List.foldl_append, foldl_filler le_rfl, List.foldl_cons, List.foldl_nil, next,
    receive_overfull hover, List.flatten_append, List.flatten_singleton]
  rfl

/-- `{"execute":"guest-shutdown"}` with its newline. -/
def shutdownLine : List UInt8 :=
  [0x7B, 0x22, 0x65, 0x78, 0x65, 0x63, 0x75, 0x74, 0x65, 0x22, 0x3A, 0x22, 0x67, 0x75, 0x65, 0x73, 0x74, 0x2D, 0x73, 0x68,
    0x75, 0x74, 0x64, 0x6F, 0x77, 0x6E, 0x22, 0x7D, 0x0A]

/-- One line of more than nine thousand bytes: nothing of it should be passed on, and its
end is, and the machine is shut down. -/
theorem end_of_line_passed_on :
    (∀ read ∈ List.replicate 9 filler ++ [shutdownLine], read.length ≤ 1024) ∧
    requests (List.replicate 9 filler ++ [shutdownLine]).flatten = [] ∧
    ((List.replicate 9 filler ++ [shutdownLine]).foldl next start).passed = [shutdownLine] ∧
    ∀ facts, answerLine facts shutdownLine = ⟨none, true⟩ := by
  have hshutdown : Lines.cut newline [] shutdownLine = ([shutdownLine], []) := by decide +kernel
  refine ⟨?_, ?_, ?_, ?_⟩
  · intro read hread
    rcases List.mem_append.mp hread with hfiller | hlast
    · rw [List.eq_of_mem_replicate hfiller, filler, List.length_replicate]
    · rw [List.mem_singleton.mp hlast]
      decide
  · -- The stream is one line, and its length is that of nine reads and more.
    obtain ⟨first, more, left, -, hcut⟩ := Lines.cut_of_mem (show newline ∈ shutdownLine by decide)
    have hone := hcut []
    rw [hshutdown, List.nil_append, Prod.mk.injEq, List.cons.injEq] at hone
    obtain ⟨⟨rfl, rfl⟩, -⟩ := hone
    have hlong : ¬ ((List.replicate 9 filler).flatten ++ shutdownLine).length ≤ maxLine := by
      rw [List.length_append, length_filler, maxLine]
      omega
    rw [requests, List.flatten_append, List.flatten_singleton, Lines.cut_append,
      Lines.cut_of_not_mem _ (newline_not_mem_filler 9), List.nil_append, hcut, List.nil_append,
      List.filter_cons_of_neg (by simpa using hlong), List.filter_nil]
  · have hreceived : receive [] (.data shutdownLine) = ([shutdownLine], []) := by decide +kernel
    rw [List.foldl_append, foldl_filler_nine, List.foldl_cons, List.foldl_nil, next, hreceived]
    rfl
  · have htext : trim (fromUtf8Lossy shutdownLine) = "\x7b\"execute\":\"guest-shutdown\"\x7d".toList := by
      rw [String.toList_ofList]
      decide +kernel
    intro facts
    rw [answerLine, htext]
    exact answer_shutdown (by decide +kernel) (by decide +kernel) facts

end Channel

end Os.Agent

end Kmsrs
