import Kmsrs.Lib.Split
import Kmsrs.Lib.Utf8
import Kmsrs.Web.Response

/-! The requests that are accepted, as a grammar: where a head ends, which lines it has, and
what each of them has to be. The parser is none of this; it is shown to agree. -/

namespace Kmsrs.Web

open Text
open Response (crlf)

/-! ### Where a head ends -/

/-- CRLF twice. -/
def blankLine : List UInt8 := [13, 10, 13, 10]

/-- The first blank line of the buffer ends here. -/
structure EndsHead (buffer : List UInt8) (n : ℕ) : Prop where
  ends : blankLine <:+ buffer.take n
  first : ∀ m < n, ¬ blankLine <:+ buffer.take m

theorem EndsHead.le {buffer : List UInt8} {n : ℕ} (h : EndsHead buffer n) : n ≤ buffer.length := by
  by_contra hlong
  refine h.first buffer.length (by omega) ?_
  rw [List.take_length, ← List.take_of_length_le (by omega : buffer.length ≤ n)]
  exact h.ends

theorem endsAt_iff {window : List UInt8} {start : ℕ} :
    endsAt window start = true ↔ blankLine <:+ window.take (start + 4) ∧ start + 4 ≤ window.length := by
  rw [endsAt, beq_iff_eq, List.take_add]
  constructor
  · intro h
    have hlength := congrArg List.length h
    rw [List.length_take, List.length_drop] at hlength
    simp only [List.length_cons, List.length_nil] at hlength
    exact ⟨⟨window.take start, by rw [h]; rfl⟩, by omega⟩
  · rintro ⟨⟨before, hbefore⟩, hle⟩
    have hlength : blankLine.length = ((window.drop start).take 4).length := by
      rw [List.length_take, List.length_drop, blankLine]
      simp only [List.length_cons, List.length_nil]
      omega
    exact (List.append_inj_right' hbefore hlength).symm

theorem four_le_of_blankLine {buffer : List UInt8} {m : ℕ} (h : blankLine <:+ buffer.take m) : 4 ≤ m := by
  have hle := h.length_le
  rw [List.length_take, blankLine] at hle
  simp only [List.length_cons, List.length_nil] at hle
  omega

/-- The window that is searched has the first blank line if that is within the limit. -/
theorem headEnd_eq_some_iff {buffer : List UInt8} {n : ℕ} :
    headEnd buffer = some n ↔ EndsHead buffer n ∧ n ≤ maxRequest := by
  have hwindow {m : ℕ} (hm : m ≤ maxRequest) : (buffer.take maxRequest).take m = buffer.take m := by
    rw [List.take_take, Nat.min_eq_left hm]
  have hlength : (buffer.take maxRequest).length = min maxRequest buffer.length := List.length_take
  rw [headEnd, Option.map_eq_some_iff]
  constructor
  · rintro ⟨start, hstart, rfl⟩
    obtain ⟨hends, -, hfirst⟩ := List.find?_range_eq_some.mp hstart
    obtain ⟨hblank, hle⟩ := endsAt_iff.mp hends
    rw [hwindow (by omega)] at hblank
    refine ⟨⟨hblank, fun m hm hearlier => ?_⟩, by omega⟩
    obtain ⟨earlier, rfl⟩ := Nat.exists_eq_add_of_le' (four_le_of_blankLine hearlier)
    have hnot := hfirst earlier (by omega)
    rw [Bool.not_eq_true', Bool.eq_false_iff] at hnot
    refine hnot (endsAt_iff.mpr ⟨?_, by omega⟩)
    rwa [hwindow (by omega)]
  · rintro ⟨hhead, hlimit⟩
    obtain ⟨start, rfl⟩ := Nat.exists_eq_add_of_le' (four_le_of_blankLine hhead.ends)
    have hle := hhead.le
    refine ⟨start, List.find?_range_eq_some.mpr ⟨?_, ?_, fun earlier hearlier => ?_⟩, rfl⟩
    · refine endsAt_iff.mpr ⟨?_, by omega⟩
      rw [hwindow hlimit]
      exact hhead.ends
    · rw [List.mem_range]
      omega
    · rw [Bool.not_eq_true', Bool.eq_false_iff]
      intro hends
      obtain ⟨hblank, -⟩ := endsAt_iff.mp hends
      rw [hwindow (by omega)] at hblank
      exact hhead.first (earlier + 4) (by omega) hblank

/-! ### Lines -/

/-- Lines, each with its end. -/
def ended (lines : List Text) : Text := lines.flatMap (· ++ crlf)

theorem ended_append (lines more : List Text) : ended (lines ++ more) = ended lines ++ ended more :=
  List.flatMap_append

theorem ended_cons (line : Text) (lines : List Text) : ended (line :: lines) = line ++ crlf ++ ended lines :=
  List.flatMap_cons

theorem splitLines_cons (line : Text) {c : Char} {rest : Text} (h : ¬ (c = '\r' ∧ rest.head? = some '\n')) :
    splitLines line (c :: rest) = splitLines (line ++ [c]) rest := by
  rw [splitLines]
  rintro more rfl rfl
  exact h ⟨rfl, rfl⟩

theorem splitLines_of_unmarked (line : Text) {text : Text} (h : Unmarked '\r' '\n' text) :
    splitLines line text = [line ++ text] := by
  induction text generalizing line with
  | nil => rw [splitLines, List.append_nil]
  | cons c text ih =>
    obtain ⟨hend, htext⟩ := unmarked_cons_iff.mp h
    rw [splitLines_cons line hend, ih _ htext, List.append_assoc, List.singleton_append]

theorem splitLines_append (line : Text) {text : Text} (h : Unmarked '\r' '\n' text) (rest : Text) :
    splitLines line (text ++ crlf ++ rest) = (line ++ text) :: splitLines [] rest := by
  induction text generalizing line with
  | nil => rw [List.append_nil]; rfl
  | cons c text ih =>
    obtain ⟨hend, htext⟩ := unmarked_cons_iff.mp h
    have hcons : ¬ (c = '\r' ∧ (text ++ crlf ++ rest).head? = some '\n') := by
      rintro ⟨hc, hhead⟩
      cases text with
      | nil => exact absurd (show some '\r' = some '\n' from hhead) (by decide)
      | cons d text => exact hend ⟨hc, hhead⟩
    rw [List.cons_append, List.cons_append, splitLines_cons line hcons, ih _ htext, List.append_assoc,
      List.singleton_append]

/-- Lines that were joined are split as they were. -/
theorem splitLines_ended {lines : List Text} {last : Text} (hlines : ∀ line ∈ lines, Unmarked '\r' '\n' line)
    (hlast : Unmarked '\r' '\n' last) : splitLines [] (ended lines ++ last) = lines ++ [last] := by
  induction lines with
  | nil => exact splitLines_of_unmarked [] hlast
  | cons line lines ih =>
    rw [List.forall_mem_cons] at hlines
    rw [ended_cons, List.append_assoc, splitLines_append [] hlines.1, ih hlines.2, List.nil_append, List.cons_append]

/-- Every text is lines and what comes behind them. -/
theorem exists_eq_ended (text : Text) : ∃ lines last, text = ended lines ++ last ∧
    (∀ line ∈ lines, Unmarked '\r' '\n' line) ∧ Unmarked '\r' '\n' last := by
  induction ([] : Text), text using splitLines.induct with
  | case1 => exact ⟨[], [], rfl, List.forall_mem_nil _, unmarked_nil⟩
  | case2 _ rest ih =>
    obtain ⟨lines, last, rfl, hlines, hlast⟩ := ih
    exact ⟨[] :: lines, last, rfl, List.forall_mem_cons.mpr ⟨unmarked_nil, hlines⟩, hlast⟩
  | case3 _ c rest hne ih =>
    obtain ⟨lines, last, rfl, hlines, hlast⟩ := ih
    cases lines with
    | nil =>
      refine ⟨[], c :: last, rfl, List.forall_mem_nil _, unmarked_cons_iff.mpr ⟨?_, hlast⟩⟩
      rintro ⟨hc, hhead⟩
      obtain ⟨more, hmore⟩ := List.head?_eq_some_iff.mp hhead
      exact hne more hc hmore
    | cons line lines =>
      obtain ⟨hline, hlines⟩ := List.forall_mem_cons.mp hlines
      refine ⟨(c :: line) :: lines, last, rfl, List.forall_mem_cons.mpr ⟨unmarked_cons_iff.mpr ⟨?_, hline⟩, hlines⟩, hlast⟩
      rintro ⟨hc, hhead⟩
      obtain ⟨more, rfl⟩ := List.head?_eq_some_iff.mp hhead
      exact hne _ hc rfl

/-- The text of a head. -/
def headText (requestLine : Text) (headers : List Text) : Text := ended (requestLine :: headers) ++ crlf

theorem splitLines_headText {requestLine : Text} {headers : List Text}
    (h : ∀ line ∈ requestLine :: headers, Unmarked '\r' '\n' line) :
    splitLines [] (headText requestLine headers) = requestLine :: headers ++ [[], []] := by
  have hblank : headText requestLine headers = ended (requestLine :: headers ++ [[]]) ++ [] := by
    rw [headText, ended_append, List.append_nil]
    rfl
  rw [hblank, splitLines_ended ?_ unmarked_nil, List.append_assoc]
  · rfl
  · intro line hline
    rcases List.mem_append.mp hline with hline | hline
    · exact h line hline
    · rw [List.mem_singleton.mp hline]
      exact unmarked_nil

theorem ended_concat (lines : List Text) (last : Text) : ended (lines ++ [last]) = ended lines ++ last ++ crlf := by
  rw [ended_append, ended_cons, List.append_assoc]
  simp [ended]

/-- The text of a head whose only blank line is the last is lines that are not empty. -/
theorem exists_headText {front : Text}
    (h : ∀ before after, front ++ crlf ++ crlf = before ++ crlf ++ crlf ++ after → after = []) :
    ∃ requestLine headers, front ++ crlf ++ crlf = headText requestLine headers ∧
      (∀ line ∈ requestLine :: headers, Unmarked '\r' '\n' line) ∧ [] ∉ headers := by
  obtain ⟨lines, last, rfl, hlines, hlast⟩ := exists_eq_ended front
  obtain ⟨requestLine, headers, hcons⟩ := List.exists_cons_of_ne_nil (List.append_ne_nil_of_right_ne_nil lines
    (List.cons_ne_nil last []))
  have htext : ended lines ++ last ++ crlf ++ crlf = headText requestLine headers := by
    rw [headText, ← hcons, ended_concat]
  refine ⟨requestLine, headers, htext, ?_, fun hempty => ?_⟩
  · rw [← hcons]
    exact List.forall_mem_append.mpr ⟨hlines, List.forall_mem_singleton.mpr hlast⟩
  · -- An empty line before the last makes a blank line that is not the last.
    obtain ⟨earlier, later, rfl⟩ := List.append_of_mem hempty
    obtain ⟨before, line, hbefore⟩ := (List.eq_nil_or_concat (requestLine :: earlier)).resolve_left (List.cons_ne_nil _ _)
    have hblank := h (ended before ++ line) (ended later ++ crlf) (by
      rw [htext, headText, ← List.cons_append, hbefore, List.concat_eq_append, ended_append, ended_concat, ended_cons]
      simp only [List.nil_append, List.append_assoc])
    simp [crlf] at hblank

/-! ### From bytes to lines -/

theorem toUtf8_blank (front : Text) : toUtf8 (front ++ crlf ++ crlf) = toUtf8 front ++ blankLine := by
  have hcrlf : toUtf8 crlf = [13, 10] := by
    rw [toUtf8_eq]
    rfl
  rw [toUtf8_append, toUtf8_append, hcrlf, List.append_assoc]
  rfl

/-- The text of a head ends in its only blank line. -/
theorem exists_front {buffer : List UInt8} {n : ℕ} (h : EndsHead buffer n) {text : Text}
    (htext : fromUtf8 (buffer.take n) = some text) : ∃ front, text = front ++ crlf ++ crlf ∧
      ∀ before after, text = before ++ crlf ++ crlf ++ after → after = [] := by
  rw [fromUtf8_eq_some_iff] at htext
  obtain ⟨bytes, hbytes⟩ := h.ends
  rw [htext] at hbytes
  obtain ⟨front, rfl, -⟩ := exists_of_toUtf8_eq_append_ascii hbytes.symm (by decide)
  refine ⟨front, by rw [List.append_assoc]; rfl, fun before after hcut => ?_⟩
  by_contra hafter
  -- A blank line with something behind it would have ended the head before.
  rw [hcut, toUtf8_append, toUtf8_blank] at htext
  have hlength := congrArg List.length htext
  rw [List.length_take_of_le h.le, List.length_append] at hlength
  have hpos : 0 < (toUtf8 after).length := List.length_pos_of_ne_nil (mt toUtf8_eq_nil_iff.mp hafter)
  have hearlier : buffer.take (toUtf8 before ++ blankLine).length = toUtf8 before ++ blankLine := by
    have htake := congrArg (List.take (toUtf8 before ++ blankLine).length) htext
    rwa [List.take_take, Nat.min_eq_left (by omega), List.take_left] at htake
  exact h.first (toUtf8 before ++ blankLine).length (by omega) (by rw [hearlier]; exact List.suffix_append _ _)

/-! ### What a line has to be -/

/-- `GET` or `HEAD`, a target and a version, with one space between them. -/
def RequestLine (line : Text) : Prop :=
  ∃ method target version, line = method ++ ' ' :: target ++ ' ' :: version ∧
    (method = "GET".toList ∨ method = "HEAD".toList) ∧ target.head? = some '/' ∧ ' ' ∉ target ∧
    (version = "HTTP/1.0".toList ∨ version = "HTTP/1.1".toList)

/-- A name that is not empty and has no space behind it, a colon, and no body declared. -/
def HeaderLine (line : Text) : Prop :=
  ∃ name value, line = name ++ ':' :: value ∧ ':' ∉ name ∧ name ≠ [] ∧
    (∀ c, name.getLast? = some c → isWhitespace c = false) ∧ declaresABody name value = false

theorem parse_method_iff {token : Text} :
    (∃ method, Method.parse token = some method) ↔ token = "GET".toList ∨ token = "HEAD".toList := by
  unfold Method.parse
  constructor
  · rintro ⟨method, h⟩
    split_ifs at h with hget hhead
    · exact .inl hget
    · exact .inr hhead
  · rintro (hget | hhead)
    · exact ⟨.get, if_pos hget⟩
    · exact ⟨.head, by rw [hhead]; rfl⟩

theorem parseRequestLine_ok_iff {line : Text} : (∃ parts, parseRequestLine line = .ok parts) ↔ RequestLine line := by
  unfold parseRequestLine
  constructor
  · rintro ⟨parts, h⟩
    split at h
    next method target version hsplit =>
      obtain ⟨-, hpieces, hjoin⟩ := splitOn_eq_iff.mp hsplit
      split_ifs at h with htarget hversion
      split at h
      next parsed hmethod =>
        refine ⟨method, target, version, ?_, parse_method_iff.mp ⟨parsed, hmethod⟩, not_not.mp htarget,
          hpieces target (by simp), ?_⟩
        · rw [← hjoin]
          simp [List.intercalate]
        · rw [not_and_or, not_not, not_not] at hversion
          exact hversion.symm
      next => cases h
    next => cases h
  · rintro ⟨method, target, version, rfl, hmethod, htarget, hspace, hversion⟩
    have hsplit : (method ++ ' ' :: target ++ ' ' :: version).splitOn ' ' = [method, target, version] := by
      refine splitOn_eq_iff.mpr ⟨by simp, ?_, by simp [List.intercalate]⟩
      rw [List.forall_mem_cons, List.forall_mem_cons, List.forall_mem_singleton]
      refine ⟨?_, hspace, ?_⟩
      · rcases hmethod with rfl | rfl <;> decide
      · rcases hversion with rfl | rfl <;> decide
    obtain ⟨parsed, hparsed⟩ := parse_method_iff.mpr hmethod
    refine ⟨(parsed, target), ?_⟩
    rw [hsplit]
    dsimp only
    rw [if_neg (not_not.mpr htarget), if_neg ?_, hparsed]
    rw [not_and_or, not_not, not_not]
    exact hversion.symm

theorem trimEnd_eq_self_iff {name : Text} :
    trimEnd name = name ↔ ∀ c, name.getLast? = some c → isWhitespace c = false := by
  rw [trimEnd, List.rdropWhile_eq_self_iff]
  constructor
  · intro h c hc
    obtain ⟨before, rfl⟩ := List.getLast?_eq_some_iff.mp hc
    simpa using h (by simp)
  · intro h hne
    rw [h _ (List.getLast?_eq_some_getLast hne)]
    exact Bool.false_ne_true

/-- A line is judged by its first colon. -/
theorem headerLine_iff {line name value : Text} (h : splitOnce ':' line = some (name, value)) :
    HeaderLine line ↔ ¬ (name.isEmpty = true ∨ trimEnd name ≠ name) ∧ declaresABody name value = false := by
  have hempty : name.isEmpty = true ↔ name = [] := List.isEmpty_iff
  rw [not_or, not_not, hempty, trimEnd_eq_self_iff]
  constructor
  · rintro ⟨name', value', hcut, hcolon, hne, hlast, hbody⟩
    rw [splitOnce_eq_some_iff.mpr ⟨hcut, hcolon⟩, Option.some.injEq, Prod.mk.injEq] at h
    obtain ⟨rfl, rfl⟩ := h
    exact ⟨⟨hne, hlast⟩, hbody⟩
  · rintro ⟨⟨hne, hlast⟩, hbody⟩
    obtain ⟨hcut, hcolon⟩ := splitOnce_eq_some_iff.mp h
    exact ⟨name, value, hcut, hcolon, hne, hlast, hbody⟩

/-- The loop gets to the blank line just when there are not too many lines and each is one. -/
theorem parseHeaders_ok_iff {headers : List Text} (hempty : [] ∉ headers) {count : ℕ} (hcount : count ≤ maxHeaders)
    (host : Option Text) : (∃ found, parseHeaders count host (headers ++ [[], []]) = .ok found) ↔
      count + headers.length ≤ maxHeaders ∧ ∀ header ∈ headers, utf8Len header ≤ maxHeaderLine ∧ HeaderLine header := by
  induction headers generalizing count host with
  | nil =>
    constructor
    · rintro -
      exact ⟨hcount, List.forall_mem_nil _⟩
    · rintro -
      exact ⟨host, rfl⟩
  | cons line headers ih =>
    rw [List.mem_cons, not_or] at hempty
    rw [List.cons_append, parseHeaders]
    rw [if_neg (by simpa using Ne.symm hempty.1), List.forall_mem_cons, List.length_cons]
    split_ifs with hmany hlong
    · constructor
      · rintro ⟨found, h⟩
        cases h
      · rintro ⟨hfew, -⟩
        omega
    · constructor
      · rintro ⟨found, h⟩
        cases h
      · rintro ⟨-, ⟨hshort, -⟩, -⟩
        omega
    · have hrest := @ih hempty.2 (count + 1) (by omega)
      cases honce : splitOnce ':' line with
      | none =>
        constructor
        · rintro ⟨found, h⟩
          cases h
        · rintro ⟨-, ⟨-, name, value, hcut, hname, -⟩, -⟩
          rw [splitOnce_eq_some_iff.mpr ⟨hcut, hname⟩] at honce
          cases honce
      | some parts =>
        obtain ⟨name, value⟩ := parts
        dsimp only
        rw [headerLine_iff honce]
        by_cases hname : name.isEmpty = true ∨ trimEnd name ≠ name
        · rw [if_pos hname]
          constructor
          · rintro ⟨found, h⟩
            cases h
          · rintro ⟨-, ⟨-, hnot, -⟩, -⟩
            exact absurd hname hnot
        · rw [if_neg hname]
          cases hbody : declaresABody name value with
          | true =>
            constructor
            · rintro ⟨found, h⟩
              cases h
            · rintro ⟨-, ⟨-, -, hnone⟩, -⟩
              cases hnone
          | false =>
            rw [if_neg Bool.false_ne_true, hrest]
            constructor
            · rintro ⟨hfew, hheaders⟩
              exact ⟨by omega, ⟨by omega, hname, rfl⟩, hheaders⟩
            · rintro ⟨hfew, -, hheaders⟩
              exact ⟨by omega, hheaders⟩

/-! ### What is accepted -/

/-- A head of this length, in lines that are what they have to be. -/
def WellFormed (buffer : List UInt8) (n : ℕ) : Prop :=
  EndsHead buffer n ∧ n ≤ maxRequest ∧ ∃ requestLine headers,
    fromUtf8 (buffer.take n) = some (headText requestLine headers) ∧
    (∀ line ∈ requestLine :: headers, Unmarked '\r' '\n' line) ∧
    RequestLine requestLine ∧ utf8Len requestLine ≤ maxRequestLine ∧ headers.length ≤ maxHeaders ∧
    ∀ header ∈ headers, utf8Len header ≤ maxHeaderLine ∧ HeaderLine header

/-- The head of a request is read in its lines. -/
theorem parseHead_complete_iff {head : List UInt8} {n m : ℕ} :
    (∃ request, parseHead head n = .complete request ∧ request.headLen = m) ↔ n = m ∧ ∃ text requestLine lines,
      fromUtf8 head = some text ∧ splitLines [] text = requestLine :: lines ∧ utf8Len requestLine ≤ maxRequestLine ∧
      (∃ parts, parseRequestLine requestLine = .ok parts) ∧ ∃ host, parseHeaders 0 none lines = .ok host := by
  unfold parseHead
  constructor
  · rintro ⟨request, h, hlength⟩
    split at h
    · cases h
    next text htext =>
      split at h
      · cases h
      next requestLine lines hlines =>
        split_ifs at h with hlong
        split at h
        · cases h
        next method target hparts =>
          split at h
          · cases h
          next host hhost =>
            cases h
            exact ⟨hlength, text, requestLine, lines, htext, hlines, not_lt.mp hlong, ⟨_, hparts⟩, host, hhost⟩
  · rintro ⟨rfl, text, requestLine, lines, htext, hlines, hshort, ⟨parts, hparts⟩, host, hhost⟩
    rw [htext]
    dsimp only
    rw [hlines]
    dsimp only
    rw [if_neg (not_lt.mpr hshort), hparts]
    dsimp only
    rw [hhost]
    exact ⟨_, rfl, rfl⟩

theorem parse_complete_iff {buffer : List UInt8} {n : ℕ} :
    (∃ request, parse buffer = .complete request ∧ request.headLen = n) ↔ WellFormed buffer n := by
  have hparse : (∃ request, parse buffer = .complete request ∧ request.headLen = n) ↔ headEnd buffer = some n ∧
      ∃ request, parseHead (buffer.take n) n = .complete request ∧ request.headLen = n := by
    rw [parse]
    cases hend : headEnd buffer with
    | none =>
      dsimp only
      split_ifs <;> simp
    | some m =>
      have hlimit := (headEnd_eq_some_iff.mp hend).2
      dsimp only
      rw [if_neg (not_lt.mpr hlimit), Option.some.injEq]
      constructor
      · intro h
        obtain ⟨rfl, -⟩ := parseHead_complete_iff.mp h
        exact ⟨rfl, h⟩
      · rintro ⟨rfl, h⟩
        exact h
  rw [hparse, headEnd_eq_some_iff, parseHead_complete_iff, WellFormed, and_assoc]
  refine and_congr_right fun hhead => and_congr_right fun hlimit => ?_
  constructor
  · rintro ⟨-, text, requestLine, lines, htext, hlines, hshort, hparts, hhost⟩
    obtain ⟨front, rfl, honly⟩ := exists_front hhead htext
    obtain ⟨first, headers, hfront, hunmarked, hempty⟩ := exists_headText honly
    rw [hfront, splitLines_headText hunmarked, List.cons_append, List.cons.injEq] at hlines
    obtain ⟨rfl, rfl⟩ := hlines
    obtain ⟨hfew, hheaders⟩ := (parseHeaders_ok_iff hempty (Nat.zero_le _) none).mp hhost
    exact ⟨first, headers, by rw [htext, hfront], hunmarked, parseRequestLine_ok_iff.mp hparts, hshort,
      by omega, hheaders⟩
  · rintro ⟨requestLine, headers, htext, hunmarked, hline, hshort, hfew, hheaders⟩
    have hempty : [] ∉ headers := by
      intro hmem
      obtain ⟨-, name, value, hcut, -⟩ := hheaders [] hmem
      simp at hcut
    refine ⟨rfl, _, requestLine, headers ++ [[], []], htext, ?_, hshort, parseRequestLine_ok_iff.mpr hline, ?_⟩
    · rw [splitLines_headText hunmarked, List.cons_append]
    · exact (parseHeaders_ok_iff hempty (Nat.zero_le _) none).mpr ⟨by omega, hheaders⟩

/-- A decision is kept, and a request is accepted just when it is in the grammar. -/
theorem parse_exact : (∀ buffer more, parse buffer = .incomplete ∨ parse (buffer ++ more) = parse buffer) ∧
    ∀ buffer n, (∃ request, parse buffer = .complete request ∧ request.headLen = n) ↔ WellFormed buffer n := by
  refine ⟨fun buffer more => ?_, fun buffer n => parse_complete_iff⟩
  by_cases h : parse buffer = .incomplete
  · exact .inl h
  · exact .inr (parse_stable h more)

end Kmsrs.Web
