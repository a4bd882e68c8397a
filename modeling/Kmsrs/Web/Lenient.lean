import Kmsrs.Web.Grammar

/-! The heads that are accepted, as a more lenient reader would have them: a line also ends
at a bare LF, and a name may have space on both sides. Such a reader finds a body only in
a line that has an LF in it or begins with space. -/

namespace Kmsrs.Web

open Text
open Response (crlf)

/-- The lines of a text that end at CRLF or at a bare LF. -/
def lenientLines (text : Text) : List Text := (splitLines [] text).flatMap (List.splitOn '\n')

/-- A header that announces a body to a reader that trims the name. -/
def Announces (line : Text) : Prop :=
  ∃ name value, line = name ++ ':' :: value ∧ ':' ∉ name ∧
    (eqIgnoreAsciiCase (trim name) "transfer-encoding".toList = true ∨
      (eqIgnoreAsciiCase (trim name) "content-length".toList = true ∧ trim value ≠ "0".toList))

/-- No line announces a body. -/
def Bodiless (text : Text) : Prop := ∀ line ∈ lenientLines text, ¬ Announces line

/-- The lines that end at CRLF and have a bare LF in them or space before them. -/
def Irregular (line : Text) : Prop := '\n' ∈ line ∨ ∃ c, line.head? = some c ∧ isWhitespace c = true

/-! ### Names -/

/-- Trimming drops space only. -/
theorem mem_trim {c : Char} {text : Text} (h : c ∈ text) (hc : isWhitespace c = false) : c ∈ trim text := by
  have hstart : c ∈ trimStart text := by
    rw [← List.takeWhile_append_dropWhile (p := isWhitespace) (l := text), List.mem_append] at h
    refine h.resolve_left fun hspace => ?_
    rw [List.mem_takeWhile_imp hspace] at hc
    cases hc
  rw [trim, trimEnd]
  rw [← List.rdropWhile_append_rtakeWhile (p := isWhitespace) (l := trimStart text), List.mem_append] at hstart
  refine hstart.resolve_right fun hspace => ?_
  rw [List.mem_rtakeWhile_imp hspace] at hc
  cases hc

/-- A name with no space at either end is its own. -/
theorem trim_eq_self {name : Text} (hhead : ∀ c, name.head? = some c → isWhitespace c = false)
    (hlast : ∀ c, name.getLast? = some c → isWhitespace c = false) : trim name = name := by
  have hstart : trimStart name = name := by
    cases name with
    | nil => rfl
    | cons c name => rw [trimStart, List.dropWhile_cons_of_neg (by rw [hhead c rfl]; exact Bool.false_ne_true)]
  rw [trim, hstart, trimEnd_eq_self_iff.mpr hlast]

/-- Nothing up to the first colon is lost of a name. -/
theorem prefix_name {front rest name value : Text} (h : front ++ rest = name ++ ':' :: value) (hfront : ':' ∉ front) :
    front <+: name := prefix_of_prefix_append_cons ⟨rest, h⟩ hfront

/-! ### Lines that are not irregular -/

theorem not_announces_requestLine {line : Text} (h : RequestLine line) : ¬ Announces line := by
  rintro ⟨name, value, hcut, -, hname⟩
  obtain ⟨method, target, version, rfl, hmethod, htarget, -⟩ := h
  obtain ⟨more, rfl⟩ := List.head?_eq_some_iff.mp htarget
  have hslash : '/' ∈ trim name := by
    have hfront : (method ++ [' ', '/']) <+: name := by
      refine @prefix_name _ (more ++ ' ' :: version) _ _ (by simpa using hcut) ?_
      rcases hmethod with rfl | rfl <;> decide
    exact mem_trim (hfront.subset (by simp)) (by decide)
  have hlower : '/' ∈ (trim name).map Char.toLower := List.mem_map.mpr ⟨'/', hslash, by decide⟩
  rcases hname with htransfer | ⟨hlength, -⟩
  · rw [beq_iff_eq.mp htransfer] at hlower
    exact absurd hlower (by decide)
  · rw [beq_iff_eq.mp hlength] at hlower
    exact absurd hlower (by decide)

theorem not_announces_header {line : Text} (h : HeaderLine line)
    (hhead : ∀ c, line.head? = some c → isWhitespace c = false) : ¬ Announces line := by
  rintro ⟨name, value, hcut, hcolon, hname⟩
  have honce := splitOnce_eq_some_iff.mpr ⟨hcut, hcolon⟩
  obtain ⟨hgood, hbody⟩ := (headerLine_iff honce).mp h
  rw [not_or, not_not] at hgood
  have htrim : trim name = name := by
    refine trim_eq_self (fun c hc => hhead c ?_) (trimEnd_eq_self_iff.mp hgood.2)
    rw [hcut, List.head?_append, hc, Option.some_or]
  rw [htrim] at hname
  rw [declaresABody] at hbody
  rcases hname with htransfer | ⟨hlength, hvalue⟩
  · rw [if_pos htransfer] at hbody
    cases hbody
  · split_ifs at hbody
    exact absurd hbody (by simpa using hvalue)

/-- A head that is accepted has no body for a lenient reader just when none of its irregular
lines announces one. -/
theorem bodiless_iff {buffer : List UInt8} {request : Request} (h : parse buffer = .complete request) {text : Text}
    (htext : fromUtf8 (buffer.take request.headLen) = some text) : Bodiless text ↔
      ∀ line ∈ splitLines [] text, Irregular line → ∀ piece ∈ line.splitOn '\n', ¬ Announces piece := by
  constructor
  · intro hbodiless line hline _ piece hpiece
    exact hbodiless piece (List.mem_flatMap.mpr ⟨line, hline, hpiece⟩)
  · intro hirregular piece hpiece
    obtain ⟨line, hline, hmem⟩ := List.mem_flatMap.mp hpiece
    by_cases hregular : Irregular line
    · exact hirregular line hline hregular piece hmem
    · rw [Irregular, not_or] at hregular
      obtain ⟨hnewline, hspace⟩ := hregular
      have hhead (c : Char) (hc : line.head? = some c) : isWhitespace c = false := by
        by_contra hnot
        exact hspace ⟨c, hc, Bool.eq_true_of_not_eq_false hnot⟩
      rw [List.splitOn_eq_singleton hnewline, List.mem_singleton] at hmem
      rw [hmem]
      obtain ⟨-, -, requestLine, headers, hread, hunmarked, hrequest, -, -, hheaders⟩ :=
        parse_complete_iff.mp ⟨request, h, rfl⟩
      rw [htext, Option.some.injEq] at hread
      rw [hread, splitLines_headText hunmarked] at hline
      simp only [List.cons_append, List.mem_cons, List.mem_append, List.not_mem_nil, or_false, or_self] at hline
      rcases hline with rfl | hheader | rfl
      · exact not_announces_requestLine hrequest
      · exact not_announces_header (hheaders line hheader).2 hhead
      · rintro ⟨name, value, hcut, -⟩
        simp at hcut

/-- `GET / HTTP/1.1` with `Content-Length: 0`. -/
def zeroLength : List UInt8 := [
  0x47, 0x45, 0x54, 0x20, 0x2F, 0x20, 0x48, 0x54, 0x54, 0x50, 0x2F, 0x31, 0x2E, 0x31, 0x0D, 0x0A, 0x43, 0x6F, 0x6E, 0x74,
  0x65, 0x6E, 0x74, 0x2D, 0x4C, 0x65, 0x6E, 0x67, 0x74, 0x68, 0x3A, 0x20, 0x30, 0x0D, 0x0A, 0x0D, 0x0A]

/-- A length of zero announces nothing. -/
theorem bodiless_zeroLength : Bodiless (zeroLength.map fun byte => Char.ofNat byte.toNat) := by
  have hparse : parse zeroLength = .complete ⟨.get, ['/'], none, 37, none⟩ := by decide +kernel
  have hread : fromUtf8 (zeroLength.take 37) = some (zeroLength.map fun byte => Char.ofNat byte.toNat) := by decide +kernel
  have hregular : ∀ line ∈ splitLines [] (zeroLength.map fun byte => Char.ofNat byte.toNat),
      '\n' ∉ line ∧ line.head?.all (fun c => !isWhitespace c) = true := by decide +kernel
  refine (bodiless_iff hparse hread).mpr fun line hline hirregular => ?_
  obtain ⟨hnewline, hspace⟩ := hregular line hline
  rcases hirregular with hmem | ⟨c, hc, hwhite⟩
  · exact absurd hmem hnewline
  · simp [hc, hwhite] at hspace

/-- `GET / HTTP/1.1` with ` Transfer-Encoding: chunked`, which begins with a space. -/
def spaced : List UInt8 := [
  0x47, 0x45, 0x54, 0x20, 0x2F, 0x20, 0x48, 0x54, 0x54, 0x50, 0x2F, 0x31, 0x2E, 0x31, 0x0D, 0x0A, 0x20, 0x54, 0x72, 0x61,
  0x6E, 0x73, 0x66, 0x65, 0x72, 0x2D, 0x45, 0x6E, 0x63, 0x6F, 0x64, 0x69, 0x6E, 0x67, 0x3A, 0x20, 0x63, 0x68, 0x75, 0x6E,
  0x6B, 0x65, 0x64, 0x0D, 0x0A, 0x0D, 0x0A]

/-- It is accepted, although the name without the space is one of those refused. -/
theorem spaced_accepted : ∃ request text, parse spaced = .complete request ∧
    fromUtf8 (spaced.take request.headLen) = some text ∧ ¬ Bodiless text := by
  have hparse : parse spaced = .complete ⟨.get, ['/'], none, 47, none⟩ := by decide +kernel
  have hread : fromUtf8 (spaced.take 47) = some (spaced.map fun byte => Char.ofNat byte.toNat) := by decide +kernel
  have hline : " Transfer-Encoding: chunked".toList ∈ lenientLines (spaced.map fun byte => Char.ofNat byte.toNat) := by
    decide +kernel
  refine ⟨_, _, hparse, hread, fun hbodiless => hbodiless _ hline ?_⟩
  exact ⟨" Transfer-Encoding".toList, " chunked".toList, by decide +kernel, by decide +kernel, .inl (by decide +kernel)⟩

end Kmsrs.Web
