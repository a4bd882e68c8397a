import Kmsrs.Lib.Text

/-! The request parser of the web role: bytes in, a decision out. Lengths are
checked before anything behind them is looked at, and only the head is read. -/

namespace Kmsrs.Web

open Text

def maxRequestLine : ℕ := 2048
def maxHeaderLine : ℕ := 1024
def maxHeaders : ℕ := 64
def maxRequest : ℕ := 8192

inductive Method where
  | get
  | head
deriving DecidableEq

def Method.parse (token : Text) : Option Method :=
  if token = "GET".toList then some .get else if token = "HEAD".toList then some .head else none

def Method.wantsBody : Method → Bool
  | .get => true
  | .head => false

structure Request where
  method : Method
  path : Text
  query : Option Text
  headLen : ℕ
  host : Option Text
deriving DecidableEq

inductive RequestError where
  | requestLineTooLong
  | headerTooLong
  | tooManyHeaders
  | headTooLong
  | malformedRequestLine
  | unsupportedMethod
  | unsupportedVersion
  | malformedHeader
  | bodyNotAllowed
  | notText
deriving DecidableEq

inductive Parsed where
  | incomplete
  | complete (request : Request)
  | refused (error : RequestError)
deriving DecidableEq

/-- Where the blank line that ends a head begins. -/
def endsAt (window : List UInt8) (start : ℕ) : Bool := (window.drop start).take 4 == [13, 10, 13, 10]

/-- Where the head ends, including the terminating blank line. -/
def headEnd (buffer : List UInt8) : Option ℕ :=
  let window := buffer.take maxRequest
  ((List.range (window.length - 3)).find? (endsAt window)).map (· + 4)

/-- `split("\r\n")`, the lines that come after `line`. -/
def splitLines (line : Text) : Text → List Text
  | [] => [line]
  | '\r' :: '\n' :: rest => line :: splitLines [] rest
  | c :: rest => splitLines (line ++ [c]) rest

/-- Split `METHOD TARGET HTTP/1.x` into the two parts that matter. -/
def parseRequestLine (line : Text) : Except RequestError (Method × Text) :=
  match line.splitOn ' ' with
  | [method, target, version] =>
    if target.head? ≠ some '/' then .error .malformedRequestLine
    else if version ≠ "HTTP/1.1".toList ∧ version ≠ "HTTP/1.0".toList then .error .unsupportedVersion
    else
      match Method.parse method with
      | some method => .ok (method, target)
      | none => .error .unsupportedMethod
  | _ => .error .malformedRequestLine

/-- Whether a header announces a body. -/
def declaresABody (name value : Text) : Bool :=
  if eqIgnoreAsciiCase name "transfer-encoding".toList then true
  else if eqIgnoreAsciiCase name "content-length".toList then trim value ≠ "0".toList
  else false

def maxHost : ℕ := 255

/-- The characters a hostname or an address can contain. -/
def hostCharacter (c : Char) : Bool := c.isAlphanum || ['.', '-', ':', '[', ']', '_'].contains c

/-- The host part of a `Host` header, if it is one worth repeating back. -/
def plausibleHost (value : Text) : Option Text :=
  let host := match value with
    | '[' :: rest => if ']' ∈ rest then some ('[' :: rest.takeWhile (· ≠ ']') ++ [']']) else none
    | _ => some (((splitOnce ':' value).map Prod.fst).getD value)
  host.bind fun host =>
    if host.isEmpty ∨ maxHost < utf8Len host then none else if host.all hostCharacter then some host else none

/-- The loop over the header lines: how many so far and the host found. -/
def parseHeaders (count : ℕ) (host : Option Text) : List Text → Except RequestError (Option Text)
  | [] => .ok host
  | line :: lines =>
    if line.isEmpty then .ok host
    else if maxHeaders < count + 1 then .error .tooManyHeaders
    else if maxHeaderLine < utf8Len line then .error .headerTooLong
    else
      match splitOnce ':' line with
      | none => .error .malformedHeader
      | some (name, value) =>
        if name.isEmpty ∨ trimEnd name ≠ name then .error .malformedHeader
        else if declaresABody name value then .error .bodyNotAllowed
        else
          let host :=
            if host.isNone ∧ eqIgnoreAsciiCase name "Host".toList then plausibleHost (trim value) else host
          parseHeaders (count + 1) host lines

/-- The head of a request, which is `headLen` bytes long. -/
def parseHead (head : List UInt8) (headLen : ℕ) : Parsed :=
  match fromUtf8 head with
  | none => .refused .notText
  | some text =>
    match splitLines [] text with
    | [] => .refused .malformedRequestLine
    | requestLine :: lines =>
      if maxRequestLine < utf8Len requestLine then .refused .requestLineTooLong
      else
        match parseRequestLine requestLine with
        | .error error => .refused error
        | .ok (method, target) =>
          match parseHeaders 0 none lines with
          | .error error => .refused error
          | .ok host =>
            let (path, query) := match splitOnce '?' target with
              | some (path, query) => (path, some query)
              | none => (target, none)
            .complete { method, path, query, headLen, host }

/-- Parse a request head. -/
def parse (buffer : List UInt8) : Parsed :=
  match headEnd buffer with
  | none => if maxRequest ≤ buffer.length then .refused .headTooLong else .incomplete
  | some headLen =>
    if maxRequest < headLen then .refused .headTooLong
    else parseHead (buffer.take headLen) headLen

/-! ### What the end of the head depends on -/

theorem endsAt_append {buffer : List UInt8} {start : ℕ} (h : start + 4 ≤ buffer.length) (more : List UInt8) :
    endsAt (buffer ++ more) start = endsAt buffer start := by
  rw [endsAt, endsAt, List.drop_append_of_le_length (by omega), List.take_append_of_le_length]
  rw [List.length_drop]
  omega

/-- A head that has ended ends where it did when more comes. -/
theorem headEnd_append {buffer : List UInt8} {n : ℕ} (h : headEnd buffer = some n) (more : List UInt8) :
    headEnd (buffer ++ more) = some n ∧ n ≤ buffer.length := by
  rw [headEnd, Option.map_eq_some_iff] at h
  obtain ⟨start, hstart, rfl⟩ := h
  obtain ⟨hends, hmem, hfirst⟩ := List.find?_range_eq_some.mp hstart
  have hwindow : (buffer ++ more).take maxRequest = buffer.take maxRequest ++ more.take (maxRequest - buffer.length) :=
    List.take_append
  have hinside : start + 4 ≤ (buffer.take maxRequest).length := by
    have := List.mem_range.mp hmem
    omega
  refine ⟨?_, hinside.trans (by rw [List.length_take]; omega)⟩
  rw [headEnd, hwindow, Option.map_eq_some_iff]
  refine ⟨start, List.find?_range_eq_some.mpr ⟨?_, ?_, fun earlier hearlier => ?_⟩, rfl⟩
  · rwa [endsAt_append hinside]
  · rw [List.mem_range, List.length_append]
    omega
  · rw [endsAt_append (by omega)]
    exact hfirst earlier hearlier

/-- What is read of a request is its head: bytes behind it change nothing. -/
theorem parse_append {buffer : List UInt8} {n : ℕ} (h : headEnd buffer = some n) (more : List UInt8) :
    parse (buffer ++ more) = parse buffer := by
  obtain ⟨hmore, hinside⟩ := headEnd_append h more
  rw [parse, parse, hmore, h]
  simp only [List.take_append_of_le_length hinside]

theorem parse_ne_incomplete_of_headEnd {buffer : List UInt8} {n : ℕ} (h : headEnd buffer = some n) :
    parse buffer ≠ .incomplete := by
  have hhead : ∀ head, parseHead head n ≠ .incomplete := by
    intro head
    unfold parseHead
    repeat' split
    all_goals simp
  rw [parse, h]
  show (if maxRequest < n then _ else _) ≠ _
  split_ifs
  · simp
  · exact hhead _

/-- A parser that has decided keeps to its decision. -/
theorem parse_stable {buffer : List UInt8} (h : parse buffer ≠ .incomplete) (more : List UInt8) :
    parse (buffer ++ more) = parse buffer := by
  cases hend : headEnd buffer with
  | some n => exact parse_append hend more
  | none =>
    -- No head has ended, so the buffer is full and its window is all that is searched.
    have hfull : maxRequest ≤ buffer.length := by
      by_contra hshort
      rw [parse, hend] at h
      exact h (if_neg hshort)
    have hmore : headEnd (buffer ++ more) = none := by
      rwa [headEnd, List.take_append_of_le_length hfull, ← headEnd]
    have hlength : maxRequest ≤ (buffer ++ more).length := by
      rw [List.length_append]
      omega
    rw [parse, parse, hmore, hend]
    dsimp only
    rw [if_pos hlength, if_pos hfull]

/-- The shortest head is a blank line. -/
theorem parse_of_short {buffer : List UInt8} (h : buffer.length < 4) : parse buffer = .incomplete := by
  have hend : headEnd buffer = none := by
    have hwindow : (buffer.take maxRequest).length - 3 = 0 := by
      rw [List.length_take]
      omega
    rw [headEnd, hwindow, List.range_zero]
    rfl
  have hlimit : maxRequest = 8192 := rfl
  rw [parse, hend]
  exact if_neg (by omega)

/-- A full buffer is always decided. -/
theorem parse_of_full {buffer : List UInt8} (h : maxRequest ≤ buffer.length) : parse buffer ≠ .incomplete := by
  cases hend : headEnd buffer with
  | some n => exact parse_ne_incomplete_of_headEnd hend
  | none =>
    rw [parse, hend]
    show (if maxRequest ≤ buffer.length then _ else _) ≠ _
    rw [if_pos h]
    simp

end Kmsrs.Web
