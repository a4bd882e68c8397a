import Kmsrs.Lib.Json

/-! Addresses read from text, as the standard library reads them: each step takes what
it can from the front and leaves the rest. -/

namespace Kmsrs.IpText

/-- The digits in front as a number: at most `maxDigits` of them and no more than
`bound`, and no zero before others unless that is allowed. -/
def readNumber (digit : Char → Option ℕ) (radix maxDigits bound : ℕ) (allowZeroPrefix : Bool) (text : Text) :
    Option (ℕ × Text) :=
  let run := text.takeWhile fun c => (digit c).isSome
  let value := run.foldl (fun value c => value * radix + (digit c).getD 0) 0
  if run = [] ∨ maxDigits < run.length ∨ bound < value ∨ (!allowZeroPrefix ∧ run.head? = some '0' ∧ 1 < run.length) then none
  else some (value, text.drop run.length)

def decimalValue (c : Char) : Option ℕ := if c.isDigit then some (c.toNat - '0'.toNat) else none

def readOctet (text : Text) : Option (ℕ × Text) := readNumber decimalValue 10 3 255 false text

def readGroup (text : Text) : Option (ℕ × Text) := readNumber Json.hexValue 16 4 0xFFFF true text

def readGivenChar (c : Char) : Text → Option Text
  | [] => none
  | first :: rest => if first = c then some rest else none

/-- Four numbers with points between them. -/
def readIpv4 (text : Text) : Option (List ℕ × Text) := do
  let (a, rest) ← readOctet text
  let (b, rest) ← (readGivenChar '.' rest).bind readOctet
  let (c, rest) ← (readGivenChar '.' rest).bind readOctet
  let (d, rest) ← (readGivenChar '.' rest).bind readOctet
  some ([a, b, c, d], rest)

/-- At most `limit` groups with colons between them; the last two may be an IPv4
address, which ends them. -/
def readGroups (first : Bool) : ℕ → Text → List ℕ × Bool × Text
  | 0, text => ([], false, text)
  | limit + 1, text =>
    let input := if first then some text else readGivenChar ':' text
    match if 0 < limit then input.bind readIpv4 else none with
    | some ([a, b, c, d], rest) => ([256 * a + b, 256 * c + d], true, rest)
    | _ =>
      match input.bind readGroup with
      | none => ([], false, text)
      | some (group, rest) =>
        let (groups, ipv4, rest) := readGroups false limit rest
        (group :: groups, ipv4, rest)

def readIpv6 (text : Text) : Option (List ℕ × Text) := do
  let (front, ipv4, rest) := readGroups true 8 text
  if front.length = 8 then some (front, rest)
  else if ipv4 then none
  else
    let rest ← readGivenChar ':' rest
    let rest ← readGivenChar ':' rest
    let (back, _, rest) := readGroups true (8 - (front.length + 1)) rest
    some (front ++ List.replicate (8 - front.length - back.length) 0 ++ back, rest)

/-- The octets of an IPv4 address or the groups of an IPv6 address. -/
inductive Address where
  | v4 (octets : List ℕ)
  | v6 (groups : List ℕ)
deriving DecidableEq

/-- `IpAddr::from_str` -/
def parse (text : Text) : Option Address :=
  match readIpv4 text with
  | some (octets, rest) => if rest = [] then some (.v4 octets) else none
  | none =>
    match readIpv6 text with
    | some (groups, rest) => if rest = [] then some (.v6 groups) else none
    | none => none

def Address.isLoopback : Address → Bool
  | .v4 octets => octets.head? = some 127
  | .v6 groups => groups = [0, 0, 0, 0, 0, 0, 0, 1]

example : (parse "0:0::1".toList).map Address.isLoopback = some true := by decide +kernel

example : parse "127.0.0.01".toList = none := by decide +kernel

end Kmsrs.IpText
