import Kmsrs.Lib.Rows
import Mathlib.Data.List.DropRight

/-! Text as a list of Unicode scalar values, with the character classes and the
trimming that the programs' string type documents. -/

namespace Kmsrs

abbrev Text := List Char

namespace Text

/-- The general category `Cc`. -/
def isControl (c : Char) : Bool := c.toNat < 0x20 || (0x7F ≤ c.toNat && c.toNat < 0xA0)

/-- The property `White_Space`. -/
def isWhitespace (c : Char) : Bool :=
  (0x09 ≤ c.toNat && c.toNat ≤ 0x0D) || (0x2000 ≤ c.toNat && c.toNat ≤ 0x200A) ||
    [0x20, 0x85, 0xA0, 0x1680, 0x2028, 0x2029, 0x202F, 0x205F, 0x3000].contains c.toNat

def trimStart (text : Text) : Text := text.dropWhile isWhitespace

def trimEnd (text : Text) : Text := text.rdropWhile isWhitespace

def trim (text : Text) : Text := trimEnd (trimStart text)

/-- `trim_end_matches` of one character. -/
def trimEndMatches (c : Char) (text : Text) : Text := text.rdropWhile (· == c)

/-- `Display` of an unsigned number. -/
def decimal (n : ℕ) : Text := Nat.toDigits 10 n

/-- How many bytes the text takes. -/
def utf8Len (text : Text) : ℕ := (text.map Char.utf8Size).sum

/-- `core::str::from_utf8`. -/
def fromUtf8 (bytes : List UInt8) : Option Text := (String.fromUTF8? ⟨bytes.toArray⟩).map String.toList

def toUtf8 (text : Text) : List UInt8 := (String.ofList text).toUTF8.toList

def eqIgnoreAsciiCase (a b : Text) : Bool := a.map Char.toLower == b.map Char.toLower

/-- `split_once` on one character. -/
def splitOnce (c : Char) (text : Text) : Option (Text × Text) :=
  if c ∈ text then some (text.takeWhile (· ≠ c), (text.dropWhile (· ≠ c)).tail) else none

end Text

end Kmsrs
