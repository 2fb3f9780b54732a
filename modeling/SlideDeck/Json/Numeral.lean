import SlideDeck.Json.Fault

/-!
Numerals. The digits of a numeral are gathered into a significand of 64 bits. Digits that do not fit
any more only move the decimal point, so that a long numeral is read with the precision that a
double can use.
-/
namespace SlideDeck.Json

/-- A part of a reading: a value and the text behind it, or the fault met on the way. -/
abbrev Reader (α : Type) := List Char → Except Fault (α × List Char)

def isSpace (c : Char) : Bool := c == ' ' || c == '\n' || c == '\t' || c == '\r'

def skipSpace (cs : List Char) : List Char := cs.dropWhile isSpace

def largestSignificand : Nat := Nat.pow 2 64 - 1

def digitValue (c : Char) : Nat := c.toNat - '0'.toNat

/-- Appends leading digits to a significand as long as it fits. -/
def gather (significand : Nat) : List Char → Nat × List Char
  | [] => (significand, [])
  | c :: rest =>
    if c.isDigit && significand * 10 + digitValue c ≤ largestSignificand then
      gather (significand * 10 + digitValue c) rest
    else (significand, c :: rest)

def skipDigits (cs : List Char) : List Char := cs.dropWhile Char.isDigit

def startsWithDigit : List Char → Bool
  | [] => false
  | c :: _ => c.isDigit

/-- An unsigned numeral: a significand, and a power of ten to scale it by unless the numeral is a
whole number that was gathered completely. -/
structure Numeral where
  significand : Nat
  scale? : Option Int
  deriving DecidableEq, Repr

def exponentValue (digits : List Char) : Nat :=
  digits.foldl (fun n c => n * 10 + digitValue c) 0

/-- The rest of a numeral behind the mark of its exponent. -/
def readExponent (significand : Nat) (scale : Int) (cs : List Char) :
    Except Fault (Numeral × List Char) :=
  let (negative, cs) := match cs with
    | '+' :: rest => (false, rest)
    | '-' :: rest => (true, rest)
    | rest => (false, rest)
  match cs with
  | [] => .error .endInValue
  | c :: rest =>
    if c.isDigit then
      let n : Int := exponentValue ((c :: rest).takeWhile Char.isDigit)
      .ok (⟨significand, some (if negative then scale - n else scale + n)⟩, skipDigits (c :: rest))
    else .error .badNumber

/-- The rest of a numeral behind its decimal point. -/
def readFraction (significand : Nat) (scale : Int) (cs : List Char) :
    Except Fault (Numeral × List Char) :=
  match cs with
  | [] => .error .endInValue
  | c :: _ =>
    if c.isDigit then
      let (significand, unread) := gather significand cs
      let scale := scale - ((cs.length - unread.length : Nat) : Int)
      match skipDigits unread with
      | 'e' :: rest => readExponent significand scale rest
      | 'E' :: rest => readExponent significand scale rest
      | rest => .ok (⟨significand, some scale⟩, rest)
    else .error .badNumber

/-- An unsigned numeral. A zero cannot be followed by further digits. -/
def readNumeral (cs : List Char) : Except Fault (Numeral × List Char) :=
  match cs with
  | [] => .error .endInValue
  | c :: after =>
    if !c.isDigit || (c == '0' && startsWithDigit after) then .error .badNumber
    else
      let (significand, unread) := gather 0 cs
      let rest := skipDigits unread
      let scale : Int := ((unread.length - rest.length : Nat) : Int)
      match rest with
      | '.' :: rest => readFraction significand scale rest
      | 'e' :: rest => readExponent significand scale rest
      | 'E' :: rest => readExponent significand scale rest
      | rest => .ok (⟨significand, if scale = 0 then none else some scale⟩, rest)

/-- The number of a numeral with its sign. Whole numbers are kept as such from `-2 ^ 63` to
`2 ^ 64 - 1`; a minus before zero makes it a double. -/
def Numeral.number? (negative : Bool) (n : Numeral) : Option Number :=
  match n.scale? with
  | some scale => (Double.ofDecimal? negative n.significand scale).map .double
  | none =>
    if !negative then some (.int n.significand)
    else if 1 ≤ n.significand ∧ n.significand ≤ Nat.pow 2 63 then some (.int (-n.significand))
    else (Double.ofDecimal? negative n.significand 0).map .double

/-- A number behind its sign. -/
def readNumber (negative : Bool) : Reader Number := fun cs => do
  let (numeral, rest) ← readNumeral cs
  match numeral.number? negative with
  | some n => .ok (n, rest)
  | none => .error .numberTooLarge

end SlideDeck.Json
