import SlideDeck.Json.Value
import SlideDeck.Number.Layout
import SlideDeck.Text.Quoted

/-!
The text of JSON values: compact, members in their order, and strings escaped only where the
grammar asks for it.
-/
namespace SlideDeck.Json

/-- Doubles are written positionally from `0.00001` to below `1e+16`. -/
def doubleLayout : DoubleLayout := ⟨-5, 15⟩

/-- How a character is written inside a string. -/
def escapeChar (c : Char) : List Char :=
  if c = '"' then ['\\', '"']
  else if c = '\\' then ['\\', '\\']
  else if c = '\x08' then ['\\', 'b']
  else if c = '\x0c' then ['\\', 'f']
  else if c = '\n' then ['\\', 'n']
  else if c = '\r' then ['\\', 'r']
  else if c = '\t' then ['\\', 't']
  else if c.toNat < 0x20 then
    ['\\', 'u', '0', '0', Text.hexDigit (c.toNat / 16), Text.hexDigit (c.toNat % 16)]
  else [c]

def printString (s : String) : List Char :=
  '"' :: s.toList.flatMap escapeChar ++ ['"']

def printInt : Int → List Char
  | .ofNat n => Nat.toDigits 10 n
  | .negSucc n => '-' :: Nat.toDigits 10 (n + 1)

def Number.print : Number → List Char
  | .int n => printInt n
  | .double d => doubleLayout.write d

namespace Value

mutual

def print : Value → List Char
  | .null => ['n', 'u', 'l', 'l']
  | .bool true => ['t', 'r', 'u', 'e']
  | .bool false => ['f', 'a', 'l', 's', 'e']
  | .number n => n.print
  | .string s => printString s
  | .array items => '[' :: printItems items ++ [']']
  | .object members => '\x7b' :: printMembers members ++ ['\x7d']

/-- The texts of the items with commas between them. -/
def printItems : List Value → List Char
  | [] => []
  | [v] => print v
  | v :: w :: rest => print v ++ ',' :: printItems (w :: rest)

/-- The names and values of the members with commas between them. -/
def printMembers : List (String × Value) → List Char
  | [] => []
  | [(k, v)] => printString k ++ ':' :: print v
  | (k, v) :: m :: rest => printString k ++ ':' :: print v ++ ',' :: printMembers (m :: rest)

end

def toText (v : Value) : String := String.ofList v.print

end Value
end SlideDeck.Json
