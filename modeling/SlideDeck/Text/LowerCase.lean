import SlideDeck.Text.Cased
import SlideDeck.Text.CaseIgnorable
import SlideDeck.Text.LowerMapping

/-!
Lower-casing of whole texts by the rules of the Unicode standard. All characters but two are mapped
alone; `İ` becomes two characters, and `Σ` takes its final form `ς` at the end of a word.
-/
namespace SlideDeck.Text

/-- A letter with a case comes first, once the characters that do not count are passed over. -/
def startsCased (cs : List Char) : Bool :=
  match cs.dropWhile isCaseIgnorable with
  | [] => false
  | c :: _ => isCased c

/-- A sigma ends a word when a cased letter stands before it and none stands after it. The first
argument is the text before it, read backwards. -/
def endsWord (before after : List Char) : Bool :=
  startsCased before && !startsCased after

/-- The lower-case form of one character between its surroundings; `before` is read backwards. -/
def lowerAt (before : List Char) (c : Char) (after : List Char) : List Char :=
  if c = 'Σ' then [if endsWord before after then 'ς' else 'σ']
  else if c = 'İ' then ['i', '\u0307']
  else [lowerChar c]

/-- The lower-case form of a text that follows `before`, which is read backwards. -/
def lowerFrom : List Char → List Char → List Char
  | _, [] => []
  | before, c :: after => lowerAt before c after ++ lowerFrom (c :: before) after

def lower (cs : List Char) : List Char := lowerFrom [] cs

end SlideDeck.Text
