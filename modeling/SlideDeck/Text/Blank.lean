import SlideDeck.Text.CodeRanges

/-!
Blank characters, that is those with the Unicode property White_Space, and what is left of a text
without the blanks at its ends.
-/
namespace SlideDeck.Text

/-- The ranges of White_Space. -/
def blankRanges : CodeRanges := [
  (0x0009, 0x000D), (0x0020, 0x0020), (0x0085, 0x0085), (0x00A0, 0x00A0), (0x1680, 0x1680),
  (0x2000, 0x200A), (0x2028, 0x2029), (0x202F, 0x202F), (0x205F, 0x205F), (0x3000, 0x3000)]

/-- A character with the property White_Space. -/
def isBlank (c : Char) : Bool := blankRanges.has c

def trimLeft (cs : List Char) : List Char := cs.dropWhile isBlank

def trimRight (cs : List Char) : List Char := (cs.reverse.dropWhile isBlank).reverse

def trim (cs : List Char) : List Char := trimRight (trimLeft cs)

/-- A text of blanks only, the empty one included. -/
def allBlank (s : String) : Bool := s.toList.all isBlank

theorem trimLeft_eq_nil_iff {cs : List Char} : trimLeft cs = [] ↔ cs.all isBlank = true := by
  induction cs with
  | nil => simp [trimLeft]
  | cons c cs ih => by_cases h : isBlank c = true <;> simp_all [trimLeft]

theorem all_isBlank_of_trimLeft {cs : List Char} (h : (trimLeft cs).all isBlank = true) :
    cs.all isBlank = true := by
  induction cs with
  | nil => rfl
  | cons c cs ih => by_cases hc : isBlank c = true <;> simp_all [trimLeft]

/-- Nothing is left of a text exactly when all of it is blank. -/
theorem trim_eq_nil_iff {cs : List Char} : trim cs = [] ↔ cs.all isBlank = true := by
  have h : trim cs = [] ↔ (trimLeft cs).all isBlank = true := by
    rw [trim, trimRight, List.reverse_eq_nil_iff, ← trimLeft, trimLeft_eq_nil_iff,
      List.all_reverse]
  exact h.trans ⟨all_isBlank_of_trimLeft, fun ha => by simp [trimLeft_eq_nil_iff.mpr ha]⟩

end SlideDeck.Text
