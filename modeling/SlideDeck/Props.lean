import SlideDeck.Json.Value

/-!
Property bags: the named values on an element, in the order in which they are written out. A bag
may hold a name twice, as source text may; setting a property never adds a second entry of a name.
-/
namespace SlideDeck

/-- Named values in order. -/
structure Props where
  entries : List (String × Json.Value) := []
  deriving Repr, Inhabited

namespace Props

def get? (props : Props) (name : String) : Option Json.Value := Keyed.get? name props.entries

/-- The text of the first property of that name, when it is a string. -/
def getText? (props : Props) (name : String) : Option String :=
  (props.get? name).bind Json.Value.text?

def has (props : Props) (name : String) : Bool := props.entries.any fun e => e.1 == name

/-- Sets a property: in place when it is there, at the end otherwise. -/
def set (props : Props) (name : String) (value : Json.Value) : Props :=
  ⟨Keyed.put name value props.entries⟩

/-- The bag without the first property of that name, beside the value it had. -/
def remove (props : Props) (name : String) : Option Json.Value × Props :=
  (props.get? name, ⟨Keyed.erase name props.entries⟩)

/-- The members of the object that the bag stands for. A repeated name keeps its first place and
its last value. -/
def toMembers (props : Props) : List (String × Json.Value) := Keyed.merge props.entries

/-- The bag of the members of an object. -/
def ofMembers (members : List (String × Json.Value)) : Props := ⟨members⟩

/-- Equality of bags: the same names in the same order, with equal values. -/
def same (a b : Props) : Bool :=
  a.entries.length == b.entries.length &&
    (a.entries.zip b.entries).all fun (x, y) => x.1 == y.1 && x.2.same y.2

theorem has_eq_isSome (props : Props) (name : String) :
    props.has name = (props.get? name).isSome := by
  unfold has get?
  induction props.entries with
  | nil => rfl
  | cons e rest ih =>
    obtain ⟨k, v⟩ := e
    by_cases h : k = name <;> simp_all [Keyed.get?]

end Props
end SlideDeck
