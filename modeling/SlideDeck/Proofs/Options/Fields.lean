import SlideDeck.Options.Load
import SlideDeck.Proofs.Json.Nested

/-!
A draft takes the values of its members one by one. A value counts by its text alone, and different
members do not get in each other's way, so that the order in which they are taken is indifferent.
-/
namespace SlideDeck.Options
open Json

/-- What the value of a member is read as. -/
def Field.Content : Field → Type
  | .splitComponent | .wrapperComponent | .skipComment => String
  | .wrapperProps => Props
  | .importPath | .importName => Option String
  | .defaultImport => Bool

def Field.reader : (f : Field) → Reader f.Content
  | .splitComponent | .wrapperComponent | .skipComment => readText
  | .wrapperProps => readProps
  | .importPath | .importName => readOptionalText
  | .defaultImport => readBool

/-- The draft with a member entered. -/
def Draft.set (d : Draft) : (f : Field) → f.Content → Draft
  | .splitComponent, s => { d with marker? := some s }
  | .wrapperComponent, s => { d with wrapper? := some s }
  | .wrapperProps, props => { d with props? := some props }
  | .skipComment, s => { d with keyword? := some s }
  | .importPath, s? => { d with importPath? := some s? }
  | .importName, s? => { d with importName? := some s? }
  | .defaultImport, b => { d with byDefault? := some b }

theorem Draft.readField_eq (d : Draft) (f : Field) (cs : List Char) :
    d.readField f cs = (do
      let (a, rest) ← f.reader cs
      .ok (d.set f a, rest)) := by
  cases f <;> rfl

theorem Draft.has_set_self (d : Draft) {f : Field} (a : f.Content) : (d.set f a).has f = true := by
  cases f <;> rfl

theorem Draft.has_set_of_ne (d : Draft) {f g : Field} (other : g ≠ f) (a : f.Content) :
    (d.set f a).has g = d.has g := by
  cases f <;> cases g <;> first | rfl | exact absurd rfl other

theorem Draft.set_comm (d : Draft) {f g : Field} (other : g ≠ f) (a : f.Content) (b : g.Content) :
    (d.set f a).set g b = (d.set g b).set f a := by
  cases f <;> cases g <;> first | rfl | exact absurd rfl other

section Spaces

variable {b : List Char} (hb : IsSpaces b) (cs : List Char)
include hb

theorem refuse_spaces (wanted : Wanted) : refuse wanted (b ++ cs) = refuse wanted cs := by
  simp only [refuse, skipSpace_spaces hb]

theorem readText_spaces : readText (b ++ cs) = readText cs := by
  simp only [readText, skipSpace_spaces hb, refuse_spaces hb]

theorem readOptionalText_spaces : readOptionalText (b ++ cs) = readOptionalText cs := by
  simp only [readOptionalText, skipSpace_spaces hb, readText_spaces hb]

theorem readBool_spaces : readBool (b ++ cs) = readBool cs := by
  simp only [readBool, skipSpace_spaces hb, refuse_spaces hb]

theorem readProps_spaces : readProps (b ++ cs) = readProps cs := by
  simp only [readProps, skipSpace_spaces hb, refuse_spaces hb]

theorem Field.reader_spaces (f : Field) : f.reader (b ++ cs) = f.reader cs := by
  cases f with
  | splitComponent | wrapperComponent | skipComment => exact readText_spaces hb cs
  | wrapperProps => exact readProps_spaces hb cs
  | importPath | importName => exact readOptionalText_spaces hb cs
  | defaultImport => exact readBool_spaces hb cs

end Spaces

section Heads

variable {c : Char} {cs : List Char} (hc : isSpace c = false)
include hc

theorem readText_of_ne (h : c ≠ '"') : (readText (c :: cs)).toOption = none := by
  simp [readText, skipSpace_cons hc, h, Except.toOption]

theorem readOptionalText_of_ne (h : c ≠ 'n') :
    readOptionalText (c :: cs) = (do
      let (s, rest) ← readText (c :: cs)
      .ok (some s, rest)) := by
  simp [readOptionalText, skipSpace_cons hc, h]

theorem readBool_of_ne (ht : c ≠ 't') (hf : c ≠ 'f') : (readBool (c :: cs)).toOption = none := by
  simp [readBool, skipSpace_cons hc, ht, hf, Except.toOption]

theorem readProps_of_ne (h : c ≠ '\x7b') : (readProps (c :: cs)).toOption = none := by
  simp [readProps, skipSpace_cons hc, h, Except.toOption]

end Heads

section Settled

variable {text : List Char} (h : IsValue text)
include h

theorem settles_readText : Settles readText text := by
  cases h with
  | string body_ok => exact (closes_readString body_ok).settles.of_eq fun rest => rfl
  | number numeral =>
    obtain ⟨c, cs, rfl, hc⟩ := numeral.head
    exact .none fun rest => readText_of_ne (isSpace_of_isDigit hc) (ne_of_isDigit hc rfl)
  | _ => exact .none fun rest => readText_of_ne rfl (by decide)

theorem settles_readOptionalText : Settles readOptionalText text := by
  have htext := (settles_readText h).map some
  cases h with
  | null => exact .some (a := none) fun rest => rfl
  | number numeral =>
    obtain ⟨c, cs, rfl, hc⟩ := numeral.head
    exact htext.of_eq fun rest =>
      readOptionalText_of_ne (isSpace_of_isDigit hc) (ne_of_isDigit hc rfl)
  | _ => exact htext.of_eq fun rest => readOptionalText_of_ne rfl (by decide)

theorem settles_readBool : Settles readBool text := by
  cases h with
  | true => exact .some (a := .true) fun rest => rfl
  | false => exact .some (a := .false) fun rest => rfl
  | number numeral =>
    obtain ⟨c, cs, rfl, hc⟩ := numeral.head
    exact .none fun rest =>
      readBool_of_ne (isSpace_of_isDigit hc) (ne_of_isDigit hc rfl) (ne_of_isDigit hc rfl)
  | _ => exact .none fun rest => readBool_of_ne rfl (by decide) (by decide)

theorem settles_readProps : Settles readProps text := by
  cases h with
  | object spaced gap_ok names values =>
    have hmembers := settles_objectText spaced names
      (fun m hm => settles_value (values m hm) (deepest - 2)) gap_ok
    exact (hmembers.map fun ms => Props.ofMembers (Keyed.merge ms)).of_eq fun rest => rfl
  | number numeral =>
    obtain ⟨c, cs, rfl, hc⟩ := numeral.head
    exact .none fun rest => readProps_of_ne (isSpace_of_isDigit hc) (ne_of_isDigit hc rfl)
  | _ => exact .none fun rest => readProps_of_ne rfl (by decide)

theorem Field.settles (f : Field) : Settles f.reader text := by
  cases f with
  | splitComponent | wrapperComponent | skipComment => exact settles_readText h
  | wrapperProps => exact settles_readProps h
  | importPath | importName => exact settles_readOptionalText h
  | defaultImport => exact settles_readBool h

end Settled

/-- What a text is read as where it is the value of the member. -/
def Field.content? (f : Field) (text : List Char) : Option f.Content :=
  (f.reader text).toOption.map Prod.fst

theorem Field.toOption_reader (f : Field) {text rest : List Char} (h : IsValue text)
    (apart : Apart rest) :
    (f.reader (text ++ rest)).toOption = (f.content? text).map (·, rest) := by
  obtain ⟨o, ho⟩ := f.settles h
  have hnil := ho [] .nil
  rw [List.append_nil] at hnil
  rw [ho rest apart, content?, hnil, Option.map_map]
  cases o <;> rfl

/-- The draft with one more member, unless the member is there already or its value is not of the
right kind. -/
def Draft.take (d : Draft) (e : Field × List Char) : Option Draft :=
  if d.has e.1 then none else (e.1.content? e.2).map (d.set e.1)

theorem Draft.take_of_has {d : Draft} {e : Field × List Char} (h : d.has e.1 = true) :
    d.take e = none := by
  simp [take, h]

theorem Draft.take_of_not_has {d : Draft} {e : Field × List Char} (h : d.has e.1 = false) :
    d.take e = (e.1.content? e.2).map (d.set e.1) := by
  simp [take, h]

theorem Draft.has_of_take {d d' : Draft} {e : Field × List Char} (h : d.take e = some d') :
    d'.has e.1 = true := by
  unfold take at h
  split at h
  · cases h
  · obtain ⟨a, -, rfl⟩ := Option.map_eq_some_iff.mp h
    exact d.has_set_self a

theorem Draft.take_take (d : Draft) {x y : Field × List Char} (other : y.1 ≠ x.1) :
    (d.take x).bind (·.take y) = if d.has x.1 || d.has y.1 then none else
      (x.1.content? x.2).bind fun a => (y.1.content? y.2).map fun b =>
        (d.set x.1 a).set y.1 b := by
  cases hx : d.has x.1 with
  | true => rw [take_of_has hx]; rfl
  | false =>
    have hset : ∀ a, (d.set x.1 a).has y.1 = d.has y.1 := d.has_set_of_ne other
    rw [take_of_not_has hx]
    cases hy : d.has y.1 <;> cases x.1.content? x.2 <;> simp [take, hset, hy]

/-- Two members are taken in either order, and neither way when they are the same. -/
theorem Draft.take_comm (d : Draft) (x y : Field × List Char) :
    (d.take x).bind (·.take y) = (d.take y).bind (·.take x) := by
  by_cases same : y.1 = x.1
  · have hnone : ∀ x y : Field × List Char, y.1 = x.1 → (d.take x).bind (·.take y) = none :=
      fun x y same => by
        cases htake : d.take x with
        | none => rfl
        | some d' => exact take_of_has (same ▸ has_of_take htake)
    rw [hnone x y same, hnone y x same.symm]
  · rw [d.take_take same, d.take_take (Ne.symm same), Bool.or_comm]
    cases x.1.content? x.2 <;> cases y.1.content? y.2 <;> simp [d.set_comm same]

/-- The draft with all of the members, taken one after another. -/
def Draft.takeAll (d : Draft) (es : List (Field × List Char)) : Option Draft :=
  es.foldlM Draft.take d

theorem Draft.takeAll_cons (d : Draft) (e : Field × List Char) (es : List (Field × List Char)) :
    d.takeAll (e :: es) = (d.take e).bind (·.takeAll es) := rfl

theorem Draft.takeAll_perm {es es' : List (Field × List Char)} (perm : es.Perm es') (d : Draft) :
    d.takeAll es = d.takeAll es' := by
  induction perm generalizing d with
  | nil => rfl
  | cons e perm ih => simp only [takeAll_cons, ih]
  | swap x y es =>
    simp only [takeAll_cons, ← Option.bind_assoc, d.take_comm]
  | trans first second ih ih' => rw [ih, ih']

end SlideDeck.Options
