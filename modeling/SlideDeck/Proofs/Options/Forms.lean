import SlideDeck.Proofs.Options.Entries
import SlideDeck.Proofs.Options.RoundTrip

/-!
Options may be given as an object or as the list of their values. In an object only the members with
known names count, whatever their order, and the list stands for the object that names its values in
the order of the members.
-/
namespace SlideDeck.Options
open Json

/-- A value in a list. -/
structure Given where
  item : Item
  spaced : item.Spaced
  value : IsValue item.text

/-- The blanks around a list or an object, and before its closing bracket. -/
structure Margins where
  before : List Char
  gap : List Char
  after : List Char
  before_ok : IsSpaces before
  gap_ok : IsSpaces gap
  after_ok : IsSpaces after

def Margins.object (m : Margins) (es : List Entry) : String :=
  String.ofList (m.before ++ '\x7b' ::
    (objectText (es.map Entry.member) m.gap ++ '\x7d' :: m.after))

def Margins.list (m : Margins) (gs : List Given) : String :=
  String.ofList (m.before ++ '[' :: (listText (gs.map Given.item) m.gap ++ ']' :: m.after))

def Given.text (g : Given) : List Char := g.item.text

section Positions

variable {gap : List Char}

theorem closeList_spaces {b : List Char} (hb : IsSpaces b) (cs : List Char) :
    closeList (b ++ cs) = closeList cs := by
  simp only [closeList, skipSpace_spaces hb]

theorem readPositions_spaces (fields : List Field) (count : Nat) (d : Draft) {b : List Char}
    (hb : IsSpaces b) (cs : List Char) :
    readPositions fields count d (b ++ cs) = readPositions fields count d cs := by
  cases fields with
  | nil => simp only [readPositions, closeList_spaces hb]
  | cons f fields => simp only [readPositions, nextItem_spaces _ hb, closed_spaces hb]

/-- The values of a list are taken under the members in their order. Members that are not there yet
are given once, and the first two members are not left out. -/
theorem readPositions_given {fields : List Field} (nodup : fields.Nodup) {d : Draft}
    (fresh : ∀ f ∈ fields, d.has f = false) {gs : List Given} (fits : gs.length ≤ fields.length)
    (needed : ∀ f ∈ fields.drop gs.length, f ≠ .splitComponent ∧ f ≠ .wrapperComponent)
    (count : Nat) (gap_ok : IsSpaces gap) (rest : List Char) :
    (readPositions fields count d (listed (count == 0) ((gs.map Given.item).map Item.spelt) ++
      (gap ++ ']' :: rest))).toOption =
        (d.takeAll (fields.zip (gs.map Given.text))).map (·, rest) := by
  induction gs generalizing fields d count with
  | nil =>
    rw [List.map_nil, List.map_nil, listed, List.nil_append,
      readPositions_spaces _ _ _ gap_ok, List.map_nil, List.zip_nil_right]
    cases fields with
    | nil => rfl
    | cons f fields =>
      obtain ⟨hmarker, hwrapper⟩ := needed f List.mem_cons_self
      have hnext : nextItem (count == 0) (']' :: rest) = .ok none := by
        cases count == 0 <;> rfl
      simp only [readPositions, hnext, bind, Except.bind]
      simp [hmarker, hwrapper, Draft.takeAll, closed, skipSpace, isSpace, toOption_ok]
  | cons g gs ih =>
    obtain ⟨f, fields, rfl⟩ :=
      List.exists_cons_of_length_pos (Nat.lt_of_lt_of_le (Nat.succ_pos _) fits)
    obtain ⟨hf, hnodup⟩ := List.nodup_cons.mp nodup
    have hother : ∀ a, ∀ g ∈ fields, (d.set f a).has g = false := fun a g hg => by
      rw [d.has_set_of_ne (ne_of_mem_of_not_mem hg hf), fresh g (List.mem_cons_of_mem f hg)]
    have htail := fun a => ih hnodup (hother a) (Nat.le_of_succ_le_succ fits) needed (count + 1)
    have hread := d.toOption_readField f (b := []) .nil g.value
      (apart_listed g.spaced.after ((gs.map Given.item).map Item.spelt) gap_ok (.bracket rest))
    have htake : d.take (f, g.text) = (f.content? g.item.text).map (d.set f) :=
      Draft.take_of_not_has (fresh f List.mem_cons_self)
    rw [List.nil_append] at hread
    simp only [List.map_cons, listed, Item.spelt, List.append_assoc, List.zip_cons_cons]
    rw [readPositions, nextItem_text g.spaced.before g.value.opens, Draft.takeAll_cons, htake]
    simp only [toOption_bind, toOption_ok, Option.bind_some, hread]
    cases f.content? g.item.text with
    | none => rfl
    | some a =>
      simp only [Option.map_some, Option.bind_some, readPositions_spaces _ _ _ g.spaced.after]
      exact htail a

end Positions

/-- The options that the values of the members give, unless they give none that are usable. -/
def loaded (es : List (Field × List Char)) : Option Options := do
  let d ← Draft.takeAll {} es
  let o ← d.finish.toOption
  if o.Usable then some o else none

theorem toOption_ofText (text : String) :
    (ofText text).toOption =
      (readWhole read text).toOption.bind fun o => if o.Usable then some o else none := by
  have hvalid : ∀ o : Options,
      (o.validate.map fun _ => o).toOption = if o.Usable then some o else none := fun o => by
    cases h : o.flaw? <;> simp [validate, Usable, h, Except.map, Except.toOption]
  unfold ofText
  cases readWhole read text with
  | error e => rfl
  | ok o => exact hvalid o

/-- A text that is read up to blanks at its end is read as a whole. -/
theorem toOption_readWhole {α : Type} {reader : Reader α} {cs after : List Char} {o : Option α}
    (after_ok : IsSpaces after) (h : (reader cs).toOption = o.map (·, after)) :
    (readWhole reader (String.ofList cs)).toOption = o := by
  have hspace := skipSpace_spaces after_ok []
  rw [List.append_nil] at hspace
  rw [readWhole, String.toList_ofList, toOption_bind, h]
  cases o with
  | none => rfl
  | some a =>
    simp only [Option.map_some, Option.bind_some, hspace]
    rfl

theorem read_spaces {b : List Char} (hb : IsSpaces b) (cs : List Char) :
    read (b ++ cs) = read cs := by
  simp only [read, skipSpace_spaces hb, refuse_spaces hb]

/-- A draft that was read is finished, and what stands behind it is left over. -/
theorem toOption_finish {x : Except Fault (Draft × List Char)} {d? : Option Draft}
    {rest : List Char} (h : x.toOption = d?.map (·, rest)) :
    (do
      let (d, rest) ← x
      .ok (← d.finish, rest) : Except Fault (Options × List Char)).toOption =
        (d?.bind fun d => d.finish.toOption).map (·, rest) := by
  rw [toOption_bind, h]
  cases d? with
  | none => rfl
  | some d =>
    simp only [Option.map_some, Option.bind_some]
    cases d.finish <;> rfl

/-- What an object gives is told by its known members. -/
theorem ofText_object (m : Margins) (es : List Entry) :
    (ofText (m.object es)).toOption = loaded (es.filterMap Entry.known?) := by
  have hcount := length_le_listed_members (es.map Entry.member) true
  rw [List.length_map] at hcount
  have hread : (read (m.before ++ '\x7b' ::
      (objectText (es.map Entry.member) m.gap ++ '\x7d' :: m.after))).toOption =
        ((Draft.takeAll {} (es.filterMap Entry.known?)).bind fun d => d.finish.toOption).map
          (·, m.after) := by
    rw [read_spaces m.before_ok, objectText, List.append_assoc]
    apply toOption_finish
    apply Draft.readMembers_entries _ _ true m.gap_ok
    simp only [List.length_append]
    omega
  rw [toOption_ofText, Margins.object, toOption_readWhole m.after_ok hread]
  exact Option.bind_assoc ..

/-- What a list gives is told by its values, as long as it has the first two and not too many. -/
theorem ofText_list (m : Margins) {gs : List Given} (low : 2 ≤ gs.length) (high : gs.length ≤ 7) :
    (ofText (m.list gs)).toOption = loaded (Field.all.zip (gs.map Given.text)) := by
  have hnodup : Field.all.Nodup := by decide
  have hneeded : ∀ f ∈ Field.all.drop gs.length, f ≠ .splitComponent ∧ f ≠ .wrapperComponent := by
    have hlater : ∀ f ∈ Field.all.drop 2, f ≠ .splitComponent ∧ f ≠ .wrapperComponent := by decide
    exact fun f hf => hlater f (List.drop_subset_drop_left _ low hf)
  have hread : (read (m.before ++ '[' ::
      (listText (gs.map Given.item) m.gap ++ ']' :: m.after))).toOption =
        ((Draft.takeAll {} (Field.all.zip (gs.map Given.text))).bind fun d =>
          d.finish.toOption).map (·, m.after) := by
    rw [read_spaces m.before_ok, listText, List.append_assoc]
    apply toOption_finish
    exact readPositions_given hnodup (fun f _ => by cases f <;> rfl) high hneeded 0 m.gap_ok m.after
  rw [toOption_ofText, Margins.list, toOption_readWhole m.after_ok hread]
  exact Option.bind_assoc ..

/-- What is read from a text is followed by blanks alone when the whole text is read. -/
theorem read_of_ofText {text : String} {o : Options} (h : ofText text = .ok o) :
    ∃ o after, IsSpaces after ∧ read text.toList = .ok (o, after) := by
  unfold ofText at h
  split at h
  · cases h
  · next hwhole =>
    obtain ⟨⟨o', after⟩, hread, hend⟩ := bind_eq_ok hwhole
    obtain ⟨b, hb, hafter⟩ := exists_spaces after
    simp only at hend
    split at hend
    · next hnone =>
      rw [hnone, List.append_nil] at hafter
      exact ⟨o', after, hafter ▸ hb, hread⟩
    · cases hend

/-- An object that is loaded is an object of the grammar. -/
theorem object_of_ofText {text : String} {o : Options} (h : ofText text = .ok o)
    (brace : (skipSpace text.toList).head? = some '\x7b') :
    ∃ (m : Margins) (es : List Entry), m.object es = text := by
  obtain ⟨rest, hbrace⟩ := List.head?_eq_some_iff.mp brace
  obtain ⟨before, before_ok, hbefore⟩ := exists_spaces text.toList
  obtain ⟨o', after, after_ok, hread⟩ := read_of_ofText h
  simp only [read, hbrace] at hread
  obtain ⟨⟨d, behind⟩, hmembers, hfinish⟩ := bind_eq_ok hread
  obtain ⟨o'', -, hlast⟩ := bind_eq_ok hfinish
  obtain ⟨-, rfl⟩ := Prod.mk.inj (Except.ok.inj hlast)
  cases Draft.remainder_of_readMembers hmembers with
  | @mk b gap texts blanks front pieces gap_ok =>
    obtain ⟨es, -, rfl⟩ := exists_map_eq (p := fun _ : Entry => True) fun t ht => by
      obtain ⟨e, he⟩ := pieces t ht
      exact ⟨e, trivial, he⟩
    refine ⟨⟨before, gap, behind, before_ok, gap_ok, after_ok⟩, es, ?_⟩
    have htext : text.toList = before ++ '\x7b' :: (objectText (es.map Entry.member) gap ++
        '\x7d' :: behind) := by
      rw [hbefore, hbrace]
      simp [front rfl, objectText, Function.comp_def]
    rw [Margins.object, ← htext, String.ofList_toList]

/-- Both texts are loaded with the same options, or both are refused. -/
def Alike (text text' : String) : Prop :=
  ∀ o, ofText text = .ok o ↔ ofText text' = .ok o

theorem toOption_eq_some_iff {ε α : Type} {x : Except ε α} {a : α} :
    x.toOption = some a ↔ x = .ok a := by
  cases x <;> simp [Except.toOption]

theorem Alike.of_toOption {text text' : String}
    (h : (ofText text).toOption = (ofText text').toOption) : Alike text text' := fun o => by
  rw [← toOption_eq_some_iff, h, toOption_eq_some_iff]

/-- Members that name values by the keys of options are known. -/
theorem filterMap_known_zip {es : List Entry} {fs : List Field} {texts : List (List Char)}
    (named : es.map (fun e => (e.key, e.member.value.text)) = (fs.map Field.key).zip texts) :
    es.filterMap Entry.known? = fs.zip texts := by
  induction es generalizing fs texts with
  | nil =>
    cases fs <;> cases texts <;> first | rfl | simp at named
  | cons e es ih =>
    cases fs with
    | nil => simp at named
    | cons f fs =>
      cases texts with
      | nil => simp at named
      | cons text texts =>
        simp only [List.map_cons, List.zip_cons_cons, List.cons.injEq, Prod.mk.injEq] at named
        obtain ⟨⟨hkey, htext⟩, hrest⟩ := named
        have hknown : e.known? = some (f, text) := by
          simp [Entry.known?, hkey, htext, Field.ofKey?_key]
        rw [List.filterMap_cons_some hknown, ih hrest, List.zip_cons_cons]

/-- Options depend on the known members alone. An object that is loaded is one of the grammar.
Objects whose members with known names are the same, in whatever order and among whatever other
members, give the same options or are both refused; and so do a list of two to seven values and an
object that names these values in the order of the members. -/
theorem ofText_forms :
    (∀ text o, ofText text = .ok o → (skipSpace text.toList).head? = some '\x7b' →
      ∃ (m : Margins) (es : List Entry), m.object es = text) ∧
    (∀ (m m' : Margins) (es es' : List Entry),
      (es.filterMap Entry.known?).Perm (es'.filterMap Entry.known?) →
        Alike (m.object es) (m'.object es')) ∧
    ∀ (m m' : Margins) (gs : List Given) (es : List Entry), 2 ≤ gs.length → gs.length ≤ 7 →
      es.map (fun e => (e.key, e.member.value.text)) =
        (Field.all.map Field.key).zip (gs.map Given.text) →
          Alike (m.list gs) (m'.object es) := by
  refine ⟨fun text o => object_of_ofText, fun m m' es es' perm => .of_toOption ?_,
    fun m m' gs es low high named => .of_toOption ?_⟩
  · rw [ofText_object, ofText_object, loaded, loaded, Draft.takeAll_perm perm]
  · rw [ofText_list m low high, ofText_object, filterMap_known_zip named]

/-- A member without blanks and without escapes in its name. -/
def Entry.compact (key : String) {text : List Char}
    (plain : key.toList.all (fun c => decide (IsPlain c)) = true) (value : IsValue text) :
    Entry where
  key := key
  member := .tight key.toList [] [] text
  spaced := Member.spaced_tight key.toList text .nil .nil
  spells := spells_of_plain plain
  value := value

/-- A value without blanks. -/
def Given.compact {text : List Char} (value : IsValue text) : Given :=
  ⟨⟨[], text, []⟩, ⟨.nil, .nil⟩, value⟩

def Margins.compact : Margins := ⟨[], [], [], .nil, .nil, .nil⟩

/-- The text of a string without escapes. -/
theorem isValue_plain {cs : List Char} (plain : cs.all (fun c => decide (IsPlain c)) = true) :
    IsValue ('"' :: (cs ++ ['"'])) :=
  .string (spells_of_plain plain).isBody

/-- Options among which there is a member with no known name. -/
def extended : String :=
  "\x7b\"splitComponent\":\"hr\",\"x\":null,\"wrapperComponent\":\"Slide\"\x7d"

theorem ofText_forms_hr :
    (∃ (m : Margins) (es : List Entry), m.object es = extended) ∧
      Alike extended
        "\x7b\"wrapperComponent\":\"Slide\",\"splitComponent\":\"hr\"\x7d" ∧
      Alike "[\"hr\",\"Slide\"]"
        "\x7b\"splitComponent\":\"hr\",\"wrapperComponent\":\"Slide\"\x7d" ∧
      (ofText "[\"hr\",\"Slide\"]").toOption.map (fun o => (o.marker, o.wrapper)) =
        some ("hr", "Slide") := by
  have hhr : IsValue ('"' :: ("hr".toList ++ ['"'])) := isValue_plain (by decide)
  have hslide : IsValue ('"' :: ("Slide".toList ++ ['"'])) := isValue_plain (by decide)
  let marker : Entry := .compact "splitComponent" (by decide) hhr
  let wrapper : Entry := .compact "wrapperComponent" (by decide) hslide
  let other : Entry := .compact "x" (by decide) .null
  have perm : ([marker, other, wrapper].filterMap Entry.known?).Perm
      ([wrapper, marker].filterMap Entry.known?) := List.Perm.swap _ _ _
  have accepted : (ofText extended).toOption.isSome = true := by decide +kernel
  obtain ⟨o, ho⟩ := Option.isSome_iff_exists.mp accepted
  exact ⟨ofText_forms.1 _ o (toOption_eq_some_iff.mp ho) (by decide +kernel),
    ofText_forms.2.1 .compact .compact [marker, other, wrapper] [wrapper, marker] perm,
    ofText_forms.2.2 .compact .compact [.compact hhr, .compact hslide] [marker, wrapper]
      (Nat.le_refl 2) (Nat.le_of_ble_eq_true rfl) rfl,
    by decide +kernel⟩

end SlideDeck.Options
