import SlideDeck.Options.Load
import SlideDeck.Proofs.Json.RoundTrip

/-!
Usable options are read back from the text in which they are written. The bag of properties passes
through an object, so that a name that it repeats comes back once.
-/
namespace SlideDeck.Options
open Json

/-- The options with every property once: at its first place and with its last value. -/
def merged (o : Options) : Options := { o with props := .ofMembers o.props.toMembers }

/-- The draft with the member `f` read from the text of `o`. -/
def Draft.filled (o : Options) (d : Draft) : Field → Draft
  | .splitComponent => { d with marker? := some o.marker }
  | .wrapperComponent => { d with wrapper? := some o.wrapper }
  | .wrapperProps => { d with props? := some (.ofMembers o.props.toMembers) }
  | .skipComment => { d with keyword? := some o.keyword }
  | .importPath => { d with importPath? := some o.importPath? }
  | .importName => { d with importName? := some o.importName? }
  | .defaultImport => { d with byDefault? := some o.byDefault }

theorem Draft.has_filled {o : Options} {d : Draft} {f g : Field} (other : g ≠ f) :
    (d.filled o f).has g = d.has g := by
  cases f <;> cases g <;> simp_all [Draft.filled, Draft.has]

theorem Field.ofKey?_key (f : Field) : Field.ofKey? f.key = some f := by
  cases f <;> decide

/-- The properties fit under the two objects that the options and the bag are. -/
def Storable (o : Options) : Prop := ∀ e ∈ o.props.entries, e.2.Plain (deepest - 2)

variable {o : Options} {rest : List Char}

theorem readText_printString (s : String) (rest : List Char) :
    readText (printString s ++ rest) = .ok (s, rest) := by
  simp [readText, printString, skipSpace, isSpace, readString_body]

theorem readOptionalText_printString (s : String) (rest : List Char) :
    readOptionalText (printString s ++ rest) = .ok (some s, rest) := by
  have hread := readText_printString s rest
  simp only [printString, List.cons_append, List.append_assoc, List.nil_append] at hread ⊢
  simp [readOptionalText, skipSpace, isSpace, hread, bind, Except.bind]

theorem readProps_print {ms : List (String × Value)} (distinct : Keyed.Distinct ms)
    (members : ∀ m ∈ ms, m.2.Plain (deepest - 2)) (rest : List Char) :
    readProps ((Value.object ms).print ++ rest) = .ok (.ofMembers ms, rest) := by
  have hread := readMembers_printMembers (fun m hm tail h => readValue_print (members m hm) h) rest
  simp only [Value.print, List.cons_append, List.append_assoc, List.nil_append]
  simp only [readProps, skipSpace_cons (c := '\x7b') rfl, hread, bind, Except.bind,
    Keyed.merge_of_distinct distinct]

/-- A member that is written is read back into the draft. -/
theorem readField_value? {f : Field} {v : Value} (hv : o.value? f = some v) (storable : o.Storable)
    (d : Draft) (rest : List Char) :
    d.readField f (v.print ++ rest) = .ok (d.filled o f, rest) := by
  cases f with
  | splitComponent | wrapperComponent | skipComment =>
    obtain rfl := Option.some.inj hv
    simp only [Draft.readField, Value.print, readText_printString, bind, Except.bind, Draft.filled]
  | wrapperProps =>
    simp only [value?] at hv
    split at hv
    · simp at hv
    · obtain rfl := Option.some.inj hv
      have hdistinct : Keyed.Distinct o.props.toMembers := Keyed.distinct_merge _
      have hplain : ∀ m ∈ o.props.toMembers, m.2.Plain (deepest - 2) :=
        fun m hm => storable m (Keyed.mem_of_mem_merge hm)
      simp only [Draft.readField, readProps_print hdistinct hplain, bind, Except.bind,
        Draft.filled]
  | importPath | importName =>
    obtain ⟨s, hs, rfl⟩ := Option.map_eq_some_iff.mp hv
    simp only [Draft.readField, Value.print, readOptionalText_printString, bind, Except.bind,
      Draft.filled, hs]
  | defaultImport =>
    obtain rfl := Option.some.inj hv
    cases h : o.byDefault <;>
      simp [Draft.readField, Value.print, readBool, skipSpace, isSpace, expectWord, bind,
        Except.bind, Draft.filled, h]

/-- The member of the object for a field, unless it is left out. -/
def member? (o : Options) (f : Field) : Option (String × Value) :=
  (o.value? f).map fun v => (f.key, v)

theorem readMember_member? {f : Field} {m : String × Value} (hm : o.member? f = some m)
    (storable : o.Storable) {d : Draft} (fresh : d.has f = false) (rest : List Char) :
    d.readMember (m.1.toList.flatMap escapeChar ++ '"' :: ':' :: (m.2.print ++ rest)) =
      .ok (d.filled o f, rest) := by
  obtain ⟨v, hv, rfl⟩ := Option.map_eq_some_iff.mp hm
  simp [Draft.readMember, readString_body, Field.ofKey?_key, fresh, expectColon_colon,
    readField_value? hv storable, bind, Except.bind]

/-- The members that are written are read back one by one into the draft. -/
theorem readMembers_written (storable : o.Storable) {fs : List Field} (nodup : fs.Nodup)
    {d : Draft} (fresh : ∀ f ∈ fs, d.has f = false) {budget : Nat}
    (enough : (fs.filterMap o.member?).length ≤ budget) (first : Bool) (rest : List Char) :
    d.readMembers (budget + 1) first
        (listed first ((fs.filterMap o.member?).map printMember) ++ '\x7d' :: rest) =
      .ok ((fs.filter fun f => (o.value? f).isSome).foldl (Draft.filled o) d, rest) := by
  induction fs generalizing d budget first with
  | nil => cases first <;> rfl
  | cons f fs ih =>
    obtain ⟨hf, hnodup⟩ := List.nodup_cons.mp nodup
    have hfresh : ∀ g ∈ fs, d.has g = false := fun g hg => fresh g (List.mem_cons_of_mem f hg)
    cases hm : o.member? f with
    | none =>
      have hv : (o.value? f).isSome = false := by
        simpa [member?] using hm
      rw [List.filterMap_cons_none hm] at enough ⊢
      simpa [List.filter_cons, hv] using ih hnodup hfresh enough first
    | some m =>
      have hv : (o.value? f).isSome = true := by
        simpa [member?] using congrArg Option.isSome hm
      have hother : ∀ g ∈ fs, (d.filled o f).has g = false := fun g hg => by
        rw [Draft.has_filled (ne_of_mem_of_not_mem hg hf), hfresh g hg]
      rw [List.filterMap_cons_some hm] at enough ⊢
      obtain ⟨budget, rfl⟩ := Nat.exists_eq_add_one.mpr (Nat.lt_of_lt_of_le (Nat.succ_pos _) enough)
      have htail := ih hnodup hother (Nat.le_of_succ_le_succ enough) false
      have hread := readMember_member? hm storable (fresh f List.mem_cons_self)
        (listed false ((fs.filterMap o.member?).map printMember) ++ '\x7d' :: rest)
      rw [List.map_cons, listed, List.append_assoc, List.append_assoc, printMember_append,
        Draft.readMembers]
      simp only [nextName_listed, hread, htail, bind, Except.bind, List.filter_cons, hv, if_true,
        List.foldl_cons]

/-- The options of a draft that holds what is written are the ones that were written. -/
theorem finish_written (o : Options) :
    ((Field.all.filter fun f => (o.value? f).isSome).foldl (Draft.filled o) {}).finish =
      .ok o.merged := by
  obtain ⟨marker, wrapper, ⟨entries⟩, keyword, path?, name?, byDefault⟩ := o
  cases entries <;> cases path? <;> cases name? <;> rfl

/-- Options are read back from their text with every property once. -/
theorem read_toValue (storable : o.Storable) (rest : List Char) :
    read (o.toValue.print ++ rest) = .ok (o.merged, rest) := by
  have hvalue : o.toValue = .object (Field.all.filterMap o.member?) := rfl
  have hnodup : Field.all.Nodup := by decide
  have hread := readMembers_written storable hnodup (d := {}) (fun f _ => by cases f <;> rfl)
    (Value.length_le_printMembers _ rest) true rest
  rw [← Value.printMembers_eq_listed] at hread
  simp only [hvalue, Value.print, List.cons_append, List.append_assoc, List.nil_append]
  simp only [read, skipSpace_cons (c := '\x7b') rfl, hread, finish_written, bind, Except.bind]

theorem ofText_toText_eq_merged (usable : o.Usable) (storable : o.Storable) :
    ofText o.toText = .ok o.merged := by
  have hread := read_toValue storable []
  have hvalid : o.merged.validate = .ok () := validate_eq_ok_iff.mpr usable
  rw [List.append_nil] at hread
  simp [ofText, toText, Value.toText, readWhole, hread, skipSpace, hvalid, bind, Except.bind,
    Except.map]

theorem Storable.merged (storable : o.Storable) : o.merged.Storable :=
  fun e he => storable e (Keyed.mem_of_mem_merge he)

theorem merged_of_distinct (distinct : Keyed.Distinct o.props.entries) : o.merged = o := by
  simp [Options.merged, Props.ofMembers, Props.toMembers, Keyed.merge_of_distinct distinct]

/-- Usable options without doubles in their properties, none of which is nested too deeply, come
back from their text with every property once, at its first place and with its last value. Options
whose properties have different names come back as they are, and nothing changes when options are
written and read again. -/
theorem ofText_toText (o : Options) (usable : o.Usable) (storable : o.Storable) :
    ofText o.toText = .ok o.merged ∧
      o.merged.props.entries.map Prod.fst = (o.props.entries.map Prod.fst).eraseDups ∧
      (∀ name, o.merged.props.get? name = Keyed.get? name o.props.entries.reverse) ∧
      (Keyed.Distinct o.props.entries → o.merged = o) ∧
      ofText o.merged.toText = .ok o.merged := by
  refine ⟨ofText_toText_eq_merged usable storable, Keyed.names_merge _,
    fun name => Keyed.get?_merge name _, merged_of_distinct, ?_⟩
  have hagain : o.merged.merged = o.merged := merged_of_distinct (Keyed.distinct_merge _)
  have hread := ofText_toText_eq_merged (o := o.merged) usable storable.merged
  rwa [hagain] at hread

/-- Options whose bag repeats a name and holds nested values and characters to be escaped. -/
def crowded : Options where
  marker := "hr"
  wrapper := "Slide"
  props := ⟨[("class", .string "a"),
    ("style", .object [("z", .number (.int (-9))), ("a", .array [.null, .bool true])]),
    ("class", .string "say \"b\"\n")]⟩
  importPath? := some "@deck"

theorem ofText_toText_crowded :
    crowded.Usable ∧ crowded.Storable ∧
      ofText crowded.toText = .ok { crowded with props := ⟨[("class", .string "say \"b\"\n"),
        ("style", .object [("z", .number (.int (-9))), ("a", .array [.null, .bool true])])]⟩ } := by
  have usable : crowded.Usable := by decide
  have hstyle : Value.Plain 125
      (.object [("z", .number (.int (-9))), ("a", .array [.null, .bool true])]) := by
    refine .object _ (by decide) ?_
    simp only [List.forall_mem_cons, List.not_mem_nil, false_imp_iff, implies_true, and_true]
    refine ⟨.int _ (by decide) (by decide), .array _ ?_⟩
    simp only [List.forall_mem_cons, List.not_mem_nil, false_imp_iff, implies_true, and_true]
    exact ⟨.null, .bool true⟩
  have storable : crowded.Storable := by
    intro e he
    simp only [crowded, List.mem_cons, List.not_mem_nil, or_false] at he
    rcases he with rfl | rfl | rfl
    · exact .string _
    · exact hstyle
    · exact .string _
  exact ⟨usable, storable, (ofText_toText crowded usable storable).1⟩

end SlideDeck.Options
