import SlideDeck.Proofs.Json.Stricter
import SlideDeck.Proofs.Options.Fields

/-!
The members of an object that gives options. Those with known names are taken one after another and
the others are passed over; and what is read as members is spelt by members of the grammar.
-/
namespace SlideDeck.Options
open Json

/-- A member of an object, with the name that it spells. -/
structure Entry where
  key : String
  member : Member
  spaced : member.Spaced
  spells : Spells member.name key.toList
  value : IsValue member.value.text

/-- The option that a member gives, with the text of its value. -/
def Entry.known? (e : Entry) : Option (Field × List Char) :=
  (Field.ofKey? e.key).map (·, e.member.value.text)

section Members

variable {gap : List Char}

theorem Draft.readMembers_spaces (budget : Nat) (first : Bool) (d : Draft) {b : List Char}
    (hb : IsSpaces b) (cs : List Char) :
    d.readMembers budget first (b ++ cs) = d.readMembers budget first cs := by
  cases budget with
  | zero => rfl
  | succ budget => simp only [readMembers, nextName_spaces first hb, closed_spaces hb]

/-- The draft behind a member: one with a known name is taken. -/
def Draft.enter (d : Draft) (e : Entry) : Option Draft :=
  match e.known? with
  | none => some d
  | some k => d.take k

theorem Draft.takeAll_entries (d : Draft) (e : Entry) (es : List Entry) :
    d.takeAll ((e :: es).filterMap Entry.known?) =
      (d.enter e).bind (·.takeAll (es.filterMap Entry.known?)) := by
  unfold enter
  cases hk : e.known? with
  | none => rw [List.filterMap_cons_none hk]; rfl
  | some k => rw [List.filterMap_cons_some hk, takeAll_cons]

/-- A value is read into the draft by its text. -/
theorem Draft.toOption_readField (d : Draft) (f : Field) {b text rest : List Char}
    (hb : IsSpaces b) (h : IsValue text) (apart : Apart rest) :
    (d.readField f (b ++ (text ++ rest))).toOption =
      ((f.content? text).map (d.set f)).map (·, rest) := by
  rw [readField_eq, f.reader_spaces hb, toOption_bind, f.toOption_reader h apart]
  cases f.content? text <;> rfl

/-- A member with a known name is taken, and the others are passed over. -/
theorem Draft.readMember_entry (d : Draft) (e : Entry) {rest : List Char}
    (apart : Apart (e.member.value.after ++ rest)) :
    (d.readMember (e.member.inside ++ rest)).toOption =
      (d.enter e).map (·, e.member.value.after ++ rest) := by
  rw [readMember, e.member.inside_append, readString_spells e.spells]
  simp only [bind, Except.bind, expectColon_spaces e.spaced.gap, enter, Entry.known?]
  cases Field.ofKey? e.key with
  | none =>
    simp only [skimValue_value e.value e.spaced.value.before apart]
    rfl
  | some f =>
    cases hf : d.has f with
    | true => simp [take, hf, Except.toOption]
    | false =>
      have hread := d.toOption_readField f e.spaced.value.before e.value apart
      simpa [take, hf] using hread

/-- The members of an object leave the draft with the known ones taken. -/
theorem Draft.readMembers_entries (d : Draft) {es : List Entry} {budget : Nat}
    (enough : es.length ≤ budget) (first : Bool) (gap_ok : IsSpaces gap) (rest : List Char) :
    (d.readMembers (budget + 1) first (listed first ((es.map Entry.member).map Member.spelt) ++
      (gap ++ '\x7d' :: rest))).toOption =
        (d.takeAll (es.filterMap Entry.known?)).map (·, rest) := by
  induction es generalizing d budget first with
  | nil =>
    rw [List.map_nil, List.map_nil, listed, List.nil_append, d.readMembers_spaces _ _ gap_ok]
    cases first <;> rfl
  | cons e es ih =>
    obtain ⟨budget, rfl⟩ := Nat.exists_eq_add_one.mpr (Nat.lt_of_lt_of_le (Nat.succ_pos _) enough)
    have htail := fun d : Draft => ih d (Nat.le_of_succ_le_succ enough) false
    have hmember := d.readMember_entry e (apart_listed e.spaced.value.after
      ((es.map Entry.member).map Member.spelt) gap_ok (.brace rest))
    simp only [List.map_cons, listed, Member.spelt, List.append_assoc, List.cons_append]
    rw [readMembers, nextName_quote e.spaced.before]
    simp only [toOption_bind, toOption_ok, Option.bind_some, hmember]
    rw [takeAll_entries]
    cases d.enter e with
    | none => rfl
    | some d' =>
      simp only [Option.map_some, Option.bind_some, readMembers_spaces _ _ _ e.spaced.value.after,
        htail]

end Members

section Skims

variable {cs rest : List Char}

theorem skimNested_of_readText {t : String} (h : readText cs = .ok (t, rest)) (levels : Nat) :
    skimNested levels cs = .ok rest := by
  unfold readText at h
  split at h
  · next hquote =>
    have hskim := skimString_of_readString h
    cases levels <;> simpa [skimNested, hquote] using hskim
  · cases h

theorem skimNested_of_readOptionalText {t? : Option String}
    (h : readOptionalText cs = .ok (t?, rest)) (levels : Nat) :
    skimNested levels cs = .ok rest := by
  unfold readOptionalText at h
  split at h
  · next hnull =>
    have hskim := rest_of_word h
    cases levels <;> simpa [skimNested, hnull] using hskim
  · obtain ⟨t, ht⟩ := rest_of_map h
    exact skimNested_of_readText ht levels

theorem skimNested_of_readBool {b : Bool} (h : readBool cs = .ok (b, rest)) (levels : Nat) :
    skimNested levels cs = .ok rest := by
  unfold readBool at h
  split at h
  · next htrue =>
    have hskim := rest_of_word h
    cases levels <;> simpa [skimNested, htrue] using hskim
  · next hfalse =>
    have hskim := rest_of_word h
    cases levels <;> simpa [skimNested, hfalse] using hskim
  · cases h

theorem skimNested_of_readProps {props : Props} (h : readProps cs = .ok (props, rest)) :
    skimNested (deepest - 1) cs = .ok rest := by
  unfold readProps at h
  split at h
  · next after hbrace =>
    obtain ⟨ms, hms⟩ := rest_of_map (f := fun ms => Props.ofMembers (Keyed.merge ms)) h
    have hskim : skimMembers (skimNested (deepest - 2)) (after.length + 1) true after = .ok rest :=
      skimMembers_of_readMembers skimNested_of_readValue hms
    rw [show deepest - 1 = deepest - 2 + 1 from rfl]
    simpa [skimNested, hbrace] using hskim
  · cases h

/-- What the reader of a member takes would be passed over as well. -/
theorem Field.skimNested_of_reader (f : Field) {a : f.Content} (h : f.reader cs = .ok (a, rest)) :
    skimNested (deepest - 1) cs = .ok rest := by
  cases f with
  | splitComponent | wrapperComponent | skipComment => exact skimNested_of_readText h _
  | wrapperProps => exact skimNested_of_readProps h
  | importPath | importName => exact skimNested_of_readOptionalText h _
  | defaultImport => exact skimNested_of_readBool h _

end Skims

/-- The text of a member with the blanks around it. -/
def IsEntry (text : List Char) : Prop := ∃ e : Entry, e.member.spelt = text

theorem padded_isEntry : Padded IsEntry := by
  rintro b _ after hb ⟨e, rfl⟩ hafter
  exact ⟨⟨e.key, e.member.pad b after, e.spaced.pad hb hafter, e.spells, e.value⟩,
    e.member.spelt_pad b after⟩

theorem Draft.entry_of_readMember {d d' : Draft} {inside rest : List Char}
    (h : d.readMember inside = .ok (d', rest)) :
    ∃ text, IsEntry text ∧ '"' :: inside = text ++ rest := by
  obtain ⟨⟨key, after⟩, hname, hmember⟩ := bind_eq_ok h
  obtain ⟨name, spells, rfl⟩ := spells_of_readString hname
  have hvalue : ∃ behind levels, expectColon after = .ok behind ∧
      skimNested levels behind = .ok rest := by
    simp only at hmember
    split at hmember
    · obtain ⟨behind, hcolon, hpass⟩ := bind_eq_ok hmember
      exact ⟨behind, _, hcolon, rest_of_word hpass⟩
    · next f _ =>
      split at hmember
      · cases hmember
      · obtain ⟨behind, hcolon, hread⟩ := bind_eq_ok hmember
        rw [readField_eq] at hread
        obtain ⟨a, ha⟩ := rest_of_map hread
        exact ⟨behind, _, hcolon, f.skimNested_of_reader ha⟩
  obtain ⟨behind, levels, hcolon, hskim⟩ := hvalue
  obtain ⟨gap, hgap, rfl⟩ := expectColon_eq hcolon
  obtain ⟨b, text, hb, value, rfl⟩ := takes_skimNested levels hskim
  have hentry : IsEntry (Member.tight name gap b text).spelt :=
    ⟨⟨key, _, Member.spaced_tight name text hgap hb, spells, value⟩, rfl⟩
  exact ⟨_, hentry, (Member.spelt_tight ..).symm⟩

/-- What is read as the members of an object is spelt by members of the grammar. -/
theorem Draft.remainder_of_readMembers {d d' : Draft} {budget : Nat} {first : Bool}
    {cs rest : List Char} (h : d.readMembers budget first cs = .ok (d', rest)) :
    Remainder IsEntry '\x7d' rest first cs := by
  induction budget generalizing first cs d with
  | zero => cases h
  | succ budget ih =>
    obtain ⟨next?, hnext, hrest⟩ := bind_eq_ok h
    obtain ⟨b, hb, heq⟩ := exists_spaces cs
    cases next? with
    | none =>
      obtain ⟨after, hclose⟩ := nextName_none hnext
      obtain ⟨-, rfl⟩ := Prod.mk.inj (Except.ok.inj hrest)
      have hclosed : closed cs = after := by simp [closed, hclose]
      rw [hclosed, heq, hclose]
      exact .close hb first
    | some inside =>
      obtain ⟨⟨d1, behind⟩, hmember, hmembers⟩ := bind_eq_ok hrest
      obtain ⟨text, htext, hsplit⟩ := entry_of_readMember hmember
      rw [heq]
      rcases nextName_some hnext with ⟨rfl, hspace⟩ | ⟨rfl, r, hspace, hquote⟩
      · rw [hspace, hsplit]
        exact (ih hmembers).cons padded_isEntry hb .nil htext true
      · obtain ⟨b', hb', hr⟩ := exists_spaces r
        rw [hspace, hr, hquote, hsplit]
        exact (ih hmembers).cons padded_isEntry hb hb' htext false

end SlideDeck.Options
