import SlideDeck.Proofs.Json.Settling

/-!
Lists and objects are settled by their texts when what they hold is, and so are all values, to
whatever depth they may be nested and however deep the reader goes.
-/
namespace SlideDeck.Json

theorem nextItem_spaces (first : Bool) {b : List Char} (hb : IsSpaces b) (cs : List Char) :
    nextItem first (b ++ cs) = nextItem first cs := by
  simp only [nextItem, skipSpace_spaces hb]

theorem nextName_spaces (first : Bool) {b : List Char} (hb : IsSpaces b) (cs : List Char) :
    nextName first (b ++ cs) = nextName first cs := by
  simp only [nextName, skipSpace_spaces hb]

theorem closed_spaces {b : List Char} (hb : IsSpaces b) (cs : List Char) :
    closed (b ++ cs) = closed cs := by
  simp only [closed, skipSpace_spaces hb]

theorem nextItem_text {b text : List Char} (hb : IsSpaces b) (opens : Opens text) (first : Bool)
    (rest : List Char) :
    nextItem first ((if first then [] else [',']) ++ (b ++ (text ++ rest))) =
      .ok (some (text ++ rest)) := by
  have hspace := (skipSpace_spaces hb _).trans (skipSpace_opens opens rest)
  obtain ⟨c, cs, rfl, -, hclose⟩ := opens
  rw [List.cons_append] at hspace ⊢
  cases first with
  | true => simp [nextItem, hspace]
  | false =>
    have hcomma : skipSpace (',' :: (b ++ c :: (cs ++ rest))) = ',' :: (b ++ c :: (cs ++ rest)) :=
      rfl
    simp [nextItem, hcomma, hspace, hclose]

theorem nextName_quote {b : List Char} (hb : IsSpaces b) (first : Bool) (rest : List Char) :
    nextName first ((if first then [] else [',']) ++ (b ++ '"' :: rest)) = .ok (some rest) := by
  have hspace : skipSpace (b ++ '"' :: rest) = '"' :: rest := skipSpace_spaces hb _
  cases first with
  | true => simp [nextName, hspace]
  | false =>
    have hcomma : skipSpace (',' :: (b ++ '"' :: rest)) = ',' :: (b ++ '"' :: rest) := rfl
    simp [nextName, hcomma, hspace]

section Loops

variable {α : Type} {b gap : List Char}

theorem readItems_spaces (item : Reader α) (budget : Nat) (first : Bool) (hb : IsSpaces b)
    (cs : List Char) : readItems item budget first (b ++ cs) = readItems item budget first cs := by
  cases budget with
  | zero => rfl
  | succ budget => simp only [readItems, nextItem_spaces first hb, closed_spaces hb]

theorem readMembers_spaces (value : Reader α) (budget : Nat) (first : Bool) (hb : IsSpaces b)
    (cs : List Char) :
    readMembers value budget first (b ++ cs) = readMembers value budget first cs := by
  cases budget with
  | zero => rfl
  | succ budget => simp only [readMembers, nextName_spaces first hb, closed_spaces hb]

/-- A list is settled when each of its items is. -/
theorem settles_readItems {item : Reader α} {items : List Item} (spaced : ∀ i ∈ items, i.Spaced)
    (opens : ∀ i ∈ items, Opens i.text) (settles : ∀ i ∈ items, Settles item i.text)
    (gap_ok : IsSpaces gap) (first : Bool) :
    ∃ o : Option (List α), ∀ budget, items.length ≤ budget → ∀ rest,
      (readItems item (budget + 1) first (listed first (items.map Item.spelt) ++
        (gap ++ ']' :: rest))).toOption = o.map (·, rest) := by
  induction items generalizing first with
  | nil =>
    refine ⟨some [], fun budget _ rest => ?_⟩
    rw [List.map_nil, listed, List.nil_append, readItems_spaces item _ _ gap_ok]
    cases first <;> rfl
  | cons i items ih =>
    obtain ⟨v, hv⟩ := settles i List.mem_cons_self
    obtain ⟨vs, hvs⟩ := ih (fun j hj => spaced j (List.mem_cons_of_mem i hj))
      (fun j hj => opens j (List.mem_cons_of_mem i hj))
      (fun j hj => settles j (List.mem_cons_of_mem i hj)) false
    refine ⟨v.bind fun v => vs.map (v :: ·), fun budget enough rest => ?_⟩
    obtain ⟨budget, rfl⟩ := Nat.exists_eq_add_one.mpr (Nat.lt_of_lt_of_le (Nat.succ_pos _) enough)
    have hi := spaced i List.mem_cons_self
    have hitem := hv _ (apart_listed hi.after (items.map Item.spelt) gap_ok (.bracket rest))
    have htail := hvs budget (Nat.le_of_succ_le_succ enough) rest
    simp only [List.map_cons, listed, Item.spelt, List.append_assoc]
    rw [readItems, nextItem_text hi.before (opens i List.mem_cons_self)]
    simp only [toOption_bind, toOption_ok, Option.bind_some, hitem]
    cases v with
    | none => rfl
    | some v =>
      simp only [Option.map_some, Option.bind_some, readItems_spaces item _ _ hi.after, htail]
      cases vs <;> rfl

/-- A member of an object, from behind the quote that opens its name. -/
def readMember (value : Reader α) : Reader (String × α) := fun cs => do
  let (k, rest) ← readString cs
  let (v, rest) ← value (← expectColon rest)
  .ok ((k, v), rest)

theorem readMembers_next {value : Reader α} {budget : Nat} {first : Bool} {cs inside : List Char}
    (h : nextName first cs = .ok (some inside)) :
    readMembers value (budget + 1) first cs = (do
      let (m, rest) ← readMember value inside
      let (ms, rest) ← readMembers value budget false rest
      .ok (m :: ms, rest)) := by
  simp only [readMembers, readMember, h, bind, Except.bind]
  cases readString inside with
  | error e => rfl
  | ok k =>
    simp only
    cases expectColon k.2 with
    | error e => rfl
    | ok cs =>
      simp only
      cases value cs <;> rfl

/-- A member is settled when its value is. -/
theorem settles_readMember {value : Reader α} {m : Member} (spaced : m.Spaced)
    (name : IsBody m.name) (spaces : ∀ b cs, IsSpaces b → value (b ++ cs) = value cs)
    (settles : Settles value m.value.text) :
    ∃ o : Option (String × α), ∀ rest, Apart (m.value.after ++ rest) →
      (readMember value (m.inside ++ rest)).toOption = o.map (·, m.value.after ++ rest) := by
  obtain ⟨k, hk⟩ := closes_readString name
  obtain ⟨v, hv⟩ := settles
  refine ⟨k.bind fun k => v.map (k, ·), fun rest apart => ?_⟩
  rw [readMember, m.inside_append, toOption_bind, hk]
  cases k with
  | none => rfl
  | some k =>
    simp only [Option.map_some, Option.bind_some, expectColon_spaces spaced.gap, toOption_bind,
      toOption_ok, spaces _ _ spaced.value.before, hv _ apart]
    cases v <;> rfl

/-- An object is settled when each of its members is. -/
theorem settles_readMembers {value : Reader α} {members : List Member}
    (spaced : ∀ m ∈ members, m.Spaced) (names : ∀ m ∈ members, IsBody m.name)
    (spaces : ∀ b cs, IsSpaces b → value (b ++ cs) = value cs)
    (settles : ∀ m ∈ members, Settles value m.value.text) (gap_ok : IsSpaces gap) (first : Bool) :
    ∃ o : Option (List (String × α)), ∀ budget, members.length ≤ budget → ∀ rest,
      (readMembers value (budget + 1) first (listed first (members.map Member.spelt) ++
        (gap ++ '\x7d' :: rest))).toOption = o.map (·, rest) := by
  induction members generalizing first with
  | nil =>
    refine ⟨some [], fun budget _ rest => ?_⟩
    rw [List.map_nil, listed, List.nil_append, readMembers_spaces value _ _ gap_ok]
    cases first <;> rfl
  | cons m members ih =>
    have hm := spaced m List.mem_cons_self
    obtain ⟨e, he⟩ := settles_readMember hm (names m List.mem_cons_self) spaces
      (settles m List.mem_cons_self)
    obtain ⟨es, hes⟩ := ih (fun n hn => spaced n (List.mem_cons_of_mem m hn))
      (fun n hn => names n (List.mem_cons_of_mem m hn))
      (fun n hn => settles n (List.mem_cons_of_mem m hn)) false
    refine ⟨e.bind fun e => es.map (e :: ·), fun budget enough rest => ?_⟩
    obtain ⟨budget, rfl⟩ := Nat.exists_eq_add_one.mpr (Nat.lt_of_lt_of_le (Nat.succ_pos _) enough)
    have hafter := apart_listed hm.value.after (members.map Member.spelt) gap_ok (.brace rest)
    have hmember := he _ hafter
    have htail := hes budget (Nat.le_of_succ_le_succ enough) rest
    simp only [List.map_cons, listed, Member.spelt, List.append_assoc, List.cons_append]
    rw [readMembers_next (nextName_quote hm.before first _), toOption_bind, hmember]
    cases e with
    | none => rfl
    | some e =>
      simp only [Option.map_some, Option.bind_some, toOption_bind,
        readMembers_spaces value _ _ hm.value.after, htail]
      cases es <;> rfl

end Loops

theorem readValue_spaces (levels : Nat) {b : List Char} (hb : IsSpaces b) (cs : List Char) :
    readValue levels (b ++ cs) = readValue levels cs := by
  cases levels <;> simp only [readValue, skipSpace_spaces hb]

/-- The text between the braces of an object settles its members. -/
theorem settles_objectText {levels : Nat} {members : List Member} {gap : List Char}
    (spaced : ∀ m ∈ members, m.Spaced) (names : ∀ m ∈ members, IsBody m.name)
    (settles : ∀ m ∈ members, Settles (readValue levels) m.value.text) (gap_ok : IsSpaces gap) :
    Settles (fun cs => readMembers (readValue levels) (cs.length + 1) true cs)
      (objectText members gap ++ ['\x7d']) := by
  obtain ⟨o, ho⟩ := settles_readMembers spaced names (fun b cs hb => readValue_spaces levels hb cs)
    settles gap_ok true
  refine ⟨o, fun rest _ => ?_⟩
  have hcount := length_le_listed_members members true
  simp only [objectText, List.append_assoc, List.cons_append, List.nil_append]
  apply ho
  simp only [List.length_append]
  omega

theorem settles_listText {levels : Nat} {items : List Item} {gap : List Char}
    (spaced : ∀ i ∈ items, i.Spaced) (values : ∀ i ∈ items, IsValue i.text)
    (settles : ∀ i ∈ items, Settles (readValue levels) i.text) (gap_ok : IsSpaces gap) :
    Settles (fun cs => readItems (readValue levels) (cs.length + 1) true cs)
      (listText items gap ++ [']']) := by
  obtain ⟨o, ho⟩ := settles_readItems spaced (fun i hi => (values i hi).opens) settles gap_ok true
  refine ⟨o, fun rest _ => ?_⟩
  have hcount := length_le_listed_items values true
  simp only [listText, List.append_assoc, List.cons_append, List.nil_append]
  apply ho
  simp only [List.length_append]
  omega

/-- Every value of the grammar is settled, at any depth. -/
theorem settles_value {text : List Char} (h : IsValue text) (levels : Nat) :
    Settles (readValue levels) text := by
  induction h generalizing levels with
  | null => exact .some (a := .null) fun rest => by cases levels <;> rfl
  | true => exact .some (a := .bool .true) fun rest => by cases levels <;> rfl
  | false => exact .some (a := .bool .false) fun rest => by cases levels <;> rfl
  | number numeral =>
    have hnumber := (settles_readNumber numeral .false).map Value.number
    obtain ⟨c, cs, rfl, hc⟩ := numeral.head
    exact hnumber.of_eq fun rest => readValue_eq_number hc
  | minus numeral =>
    exact ((settles_readNumber numeral .true).map Value.number).of_eq fun rest => readValue_eq_minus
  | string body_ok =>
    exact ((closes_readString body_ok).settles.map Value.string).of_eq fun rest =>
      readValue_eq_string
  | @array items gap spaced gap_ok values ih =>
    cases levels with
    | zero => exact .none fun rest => rfl
    | succ levels =>
      have hitems := settles_listText spaced values (fun i hi => ih i hi levels) gap_ok
      exact (hitems.map Value.array).of_eq fun rest => readValue_eq_array
  | @object members gap spaced gap_ok names values ih =>
    cases levels with
    | zero => exact .none fun rest => rfl
    | succ levels =>
      have hmembers := settles_objectText spaced names (fun m hm => ih m hm levels) gap_ok
      exact (hmembers.map fun ms => Value.object (Keyed.merge ms)).of_eq fun rest =>
        readValue_eq_object

end SlideDeck.Json
