import SlideDeck.Json.Reader
import SlideDeck.Proofs.Json.Numeral
import SlideDeck.Proofs.Json.StringBody
import SlideDeck.Proofs.Keyed

/-!
Values are read back from the text in which they are written, as long as they hold no doubles and
are not nested too deeply. The lists of items and of members are written as their readers go through
them, one at a time and each but the first behind a comma.
-/
namespace SlideDeck.Json

/-- Texts one behind the other, each behind a comma unless it is the very first. -/
def listed : Bool → List (List Char) → List Char
  | _, [] => []
  | first, text :: texts => (if first then [] else [',']) ++ text ++ listed false texts

theorem length_le_listed {α : Type} {print : α → List Char} {as : List α}
    (filled : ∀ a ∈ as, print a ≠ []) (first : Bool) :
    as.length ≤ (listed first (as.map print)).length := by
  induction as generalizing first with
  | nil => exact Nat.zero_le _
  | cons a as ih =>
    have ha : 0 < (print a).length := List.length_pos_iff.mpr (filled a List.mem_cons_self)
    have := ih (fun b hb => filled b (List.mem_cons_of_mem a hb)) false
    simp only [listed, List.map_cons, List.length_append, List.length_cons]
    omega

/-- Behind a text that was listed comes a comma or the closing bracket. -/
theorem ended_listed (texts : List (List Char)) {rest : List Char} (ended : Ended rest) :
    Ended (listed false texts ++ rest) := by
  cases texts with
  | nil => exact ended
  | cons t texts => exact .comma _

/-- The text of a member of an object. -/
def printMember (m : String × Value) : List Char := printString m.1 ++ ':' :: m.2.print

theorem printMember_append (m : String × Value) (rest : List Char) :
    printMember m ++ rest =
      '"' :: (m.1.toList.flatMap escapeChar ++ '"' :: ':' :: (m.2.print ++ rest)) := by
  simp [printMember, printString]

theorem printMember_ne_nil (m : String × Value) : printMember m ≠ [] :=
  List.cons_ne_nil _ _

namespace Value

theorem printItems_eq_listed (vs : List Value) : printItems vs = listed true (vs.map print) := by
  induction vs with
  | nil => rfl
  | cons v vs ih =>
    cases vs with
    | nil => simp [printItems, listed]
    | cons w vs => simp [printItems, ih, listed]

theorem printMembers_eq_listed (ms : List (String × Value)) :
    printMembers ms = listed true (ms.map printMember) := by
  induction ms with
  | nil => rfl
  | cons m ms ih =>
    obtain ⟨k, v⟩ := m
    cases ms with
    | nil => simp [printMembers, listed, printMember]
    | cons n ms => simp [printMembers, ih, listed, printMember]

/-- The text of an object is long enough to count its members. -/
theorem length_le_printMembers (ms : List (String × Value)) (rest : List Char) :
    ms.length ≤ (printMembers ms ++ '\x7d' :: rest).length := by
  have := length_le_listed (fun m (_ : m ∈ ms) => printMember_ne_nil m) true
  rw [printMembers_eq_listed, List.length_append]
  omega

/-- A value without doubles whose lists and objects open one another at most so many times, and
whose objects hold no name twice. -/
inductive Plain : Nat → Value → Prop where
  | null {levels : Nat} : Plain levels .null
  | bool {levels : Nat} (b : Bool) : Plain levels (.bool b)
  | int {levels : Nat} (n : Int) (low : -(Nat.pow 2 63 : Nat) ≤ n)
    (high : n < (Nat.pow 2 64 : Nat)) : Plain levels (.number (.int n))
  | string {levels : Nat} (s : String) : Plain levels (.string s)
  | array {levels : Nat} (vs : List Value) (items : ∀ v ∈ vs, Plain levels v) :
    Plain (levels + 1) (.array vs)
  | object {levels : Nat} (ms : List (String × Value)) (distinct : Keyed.Distinct ms)
    (members : ∀ m ∈ ms, Plain levels m.2) : Plain (levels + 1) (.object ms)

end Value

/-- A text that begins with a character that is no blank and closes no list. -/
def Opens (text : List Char) : Prop :=
  ∃ c rest, text = c :: rest ∧ isSpace c = false ∧ c ≠ ']'

theorem Opens.ne_nil {text : List Char} (opens : Opens text) : text ≠ [] := by
  obtain ⟨c, rest, rfl, -, -⟩ := opens
  exact List.cons_ne_nil c rest

theorem ne_of_isDigit {c d : Char} (hc : c.isDigit = true) (hd : d.isDigit = false) : c ≠ d := by
  rintro rfl
  simp [hc] at hd

theorem isSpace_of_isDigit {c : Char} (hc : c.isDigit = true) : isSpace c = false := by
  have : c ≠ ' ' ∧ c ≠ '\n' ∧ c ≠ '\t' ∧ c ≠ '\r' :=
    ⟨ne_of_isDigit hc rfl, ne_of_isDigit hc rfl, ne_of_isDigit hc rfl, ne_of_isDigit hc rfl⟩
  simp [isSpace, this]

theorem Value.Plain.opens {levels : Nat} {v : Value} (plain : v.Plain levels) :
    Opens v.print := by
  cases plain with
  | null => exact ⟨_, _, rfl, by decide⟩
  | bool b => cases b <;> exact ⟨_, _, rfl, by decide⟩
  | int n low high =>
    cases n with
    | ofNat n =>
      obtain ⟨c, digits, hdigits, hc, -⟩ := toDigits_eq_cons n
      exact ⟨c, digits, hdigits, isSpace_of_isDigit hc, ne_of_isDigit hc rfl⟩
    | negSucc n => exact ⟨_, _, rfl, by decide⟩
  | string s => exact ⟨_, _, rfl, by decide⟩
  | array vs items => exact ⟨_, _, rfl, by decide⟩
  | object ms distinct members => exact ⟨_, _, rfl, by decide⟩

theorem skipSpace_cons {c : Char} (hc : isSpace c = false) (rest : List Char) :
    skipSpace (c :: rest) = c :: rest := by
  simp [skipSpace, hc]

theorem nextItem_listed {text : List Char} (opens : Opens text) (first : Bool)
    (rest : List Char) :
    nextItem first ((if first then [] else [',']) ++ text ++ rest) = .ok (some (text ++ rest)) := by
  obtain ⟨c, cs, rfl, hspace, hclose⟩ := opens
  cases first with
  | true => simp [nextItem, skipSpace_cons hspace]
  | false =>
    have hcomma : isSpace ',' = false := by decide
    simp [nextItem, skipSpace_cons hspace, skipSpace_cons hcomma, hclose]

/-- A list is read back item by item when each item is, whatever may stand behind it. -/
theorem readItems_listed {α : Type} {item : Reader α} {print : α → List Char} {vs : List α}
    (opens : ∀ v ∈ vs, Opens (print v))
    (reads : ∀ v ∈ vs, ∀ rest, Ended rest → item (print v ++ rest) = .ok (v, rest))
    {budget : Nat} (enough : vs.length ≤ budget) (first : Bool) (rest : List Char) :
    readItems item (budget + 1) first (listed first (vs.map print) ++ ']' :: rest) =
      .ok (vs, rest) := by
  induction vs generalizing budget first with
  | nil => cases first <;> rfl
  | cons v vs ih =>
    obtain ⟨budget, rfl⟩ := Nat.exists_eq_add_one.mpr (Nat.lt_of_lt_of_le (Nat.succ_pos _) enough)
    have htail := ih (fun w hw => opens w (List.mem_cons_of_mem v hw))
      (fun w hw => reads w (List.mem_cons_of_mem v hw)) (Nat.le_of_succ_le_succ enough) false
    have hv := reads v List.mem_cons_self _ (ended_listed (vs.map print) (.bracket rest))
    rw [List.map_cons, listed, List.append_assoc, readItems]
    simp only [nextItem_listed (opens v List.mem_cons_self), hv, htail, bind, Except.bind]

theorem expectColon_colon (rest : List Char) : expectColon (':' :: rest) = .ok rest := rfl

theorem nextName_listed (first : Bool) (rest : List Char) :
    nextName first ((if first then [] else [',']) ++ '"' :: rest) = .ok (some rest) := by
  cases first <;> rfl

/-- An object is read back member by member when the value of each is, whatever may stand behind
it. -/
theorem readMembers_listed {value : Reader Value} {ms : List (String × Value)}
    (reads : ∀ m ∈ ms, ∀ rest, Ended rest → value (m.2.print ++ rest) = .ok (m.2, rest))
    {budget : Nat} (enough : ms.length ≤ budget) (first : Bool) (rest : List Char) :
    readMembers value (budget + 1) first (listed first (ms.map printMember) ++ '\x7d' :: rest) =
      .ok (ms, rest) := by
  induction ms generalizing budget first with
  | nil => cases first <;> rfl
  | cons m ms ih =>
    obtain ⟨budget, rfl⟩ := Nat.exists_eq_add_one.mpr (Nat.lt_of_lt_of_le (Nat.succ_pos _) enough)
    have htail := ih (fun n hn => reads n (List.mem_cons_of_mem m hn))
      (Nat.le_of_succ_le_succ enough) false
    have hv := reads m List.mem_cons_self _ (ended_listed (ms.map printMember) (.brace rest))
    rw [List.map_cons, listed, List.append_assoc, List.append_assoc, printMember_append,
      readMembers]
    simp only [nextName_listed, readString_body, expectColon_colon, hv, htail, bind, Except.bind]

theorem readItems_printItems {item : Reader Value} {vs : List Value}
    (opens : ∀ v ∈ vs, Opens v.print)
    (reads : ∀ v ∈ vs, ∀ rest, Ended rest → item (v.print ++ rest) = .ok (v, rest))
    (rest : List Char) :
    readItems item ((Value.printItems vs ++ ']' :: rest).length + 1) true
      (Value.printItems vs ++ ']' :: rest) = .ok (vs, rest) := by
  have hlength := length_le_listed (fun v hv => (opens v hv).ne_nil) true
  rw [Value.printItems_eq_listed]
  apply readItems_listed opens reads
  rw [List.length_append]
  omega

theorem readMembers_printMembers {value : Reader Value} {ms : List (String × Value)}
    (reads : ∀ m ∈ ms, ∀ rest, Ended rest → value (m.2.print ++ rest) = .ok (m.2, rest))
    (rest : List Char) :
    readMembers value ((Value.printMembers ms ++ '\x7d' :: rest).length + 1) true
      (Value.printMembers ms ++ '\x7d' :: rest) = .ok (ms, rest) := by
  have hlength := Value.length_le_printMembers ms rest
  rw [Value.printMembers_eq_listed] at hlength ⊢
  exact readMembers_listed reads hlength true rest

section Kinds

variable {levels : Nat} {cs : List Char}

theorem readValue_eq_number {c : Char} (hc : c.isDigit = true) :
    readValue levels (c :: cs) = (do
      let (n, rest) ← readNumber false (c :: cs)
      .ok (.number n, rest)) := by
  have hne : ∀ d : Char, d.isDigit = false → c ≠ d := fun d hd => ne_of_isDigit hc hd
  cases levels <;> simp [readValue, skipSpace_cons (isSpace_of_isDigit hc), hne, hc]

theorem readValue_eq_minus :
    readValue levels ('-' :: cs) = (do
      let (n, rest) ← readNumber true cs
      .ok (.number n, rest)) := by
  cases levels <;> simp [readValue, skipSpace, isSpace]

theorem readValue_eq_string :
    readValue levels ('"' :: cs) = (do
      let (s, rest) ← readString cs
      .ok (.string s, rest)) := by
  cases levels <;> simp [readValue, skipSpace, isSpace]

theorem readValue_eq_array :
    readValue (levels + 1) ('[' :: cs) = (do
      let (items, rest) ← readItems (readValue levels) (cs.length + 1) true cs
      .ok (.array items, rest)) := by
  simp [readValue, skipSpace, isSpace]

theorem readValue_eq_object :
    readValue (levels + 1) ('\x7b' :: cs) = (do
      let (members, rest) ← readMembers (readValue levels) (cs.length + 1) true cs
      .ok (.object (Keyed.merge members), rest)) := by
  simp [readValue, skipSpace, isSpace]

end Kinds

/-- A value is read back from its text, whatever may stand behind a value. -/
theorem readValue_print {levels : Nat} {v : Value} (plain : v.Plain levels) {rest : List Char}
    (ended : Ended rest) : readValue levels (v.print ++ rest) = .ok (v, rest) := by
  induction plain generalizing rest with
  | null => simp [Value.print, readValue, skipSpace, isSpace, expectWord, bind, Except.bind]
  | bool b =>
    cases b <;>
      simp [Value.print, readValue, skipSpace, isSpace, expectWord, bind, Except.bind]
  | int n low high =>
    cases n with
    | ofNat n =>
      have hread := readNumber_toDigits (Int.ofNat_lt.mp high) ended
      obtain ⟨c, digits, hdigits, hc, -⟩ := toDigits_eq_cons n
      simp only [Value.print, Number.print, printInt, hdigits, List.cons_append] at hread ⊢
      rw [readValue_eq_number hc, hread]
      rfl
    | negSucc n =>
      have hread := readNumber_toDigits_neg (Nat.succ_pos n) (by omega) ended
      rw [Value.print, Number.print, printInt, List.cons_append, readValue_eq_minus, hread]
      rfl
  | string s =>
    simp only [Value.print, printString, List.cons_append, List.append_assoc, List.nil_append]
    rw [readValue_eq_string, readString_body]
    rfl
  | array vs items ih =>
    simp only [Value.print, List.cons_append, List.append_assoc, List.nil_append]
    rw [readValue_eq_array,
      readItems_printItems (fun v hv => (items v hv).opens) (fun v hv tail h => ih v hv h)]
    rfl
  | object ms distinct members ih =>
    simp only [Value.print, List.cons_append, List.append_assoc, List.nil_append]
    rw [readValue_eq_object, readMembers_printMembers fun m hm tail h => ih m hm h]
    simp only [bind, Except.bind, Keyed.merge_of_distinct distinct]

/-- Values without doubles come back from their texts. -/
theorem Value.ofText_of_plain {v : Value} (plain : v.Plain deepest) :
    Value.ofText v.toText = .ok v := by
  have hread := readValue_print plain .nil
  rw [List.append_nil] at hread
  simp [Value.ofText, Value.toText, readWhole, hread, skipSpace, bind, Except.bind]

end SlideDeck.Json
