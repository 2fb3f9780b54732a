import SlideDeck.Proofs.Json.RoundTrip

/-!
The grammar of JSON texts, apart from what any reader makes of them. Numerals may be of any size,
lists and objects may be nested to any depth, and an escaped surrogate may stand alone.
-/
namespace SlideDeck.Json

def IsSpaces (cs : List Char) : Prop := ∀ c ∈ cs, isSpace c = true

theorem IsSpaces.nil : IsSpaces [] := fun c hc => by cases hc

theorem IsSpaces.append {b b' : List Char} (h : IsSpaces b) (h' : IsSpaces b') :
    IsSpaces (b ++ b') := fun c hc => by
  rcases List.mem_append.mp hc with hc | hc
  · exact h c hc
  · exact h' c hc

structure IsDigits (ds : List Char) : Prop where
  nonempty : ds ≠ []
  digits : ∀ c ∈ ds, c.isDigit = true

/-- The whole part of a numeral. Nothing follows a leading zero. -/
structure IsWhole (ds : List Char) : Prop extends IsDigits ds where
  zero : ds.head? = some '0' → ds = ['0']

inductive IsFraction : List Char → Prop
  | none : IsFraction []
  | point {ds : List Char} (digits : IsDigits ds) : IsFraction ('.' :: ds)

inductive IsExponent : List Char → Prop
  | none : IsExponent []
  | power {mark : Char} {sign ds : List Char} (mark_eq : mark = 'e' ∨ mark = 'E')
      (sign_eq : sign = [] ∨ sign = ['+'] ∨ sign = ['-']) (digits : IsDigits ds) :
      IsExponent (mark :: (sign ++ ds))

/-- A number without a sign. -/
inductive IsNumeral : List Char → Prop
  | mk {whole fraction exponent : List Char} (whole_ok : IsWhole whole)
      (fraction_ok : IsFraction fraction) (exponent_ok : IsExponent exponent) :
      IsNumeral (whole ++ (fraction ++ exponent))

/-- The characters that stand behind a backslash, with what they stand for. -/
def escapes : List (Char × Char) :=
  [('"', '"'), ('\\', '\\'), ('/', '/'), ('b', '\x08'), ('f', '\x0c'), ('n', '\n'), ('r', '\r'),
    ('t', '\t')]

/-- A character that stands for itself in a string. -/
structure IsPlain (c : Char) : Prop where
  quote : c ≠ '"'
  backslash : c ≠ '\\'
  control : ¬ c.toNat < 0x20

instance (c : Char) : Decidable (IsPlain c) :=
  decidable_of_iff (c ≠ '"' ∧ c ≠ '\\' ∧ ¬ c.toNat < 0x20)
    ⟨fun h => ⟨h.1, h.2.1, h.2.2⟩, fun h => ⟨h.quote, h.backslash, h.control⟩⟩

/-- Four hexadecimal digits that spell a number. -/
structure IsFour (digits : List Char) (n : Nat) : Prop where
  length : digits.length = 4
  value : hexNumber? digits = some n

/-- What stands between the quotes of a string. -/
inductive IsBody : List Char → Prop
  | nil : IsBody []
  | plain {c : Char} {cs : List Char} (char : IsPlain c) (further : IsBody cs) : IsBody (c :: cs)
  | escape {c d : Char} {cs : List Char} (mem : (c, d) ∈ escapes) (further : IsBody cs) :
      IsBody ('\\' :: c :: cs)
  | number {digits cs : List Char} {n : Nat} (four : IsFour digits n) (further : IsBody cs) :
      IsBody ('\\' :: 'u' :: (digits ++ cs))

/-- The inside of a string spells the characters. Surrogates stand in pairs. -/
inductive Spells : List Char → List Char → Prop
  | nil : Spells [] []
  | plain {c : Char} {cs ds : List Char} (char : IsPlain c) (further : Spells cs ds) :
      Spells (c :: cs) (c :: ds)
  | escape {c d : Char} {cs ds : List Char} (mem : (c, d) ∈ escapes) (further : Spells cs ds) :
      Spells ('\\' :: c :: cs) (d :: ds)
  | number {digits cs ds : List Char} {n : Nat} (four : IsFour digits n)
      (leading : isLeadingSurrogate n = false) (trailing : isTrailingSurrogate n = false)
      (further : Spells cs ds) : Spells ('\\' :: 'u' :: (digits ++ cs)) (Char.ofNat n :: ds)
  | pair {digits digits' cs ds : List Char} {n m : Nat} (four : IsFour digits n)
      (four' : IsFour digits' m) (leading : isLeadingSurrogate n = true)
      (trailing : isTrailingSurrogate m = true) (further : Spells cs ds) :
      Spells ('\\' :: 'u' :: (digits ++ '\\' :: 'u' :: (digits' ++ cs))) (pairedChar n m :: ds)

theorem Spells.isBody {body cs : List Char} (h : Spells body cs) : IsBody body := by
  induction h with
  | nil => exact .nil
  | plain char further ih => exact .plain char ih
  | escape mem further ih => exact .escape mem ih
  | number four leading trailing further ih => exact .number four ih
  | pair four four' leading trailing further ih => exact .number four (.number four' ih)

/-- Characters that stand for themselves spell themselves. -/
theorem spells_of_plain {cs : List Char} (plain : cs.all (fun c => decide (IsPlain c)) = true) :
    Spells cs cs := by
  induction cs with
  | nil => exact .nil
  | cons c cs ih =>
    rw [List.all_cons, Bool.and_eq_true, decide_eq_true_eq] at plain
    exact .plain plain.1 (ih plain.2)

/-- An item of a list: the text of a value with the blanks around it. -/
structure Item where
  before : List Char
  text : List Char
  after : List Char

def Item.spelt (i : Item) : List Char := i.before ++ (i.text ++ i.after)

structure Item.Spaced (i : Item) : Prop where
  before : IsSpaces i.before
  after : IsSpaces i.after

/-- A member of an object: the inside of its name with the blanks around the name, and its value. -/
structure Member where
  before : List Char
  name : List Char
  gap : List Char
  value : Item

/-- The text of a member from behind the quote that opens its name. -/
def Member.inside (m : Member) : List Char := m.name ++ '"' :: (m.gap ++ ':' :: m.value.spelt)

def Member.spelt (m : Member) : List Char := m.before ++ '"' :: m.inside

theorem Member.inside_append (m : Member) (rest : List Char) :
    m.inside ++ rest = m.name ++ '"' :: (m.gap ++ ':' ::
      (m.value.before ++ (m.value.text ++ (m.value.after ++ rest)))) := by
  simp [inside, Item.spelt]

structure Member.Spaced (m : Member) : Prop where
  before : IsSpaces m.before
  gap : IsSpaces m.gap
  value : m.value.Spaced

def Item.pad (i : Item) (b after : List Char) : Item := ⟨b ++ i.before, i.text, i.after ++ after⟩

theorem Item.spelt_pad (i : Item) (b after : List Char) :
    (i.pad b after).spelt = b ++ (i.spelt ++ after) := by
  simp [pad, spelt]

theorem Item.Spaced.pad {i : Item} (h : i.Spaced) {b after : List Char} (hb : IsSpaces b)
    (hafter : IsSpaces after) : (i.pad b after).Spaced :=
  ⟨hb.append h.before, h.after.append hafter⟩

def Member.pad (m : Member) (b after : List Char) : Member :=
  { m with before := b ++ m.before, value := m.value.pad [] after }

theorem Member.spelt_pad (m : Member) (b after : List Char) :
    (m.pad b after).spelt = b ++ (m.spelt ++ after) := by
  simp [pad, spelt, inside, Item.spelt_pad]

theorem Member.Spaced.pad {m : Member} (h : m.Spaced) {b after : List Char} (hb : IsSpaces b)
    (hafter : IsSpaces after) : (m.pad b after).Spaced :=
  ⟨hb.append h.before, h.gap, h.value.pad .nil hafter⟩

/-- A member with no blanks around it. -/
def Member.tight (name gap b text : List Char) : Member := ⟨[], name, gap, ⟨b, text, []⟩⟩

theorem Member.spelt_tight (name gap b text rest : List Char) :
    (tight name gap b text).spelt ++ rest =
      '"' :: (name ++ '"' :: (gap ++ ':' :: (b ++ (text ++ rest)))) := by
  simp [tight, spelt, inside, Item.spelt]

theorem Member.spaced_tight (name text : List Char) {gap b : List Char} (hgap : IsSpaces gap)
    (hb : IsSpaces b) : (tight name gap b text).Spaced :=
  ⟨.nil, hgap, hb, .nil⟩

/-- What stands between the brackets of a list. -/
def listText (items : List Item) (gap : List Char) : List Char :=
  listed true (items.map Item.spelt) ++ gap

/-- What stands between the braces of an object. -/
def objectText (members : List Member) (gap : List Char) : List Char :=
  listed true (members.map Member.spelt) ++ gap

/-- The text of a value, without blanks around it. -/
inductive IsValue : List Char → Prop
  | null : IsValue ['n', 'u', 'l', 'l']
  | true : IsValue ['t', 'r', 'u', 'e']
  | false : IsValue ['f', 'a', 'l', 's', 'e']
  | number {text : List Char} (numeral : IsNumeral text) : IsValue text
  | minus {text : List Char} (numeral : IsNumeral text) : IsValue ('-' :: text)
  | string {body : List Char} (body_ok : IsBody body) : IsValue ('"' :: (body ++ ['"']))
  | array {items : List Item} {gap : List Char} (spaced : ∀ i ∈ items, i.Spaced)
      (gap_ok : IsSpaces gap) (values : ∀ i ∈ items, IsValue i.text) :
      IsValue ('[' :: (listText items gap ++ [']']))
  | object {members : List Member} {gap : List Char} (spaced : ∀ m ∈ members, m.Spaced)
      (gap_ok : IsSpaces gap) (names : ∀ m ∈ members, IsBody m.name)
      (values : ∀ m ∈ members, IsValue m.value.text) :
      IsValue ('\x7b' :: (objectText members gap ++ ['\x7d']))

theorem IsNumeral.head {text : List Char} (h : IsNumeral text) :
    ∃ c cs, text = c :: cs ∧ c.isDigit = true := by
  cases h with
  | @mk whole fraction exponent whole_ok _ _ =>
    cases whole with
    | nil => exact absurd rfl whole_ok.nonempty
    | cons c ds => exact ⟨c, _, rfl, whole_ok.digits c List.mem_cons_self⟩

theorem IsValue.opens {text : List Char} (h : IsValue text) : Opens text := by
  cases h with
  | number numeral =>
    obtain ⟨c, cs, rfl, hc⟩ := numeral.head
    exact ⟨c, cs, rfl, isSpace_of_isDigit hc, ne_of_isDigit hc rfl⟩
  | _ => exact ⟨_, _, rfl, by decide, by decide⟩

theorem Item.spelt_ne_nil {i : Item} (h : IsValue i.text) : i.spelt ≠ [] := by
  obtain ⟨c, cs, htext, -⟩ := h.opens
  simp [spelt, htext]

theorem Member.spelt_ne_nil (m : Member) : m.spelt ≠ [] := by
  simp [spelt]

theorem length_le_of_mem {text : List Char} {texts : List (List Char)} (h : text ∈ texts)
    (first : Bool) : text.length ≤ (listed first texts).length := by
  induction texts generalizing first with
  | nil => cases h
  | cons t texts ih =>
    simp only [listed, List.length_append]
    rcases List.mem_cons.mp h with rfl | h
    · omega
    · have := ih h false
      omega

theorem Item.length_text_le_listed {items : List Item} {i : Item} (h : i ∈ items) (first : Bool) :
    i.text.length ≤ (listed first (items.map Item.spelt)).length := by
  have hitem : i.text.length ≤ i.spelt.length := by
    simp only [spelt, List.length_append]
    omega
  exact Nat.le_trans hitem (length_le_of_mem (List.mem_map_of_mem h) first)

theorem Member.length_text_le_listed {members : List Member} {m : Member} (h : m ∈ members)
    (first : Bool) :
    m.value.text.length ≤ (listed first (members.map Member.spelt)).length := by
  have hmember : m.value.text.length ≤ m.spelt.length := by
    simp only [spelt, inside, Item.spelt, List.length_append, List.length_cons]
    omega
  exact Nat.le_trans hmember (length_le_of_mem (List.mem_map_of_mem h) first)

/-- A list is long enough to count its items. -/
theorem length_le_listed_items {items : List Item} (values : ∀ i ∈ items, IsValue i.text)
    (first : Bool) : items.length ≤ (listed first (items.map Item.spelt)).length :=
  length_le_listed (fun i hi => Item.spelt_ne_nil (values i hi)) first

theorem length_le_listed_members (members : List Member) (first : Bool) :
    members.length ≤ (listed first (members.map Member.spelt)).length :=
  length_le_listed (fun m _ => m.spelt_ne_nil) first

theorem skipSpace_spaces {b : List Char} (h : IsSpaces b) (cs : List Char) :
    skipSpace (b ++ cs) = skipSpace cs := by
  induction b with
  | nil => rfl
  | cons c b ih =>
    have hrest := ih fun d hd => h d (List.mem_cons_of_mem c hd)
    rw [List.cons_append, skipSpace, List.dropWhile_cons_of_pos (h c List.mem_cons_self)]
    exact hrest

theorem skipSpace_opens {text : List Char} (h : Opens text) (rest : List Char) :
    skipSpace (text ++ rest) = text ++ rest := by
  obtain ⟨c, cs, rfl, hc, -⟩ := h
  exact skipSpace_cons hc _

/-- The text does not go on with a numeral that came before. -/
def Apart (rest : List Char) : Prop :=
  ∀ c ∈ rest.head?, c.isDigit = false ∧ c ≠ '.' ∧ c ≠ 'e' ∧ c ≠ 'E'

theorem Apart.nil : Apart [] := fun c hc => by cases hc

theorem Apart.cons {c : Char} (hc : c.isDigit = false ∧ c ≠ '.' ∧ c ≠ 'e' ∧ c ≠ 'E')
    (rest : List Char) : Apart (c :: rest) := fun d hd => by
  obtain rfl := Option.some.inj hd
  exact hc

theorem Ended.apart {rest : List Char} (h : Ended rest) : Apart rest := by
  cases h with
  | nil => exact .nil
  | comma => exact .cons (by decide) _
  | bracket => exact .cons (by decide) _
  | brace => exact .cons (by decide) _

theorem Apart.spaces {b rest : List Char} (hb : IsSpaces b) (h : Apart rest) :
    Apart (b ++ rest) := by
  cases b with
  | nil => exact h
  | cons c b =>
    refine .cons ?_ _
    have hc := hb c List.mem_cons_self
    simp only [isSpace, Bool.or_eq_true, beq_iff_eq] at hc
    rcases hc with ((rfl | rfl) | rfl) | rfl <;> decide

/-- Behind an item or a member come the next ones and the closing bracket. -/
theorem apart_listed {after gap rest : List Char} (hafter : IsSpaces after)
    (texts : List (List Char)) (hgap : IsSpaces gap) (ended : Ended rest) :
    Apart (after ++ (listed false texts ++ (gap ++ rest))) := by
  apply Apart.spaces hafter
  cases texts with
  | nil =>
    rw [listed, List.nil_append]
    exact ended.apart.spaces hgap
  | cons t texts => exact .cons (by decide) _

end SlideDeck.Json
