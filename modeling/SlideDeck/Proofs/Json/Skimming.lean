import SlideDeck.Json.Skim
import SlideDeck.Proofs.Json.Grammar

/-!
Every value of the grammar is passed over, whatever its numbers, its surrogates and its depth. What
stands behind it is left untouched.
-/
namespace SlideDeck.Json

theorem skipDigits_of_stop {rest : List Char} (stop : startsWithDigit rest = false) :
    skipDigits rest = rest := by
  cases rest with
  | nil => rfl
  | cons c rest =>
    rw [startsWithDigit] at stop
    simp [skipDigits, stop]

theorem skipDigits_append {ds rest : List Char} (hds : ∀ c ∈ ds, c.isDigit = true)
    (stop : startsWithDigit rest = false) : skipDigits (ds ++ rest) = rest := by
  rw [skipDigits, List.dropWhile_append_of_pos hds]
  exact skipDigits_of_stop stop

theorem Apart.stop {rest : List Char} (h : Apart rest) : startsWithDigit rest = false := by
  cases rest with
  | nil => rfl
  | cons c rest => exact (h c rfl).1

theorem IsExponent.stop {exponent rest : List Char} (h : IsExponent exponent) (apart : Apart rest) :
    startsWithDigit (exponent ++ rest) = false := by
  cases h with
  | none => exact apart.stop
  | power mark_eq sign_eq digits => rcases mark_eq with rfl | rfl <;> rfl

theorem IsFraction.stop {fraction rest : List Char} (h : IsFraction fraction)
    (stop : startsWithDigit rest = false) : startsWithDigit (fraction ++ rest) = false := by
  cases h with
  | none => exact stop
  | point digits => rfl

theorem IsDigits.startsWithDigit {ds : List Char} (h : IsDigits ds) (rest : List Char) :
    startsWithDigit (ds ++ rest) = true := by
  cases ds with
  | nil => exact absurd rfl h.nonempty
  | cons c ds => exact h.digits c List.mem_cons_self

theorem skimDigits_append {ds rest : List Char} (h : IsDigits ds)
    (stop : startsWithDigit rest = false) : skimDigits (ds ++ rest) = .ok rest := by
  rw [skimDigits, if_pos (h.startsWithDigit rest), skipDigits_append h.digits stop]

/-- What begins with a digit has no sign. -/
theorem skimExponent_digit {cs : List Char} (h : startsWithDigit cs = true) :
    skimExponent cs = skimDigits cs := by
  unfold skimExponent
  split <;> first | rfl | simp [startsWithDigit, Char.isDigit] at h

theorem skimExponent_power {sign ds rest : List Char}
    (sign_eq : sign = [] ∨ sign = ['+'] ∨ sign = ['-']) (digits : IsDigits ds)
    (stop : startsWithDigit rest = false) : skimExponent (sign ++ (ds ++ rest)) = .ok rest := by
  have hskim := skimDigits_append digits stop
  rcases sign_eq with rfl | rfl | rfl
  · rw [List.nil_append, skimExponent_digit (digits.startsWithDigit rest), hskim]
  · exact hskim
  · exact hskim

theorem Apart.skimFraction {rest : List Char} (h : Apart rest) : skimFraction rest = .ok rest := by
  unfold Json.skimFraction
  split <;> first | rfl | simp [Apart] at h

theorem skimFraction_append {fraction exponent rest : List Char} (hf : IsFraction fraction)
    (he : IsExponent exponent) (apart : Apart rest) :
    skimFraction (fraction ++ (exponent ++ rest)) = .ok rest := by
  have hstop := he.stop apart
  cases hf with
  | none =>
    cases he with
    | none => exact apart.skimFraction
    | power mark_eq sign_eq digits =>
      have hpower := skimExponent_power sign_eq digits apart.stop
      rcases mark_eq with rfl | rfl <;> simpa [skimFraction] using hpower
  | @point ds digits =>
    have hdigits := skimDigits_append digits hstop
    cases he with
    | none =>
      rw [List.nil_append] at hdigits
      simp only [List.cons_append, List.nil_append, skimFraction, hdigits, bind, Except.bind]
      split <;> first | rfl | simp [Apart] at apart
    | power mark_eq sign_eq digits' =>
      have hpower := skimExponent_power sign_eq digits' apart.stop
      rw [List.cons_append, List.append_assoc] at hdigits
      simp only [List.cons_append, List.append_assoc, skimFraction, hdigits, bind, Except.bind]
      rcases mark_eq with rfl | rfl <;> exact hpower

theorem skimNumber_numeral {text rest : List Char} (h : IsNumeral text) (apart : Apart rest) :
    skimNumber (text ++ rest) = .ok rest := by
  cases h with
  | @mk whole fraction exponent whole_ok fraction_ok exponent_ok =>
    have hskim := skimFraction_append fraction_ok exponent_ok apart
    have hstop := fraction_ok.stop (exponent_ok.stop apart)
    obtain ⟨c, ds, rfl⟩ := List.exists_cons_of_ne_nil whole_ok.nonempty
    have hc : c.isDigit = true := whole_ok.digits c List.mem_cons_self
    simp only [List.append_assoc, List.cons_append, skimNumber, hc, if_true]
    split
    · next hzero =>
      obtain rfl : ds = [] := by simpa [hzero] using whole_ok.zero
      simp [hstop, hskim]
    · have hds : ∀ d ∈ ds, d.isDigit = true := fun d hd =>
        whole_ok.digits d (List.mem_cons_of_mem c hd)
      rw [skipDigits_append hds hstop, hskim]

theorem readEscape_escapes {c d : Char} (mem : (c, d) ∈ escapes) (paired : Bool)
    (rest : List Char) : readEscape paired (c :: rest) = .ok (d, rest) := by
  simp only [escapes, List.mem_cons, Prod.mk.injEq, List.not_mem_nil, or_false] at mem
  rcases mem with ⟨rfl, rfl⟩ | ⟨rfl, rfl⟩ | ⟨rfl, rfl⟩ | ⟨rfl, rfl⟩ | ⟨rfl, rfl⟩ | ⟨rfl, rfl⟩ |
    ⟨rfl, rfl⟩ | ⟨rfl, rfl⟩ <;> rfl

theorem length_le_utf8Size (digits : List Char) :
    digits.length ≤ (digits.map Char.utf8Size).foldr (· + ·) 0 := by
  induction digits with
  | nil => exact Nat.le_refl 0
  | cons c digits ih =>
    have := c.utf8Size_pos
    simp only [List.length_cons, List.map_cons, List.foldr_cons]
    omega

theorem readHexFour_four {digits : List Char} {n : Nat} (four : IsFour digits n)
    (rest : List Char) : readHexFour (digits ++ rest) = .ok (n, rest) := by
  have htake : (digits ++ rest).take 4 = digits := List.take_left' four.length
  have hdrop : (digits ++ rest).drop 4 = rest := List.drop_left' four.length
  have hsize := length_le_utf8Size digits
  rw [four.length] at hsize
  simp only [readHexFour, htake, hdrop, four.length, four.value]
  rw [if_neg (by omega), if_neg (by omega)]

/-- The inside of a string is read to its end when surrogates may stand alone. -/
theorem readStringBody_body {body : List Char} (h : IsBody body) (rest : List Char) :
    ∃ ds, readStringBody false (body ++ '"' :: rest) = .ok (ds, rest) := by
  induction h with
  | nil => exact ⟨[], readStringBody_quote false rest⟩
  | plain char further ih =>
    obtain ⟨ds, hds⟩ := ih
    exact ⟨_, readStringBody_plain char.quote char.backslash char.control hds⟩
  | escape mem further ih =>
    obtain ⟨ds, hds⟩ := ih
    exact ⟨_, readStringBody_escape (readEscape_escapes mem false _) hds⟩
  | @number digits cs n four further ih =>
    obtain ⟨ds, hds⟩ := ih
    have hnumber : ∃ d, readNumbered false (digits ++ (cs ++ '"' :: rest)) =
        .ok (d, cs ++ '"' :: rest) := by
      simp only [readNumbered, readHexFour_four four, bind, Except.bind]
      split
      · exact ⟨_, rfl⟩
      · split
        · exact ⟨_, rfl⟩
        · exact ⟨_, rfl⟩
    obtain ⟨d, hd⟩ := hnumber
    have hescape : readEscape false ('u' :: (digits ++ (cs ++ '"' :: rest))) =
        .ok (d, cs ++ '"' :: rest) := hd
    refine ⟨d :: ds, ?_⟩
    rw [List.cons_append, List.cons_append, List.append_assoc]
    exact readStringBody_escape hescape hds

theorem skimString_body {body : List Char} (h : IsBody body) (rest : List Char) :
    skimString (body ++ '"' :: rest) = .ok rest := by
  obtain ⟨ds, hds⟩ := readStringBody_body h rest
  rw [skimString, hds]
  rfl

theorem skimNested_spaces (levels : Nat) {b : List Char} (hb : IsSpaces b) (cs : List Char) :
    skimNested levels (b ++ cs) = skimNested levels cs := by
  cases levels <;> simp only [skimNested, skipSpace_spaces hb]

theorem expectColon_spaces {gap : List Char} (h : IsSpaces gap) (rest : List Char) :
    expectColon (gap ++ ':' :: rest) = .ok rest := by
  rw [expectColon, skipSpace_spaces h]
  rfl

section Loops

variable {value : Skimmer} {text rest after b gap : List Char}

theorem skimItems_spaces (value : Skimmer) (budget : Nat) (first : Bool) (hb : IsSpaces b)
    (cs : List Char) :
    skimItems value budget first (b ++ cs) = skimItems value budget first cs := by
  cases budget with
  | zero => rfl
  | succ budget => simp only [skimItems, skipSpace_spaces hb]

theorem skimItems_next (opens : Opens text) (hb : IsSpaces b)
    (skims : ∀ b, IsSpaces b → value (b ++ (text ++ rest)) = .ok after) (budget : Nat)
    (first : Bool) :
    skimItems value (budget + 1) first ((if first then [] else [',']) ++ (b ++ (text ++ rest))) =
      skimItems value budget false after := by
  cases first with
  | true =>
    have hvalue := skims [] .nil
    have hspace := (skipSpace_spaces hb _).trans (skipSpace_opens opens rest)
    obtain ⟨c, cs, rfl, -, hclose⟩ := opens
    rw [List.nil_append] at hvalue
    rw [if_pos rfl, List.nil_append, skimItems, hspace]
    rw [List.cons_append] at hvalue ⊢
    simp [hvalue, bind, Except.bind]
  | false =>
    have hcomma : skipSpace (',' :: (b ++ (text ++ rest))) = ',' :: (b ++ (text ++ rest)) := rfl
    simp [skimItems, hcomma, skims b hb, bind, Except.bind]

/-- A list is passed over when each of its items is. -/
theorem skimItems_listed {items : List Item} (spaced : ∀ i ∈ items, i.Spaced)
    (opens : ∀ i ∈ items, Opens i.text)
    (skims : ∀ i ∈ items, ∀ b rest, IsSpaces b → Apart rest →
      value (b ++ (i.text ++ rest)) = .ok rest)
    {budget : Nat} (enough : items.length ≤ budget) (first : Bool) (gap_ok : IsSpaces gap)
    (rest : List Char) :
    skimItems value (budget + 1) first (listed first (items.map Item.spelt) ++
      (gap ++ ']' :: rest)) = .ok rest := by
  induction items generalizing budget first with
  | nil =>
    rw [List.map_nil, listed, List.nil_append, skimItems_spaces value _ _ gap_ok]
    rfl
  | cons i items ih =>
    obtain ⟨budget, rfl⟩ := Nat.exists_eq_add_one.mpr (Nat.lt_of_lt_of_le (Nat.succ_pos _) enough)
    have htail := ih (fun j hj => spaced j (List.mem_cons_of_mem i hj))
      (fun j hj => opens j (List.mem_cons_of_mem i hj))
      (fun j hj => skims j (List.mem_cons_of_mem i hj)) (Nat.le_of_succ_le_succ enough) false
    have hi := spaced i List.mem_cons_self
    have hafter := apart_listed hi.after (items.map Item.spelt) gap_ok (.bracket rest)
    have hskim := fun b hb => skims i List.mem_cons_self b _ hb hafter
    simp only [List.map_cons, listed, Item.spelt, List.append_assoc]
    rw [skimItems_next (opens i List.mem_cons_self) hi.before hskim,
      skimItems_spaces value _ _ hi.after, htail]

theorem skimMembers_spaces (value : Skimmer) (budget : Nat) (first : Bool) (hb : IsSpaces b)
    (cs : List Char) :
    skimMembers value budget first (b ++ cs) = skimMembers value budget first cs := by
  cases budget with
  | zero => rfl
  | succ budget => simp only [skimMembers, skipSpace_spaces hb]

theorem skimMembers_next {cs : List Char} (hb : IsSpaces b)
    (skims : ∀ b, IsSpaces b → skimMember value (b ++ '"' :: cs) = .ok after) (budget : Nat)
    (first : Bool) :
    skimMembers value (budget + 1) first ((if first then [] else [',']) ++ (b ++ '"' :: cs)) =
      skimMembers value budget false after := by
  cases first with
  | true =>
    have hmember := skims [] .nil
    have hspace : skipSpace (b ++ '"' :: cs) = '"' :: cs := skipSpace_spaces hb _
    rw [List.nil_append] at hmember
    simp [skimMembers, hspace, hmember, bind, Except.bind]
  | false =>
    have hcomma : skipSpace (',' :: (b ++ '"' :: cs)) = ',' :: (b ++ '"' :: cs) := rfl
    simp [skimMembers, hcomma, skims b hb, bind, Except.bind]

theorem skimMember_inside {m : Member} (spaced : m.Spaced) (name : IsBody m.name)
    (skims : ∀ b rest, IsSpaces b → Apart rest → value (b ++ (m.value.text ++ rest)) = .ok rest)
    (apart : Apart (m.value.after ++ rest)) (hb : IsSpaces b) :
    skimMember value (b ++ '"' :: (m.inside ++ rest)) = .ok (m.value.after ++ rest) := by
  have hspace : skipSpace (b ++ '"' :: (m.inside ++ rest)) = '"' :: (m.inside ++ rest) :=
    skipSpace_spaces hb _
  have hvalue := skims m.value.before _ spaced.value.before apart
  rw [skimMember, hspace, m.inside_append]
  simp only [skimString_body name, expectColon_spaces spaced.gap, hvalue, bind, Except.bind]

/-- An object is passed over when the value of each of its members is. -/
theorem skimMembers_listed {members : List Member} (spaced : ∀ m ∈ members, m.Spaced)
    (names : ∀ m ∈ members, IsBody m.name)
    (skims : ∀ m ∈ members, ∀ b rest, IsSpaces b → Apart rest →
      value (b ++ (m.value.text ++ rest)) = .ok rest)
    {budget : Nat} (enough : members.length ≤ budget) (first : Bool) (gap_ok : IsSpaces gap)
    (rest : List Char) :
    skimMembers value (budget + 1) first (listed first (members.map Member.spelt) ++
      (gap ++ '\x7d' :: rest)) = .ok rest := by
  induction members generalizing budget first with
  | nil =>
    rw [List.map_nil, listed, List.nil_append, skimMembers_spaces value _ _ gap_ok]
    rfl
  | cons m members ih =>
    obtain ⟨budget, rfl⟩ := Nat.exists_eq_add_one.mpr (Nat.lt_of_lt_of_le (Nat.succ_pos _) enough)
    have htail := ih (fun n hn => spaced n (List.mem_cons_of_mem m hn))
      (fun n hn => names n (List.mem_cons_of_mem m hn))
      (fun n hn => skims n (List.mem_cons_of_mem m hn)) (Nat.le_of_succ_le_succ enough) false
    have hm := spaced m List.mem_cons_self
    have hafter := apart_listed hm.value.after (members.map Member.spelt) gap_ok (.brace rest)
    have hmember := fun b hb => skimMember_inside (b := b) hm (names m List.mem_cons_self)
      (skims m List.mem_cons_self) hafter hb
    simp only [List.map_cons, listed, Member.spelt, List.append_assoc, List.cons_append]
    rw [skimMembers_next hm.before hmember, skimMembers_spaces value _ _ hm.value.after, htail]

end Loops

/-- A value is passed over with as many levels as it has characters. -/
theorem skimNested_value {text : List Char} (h : IsValue text) {levels : Nat}
    (enough : text.length ≤ levels) {rest : List Char} (apart : Apart rest) :
    skimNested levels (text ++ rest) = .ok rest := by
  induction h generalizing levels rest with
  | null | true | false => cases levels <;> simp [skimNested, skipSpace, isSpace, expectWord]
  | number numeral =>
    obtain ⟨c, cs, rfl, hc⟩ := numeral.head
    have hne : ∀ d : Char, d.isDigit = false → c ≠ d := fun d hd => ne_of_isDigit hc hd
    have hskim := skimNumber_numeral numeral apart
    rw [List.cons_append] at hskim ⊢
    cases levels <;> simp [skimNested, skipSpace_cons (isSpace_of_isDigit hc), hne, hc, hskim]
  | minus numeral =>
    have hskim := skimNumber_numeral numeral apart
    cases levels <;> simpa [skimNested, skipSpace, isSpace] using hskim
  | string body_ok =>
    have hskim := skimString_body body_ok rest
    cases levels <;> simpa [skimNested, skipSpace, isSpace] using hskim
  | @array items gap spaced gap_ok values ih =>
    simp only [listText, List.cons_append, List.append_assoc, List.nil_append, List.length_cons,
      List.length_append] at enough ⊢
    obtain ⟨levels, rfl⟩ := Nat.exists_eq_add_one.mpr (Nat.lt_of_lt_of_le (Nat.succ_pos _) enough)
    have hskim : ∀ i ∈ items, ∀ b rest, IsSpaces b → Apart rest →
        skimNested levels (b ++ (i.text ++ rest)) = .ok rest := fun i hi b rest hb apart => by
      have hlength := i.length_text_le_listed hi true
      rw [skimNested_spaces _ hb, ih i hi (by omega) apart]
    have hcount := length_le_listed_items values true
    simp only [skimNested, skipSpace_cons (c := '[') rfl]
    simp only [Char.reduceEq, if_false, if_true]
    apply skimItems_listed spaced (fun i hi => (values i hi).opens) hskim _ true gap_ok
    simp only [List.length_append]
    omega
  | @object members gap spaced gap_ok names values ih =>
    simp only [objectText, List.cons_append, List.append_assoc, List.nil_append, List.length_cons,
      List.length_append] at enough ⊢
    obtain ⟨levels, rfl⟩ := Nat.exists_eq_add_one.mpr (Nat.lt_of_lt_of_le (Nat.succ_pos _) enough)
    have hskim : ∀ m ∈ members, ∀ b rest, IsSpaces b → Apart rest →
        skimNested levels (b ++ (m.value.text ++ rest)) = .ok rest := fun m hm b rest hb apart => by
      have hlength := m.length_text_le_listed hm true
      rw [skimNested_spaces _ hb, ih m hm (by omega) apart]
    have hcount := length_le_listed_members members true
    simp only [skimNested, skipSpace_cons (c := '\x7b') rfl]
    simp only [Char.reduceEq, if_false, if_true]
    apply skimMembers_listed spaced names hskim _ true gap_ok
    simp only [List.length_append]
    omega

theorem skimValue_value {text : List Char} (h : IsValue text) {b : List Char} (hb : IsSpaces b)
    {rest : List Char} (apart : Apart rest) : skimValue (b ++ (text ++ rest)) = .ok rest := by
  rw [skimValue, skimNested_spaces _ hb]
  apply skimNested_value h _ apart
  simp only [List.length_append]
  omega

end SlideDeck.Json
