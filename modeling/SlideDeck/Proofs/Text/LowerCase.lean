import SlideDeck.Proofs.Text.Blank
import SlideDeck.Text.LowerCase

/-!
Lower case and blanks. Blanks are their own lower-case forms and no others are blank. A sigma ends a
word before a blank as it does at the end of a text, so the parts of a text between blanks are
lower-cased each for itself.
-/
namespace SlideDeck.Text

variable {b c : Char} {before after blanks cs : List Char}

/-- All ranges of the one lie before or behind all ranges of the other. -/
def CodeRanges.apart (xs ys : CodeRanges) : Bool :=
  xs.all fun x => ys.all fun y => x.2 < y.1 || y.2 < x.1

theorem CodeRanges.has_of_apart {xs ys : CodeRanges} (h : xs.apart ys = true)
    (hc : xs.has c = true) : ys.has c = false := by
  obtain ⟨x, hx, hfirst, hlast⟩ := has_iff.mp hc
  refine Bool.eq_false_iff.mpr fun hys => ?_
  obtain ⟨y, hy, hfirst', hlast'⟩ := has_iff.mp hys
  have hxy := List.all_eq_true.mp (List.all_eq_true.mp h x hx) y hy
  rw [Bool.or_eq_true, decide_eq_true_iff, decide_eq_true_iff] at hxy
  omega

theorem isCaseIgnorable_of_isBlank (h : isBlank c = true) : isCaseIgnorable c = false :=
  CodeRanges.has_of_apart (by decide +kernel) h

theorem isCased_of_isBlank (h : isBlank c = true) : isCased c = false :=
  CodeRanges.has_of_apart (by decide +kernel) h

/-- The code points from one to another are no blanks. -/
def clearOfBlanks (first last : Int) : Bool :=
  blankRanges.all fun r => last < r.1 || r.2 < first

theorem isBlank_of_clear {first last : Int} (h : clearOfBlanks first last = true)
    (hfirst : first ≤ c.toNat) (hlast : c.toNat ≤ last) : isBlank c = false := by
  refine Bool.eq_false_iff.mpr fun hblank => ?_
  obtain ⟨r, hr, hfirst', hlast'⟩ := CodeRanges.has_iff.mp hblank
  have hclear := List.all_eq_true.mp h r hr
  rw [Bool.or_eq_true, decide_eq_true_iff, decide_eq_true_iff] at hclear
  omega

theorem clearOfBlanks_run : ∀ r ∈ lowerRuns, clearOfBlanks r.first r.last = true := by
  decide +kernel

theorem clearOfBlanks_shifted :
    ∀ r ∈ lowerRuns, clearOfBlanks (r.first + r.shift) (r.last + r.shift) = true := by
  decide +kernel

theorem LowerRun.covers_iff {r : LowerRun} {n : Nat} : r.covers n = true ↔
    r.first ≤ n ∧ n ≤ r.last ∧ (n - r.first) % r.step = 0 := by
  simp [covers, and_assoc]

theorem lowerChar_of_isBlank (h : isBlank c = true) : lowerChar c = c := by
  have hnone : lowerRuns.find? (·.covers c.toNat) = none := by
    refine List.find?_eq_none.mpr fun r hr hcovers => ?_
    obtain ⟨hfirst, hlast, -⟩ := LowerRun.covers_iff.mp hcovers
    have hclear := isBlank_of_clear (c := c) (clearOfBlanks_run r hr) (by omega) (by omega)
    rw [h] at hclear
    cases hclear
  rw [lowerChar, hnone]

/-- A code point that no character has stands for the character with the number 0. -/
theorem toNat_ofNat (n : Nat) : (Char.ofNat n).toNat = if n.isValidChar then n else 0 := by
  by_cases h : n.isValidChar
  · rw [Char.ofNat, dif_pos h, if_pos h]
    rfl
  · rw [Char.ofNat, dif_neg h, if_neg h]
    rfl

theorem isBlank_lowerChar (c : Char) : isBlank (lowerChar c) = isBlank c := by
  cases h : isBlank c with
  | true => rw [lowerChar_of_isBlank h, h]
  | false =>
    rw [lowerChar]
    cases hfind : lowerRuns.find? (·.covers c.toNat) with
    | none => exact h
    | some r =>
      have hcovers : r.covers c.toNat = true := by simpa using List.find?_some hfind
      obtain ⟨hfirst, hlast, -⟩ := LowerRun.covers_iff.mp hcovers
      have hclear := clearOfBlanks_shifted r (List.mem_of_find?_eq_some hfind)
      have hzero : clearOfBlanks 0 0 = true := by decide
      show isBlank (Char.ofNat (c.toNat + r.shift).toNat) = false
      have hnat := toNat_ofNat (c.toNat + r.shift).toNat
      split at hnat
      · by_cases hsign : 0 ≤ (c.toNat : Int) + r.shift
        · exact isBlank_of_clear hclear (by omega) (by omega)
        · exact isBlank_of_clear hzero (by omega) (by omega)
      · exact isBlank_of_clear hzero (by omega) (by omega)

theorem startsCased_cons (c : Char) (cs : List Char) :
    startsCased (c :: cs) = if isCaseIgnorable c then startsCased cs else isCased c := by
  rw [startsCased, List.dropWhile_cons]
  cases h : isCaseIgnorable c with
  | true => rfl
  | false => rfl

/-- What stands beyond a blank does not count. -/
theorem startsCased_blank (h : isBlank b = true) (cs rest : List Char) :
    startsCased (cs ++ b :: rest) = startsCased cs := by
  induction cs with
  | nil =>
    rw [List.nil_append, startsCased_cons, isCaseIgnorable_of_isBlank h,
      if_neg Bool.false_ne_true, isCased_of_isBlank h]
    rfl
  | cons c cs ih => rw [List.cons_append, startsCased_cons, ih, startsCased_cons]

theorem lowerAt_before_blank (h : isBlank b = true) (before : List Char) (c : Char)
    (after rest : List Char) : lowerAt before c (after ++ b :: rest) = lowerAt before c after := by
  rw [lowerAt, lowerAt, endsWord, endsWord, startsCased_blank h]

theorem lowerAt_behind_blank (h : isBlank b = true) (before rest : List Char) (c : Char)
    (after : List Char) : lowerAt (before ++ b :: rest) c after = lowerAt before c after := by
  rw [lowerAt, lowerAt, endsWord, endsWord, startsCased_blank h]

theorem lowerAt_of_isBlank (h : isBlank b = true) (before after : List Char) :
    lowerAt before b after = [b] := by
  have hsigma : b ≠ 'Σ' := by
    rintro rfl
    revert h
    decide
  have hdotted : b ≠ 'İ' := by
    rintro rfl
    revert h
    decide
  rw [lowerAt, if_neg hsigma, if_neg hdotted, lowerChar_of_isBlank h]

theorem lowerAt_ne_nil (before : List Char) (c : Char) (after : List Char) :
    lowerAt before c after ≠ [] := by
  unfold lowerAt
  split
  · exact List.cons_ne_nil _ _
  · split <;> exact List.cons_ne_nil _ _

theorem isBlank_of_mem_lowerAt (h : isBlank c = false) {x : Char}
    (hx : x ∈ lowerAt before c after) : isBlank x = false := by
  unfold lowerAt at hx
  split at hx
  · have hforms : x = 'ς' ∨ x = 'σ' := by
      rw [List.mem_singleton] at hx
      rw [hx]
      split
      · exact .inl rfl
      · exact .inr rfl
    rcases hforms with rfl | rfl
    · decide
    · decide
  · split at hx
    · have hforms : x = 'i' ∨ x = '\u0307' := by simpa using hx
      rcases hforms with rfl | rfl
      · decide
      · decide
    · rw [List.mem_singleton.mp hx, isBlank_lowerChar, h]

theorem lowerFrom_cons (before : List Char) (c : Char) (after : List Char) :
    lowerFrom before (c :: after) = lowerAt before c after ++ lowerFrom (c :: before) after := rfl

theorem lowerFrom_behind_blank (h : isBlank b = true) (before rest cs : List Char) :
    lowerFrom (before ++ b :: rest) cs = lowerFrom before cs := by
  induction cs generalizing before with
  | nil => rfl
  | cons c cs ih =>
    rw [lowerFrom_cons, lowerFrom_cons, lowerAt_behind_blank h, ← List.cons_append, ih]

/-- What stands before a blank and what stands behind it are lower-cased each for itself. -/
theorem lowerFrom_blank (h : isBlank b = true) (before xs ys : List Char) :
    lowerFrom before (xs ++ b :: ys) = lowerFrom before xs ++ b :: lower ys := by
  induction xs generalizing before with
  | nil =>
    have hrest := lowerFrom_behind_blank h [] before ys
    rw [List.nil_append] at hrest
    rw [List.nil_append, lowerFrom_cons, lowerAt_of_isBlank h, hrest]
    rfl
  | cons x xs ih =>
    rw [List.cons_append, lowerFrom_cons, lowerFrom_cons, lowerAt_before_blank h, ih,
      List.append_assoc]

theorem lower_blanks (h : ∀ b ∈ blanks, isBlank b = true) (cs : List Char) :
    lower (blanks ++ cs) = blanks ++ lower cs := by
  induction blanks with
  | nil => rfl
  | cons b blanks ih =>
    have hb := h b List.mem_cons_self
    have hsplit := lowerFrom_blank hb [] [] (blanks ++ cs)
    rw [List.nil_append] at hsplit
    rw [List.cons_append, lower, hsplit, ih fun x hx => h x (List.mem_cons_of_mem b hx)]
    rfl

theorem lower_between_blanks (h : ∀ b ∈ blanks, isBlank b = true) (hne : blanks ≠ [])
    (xs ys : List Char) : lower (xs ++ blanks ++ ys) = lower xs ++ blanks ++ lower ys := by
  obtain ⟨b, rest, rfl⟩ := List.exists_cons_of_ne_nil hne
  have hrest := lower_blanks (fun x hx => h x (List.mem_cons_of_mem b hx)) ys
  rw [List.append_assoc, List.cons_append, lower, lowerFrom_blank (h b List.mem_cons_self), hrest,
    List.append_assoc, List.cons_append]
  rfl

/-- The last character of a text becomes the end of its lower-case form. -/
theorem lowerFrom_concat (before cs : List Char) (c : Char) :
    ∃ front before', lowerFrom before (cs ++ [c]) = front ++ lowerAt before' c [] := by
  induction cs generalizing before with
  | nil =>
    refine ⟨[], before, ?_⟩
    rw [List.nil_append, lowerFrom_cons, lowerFrom, List.append_nil, List.nil_append]
  | cons x cs ih =>
    obtain ⟨front, before', hcs⟩ := ih (x :: before)
    refine ⟨lowerAt before x (cs ++ [c]) ++ front, before', ?_⟩
    rw [List.cons_append, lowerFrom_cons, hcs, List.append_assoc]

theorem Tight.lower (h : Tight cs) : Tight (Text.lower cs) where
  first x rest hlower := by
    cases cs with
    | nil => cases hlower
    | cons c cs =>
      rw [Text.lower, lowerFrom_cons] at hlower
      obtain ⟨y, ys, hy⟩ := List.exists_cons_of_ne_nil (lowerAt_ne_nil [] c cs)
      have hmem : y ∈ lowerAt [] c cs := by
        rw [hy]
        exact List.mem_cons_self
      rw [hy, List.cons_append] at hlower
      obtain ⟨rfl, -⟩ := List.cons.inj hlower
      exact isBlank_of_mem_lowerAt (h.first c cs rfl) hmem
  last front x hlower := by
    rcases List.eq_nil_or_concat cs with rfl | ⟨init, c, rfl⟩
    · simp [Text.lower, lowerFrom] at hlower
    · have hc := h.last init c List.concat_eq_append
      obtain ⟨front', before', hend⟩ := lowerFrom_concat [] init c
      rw [List.concat_eq_append, Text.lower, hend] at hlower
      exact isBlank_of_mem_lowerAt hc (mem_of_last (lowerAt_ne_nil before' c []) hlower)

theorem toNat_toLower (h : 65 ≤ c.toNat ∧ c.toNat ≤ 90) : c.toLower.toNat = c.toNat + 32 := by
  have hupper : c.val ≥ 'A'.val ∧ c.val ≤ 'Z'.val := h
  have hlower : c.toLower.val = c.val + ('a'.val - 'A'.val) := congrArg Char.val (dif_pos hupper)
  have hdistance : ('a'.val - 'A'.val).toNat = 32 := rfl
  have hle : c.val.toNat ≤ 90 := h.2
  show c.toLower.val.toNat = c.val.toNat + 32
  rw [hlower, UInt32.toNat_add, hdistance, Nat.mod_eq_of_lt (by omega)]

theorem toLower_eq (h : ¬ (65 ≤ c.toNat ∧ c.toNat ≤ 90)) : c.toLower = c :=
  dif_neg h

/-- All runs but the first, that of the ASCII letters, lie beyond ASCII. -/
theorem first_of_mem_tail : ∀ r ∈ lowerRuns.tail, 128 ≤ r.first := by
  decide +kernel

theorem lowerChar_ascii (h : c.toNat < 128) : lowerChar c = c.toLower := by
  have hruns : lowerRuns = ⟨0x41, 0x5A, 1, 32⟩ :: lowerRuns.tail := rfl
  have htail : lowerRuns.tail.find? (·.covers c.toNat) = none := by
    refine List.find?_eq_none.mpr fun r hr hcovers => ?_
    have hfirst := first_of_mem_tail r hr
    have hcovered := (LowerRun.covers_iff.mp hcovers).1
    omega
  have hletters : LowerRun.covers ⟨0x41, 0x5A, 1, 32⟩ c.toNat = true ↔
      65 ≤ c.toNat ∧ c.toNat ≤ 90 := by
    rw [LowerRun.covers_iff, Nat.mod_one]
    simp
  rw [lowerChar, hruns, List.find?_cons]
  by_cases hupper : 65 ≤ c.toNat ∧ c.toNat ≤ 90
  · rw [hletters.mpr hupper]
    apply Char.toNat_inj.mp
    rw [toNat_toLower hupper]
    show (Char.ofNat ((c.toNat : Int) + 32).toNat).toNat = c.toNat + 32
    have hvalid : ((c.toNat : Int) + 32).toNat.isValidChar := .inl (by omega)
    rw [toNat_ofNat, if_pos hvalid]
    omega
  · rw [Bool.eq_false_iff.mpr fun hcovers => hupper (hletters.mp hcovers), htail, toLower_eq hupper]

theorem lowerFrom_ascii (h : ∀ c ∈ cs, c.toNat < 128) (before : List Char) :
    lowerFrom before cs = cs.map Char.toLower := by
  induction cs generalizing before with
  | nil => rfl
  | cons c cs ih =>
    have hc := h c List.mem_cons_self
    have hsigma : c ≠ 'Σ' := by
      rintro rfl
      revert hc
      decide
    have hdotted : c ≠ 'İ' := by
      rintro rfl
      revert hc
      decide
    rw [lowerFrom, lowerAt, if_neg hsigma, if_neg hdotted, lowerChar_ascii hc,
      ih fun x hx => h x (List.mem_cons_of_mem c hx), List.map_cons, List.singleton_append]

/-- ASCII texts are lower-cased letter by letter. -/
theorem lower_ascii (h : ∀ c ∈ cs, c.toNat < 128) : lower cs = cs.map Char.toLower :=
  lowerFrom_ascii h []

end SlideDeck.Text
