import SlideDeck.Json.Numeral

/-!
Whole numbers are read back from their digits, whatever may stand behind a value.
-/
namespace SlideDeck.Json

/-- What can stand behind a value: nothing, a comma, or the bracket of the list or object. -/
inductive Ended : List Char → Prop where
  | nil : Ended []
  | comma (rest : List Char) : Ended (',' :: rest)
  | bracket (rest : List Char) : Ended (']' :: rest)
  | brace (rest : List Char) : Ended ('\x7d' :: rest)

theorem Ended.skipDigits {rest : List Char} (ended : Ended rest) : skipDigits rest = rest := by
  cases ended <;> simp [Json.skipDigits, Char.isDigit]

theorem Ended.gather {rest : List Char} (ended : Ended rest) (n : Nat) :
    gather n rest = (n, rest) := by
  cases ended <;> simp [Json.gather, Char.isDigit]

theorem Ended.startsWithDigit {rest : List Char} (ended : Ended rest) :
    startsWithDigit rest = false := by
  cases ended <;> simp [Json.startsWithDigit, Char.isDigit]

theorem le_ofDigitChars (digits : List Char) (n : Nat) : n ≤ Nat.ofDigitChars 10 digits n := by
  induction digits generalizing n with
  | nil => exact Nat.le_refl n
  | cons c digits ih =>
    rw [Nat.ofDigitChars_cons]
    have := ih (10 * n + (c.toNat - '0'.toNat))
    omega

/-- Digits are gathered to the number they stand for, as long as it fits. -/
theorem gather_append {digits rest : List Char} (hdigits : ∀ c ∈ digits, c.isDigit = true)
    (ended : Ended rest) {n : Nat} (fits : Nat.ofDigitChars 10 digits n ≤ largestSignificand) :
    gather n (digits ++ rest) = (Nat.ofDigitChars 10 digits n, rest) := by
  induction digits generalizing n with
  | nil => exact ended.gather n
  | cons c digits ih =>
    have hc : Nat.ofDigitChars 10 (c :: digits) n =
        Nat.ofDigitChars 10 digits (n * 10 + digitValue c) := by
      rw [Nat.ofDigitChars_cons, Nat.mul_comm, digitValue]
    rw [hc] at fits ⊢
    have hfits : n * 10 + digitValue c ≤ largestSignificand :=
      Nat.le_trans (le_ofDigitChars digits _) fits
    rw [List.cons_append, gather, hdigits c List.mem_cons_self, decide_eq_true hfits]
    exact ih (fun d hd => hdigits d (List.mem_cons_of_mem c hd)) fits

/-- The digits of a number are some, and only those of zero begin with a zero. -/
theorem toDigits_eq_cons (n : Nat) :
    ∃ c digits, Nat.toDigits 10 n = c :: digits ∧ c.isDigit = true ∧ (c = '0' → digits = []) := by
  induction n using Nat.strongRecOn with
  | ind n ih =>
    by_cases small : n < 10
    · refine ⟨n.digitChar, [], Nat.toDigits_of_lt_base small, ?_, fun _ => rfl⟩
      simpa [Nat.isDigit_digitChar] using small
    · obtain ⟨c, digits, hdigits, hc, hzero⟩ := ih (n / 10) (by omega)
      refine ⟨c, digits ++ [(n % 10).digitChar], ?_, hc, ?_⟩
      · rw [Nat.toDigits_of_base_le (by decide) (by omega), hdigits, List.cons_append]
      · rintro rfl
        have htenth : n / 10 = 0 := by
          rw [← Nat.ofDigitChars_ten_toDigits (n := n / 10), hdigits, hzero rfl]
          rfl
        omega

theorem readNumeral_toDigits {n : Nat} (fits : n ≤ largestSignificand) {rest : List Char}
    (ended : Ended rest) : readNumeral (Nat.toDigits 10 n ++ rest) = .ok (⟨n, none⟩, rest) := by
  have hgather : gather 0 (Nat.toDigits 10 n ++ rest) = (n, rest) := by
    have hn : Nat.ofDigitChars 10 (Nat.toDigits 10 n) 0 = n := Nat.ofDigitChars_ten_toDigits
    rw [gather_append _ ended (by rw [hn]; exact fits), hn]
    exact fun c hc => Nat.isDigit_of_mem_toDigits (by decide) (by decide) hc
  obtain ⟨c, digits, hdigits, hc, hzero⟩ := toDigits_eq_cons n
  have hlead : (c == '0' && startsWithDigit (digits ++ rest)) = false := by
    by_cases h : c = '0'
    · simp [hzero h, ended.startsWithDigit]
    · simp [h]
  rw [hdigits, List.cons_append] at hgather ⊢
  simp only [readNumeral, hc, hlead, hgather, ended.skipDigits]
  cases ended <;> simp

/-- Whole numbers up to `2 ^ 64 - 1` are read back from their digits. -/
theorem readNumber_toDigits {n : Nat} (high : n < Nat.pow 2 64) {rest : List Char}
    (ended : Ended rest) :
    readNumber false (Nat.toDigits 10 n ++ rest) = .ok (.int n, rest) := by
  have fits : n ≤ largestSignificand := Nat.le_sub_one_of_lt high
  simp [readNumber, readNumeral_toDigits fits ended, bind, Except.bind, Numeral.number?]

/-- Whole numbers down to `-2 ^ 63` are read back from the digits behind their minus. -/
theorem readNumber_toDigits_neg {n : Nat} (pos : 0 < n) (low : n ≤ Nat.pow 2 63) {rest : List Char}
    (ended : Ended rest) :
    readNumber true (Nat.toDigits 10 n ++ rest) = .ok (.int (-n), rest) := by
  have fits : n ≤ largestSignificand := Nat.le_trans low (by decide)
  have hrange : 1 ≤ n ∧ n ≤ Nat.pow 2 63 := ⟨pos, low⟩
  simp only [readNumber, readNumeral_toDigits fits ended, bind, Except.bind, Numeral.number?,
    Bool.not_true, Bool.false_eq_true, if_false, if_pos hrange]

end SlideDeck.Json
