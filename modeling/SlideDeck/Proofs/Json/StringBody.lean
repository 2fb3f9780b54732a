import SlideDeck.Json.Printer
import SlideDeck.Json.StringBody

/-!
Strings are read back from the characters and escapes in which they are written.
-/
namespace SlideDeck.Json

theorem readStringBody_quote (paired : Bool) (rest : List Char) :
    readStringBody paired ('"' :: rest) = .ok ([], rest) := by
  rw [readStringBody]
  simp

/-- A character that needs no escape stands for itself. -/
theorem readStringBody_plain {paired : Bool} {c : Char} {ds cs rest : List Char}
    (quote : c ≠ '"') (backslash : c ≠ '\\') (control : ¬ c.toNat < 0x20)
    (h : readStringBody paired cs = .ok (ds, rest)) :
    readStringBody paired (c :: cs) = .ok (c :: ds, rest) := by
  rw [readStringBody]
  simp only [quote, backslash, control, h, if_false]

/-- An escape stands for the character that it is read as. -/
theorem readStringBody_escape {paired : Bool} {d : Char} {cs after ds rest : List Char}
    (hd : readEscape paired cs = .ok (d, after))
    (h : readStringBody paired after = .ok (ds, rest)) :
    readStringBody paired ('\\' :: cs) = .ok (d :: ds, rest) := by
  rw [readStringBody]
  simp only [Char.reduceEq, if_false, if_true]
  split
  · next e he => simp [hd] at he
  · next d' after' he =>
    rw [hd, Except.ok.injEq, Prod.mk.injEq] at he
    obtain ⟨rfl, rfl⟩ := he
    simp [h]

/-- The two hexadecimal digits of a control character give its number back. -/
theorem readNumbered_control (paired : Bool) {n : Nat} (h : n < 0x20) (rest : List Char) :
    readNumbered paired
      ('0' :: '0' :: Text.hexDigit (n / 16) :: Text.hexDigit (n % 16) :: rest) =
        .ok (Char.ofNat n, rest) := by
  have hsize : ∀ k < 16, (Text.hexDigit k).utf8Size = 1 := by decide
  have hvalue : ∀ k < 0x20,
      hexNumber? ['0', '0', Text.hexDigit (k / 16), Text.hexDigit (k % 16)] = some k := by decide
  have hfour : readHexFour
      ('0' :: '0' :: Text.hexDigit (n / 16) :: Text.hexDigit (n % 16) :: rest) = .ok (n, rest) := by
    simp [readHexFour, hsize (n / 16) (by omega), hsize (n % 16) (by omega), hvalue n h,
      show ('0').utf8Size = 1 from rfl]
  have hleading : isLeadingSurrogate n = false := by
    simp [isLeadingSurrogate]
    omega
  have htrailing : isTrailingSurrogate n = false := by
    simp [isTrailingSurrogate]
    omega
  simp [readNumbered, hfour, bind, Except.bind, hleading, htrailing]

/-- Every character is read back from the way it is written. -/
theorem readStringBody_escapeChar {paired : Bool} {cs ds rest : List Char}
    (h : readStringBody paired cs = .ok (ds, rest)) (c : Char) :
    readStringBody paired (escapeChar c ++ cs) = .ok (c :: ds, rest) := by
  unfold escapeChar
  iterate 7
    split
    · next hc =>
      subst hc
      exact readStringBody_escape rfl h
  split
  · next hc =>
    have hread := readNumbered_control paired hc cs
    rw [Char.ofNat_toNat] at hread
    exact readStringBody_escape hread h
  · exact readStringBody_plain ‹_› ‹_› ‹_› h

/-- A string is read back from its text without the opening quote. -/
theorem readString_body (s : String) (rest : List Char) :
    readString (s.toList.flatMap escapeChar ++ '"' :: rest) = .ok (s, rest) := by
  have hbody : ∀ cs : List Char,
      readStringBody true (cs.flatMap escapeChar ++ '"' :: rest) = .ok (cs, rest) := by
    intro cs
    induction cs with
    | nil => exact readStringBody_quote true rest
    | cons c cs ih =>
      rw [List.flatMap_cons, List.append_assoc]
      exact readStringBody_escapeChar ih c
  simp [readString, hbody, bind, Except.bind]

end SlideDeck.Json
