import SlideDeck.Proofs.Json.Skimming

/-!
What is read from the text of a numeral or a string is settled by that text alone, and so is whether
it can be read at all. What stands behind the text is left over.
-/
namespace SlideDeck.Json

theorem toOption_bind {α β : Type} (x : Except Fault α) (f : α → Except Fault β) :
    (x >>= f).toOption = x.toOption.bind fun a => (f a).toOption := by
  cases x <;> rfl

theorem toOption_ok {α : Type} (a : α) : (Except.ok a : Except Fault α).toOption = some a := rfl

/-- Behind the text comes what is left over, whether or not the text gives a value. -/
def Settles {α : Type} (reader : Reader α) (text : List Char) : Prop :=
  ∃ o : Option α, ∀ rest, Apart rest → (reader (text ++ rest)).toOption = o.map (·, rest)

section Settles

variable {α β : Type} {reader : Reader α} {text : List Char}

theorem Settles.some {a : α} (h : ∀ rest, reader (text ++ rest) = .ok (a, rest)) :
    Settles reader text :=
  ⟨Option.some a, fun rest _ => by rw [h]; rfl⟩

theorem Settles.none (h : ∀ rest, (reader (text ++ rest)).toOption = none) :
    Settles reader text :=
  ⟨Option.none, fun rest _ => h rest⟩

theorem Settles.map (h : Settles reader text) (f : α → β) :
    Settles (fun cs => do
      let (a, rest) ← reader cs
      .ok (f a, rest)) text := by
  obtain ⟨o, ho⟩ := h
  refine ⟨o.map f, fun rest apart => ?_⟩
  rw [toOption_bind, ho rest apart]
  cases o <;> rfl

theorem Settles.of_eq {reader' : Reader α} {text' : List Char} (h : Settles reader' text')
    (eq : ∀ rest, reader (text ++ rest) = reader' (text' ++ rest)) : Settles reader text := by
  obtain ⟨o, ho⟩ := h
  exact ⟨o, fun rest apart => by rw [eq, ho rest apart]⟩

end Settles

theorem takeWhile_digits {ds rest : List Char} (hds : ∀ c ∈ ds, c.isDigit = true)
    (stop : startsWithDigit rest = false) : (ds ++ rest).takeWhile Char.isDigit = ds := by
  rw [List.takeWhile_append_of_pos hds]
  cases rest with
  | nil => simp
  | cons c rest =>
    rw [startsWithDigit] at stop
    simp [stop]

/-- Which digits still fit is told by the digits themselves. -/
theorem gather_digits {ds : List Char} (hds : ∀ c ∈ ds, c.isDigit = true) (n : Nat) :
    ∃ m unread, (∀ c ∈ unread, c.isDigit = true) ∧
      ∀ rest, startsWithDigit rest = false → gather n (ds ++ rest) = (m, unread ++ rest) := by
  induction ds generalizing n with
  | nil =>
    refine ⟨n, [], hds, fun rest stop => ?_⟩
    cases rest with
    | nil => rfl
    | cons c rest =>
      rw [startsWithDigit] at stop
      simp [gather, stop]
  | cons c ds ih =>
    have hc : c.isDigit = true := hds c List.mem_cons_self
    by_cases fits : n * 10 + digitValue c ≤ largestSignificand
    · obtain ⟨m, unread, hunread, hgather⟩ := ih (fun d hd => hds d (List.mem_cons_of_mem c hd))
        (n * 10 + digitValue c)
      refine ⟨m, unread, hunread, fun rest stop => ?_⟩
      simp [gather, hc, fits, hgather rest stop]
    · exact ⟨n, c :: ds, hds, fun rest _ => by simp [gather, hc, fits]⟩

theorem readExponent_power {sign ds : List Char}
    (sign_eq : sign = [] ∨ sign = ['+'] ∨ sign = ['-']) (digits : IsDigits ds) (significand : Nat)
    (scale : Int) :
    ∃ n, ∀ rest, startsWithDigit rest = false →
      readExponent significand scale (sign ++ (ds ++ rest)) = .ok (n, rest) := by
  have htake := fun rest (stop : startsWithDigit rest = false) =>
    takeWhile_digits digits.digits stop
  have hskip := fun rest (stop : startsWithDigit rest = false) =>
    skipDigits_append digits.digits stop
  obtain ⟨c, ds, rfl⟩ := List.exists_cons_of_ne_nil digits.nonempty
  have hc : c.isDigit = true := digits.digits c List.mem_cons_self
  have hplus : c ≠ '+' := ne_of_isDigit hc rfl
  have hminus : c ≠ '-' := ne_of_isDigit hc rfl
  simp only [List.cons_append] at htake hskip ⊢
  rcases sign_eq with rfl | rfl | rfl
  · refine ⟨⟨significand, some (scale + exponentValue (c :: ds))⟩, fun rest stop => ?_⟩
    simp [readExponent, hplus, hminus, hc, htake rest stop, hskip rest stop]
  · refine ⟨⟨significand, some (scale + exponentValue (c :: ds))⟩, fun rest stop => ?_⟩
    simp [readExponent, hc, htake rest stop, hskip rest stop]
  · refine ⟨⟨significand, some (scale - exponentValue (c :: ds))⟩, fun rest stop => ?_⟩
    simp [readExponent, hc, htake rest stop, hskip rest stop]

/-- The digits of a significand that are not gathered are counted and passed over. -/
theorem length_sub_append (ds unread rest : List Char) :
    (ds ++ rest).length - (unread ++ rest).length = ds.length - unread.length := by
  simp only [List.length_append]
  omega

theorem readFraction_append {ds exponent : List Char} (digits : IsDigits ds)
    (he : IsExponent exponent) (significand : Nat) (scale : Int) :
    ∃ n, ∀ rest, Apart rest →
      readFraction significand scale (ds ++ (exponent ++ rest)) = .ok (n, rest) := by
  obtain ⟨m, unread, hunread, hgather⟩ := gather_digits digits.digits significand
  have hlength := length_sub_append ds unread
  obtain ⟨c, ds, rfl⟩ := List.exists_cons_of_ne_nil digits.nonempty
  have hc : c.isDigit = true := digits.digits c List.mem_cons_self
  simp only [List.cons_append] at hgather hlength ⊢
  cases he with
  | none =>
    refine ⟨⟨m, some (scale - ((c :: ds).length - unread.length : Nat))⟩, fun rest apart => ?_⟩
    have hstop := apart.stop
    rw [List.nil_append]
    simp only [readFraction, hc, if_true, hgather _ hstop, hlength, skipDigits_append hunread hstop]
    split <;> first | rfl | simp [Apart] at apart
  | @power mark sign es mark_eq sign_eq digits' =>
    obtain ⟨n, hn⟩ := readExponent_power sign_eq digits' m
      (scale - ((c :: ds).length - unread.length : Nat))
    refine ⟨n, fun rest apart => ?_⟩
    have hstop := (IsExponent.power mark_eq sign_eq digits').stop apart
    have hexponent := hn rest apart.stop
    simp only [readFraction, hc, if_true, hgather _ hstop, hlength, skipDigits_append hunread hstop]
    rw [List.cons_append, List.append_assoc]
    rcases mark_eq with rfl | rfl <;> exact hexponent

/-- The rest of a numeral behind its whole part, of which some digits may not have been gathered. -/
def readBehindWhole (significand : Nat) (scale : Int) :
    List Char → Except Fault (Numeral × List Char)
  | '.' :: rest => readFraction significand scale rest
  | 'e' :: rest => readExponent significand scale rest
  | 'E' :: rest => readExponent significand scale rest
  | rest => .ok (⟨significand, if scale = 0 then none else some scale⟩, rest)

theorem readNumeral_whole {whole : List Char} (whole_ok : IsWhole whole) :
    ∃ significand scale, ∀ rest, startsWithDigit rest = false →
      readNumeral (whole ++ rest) = readBehindWhole significand scale rest := by
  obtain ⟨m, unread, hunread, hgather⟩ := gather_digits whole_ok.digits 0
  obtain ⟨c, ds, rfl⟩ := List.exists_cons_of_ne_nil whole_ok.nonempty
  have hc : c.isDigit = true := whole_ok.digits c List.mem_cons_self
  refine ⟨m, unread.length, fun rest stop => ?_⟩
  have hzero : (c == '0' && startsWithDigit (ds ++ rest)) = false := by
    by_cases h : c = '0'
    · obtain rfl : ds = [] := by simpa [h] using whole_ok.zero
      simp [stop]
    · simp [h]
  have hlength : (unread ++ rest).length - rest.length = unread.length := by simp
  have hdigits := hgather rest stop
  rw [List.cons_append] at hdigits ⊢
  simp only [readNumeral, hc, hzero, hdigits, skipDigits_append hunread stop, hlength]
  rfl

theorem Apart.readBehindWhole {rest : List Char} (h : Apart rest) (significand : Nat)
    (scale : Int) :
    readBehindWhole significand scale rest =
      .ok (⟨significand, if scale = 0 then none else some scale⟩, rest) := by
  unfold Json.readBehindWhole
  split <;> first | rfl | simp [Apart] at h

/-- A numeral is read up to what stands behind it. -/
theorem readNumeral_numeral {text : List Char} (h : IsNumeral text) :
    ∃ n, ∀ rest, Apart rest → readNumeral (text ++ rest) = .ok (n, rest) := by
  cases h with
  | @mk whole fraction exponent whole_ok fraction_ok exponent_ok =>
    obtain ⟨m, scale, hwhole⟩ := readNumeral_whole whole_ok
    have hread : ∀ rest, Apart rest → readNumeral (whole ++ (fraction ++ exponent) ++ rest) =
        readBehindWhole m scale (fraction ++ (exponent ++ rest)) := fun rest apart => by
      rw [List.append_assoc, List.append_assoc,
        hwhole _ (fraction_ok.stop (exponent_ok.stop apart))]
    cases fraction_ok with
    | none =>
      cases exponent_ok with
      | none =>
        exact ⟨_, fun rest apart => (hread rest apart).trans (apart.readBehindWhole m scale)⟩
      | power mark_eq sign_eq digits =>
        obtain ⟨n, hn⟩ := readExponent_power sign_eq digits m scale
        refine ⟨n, fun rest apart => (hread rest apart).trans ?_⟩
        have hexponent := hn rest apart.stop
        rw [List.nil_append, List.cons_append, List.append_assoc]
        rcases mark_eq with rfl | rfl <;> exact hexponent
    | point digits =>
      obtain ⟨n, hn⟩ := readFraction_append digits exponent_ok m scale
      exact ⟨n, fun rest apart => (hread rest apart).trans (hn rest apart)⟩

theorem settles_readNumber {text : List Char} (h : IsNumeral text) (negative : Bool) :
    Settles (readNumber negative) text := by
  obtain ⟨n, hn⟩ := readNumeral_numeral h
  refine ⟨n.number? negative, fun rest apart => ?_⟩
  simp only [readNumber, hn rest apart, bind, Except.bind]
  cases n.number? negative <;> rfl

/-- The rest of a string behind a character. -/
def readBehind (c : Char) : Reader (List Char) := fun cs => do
  let (ds, rest) ← readStringBody true cs
  .ok (c :: ds, rest)

/-- The rest of a string behind the first half of a pair. -/
def readPaired (leading : Nat) : Reader (List Char) := fun cs => do
  let (c, rest) ← readTrailing leading cs
  readBehind c rest

theorem readStringBody_cons {c : Char} (char : IsPlain c) (cs : List Char) :
    readStringBody true (c :: cs) = readBehind c cs := by
  rw [readStringBody, readBehind]
  simp only [char.quote, char.backslash, char.control, if_false, bind, Except.bind]
  cases readStringBody true cs <;> rfl

theorem readStringBody_backslash (cs : List Char) :
    readStringBody true ('\\' :: cs) = (do
      let (c, rest) ← readEscape true cs
      readBehind c rest) := by
  rw [readStringBody]
  simp only [Char.reduceEq, if_false, if_true]
  split
  · next e he =>
    rw [he]
    rfl
  · next c rest he =>
    rw [he]
    simp only [readBehind, bind, Except.bind]
    cases readStringBody true rest <;> rfl

theorem readStringBody_number {digits : List Char} {n : Nat} (four : IsFour digits n)
    (cs : List Char) :
    readStringBody true ('\\' :: 'u' :: (digits ++ cs)) =
      if isLeadingSurrogate n then readPaired n cs
      else if isTrailingSurrogate n then .error .loneSurrogate
      else readBehind (Char.ofNat n) cs := by
  rw [readStringBody_backslash]
  simp only [readEscape, readNumbered, readHexFour_four four, readPaired, bind, Except.bind]
  by_cases hleading : isLeadingSurrogate n
  · simp [hleading]
  · by_cases htrailing : isTrailingSurrogate n <;> simp [hleading, htrailing]

theorem readPaired_number {digits : List Char} {n : Nat} (four : IsFour digits n) (leading : Nat)
    (cs : List Char) :
    readPaired leading ('\\' :: 'u' :: (digits ++ cs)) =
      if isTrailingSurrogate n then readBehind (pairedChar leading n) cs
      else .error .loneSurrogate := by
  simp only [readPaired, readTrailing, readHexFour_four four, bind, Except.bind]
  by_cases htrailing : isTrailingSurrogate n <;> simp [htrailing]

theorem readPaired_of_ne {leading : Nat} {cs : List Char}
    (h : ∀ rest, cs ≠ '\\' :: 'u' :: rest) : (readPaired leading cs).toOption = none := by
  have htrailing : (readTrailing leading cs).toOption = none := by
    unfold readTrailing
    split
    · rfl
    · rfl
    · exact absurd rfl (h _)
    · rfl
  rw [readPaired, toOption_bind, htrailing]
  rfl

/-- What is read up to the closing quote is told by the text before it. -/
def Closes {α : Type} (reader : Reader α) (body : List Char) : Prop :=
  ∃ o : Option α, ∀ rest, (reader (body ++ '"' :: rest)).toOption = o.map (·, rest)

theorem Closes.behind {body : List Char} (h : Closes (readStringBody true) body) (c : Char) :
    Closes (readBehind c) body := by
  obtain ⟨o, ho⟩ := h
  refine ⟨o.map (c :: ·), fun rest => ?_⟩
  rw [readBehind, toOption_bind, ho]
  cases o <;> rfl

theorem Closes.none {α : Type} {reader : Reader α} {body : List Char}
    (h : ∀ rest, (reader (body ++ '"' :: rest)).toOption = none) : Closes reader body :=
  ⟨.none, h⟩

theorem ne_of_mem_escapes {c d : Char} (mem : (c, d) ∈ escapes) : c ≠ 'u' := by
  have h : ∀ e ∈ escapes, e.1 ≠ 'u' := by decide
  exact h _ mem

/-- A string with its closing quote is settled. -/
theorem Closes.settles {α : Type} {reader : Reader α} {body : List Char} (h : Closes reader body) :
    Settles reader (body ++ ['"']) := by
  obtain ⟨o, ho⟩ := h
  exact ⟨o, fun rest _ => by rw [List.append_assoc, List.singleton_append, ho]⟩

/-- An escaped surrogate looks at what follows it, so both readings are followed at once. -/
theorem closes_body {body : List Char} (h : IsBody body) :
    Closes (readStringBody true) body ∧ ∀ leading, Closes (readPaired leading) body := by
  induction h with
  | nil =>
    refine ⟨⟨some [], fun rest => ?_⟩, fun leading => .none fun rest => ?_⟩
    · rw [List.nil_append, readStringBody_quote]
      rfl
    · exact readPaired_of_ne (by simp)
  | @plain c cs char further ih =>
    refine ⟨?_, fun leading => .none fun rest => readPaired_of_ne (by simp [char.backslash])⟩
    simp only [Closes, List.cons_append, readStringBody_cons char]
    exact ih.1.behind c
  | @escape c d cs mem further ih =>
    refine ⟨?_, fun leading => .none fun rest =>
      readPaired_of_ne (by simp [ne_of_mem_escapes mem])⟩
    simp only [Closes, List.cons_append, readStringBody_backslash, readEscape_escapes mem]
    exact ih.1.behind d
  | @number digits cs n four further ih =>
    constructor
    · simp only [Closes, List.cons_append, List.append_assoc, readStringBody_number four]
      split
      · exact ih.2 n
      · split
        · exact ⟨none, fun rest => rfl⟩
        · exact ih.1.behind (Char.ofNat n)
    · intro leading
      simp only [Closes, List.cons_append, List.append_assoc, readPaired_number four]
      split
      · exact ih.1.behind (pairedChar leading n)
      · exact ⟨none, fun rest => rfl⟩

theorem closes_readString {body : List Char} (h : IsBody body) : Closes readString body := by
  obtain ⟨o, ho⟩ := (closes_body h).1
  refine ⟨o.map String.ofList, fun rest => ?_⟩
  rw [readString, toOption_bind, ho]
  cases o <;> rfl

/-- A string whose surrogates stand in pairs is read as the characters that it spells. -/
theorem readStringBody_spells {body cs : List Char} (h : Spells body cs) (rest : List Char) :
    readStringBody true (body ++ '"' :: rest) = .ok (cs, rest) := by
  induction h with
  | nil => exact readStringBody_quote true rest
  | plain char further ih =>
    exact readStringBody_plain char.quote char.backslash char.control ih
  | escape mem further ih => exact readStringBody_escape (readEscape_escapes mem true _) ih
  | number four leading trailing further ih =>
    rw [List.cons_append, List.cons_append, List.append_assoc, readStringBody_number four]
    simp only [leading, trailing, Bool.false_eq_true, if_false, readBehind, ih, bind, Except.bind]
  | pair four four' leading trailing further ih =>
    simp only [List.cons_append, List.append_assoc, readStringBody_number four,
      readPaired_number four', leading, trailing, if_true, readBehind, ih, bind, Except.bind]

theorem readString_spells {name : List Char} {key : String} (h : Spells name key.toList)
    (rest : List Char) : readString (name ++ '"' :: rest) = .ok (key, rest) := by
  simp [readString, readStringBody_spells h, bind, Except.bind]

end SlideDeck.Json
