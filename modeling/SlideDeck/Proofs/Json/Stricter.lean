import SlideDeck.Proofs.Json.Acceptance
import SlideDeck.Proofs.Json.Nested

/-!
Reading is stricter than passing over: what is read as a value, of whatever kind, would be passed
over as well and with the same text left over. So it is a value of the grammar.
-/
namespace SlideDeck.Json

theorem skipDigits_gather (n : Nat) (cs : List Char) :
    skipDigits (gather n cs).2 = skipDigits cs := by
  induction cs generalizing n with
  | nil => rfl
  | cons c cs ih =>
    rw [gather]
    split
    · next h =>
      have hc : c.isDigit = true := (Bool.and_eq_true_iff.mp h).1
      rw [ih, skipDigits, skipDigits, List.dropWhile_cons_of_pos hc]
    · rfl

theorem skimExponent_of_readExponent {significand : Nat} {scale : Int} {cs rest : List Char}
    {n : Numeral} (h : readExponent significand scale cs = .ok (n, rest)) :
    skimExponent cs = .ok rest := by
  unfold readExponent at h
  split at h
  next negative ds hsign =>
    have hskim : skimDigits ds = .ok rest := by
      cases ds with
      | nil => cases h
      | cons c ds =>
        simp only at h
        split at h
        · next hc =>
          obtain ⟨-, rfl⟩ := Prod.mk.inj (Except.ok.inj h)
          exact if_pos hc
        · cases h
    split at hsign <;> obtain ⟨-, rfl⟩ := Prod.mk.inj hsign
    · exact hskim
    · exact hskim
    · have hstart : startsWithDigit cs = true := by
        by_contra hstart
        simp [skimDigits, hstart] at hskim
      rw [skimExponent_digit hstart, hskim]

theorem skimFraction_of_readFraction {significand : Nat} {scale : Int} {cs rest : List Char}
    {n : Numeral} (h : readFraction significand scale cs = .ok (n, rest)) :
    skimFraction ('.' :: cs) = .ok rest := by
  cases cs with
  | nil => cases h
  | cons c cs =>
    simp only [readFraction] at h
    split at h
    · next hc =>
      have hdigits : skimDigits (c :: cs) = .ok (skipDigits (c :: cs)) := if_pos hc
      rw [skipDigits_gather] at h
      generalize skipDigits (c :: cs) = after at h hdigits
      split at h
      · simpa [skimFraction, hdigits, bind, Except.bind] using skimExponent_of_readExponent h
      · simpa [skimFraction, hdigits, bind, Except.bind] using skimExponent_of_readExponent h
      · obtain ⟨-, rfl⟩ := Prod.mk.inj (Except.ok.inj h)
        simp [skimFraction, hdigits, bind, Except.bind]
    · cases h

theorem skimNumber_of_readNumeral {cs rest : List Char} {n : Numeral}
    (h : readNumeral cs = .ok (n, rest)) : skimNumber cs = .ok rest := by
  cases cs with
  | nil => cases h
  | cons c cs =>
    simp only [readNumeral] at h
    split at h
    · cases h
    · next hc =>
      have hskim : skimFraction (skipDigits (c :: cs)) = .ok rest := by
        rw [skipDigits_gather] at h
        generalize skipDigits (c :: cs) = after at h
        split at h
        · exact skimFraction_of_readFraction h
        · exact skimExponent_of_readExponent h
        · exact skimExponent_of_readExponent h
        · obtain ⟨-, rfl⟩ := Prod.mk.inj (Except.ok.inj h)
          unfold skimFraction
          split <;> first | rfl | simp_all
      obtain ⟨hdigit, hzero⟩ : c.isDigit = true ∧ (c = '0' → startsWithDigit cs = false) := by
        simpa using hc
      have hskip : skipDigits (c :: cs) = skipDigits cs := List.dropWhile_cons_of_pos hdigit
      rw [hskip] at hskim
      simp only [skimNumber]
      split
      · next h0 =>
        have hstop := hzero h0
        rw [skipDigits_of_stop hstop] at hskim
        rw [if_neg (by simp [hstop]), hskim]
      · exact hskim

theorem skimNumber_of_readNumber {negative : Bool} {cs rest : List Char} {n : Number}
    (h : readNumber negative cs = .ok (n, rest)) : skimNumber cs = .ok rest := by
  obtain ⟨⟨numeral, after⟩, hread, hnumber⟩ := bind_eq_ok h
  simp only at hnumber
  split at hnumber
  · obtain ⟨-, rfl⟩ := Prod.mk.inj (Except.ok.inj hnumber)
    exact skimNumber_of_readNumeral hread
  · cases hnumber

theorem skimString_of_readString {cs rest : List Char} {s : String}
    (h : readString cs = .ok (s, rest)) : skimString cs = .ok rest := by
  obtain ⟨name, hspells, rfl⟩ := spells_of_readString h
  exact skimString_body hspells.isBody rest

theorem nextItem_none {first : Bool} {cs : List Char} (h : nextItem first cs = .ok none) :
    ∃ rest, skipSpace cs = ']' :: rest := by
  unfold nextItem at h
  split at h
  · cases h
  · next rest hclose => exact ⟨rest, hclose⟩
  · split at h
    · cases h
    · split at h
      · split at h <;> cases h
      · cases h

theorem nextItem_some {first : Bool} {cs inside : List Char}
    (h : nextItem first cs = .ok (some inside)) :
    (first = true ∧ skipSpace cs = inside ∧ ∃ c rest, inside = c :: rest ∧ c ≠ ']') ∨
      (first = false ∧ ∃ rest, skipSpace cs = ',' :: rest ∧ inside = skipSpace rest) := by
  unfold nextItem at h
  split at h
  · cases h
  · cases h
  · next c rest hclose hnext =>
    split at h
    · next hfirst =>
      obtain rfl := Option.some.inj (Except.ok.inj h)
      exact .inl ⟨hfirst, hnext, c, rest, rfl, hclose⟩
    · next hfirst =>
      split at h
      · next hc =>
        split at h
        · cases h
        · obtain rfl := Option.some.inj (Except.ok.inj h)
          exact .inr ⟨by simpa using hfirst, rest, by rw [hnext, hc], rfl⟩
      · cases h

theorem nextName_none {first : Bool} {cs : List Char} (h : nextName first cs = .ok none) :
    ∃ rest, skipSpace cs = '\x7d' :: rest := by
  unfold nextName at h
  split at h
  · cases h
  · next rest hclose => exact ⟨rest, hclose⟩
  · split at h
    · split at h <;> cases h
    · split at h
      · split at h <;> cases h
      · cases h

theorem nextName_some {first : Bool} {cs inside : List Char}
    (h : nextName first cs = .ok (some inside)) :
    (first = true ∧ skipSpace cs = '"' :: inside) ∨
      (first = false ∧ ∃ rest, skipSpace cs = ',' :: rest ∧ skipSpace rest = '"' :: inside) := by
  unfold nextName at h
  split at h
  · cases h
  · cases h
  · next c rest _ hnext =>
    split at h
    · next hfirst =>
      split at h
      · next hc =>
        obtain rfl := Option.some.inj (Except.ok.inj h)
        exact .inl ⟨hfirst, by rw [hnext, hc]⟩
      · cases h
    · next hfirst =>
      split at h
      · next hc =>
        split at h
        · cases h
        · next hquote =>
          obtain rfl := Option.some.inj (Except.ok.inj h)
          exact .inr ⟨by simpa using hfirst, rest, by rw [hnext, hc], hquote⟩
        · cases h
        · cases h
      · cases h

theorem skimmer_skipSpace {value : Skimmer}
    (spaces : ∀ {b cs}, IsSpaces b → value (b ++ cs) = value cs) (cs : List Char) :
    value (skipSpace cs) = value cs := by
  obtain ⟨b, hb, heq⟩ := exists_spaces cs
  rw [← spaces hb, ← heq]

section Loops

variable {α : Type} {value : Skimmer} {first : Bool} {cs rest : List Char} {budget : Nat}

theorem skimItems_of_readItems {item : Reader α}
    (spaces : ∀ {b cs}, IsSpaces b → value (b ++ cs) = value cs)
    (skims : ∀ {cs a rest}, item cs = .ok (a, rest) → value cs = .ok rest) {as : List α}
    (h : readItems item budget first cs = .ok (as, rest)) :
    skimItems value budget first cs = .ok rest := by
  induction budget generalizing first cs as with
  | zero => cases h
  | succ budget ih =>
    obtain ⟨next?, hnext, hrest⟩ := bind_eq_ok h
    cases next? with
    | none =>
      obtain ⟨after, hclose⟩ := nextItem_none hnext
      obtain ⟨-, rfl⟩ := Prod.mk.inj (Except.ok.inj hrest)
      simp [skimItems, hclose, closed]
    | some inside =>
      obtain ⟨⟨a, after⟩, hitem, hitems⟩ := bind_eq_ok hrest
      obtain ⟨⟨as, behind⟩, htail, hlast⟩ := bind_eq_ok hitems
      obtain ⟨-, rfl⟩ := Prod.mk.inj (Except.ok.inj hlast)
      have hvalue := skims hitem
      have hskim := ih htail
      rcases nextItem_some hnext with ⟨rfl, hspace, c, r, rfl, hc⟩ | ⟨rfl, r, hspace, rfl⟩
      · simp [skimItems, hspace, hvalue, hskim, bind, Except.bind]
      · rw [skimmer_skipSpace spaces] at hvalue
        simp [skimItems, hspace, hvalue, hskim, bind, Except.bind]

theorem skimMember_of_readMember {reader : Reader α}
    (skims : ∀ {cs a rest}, reader cs = .ok (a, rest) → value cs = .ok rest) {inside : List Char}
    {m : String × α} (hquote : skipSpace cs = '"' :: inside)
    (h : readMember reader inside = .ok (m, rest)) : skimMember value cs = .ok rest := by
  obtain ⟨⟨k, after⟩, hname, hmember⟩ := bind_eq_ok h
  obtain ⟨behind, hcolon, hread⟩ := bind_eq_ok hmember
  obtain ⟨⟨a, tail⟩, hvalue, hlast⟩ := bind_eq_ok hread
  obtain ⟨-, rfl⟩ := Prod.mk.inj (Except.ok.inj hlast)
  simp only [skimMember, hquote, skimString_of_readString hname, bind, Except.bind]
  simp only [hcolon, skims hvalue]

theorem skimMembers_of_readMembers {reader : Reader α}
    (skims : ∀ {cs a rest}, reader cs = .ok (a, rest) → value cs = .ok rest)
    {ms : List (String × α)} (h : readMembers reader budget first cs = .ok (ms, rest)) :
    skimMembers value budget first cs = .ok rest := by
  induction budget generalizing first cs ms with
  | zero => cases h
  | succ budget ih =>
    obtain ⟨next?, hnext, hrest⟩ := bind_eq_ok h
    cases next? with
    | none =>
      obtain ⟨after, hclose⟩ := nextName_none hnext
      obtain ⟨-, rfl⟩ := Prod.mk.inj (Except.ok.inj hrest)
      simp [skimMembers, hclose, closed]
    | some inside =>
      rw [readMembers_next hnext] at h
      obtain ⟨⟨m, after⟩, hmember, hmembers⟩ := bind_eq_ok h
      obtain ⟨⟨ms, behind⟩, htail, hlast⟩ := bind_eq_ok hmembers
      obtain ⟨-, rfl⟩ := Prod.mk.inj (Except.ok.inj hlast)
      have hskim := ih htail
      rcases nextName_some hnext with ⟨rfl, hspace⟩ | ⟨rfl, r, hspace, hquote⟩
      · have hmember := skimMember_of_readMember skims (skipSpace_cons rfl _) hmember
        simp [skimMembers, hspace, hmember, hskim, bind, Except.bind]
      · have hmember := skimMember_of_readMember skims hquote hmember
        simp [skimMembers, hspace, hmember, hskim, bind, Except.bind]

end Loops

/-- What a reading goes through is left when its value is made something else. -/
theorem rest_of_map {α β : Type} {x : Except Fault (α × List Char)} {f : α → β} {b : β}
    {rest : List Char} (h : (do
      let (a, rest) ← x
      .ok (f a, rest)) = .ok (b, rest)) : ∃ a, x = .ok (a, rest) := by
  obtain ⟨⟨a, after⟩, hx, hlast⟩ := bind_eq_ok h
  obtain ⟨-, rfl⟩ := Prod.mk.inj (Except.ok.inj hlast)
  exact ⟨a, hx⟩

theorem rest_of_word {α : Type} {x : Except Fault (List Char)} {a b : α} {rest : List Char}
    (h : (do .ok (a, ← x) : Except Fault (α × List Char)) = .ok (b, rest)) : x = .ok rest := by
  obtain ⟨after, hx, hlast⟩ := bind_eq_ok h
  obtain ⟨-, rfl⟩ := Prod.mk.inj (Except.ok.inj hlast)
  exact hx

/-- What is read would be passed over as well. -/
theorem skimNested_of_readValue {levels : Nat} {cs rest : List Char} {v : Value}
    (h : readValue levels cs = .ok (v, rest)) : skimNested levels cs = .ok rest := by
  induction levels using Nat.strongRecOn generalizing cs rest v with
  | ind levels ih =>
    unfold readValue at h
    split at h
    · cases h
    · next c after hnext =>
      unfold skimNested
      simp only [hnext]
      split at h
      · exact (if_pos ‹_›).trans (rest_of_word h)
      rw [if_neg ‹_›]
      split at h
      · exact (if_pos ‹_›).trans (rest_of_word h)
      rw [if_neg ‹_›]
      split at h
      · exact (if_pos ‹_›).trans (rest_of_word h)
      rw [if_neg ‹_›]
      split at h
      · obtain ⟨n, hn⟩ := rest_of_map h
        exact (if_pos ‹_›).trans (skimNumber_of_readNumber hn)
      rw [if_neg ‹_›]
      split at h
      · obtain ⟨n, hn⟩ := rest_of_map h
        exact (if_pos ‹_›).trans (skimNumber_of_readNumber hn)
      rw [if_neg ‹_›]
      split at h
      · obtain ⟨s, hs⟩ := rest_of_map h
        exact (if_pos ‹_›).trans (skimString_of_readString hs)
      rw [if_neg ‹_›]
      split at h
      · rw [if_pos ‹_›]
        split at h
        · cases h
        · next levels =>
          obtain ⟨items, hitems⟩ := rest_of_map h
          exact skimItems_of_readItems (fun hb => skimNested_spaces levels hb _)
            (ih levels (Nat.lt_succ_self levels)) hitems
      rw [if_neg ‹_›]
      split at h
      · rw [if_pos ‹_›]
        split at h
        · cases h
        · next levels =>
          obtain ⟨ms, hms⟩ := rest_of_map (f := fun ms => Value.object (Keyed.merge ms)) h
          exact skimMembers_of_readMembers (ih levels (Nat.lt_succ_self levels)) hms
      · cases h

end SlideDeck.Json
