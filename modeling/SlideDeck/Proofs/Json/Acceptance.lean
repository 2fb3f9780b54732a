import Mathlib.Data.List.TakeWhile
import SlideDeck.Proofs.Json.Skimming

/-!
What is passed over is a text of the grammar, with blanks before it at most: the scanners that look
at nothing but the grammar let nothing else through.
-/
namespace SlideDeck.Json

theorem exists_spaces (cs : List Char) : ∃ b, IsSpaces b ∧ cs = b ++ skipSpace cs :=
  ⟨cs.takeWhile isSpace, fun _ hc => List.mem_takeWhile_imp hc,
    (List.takeWhile_append_dropWhile).symm⟩

theorem bind_eq_ok {α β : Type} {x : Except Fault α} {f : α → Except Fault β} {b : β}
    (h : (x >>= f) = .ok b) : ∃ a, x = .ok a ∧ f a = .ok b := by
  cases x with
  | error e => cases h
  | ok a => exact ⟨a, rfl, h⟩

theorem digits_of_skimDigits {cs rest : List Char} (h : skimDigits cs = .ok rest) :
    ∃ ds, IsDigits ds ∧ cs = ds ++ rest := by
  unfold skimDigits at h
  split at h
  · next hstart =>
    obtain rfl := Except.ok.inj h
    refine ⟨cs.takeWhile Char.isDigit, ⟨?_, fun c hc => List.mem_takeWhile_imp hc⟩,
      (List.takeWhile_append_dropWhile).symm⟩
    cases cs with
    | nil => simp [startsWithDigit] at hstart
    | cons c cs => simp [List.takeWhile_cons_of_pos (p := Char.isDigit) hstart]
  · cases h

theorem power_of_skimExponent {cs rest : List Char} (h : skimExponent cs = .ok rest) :
    ∃ sign ds, (sign = [] ∨ sign = ['+'] ∨ sign = ['-']) ∧ IsDigits ds ∧
      cs = sign ++ (ds ++ rest) := by
  unfold skimExponent at h
  split at h
  all_goals
    obtain ⟨ds, hds, rfl⟩ := digits_of_skimDigits h
  · exact ⟨['+'], ds, .inr (.inl rfl), hds, rfl⟩
  · exact ⟨['-'], ds, .inr (.inr rfl), hds, rfl⟩
  · exact ⟨[], ds, .inl rfl, hds, rfl⟩

theorem exponent_of_skimExponent {mark : Char} (mark_eq : mark = 'e' ∨ mark = 'E')
    {cs rest : List Char} (h : skimExponent cs = .ok rest) :
    ∃ exponent, IsExponent exponent ∧ mark :: cs = exponent ++ rest := by
  obtain ⟨sign, ds, hsign, hds, rfl⟩ := power_of_skimExponent h
  exact ⟨mark :: (sign ++ ds), .power mark_eq hsign hds, by simp⟩

theorem fraction_of_skimFraction {cs rest : List Char} (h : skimFraction cs = .ok rest) :
    ∃ fraction exponent, IsFraction fraction ∧ IsExponent exponent ∧
      cs = fraction ++ (exponent ++ rest) := by
  unfold skimFraction at h
  split at h
  · obtain ⟨exponent, hexponent, heq⟩ := exponent_of_skimExponent (.inl rfl) h
    exact ⟨[], exponent, .none, hexponent, heq⟩
  · obtain ⟨exponent, hexponent, heq⟩ := exponent_of_skimExponent (.inr rfl) h
    exact ⟨[], exponent, .none, hexponent, heq⟩
  · next cs =>
    obtain ⟨after, hdigits, hafter⟩ := bind_eq_ok h
    obtain ⟨ds, hds, rfl⟩ := digits_of_skimDigits hdigits
    have hexponent : ∃ exponent, IsExponent exponent ∧ after = exponent ++ rest := by
      split at hafter
      · exact exponent_of_skimExponent (.inl rfl) hafter
      · exact exponent_of_skimExponent (.inr rfl) hafter
      · exact ⟨[], .none, Except.ok.inj hafter⟩
    obtain ⟨exponent, hexponent, rfl⟩ := hexponent
    exact ⟨'.' :: ds, exponent, .point hds, hexponent, rfl⟩
  · exact ⟨[], [], .none, .none, Except.ok.inj h⟩

theorem numeral_of_skimNumber {cs rest : List Char} (h : skimNumber cs = .ok rest) :
    ∃ text, IsNumeral text ∧ cs = text ++ rest := by
  cases cs with
  | nil => cases h
  | cons c cs =>
    simp only [skimNumber] at h
    split at h
    · next hzero =>
      split at h
      · cases h
      · obtain ⟨fraction, exponent, hf, he, rfl⟩ := fraction_of_skimFraction h
        have hwhole : IsWhole ['0'] := ⟨⟨by simp, by simp⟩, fun _ => rfl⟩
        exact ⟨_, .mk hwhole hf he, by simp [hzero]⟩
    · next hzero =>
      split at h
      · next hc =>
        obtain ⟨fraction, exponent, hf, he, heq⟩ := fraction_of_skimFraction h
        have hwhole : IsWhole (c :: cs.takeWhile Char.isDigit) := by
          refine ⟨⟨List.cons_ne_nil _ _, fun d hd => ?_⟩, fun hhead => ?_⟩
          · rcases List.mem_cons.mp hd with rfl | hd
            · exact hc
            · exact List.mem_takeWhile_imp hd
          · exact absurd (Option.some.inj hhead) hzero
        refine ⟨_, .mk hwhole hf he, ?_⟩
        have hsplit : cs.takeWhile Char.isDigit ++ skipDigits cs = cs :=
          List.takeWhile_append_dropWhile
        rw [heq] at hsplit
        simp [hsplit]
      · cases h

theorem four_of_readHexFour {cs rest : List Char} {n : Nat} (h : readHexFour cs = .ok (n, rest)) :
    ∃ digits, IsFour digits n ∧ cs = digits ++ rest := by
  simp only [readHexFour] at h
  split at h
  · cases h
  · split at h
    · cases h
    · next hlength =>
      split at h
      · next k hk =>
        obtain ⟨rfl, rfl⟩ := Prod.mk.inj (Except.ok.inj h)
        have hfour : (cs.take 4).length = 4 := by
          rw [List.length_take] at hlength ⊢
          omega
        exact ⟨cs.take 4, ⟨hfour, hk⟩, (List.take_append_drop 4 cs).symm⟩
      · cases h

/-- The text can stand in any string, where it stands for the character when surrogates have to be
paired. -/
structure Extends (paired : Bool) (text : List Char) (d : Char) : Prop where
  body : ∀ {cs}, IsBody cs → IsBody (text ++ cs)
  spells : paired = true → ∀ {cs ds}, Spells cs ds → Spells (text ++ cs) (d :: ds)

theorem Extends.number {digits : List Char} {n : Nat} (four : IsFour digits n) {paired : Bool}
    {d : Char} (char : paired = true → isLeadingSurrogate n = false ∧
      isTrailingSurrogate n = false ∧ d = Char.ofNat n) :
    Extends paired ('\\' :: 'u' :: digits) d where
  body further := .number four further
  spells hpaired _ _ further := by
    obtain ⟨leading, trailing, rfl⟩ := char hpaired
    exact .number four leading trailing further

theorem Extends.pair {digits digits' : List Char} {n m : Nat} (four : IsFour digits n)
    (four' : IsFour digits' m) (leading : isLeadingSurrogate n = true)
    (trailing : isTrailingSurrogate m = true) (paired : Bool) :
    Extends paired ('\\' :: 'u' :: (digits ++ '\\' :: 'u' :: digits')) (pairedChar n m) where
  body further := by
    simpa using IsBody.number four (.number four' further)
  spells _ _ _ further := by
    simpa using Spells.pair four four' leading trailing further

theorem extends_of_readTrailing {n : Nat} {cs rest : List Char} {d : Char}
    (h : readTrailing n cs = .ok (d, rest)) {digits : List Char} (four : IsFour digits n)
    (leading : isLeadingSurrogate n = true) :
    ∃ text, Extends true text d ∧ '\\' :: 'u' :: (digits ++ cs) = text ++ rest := by
  unfold readTrailing at h
  split at h
  · cases h
  · cases h
  · obtain ⟨⟨m, after⟩, hfour, hpair⟩ := bind_eq_ok h
    obtain ⟨digits', four', rfl⟩ := four_of_readHexFour hfour
    simp only at hpair
    split at hpair
    · next trailing =>
      obtain ⟨rfl, rfl⟩ := Prod.mk.inj (Except.ok.inj hpair)
      exact ⟨_, .pair four four' leading trailing true, by simp⟩
    · cases hpair
  · cases h

theorem extends_of_readNumbered {paired : Bool} {cs rest : List Char} {d : Char}
    (h : readNumbered paired cs = .ok (d, rest)) :
    ∃ text, Extends paired text d ∧ '\\' :: 'u' :: cs = text ++ rest := by
  obtain ⟨⟨n, after⟩, hfour, hchar⟩ := bind_eq_ok h
  obtain ⟨digits, four, rfl⟩ := four_of_readHexFour hfour
  have hlone : ∀ {d : Char}, ∃ text, Extends false text d ∧
      '\\' :: 'u' :: (digits ++ after) = text ++ after :=
    ⟨_, .number four (fun hpaired => by cases hpaired), rfl⟩
  cases hleading : isLeadingSurrogate n with
  | true =>
    simp only [hleading, if_true] at hchar
    cases paired with
    | true => exact extends_of_readTrailing hchar four hleading
    | false =>
      obtain ⟨-, rfl⟩ := Prod.mk.inj (Except.ok.inj hchar)
      exact hlone
  | false =>
    cases htrailing : isTrailingSurrogate n with
    | true =>
      cases paired with
      | true => simp [hleading, htrailing] at hchar
      | false =>
        simp only [hleading, htrailing, Bool.false_eq_true, if_false, if_true] at hchar
        obtain ⟨-, rfl⟩ := Prod.mk.inj (Except.ok.inj hchar)
        exact hlone
    | false =>
      simp only [hleading, htrailing, Bool.false_eq_true, if_false] at hchar
      obtain ⟨rfl, rfl⟩ := Prod.mk.inj (Except.ok.inj hchar)
      exact ⟨_, .number four fun _ => ⟨hleading, htrailing, rfl⟩, rfl⟩

theorem extends_of_readEscape {paired : Bool} {cs rest : List Char} {d : Char}
    (h : readEscape paired cs = .ok (d, rest)) :
    ∃ text, Extends paired text d ∧ '\\' :: cs = text ++ rest := by
  have hshort : ∀ {c}, (c, d) ∈ escapes → Extends paired ['\\', c] d := fun mem =>
    ⟨fun further => .escape mem further, fun _ _ _ further => .escape mem further⟩
  unfold readEscape at h
  split at h
  case h_10 => exact extends_of_readNumbered h
  all_goals first
    | cases h; done
    | obtain ⟨rfl, rfl⟩ := Prod.mk.inj (Except.ok.inj h)
      exact ⟨_, hshort (by decide), rfl⟩

/-- What is read up to a closing quote is the inside of a string, and spells what is read when
surrogates have to be paired. -/
theorem body_of_readStringBody {paired : Bool} {cs ds rest : List Char}
    (h : readStringBody paired cs = .ok (ds, rest)) :
    ∃ body, IsBody body ∧ (paired = true → Spells body ds) ∧ cs = body ++ '"' :: rest := by
  fun_induction readStringBody paired cs generalizing ds with
  | case1 => cases h
  | case2 cs =>
    obtain ⟨rfl, rfl⟩ := Prod.mk.inj (Except.ok.inj h)
    exact ⟨[], .nil, fun _ => .nil, rfl⟩
  | case3 | case4 | case6 | case7 => cases h
  | case5 cs d after hescape _ ds' rest' hread _ ih =>
    obtain ⟨rfl, rfl⟩ := Prod.mk.inj (Except.ok.inj h)
    obtain ⟨body, hbody, hspells, rfl⟩ := ih hread
    obtain ⟨text, hextends, htext⟩ := extends_of_readEscape hescape
    refine ⟨text ++ body, hextends.body hbody, fun hpaired => ?_, by rw [htext, List.append_assoc]⟩
    exact hextends.spells hpaired (hspells hpaired)
  | case8 c cs quote backslash control ds' rest' hread ih =>
    obtain ⟨rfl, rfl⟩ := Prod.mk.inj (Except.ok.inj h)
    obtain ⟨body, hbody, hspells, rfl⟩ := ih hread
    have char : IsPlain c := ⟨quote, backslash, control⟩
    exact ⟨c :: body, .plain char hbody, fun hpaired => .plain char (hspells hpaired), rfl⟩

theorem body_of_skimString {cs rest : List Char} (h : skimString cs = .ok rest) :
    ∃ body, IsBody body ∧ cs = body ++ '"' :: rest := by
  unfold skimString at h
  cases hread : readStringBody false cs with
  | error e => simp [hread, Except.map] at h
  | ok p =>
    obtain ⟨body, hbody, -, heq⟩ := body_of_readStringBody hread
    rw [hread] at h
    obtain rfl := Except.ok.inj h
    exact ⟨body, hbody, heq⟩

theorem spells_of_readString {cs rest : List Char} {s : String}
    (h : readString cs = .ok (s, rest)) :
    ∃ name, Spells name s.toList ∧ cs = name ++ '"' :: rest := by
  obtain ⟨⟨ds, after⟩, hread, hs⟩ := bind_eq_ok h
  obtain ⟨rfl, rfl⟩ := Prod.mk.inj (Except.ok.inj hs)
  obtain ⟨name, -, hspells, heq⟩ := body_of_readStringBody hread
  exact ⟨name, by simpa using hspells rfl, heq⟩

/-- Blanks may be put around a piece of a list or an object. -/
def Padded (piece : List Char → Prop) : Prop :=
  ∀ {b text after : List Char}, IsSpaces b → piece text → IsSpaces after →
    piece (b ++ (text ++ after))

/-- The pieces of a list or an object and the closing bracket. Blanks before the first comma belong
to a piece that came before. -/
inductive Remainder (piece : List Char → Prop) (bracket : Char) (rest : List Char) :
    Bool → List Char → Prop
  | mk {first : Bool} {b gap : List Char} {texts : List (List Char)} (blanks : IsSpaces b)
      (front : first = true → b = []) (pieces : ∀ t ∈ texts, piece t) (gap_ok : IsSpaces gap) :
      Remainder piece bracket rest first (b ++ (listed first texts ++ (gap ++ bracket :: rest)))

section Remainder

variable {piece : List Char → Prop} {bracket : Char} {rest : List Char}

theorem Remainder.close {gap : List Char} (gap_ok : IsSpaces gap) (first : Bool) :
    Remainder piece bracket rest first (gap ++ bracket :: rest) := by
  have hnone : Remainder piece bracket rest first
      ([] ++ (listed first [] ++ (gap ++ bracket :: rest))) :=
    .mk .nil (fun _ => rfl) (by simp) gap_ok
  simpa [listed] using hnone

/-- A piece comes before the others, behind a comma unless it is the first. -/
theorem Remainder.cons (padded : Padded piece) {b b' text behind : List Char}
    (r : Remainder piece bracket rest false behind) (hb : IsSpaces b) (hb' : IsSpaces b')
    (htext : piece text) (first : Bool) :
    Remainder piece bracket rest first
      (b ++ ((if first then [] else [',']) ++ (b' ++ (text ++ behind)))) := by
  cases r with
  | @mk after gap texts after_ok front pieces gap_ok =>
    cases first with
    | true =>
      have hpiece := padded (hb.append hb') htext after_ok
      have hall : Remainder piece bracket rest true _ :=
        .mk .nil (fun _ => rfl) (List.forall_mem_cons.mpr ⟨hpiece, pieces⟩) gap_ok
      simpa [listed] using hall
    | false =>
      have hpiece := padded hb' htext after_ok
      have hall : Remainder piece bracket rest false _ :=
        .mk hb (fun h => by cases h) (List.forall_mem_cons.mpr ⟨hpiece, pieces⟩) gap_ok
      simpa [listed] using hall

end Remainder

/-- The scanner takes a piece with blanks before it. -/
def Takes (scanner : Skimmer) (piece : List Char → Prop) : Prop :=
  ∀ {cs rest}, scanner cs = .ok rest → ∃ b text, IsSpaces b ∧ piece text ∧ cs = b ++ (text ++ rest)

theorem Takes.mono {scanner : Skimmer} {piece piece' : List Char → Prop}
    (h : Takes scanner piece) (sub : ∀ t, piece t → piece' t) : Takes scanner piece' :=
  fun htake => by
    obtain ⟨b, text, hb, htext, heq⟩ := h htake
    exact ⟨b, text, hb, sub text htext, heq⟩

/-- The text of an item of a list with the blanks around it. -/
def IsItem (text : List Char) : Prop :=
  ∃ i : Item, i.Spaced ∧ IsValue i.text ∧ i.spelt = text

theorem padded_isItem : Padded IsItem := by
  rintro b _ after hb ⟨i, spaced, value, rfl⟩ hafter
  exact ⟨i.pad b after, spaced.pad hb hafter, value, i.spelt_pad b after⟩

theorem IsValue.isItem {text : List Char} (h : IsValue text) : IsItem text :=
  ⟨⟨[], text, []⟩, ⟨.nil, .nil⟩, h, by simp [Item.spelt]⟩

theorem remainder_of_skimItems {value : Skimmer} (takes : Takes value IsItem) {budget : Nat}
    {first : Bool} {cs rest : List Char} (h : skimItems value budget first cs = .ok rest) :
    Remainder IsItem ']' rest first cs := by
  induction budget generalizing first cs with
  | zero => cases h
  | succ budget ih =>
    obtain ⟨b, hb, heq⟩ := exists_spaces cs
    simp only [skimItems] at h
    split at h
    · cases h
    · next hclose =>
      obtain rfl := Except.ok.inj h
      rw [heq, hclose]
      exact .close hb first
    · next c after _ hnext =>
      rw [heq, hnext]
      split at h
      · next hfirst =>
        obtain ⟨behind, htake, hrest⟩ := bind_eq_ok h
        obtain ⟨b', text, hb', htext, hsplit⟩ := takes htake
        rw [hsplit]
        simpa [hfirst] using (ih hrest).cons padded_isItem hb hb' htext first
      · next hfirst =>
        split at h
        · next hcomma =>
          obtain ⟨behind, htake, hrest⟩ := bind_eq_ok h
          obtain ⟨b', text, hb', htext, rfl⟩ := takes htake
          rw [hcomma]
          simpa [hfirst] using (ih hrest).cons padded_isItem hb hb' htext first
        · cases h

/-- The text of a member of an object with the blanks around it. -/
def IsMember (text : List Char) : Prop :=
  ∃ m : Member, m.Spaced ∧ IsBody m.name ∧ IsValue m.value.text ∧ m.spelt = text

theorem padded_isMember : Padded IsMember := by
  rintro b _ after hb ⟨m, spaced, name, value, rfl⟩ hafter
  exact ⟨m.pad b after, spaced.pad hb hafter, name, value, m.spelt_pad b after⟩

theorem expectColon_eq {cs rest : List Char} (h : expectColon cs = .ok rest) :
    ∃ gap, IsSpaces gap ∧ cs = gap ++ ':' :: rest := by
  obtain ⟨gap, hgap, heq⟩ := exists_spaces cs
  unfold expectColon at h
  split at h
  · cases h
  · next hcolon =>
    obtain rfl := Except.ok.inj h
    exact ⟨gap, hgap, by rw [← hcolon, ← heq]⟩
  · cases h

theorem takes_skimMember {value : Skimmer} (takes : Takes value IsValue) :
    Takes (skimMember value) IsMember := by
  intro cs rest h
  obtain ⟨b, hb, heq⟩ := exists_spaces cs
  unfold skimMember at h
  split at h
  · cases h
  · next hquote =>
    obtain ⟨after, hname, h⟩ := bind_eq_ok h
    obtain ⟨behind, hcolon, hvalue⟩ := bind_eq_ok h
    obtain ⟨name, hbody, rfl⟩ := body_of_skimString hname
    obtain ⟨gap, hgap, rfl⟩ := expectColon_eq hcolon
    obtain ⟨b', text, hb', htext, rfl⟩ := takes hvalue
    have hmember : IsMember (Member.tight name gap b' text).spelt :=
      ⟨_, Member.spaced_tight name text hgap hb', hbody, htext, rfl⟩
    exact ⟨b, _, hb, hmember, by rw [heq, hquote, Member.spelt_tight]⟩
  · cases h

theorem remainder_of_skimMembers {value : Skimmer} (takes : Takes value IsValue) {budget : Nat}
    {first : Bool} {cs rest : List Char} (h : skimMembers value budget first cs = .ok rest) :
    Remainder IsMember '\x7d' rest first cs := by
  induction budget generalizing first cs with
  | zero => cases h
  | succ budget ih =>
    obtain ⟨b, hb, heq⟩ := exists_spaces cs
    simp only [skimMembers] at h
    split at h
    · cases h
    · next hclose =>
      obtain rfl := Except.ok.inj h
      rw [heq, hclose]
      exact .close hb first
    · next c after _ hnext =>
      rw [heq, hnext]
      split at h
      · next hfirst =>
        obtain ⟨behind, htake, hrest⟩ := bind_eq_ok h
        obtain ⟨b', text, hb', htext, hsplit⟩ := takes_skimMember takes htake
        rw [hsplit]
        simpa [hfirst] using (ih hrest).cons padded_isMember hb hb' htext first
      · next hfirst =>
        split at h
        · next hcomma =>
          obtain ⟨behind, htake, hrest⟩ := bind_eq_ok h
          obtain ⟨b', text, hb', htext, rfl⟩ := takes_skimMember takes htake
          rw [hcomma]
          simpa [hfirst] using (ih hrest).cons padded_isMember hb hb' htext first
        · cases h

theorem expectWord_eq {word cs rest : List Char} (h : expectWord word cs = .ok rest) :
    cs = word ++ rest := by
  induction word generalizing cs with
  | nil => exact Except.ok.inj h
  | cons w word ih =>
    cases cs with
    | nil => cases h
    | cons c cs =>
      simp only [expectWord] at h
      split at h
      · next hc => rw [hc, ih h, List.cons_append]
      · cases h

theorem exists_map_eq {α β : Type} {f : α → β} {p : α → Prop} {bs : List β}
    (h : ∀ b ∈ bs, ∃ a, p a ∧ f a = b) : ∃ as : List α, (∀ a ∈ as, p a) ∧ as.map f = bs := by
  induction bs with
  | nil => exact ⟨[], by simp, rfl⟩
  | cons b bs ih =>
    obtain ⟨a, ha, rfl⟩ := h b List.mem_cons_self
    obtain ⟨as, has, rfl⟩ := ih fun b hb => h b (List.mem_cons_of_mem _ hb)
    exact ⟨a :: as, List.forall_mem_cons.mpr ⟨ha, has⟩, rfl⟩

theorem Remainder.array {rest cs : List Char} (h : Remainder IsItem ']' rest true cs) :
    ∃ text, IsValue text ∧ '[' :: cs = text ++ rest := by
  cases h with
  | @mk b gap texts blanks front pieces gap_ok =>
    obtain ⟨items, hitems, rfl⟩ : ∃ items : List Item,
        (∀ i ∈ items, i.Spaced ∧ IsValue i.text) ∧ items.map Item.spelt = texts :=
      exists_map_eq fun t ht => by
        obtain ⟨i, spaced, value, hi⟩ := pieces t ht
        exact ⟨i, ⟨spaced, value⟩, hi⟩
    refine ⟨_, .array (fun i hi => (hitems i hi).1) gap_ok fun i hi => (hitems i hi).2, ?_⟩
    simp [front rfl, listText]

theorem Remainder.object {rest cs : List Char} (h : Remainder IsMember '\x7d' rest true cs) :
    ∃ text, IsValue text ∧ '\x7b' :: cs = text ++ rest := by
  cases h with
  | @mk b gap texts blanks front pieces gap_ok =>
    obtain ⟨members, hmembers, rfl⟩ : ∃ members : List Member,
        (∀ m ∈ members, m.Spaced ∧ IsBody m.name ∧ IsValue m.value.text) ∧
          members.map Member.spelt = texts :=
      exists_map_eq fun t ht => by
        obtain ⟨m, spaced, name, value, hm⟩ := pieces t ht
        exact ⟨m, ⟨spaced, name, value⟩, hm⟩
    refine ⟨_, .object (fun m hm => (hmembers m hm).1) gap_ok (fun m hm => (hmembers m hm).2.1)
      fun m hm => (hmembers m hm).2.2, ?_⟩
    simp [front rfl, objectText]

theorem isItem_of_takes {value : Skimmer} (takes : Takes value IsValue) : Takes value IsItem :=
  takes.mono fun _ => IsValue.isItem

/-- What is passed over is a value of the grammar. -/
theorem takes_skimNested (levels : Nat) : Takes (skimNested levels) IsValue := by
  induction levels using Nat.strongRecOn with
  | ind levels ih =>
    intro cs rest h
    obtain ⟨b, hb, heq⟩ := exists_spaces cs
    suffices hvalue : ∃ text, IsValue text ∧ skipSpace cs = text ++ rest by
      obtain ⟨text, htext, hsplit⟩ := hvalue
      exact ⟨b, text, hb, htext, by rw [← hsplit, ← heq]⟩
    unfold skimNested at h
    split at h
    · cases h
    · next c after hnext =>
      rw [hnext]
      split at h
      · next hc => exact ⟨_, .null, by rw [hc, expectWord_eq h]; rfl⟩
      split at h
      · next hc => exact ⟨_, .true, by rw [hc, expectWord_eq h]; rfl⟩
      split at h
      · next hc => exact ⟨_, .false, by rw [hc, expectWord_eq h]; rfl⟩
      split at h
      · next hc =>
        obtain ⟨text, numeral, rfl⟩ := numeral_of_skimNumber h
        exact ⟨_, .minus numeral, by rw [hc]; rfl⟩
      split at h
      · obtain ⟨text, numeral, heq⟩ := numeral_of_skimNumber h
        exact ⟨text, .number numeral, heq⟩
      split at h
      · next hc =>
        obtain ⟨body, body_ok, rfl⟩ := body_of_skimString h
        exact ⟨_, .string body_ok, by simp [hc]⟩
      split at h
      · next hc =>
        split at h
        · cases h
        · next levels =>
          have htakes : Takes (skimNested levels) IsItem :=
            isItem_of_takes (ih levels (Nat.lt_succ_self levels))
          rw [hc]
          exact (remainder_of_skimItems htakes h).array
      split at h
      · next hc =>
        split at h
        · cases h
        · next levels =>
          rw [hc]
          exact (remainder_of_skimMembers (ih levels (Nat.lt_succ_self levels)) h).object
      · cases h

end SlideDeck.Json
