import Mathlib.Data.List.TakeWhile
import SlideDeck.Text.Blank

/-!
Texts without blanks at their ends. Trimming makes every text one, and finds one again between
blanks.
-/
namespace SlideDeck.Text

variable {cs blanks blanks' : List Char}

/-- No blank stands at either end. -/
structure Tight (cs : List Char) : Prop where
  first : ∀ c rest, cs = c :: rest → isBlank c = false
  last : ∀ front c, cs = front ++ [c] → isBlank c = false

/-- The last character of a text is in what the text ends in. -/
theorem mem_of_last {xs ys front : List Char} {c : Char} (hne : ys ≠ [])
    (h : xs ++ ys = front ++ [c]) : c ∈ ys := by
  obtain ⟨init, d, hd⟩ := (List.eq_nil_or_concat ys).resolve_left hne
  rw [List.concat_eq_append] at hd
  rw [hd, ← List.append_assoc] at h
  obtain ⟨-, hlast⟩ := List.append_inj' h rfl
  rw [hd, List.singleton_inj.mp hlast]
  exact List.mem_append_right _ List.mem_cons_self

theorem trimLeft_blanks (h : ∀ b ∈ blanks, isBlank b = true) (cs : List Char) :
    trimLeft (blanks ++ cs) = trimLeft cs :=
  List.dropWhile_append_of_pos h

theorem trimRight_blanks (h : ∀ b ∈ blanks, isBlank b = true) (cs : List Char) :
    trimRight (cs ++ blanks) = trimRight cs := by
  rw [trimRight, List.reverse_append,
    List.dropWhile_append_of_pos fun b hb => h b (List.mem_reverse.mp hb), ← trimRight]

theorem Tight.trimRight_eq (h : Tight cs) : trimRight cs = cs := by
  rcases List.eq_nil_or_concat cs with rfl | ⟨front, c, rfl⟩
  · rfl
  · have hc := h.last front c List.concat_eq_append
    rw [List.concat_eq_append, trimRight, List.reverse_append, List.reverse_singleton,
      List.singleton_append, List.dropWhile_cons, hc, if_neg Bool.false_ne_true,
      List.reverse_cons, List.reverse_reverse]

/-- Between blanks, trimming finds the text again. -/
theorem Tight.trim_between (h : Tight cs) (hne : cs ≠ []) (hblanks : ∀ b ∈ blanks, isBlank b = true)
    (hblanks' : ∀ b ∈ blanks', isBlank b = true) : trim (blanks ++ cs ++ blanks') = cs := by
  obtain ⟨c, rest, rfl⟩ := List.exists_cons_of_ne_nil hne
  have hc := h.first c rest rfl
  have hleft : trimLeft (c :: rest ++ blanks') = c :: rest ++ blanks' := by
    rw [List.cons_append, trimLeft, List.dropWhile_cons, hc, if_neg Bool.false_ne_true]
  rw [trim, List.append_assoc, trimLeft_blanks hblanks, hleft, trimRight_blanks hblanks',
    h.trimRight_eq]

theorem trimLeft_split (cs : List Char) :
    ∃ blanks, (∀ b ∈ blanks, isBlank b = true) ∧ cs = blanks ++ trimLeft cs :=
  ⟨cs.takeWhile isBlank, fun _ hb => List.mem_takeWhile_imp hb,
    List.takeWhile_append_dropWhile.symm⟩

theorem trimRight_split (cs : List Char) :
    ∃ blanks, (∀ b ∈ blanks, isBlank b = true) ∧ cs = trimRight cs ++ blanks := by
  obtain ⟨blanks, hblanks, hsplit⟩ := trimLeft_split cs.reverse
  refine ⟨blanks.reverse, fun b hb => hblanks b (List.mem_reverse.mp hb), ?_⟩
  have hcs := congrArg List.reverse hsplit
  rwa [List.reverse_reverse, List.reverse_append] at hcs

/-- A text is what is left of it when it is trimmed, with blanks on both sides. -/
theorem trim_split (cs : List Char) :
    ∃ blanks blanks', (∀ b ∈ blanks, isBlank b = true) ∧ (∀ b ∈ blanks', isBlank b = true) ∧
      cs = blanks ++ trim cs ++ blanks' := by
  obtain ⟨blanks, hblanks, hleft⟩ := trimLeft_split cs
  obtain ⟨blanks', hblanks', hright⟩ := trimRight_split (trimLeft cs)
  refine ⟨blanks, blanks', hblanks, hblanks', ?_⟩
  rw [List.append_assoc, trim, ← hright, ← hleft]

theorem isBlank_first_trimLeft {c : Char} {rest : List Char} (h : trimLeft cs = c :: rest) :
    isBlank c = false := by
  have hhead := List.head?_dropWhile_not isBlank cs
  rw [← trimLeft, h] at hhead
  exact hhead

theorem isBlank_last_trimRight {c : Char} {front : List Char}
    (h : trimRight cs = front ++ [c]) : isBlank c = false := by
  have hreverse : trimLeft cs.reverse = c :: front.reverse := by
    rw [trimLeft, ← List.reverse_reverse (List.dropWhile _ _), ← trimRight, h, List.reverse_append]
    rfl
  exact isBlank_first_trimLeft hreverse

theorem tight_trim (cs : List Char) : Tight (trim cs) where
  first c rest h := by
    obtain ⟨blanks, -, hsplit⟩ := trimRight_split (trimLeft cs)
    rw [← trim, h] at hsplit
    exact isBlank_first_trimLeft hsplit
  last _ _ h := isBlank_last_trimRight h

end SlideDeck.Text
