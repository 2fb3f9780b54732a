import SlideDeck.Text.Quoted

/-!
The lines of a text. A text put together from lines falls into these again just when none of them
holds a line end of its own, and a quoted text never does.
-/
namespace SlideDeck.Text

/-- The lines of a text, each ended by a line end. What stands behind the last one is no line. -/
def lines (s : String) : List String := (s.toList.splitOn '\n').dropLast.map String.ofList

/-- The text of lines. -/
def ofLines (ls : List String) : String := String.join (ls.map fun l => l ++ "\n")

/-- The number of line ends in a text. -/
def breaks (s : String) : Nat := s.toList.count '\n'

theorem breaks_append (s t : String) : breaks (s ++ t) = breaks s + breaks t := by
  rw [breaks, String.toList_append, List.count_append, breaks, breaks]

theorem breaks_eq_zero_iff {s : String} : breaks s = 0 ↔ '\n' ∉ s.toList := List.count_eq_zero

theorem length_splitOn (cs : List Char) : (cs.splitOn '\n').length = cs.count '\n' + 1 := by
  induction cs with
  | nil => rfl
  | cons c cs ih =>
    rw [List.splitOn_cons_eq_if_modifyHead, List.count_cons]
    split
    · rw [List.length_cons, ih]
    · rw [List.length_modifyHead, ih, Nat.add_zero]

theorem length_lines (s : String) : (lines s).length = breaks s := by
  rw [lines, List.length_map, List.length_dropLast, length_splitOn, Nat.add_sub_cancel, breaks]

theorem ofLines_cons (l : String) (ls : List String) :
    ofLines (l :: ls) = l ++ "\n" ++ ofLines ls := by
  rw [ofLines, List.map_cons, String.join_cons, ofLines]

theorem ofLines_append (ls ms : List String) : ofLines (ls ++ ms) = ofLines ls ++ ofLines ms := by
  rw [ofLines, List.map_append, String.join_append, ofLines, ofLines]

theorem breaks_join_cons (s : String) (ss : List String) :
    breaks (String.join (s :: ss)) = breaks s + breaks (String.join ss) := by
  rw [String.join_cons, breaks_append]

theorem breaks_join_eq_zero_iff {ss : List String} :
    breaks (String.join ss) = 0 ↔ ∀ s ∈ ss, breaks s = 0 := by
  induction ss with
  | nil => exact ⟨nofun, fun _ => rfl⟩
  | cons s ss ih => rw [breaks_join_cons, Nat.add_eq_zero_iff, ih, List.forall_mem_cons]

theorem breaks_join_map_congr {α : Type} {f g : α → String} {xs : List α}
    (h : ∀ x ∈ xs, breaks (f x) = breaks (g x)) :
    breaks (String.join (xs.map f)) = breaks (String.join (xs.map g)) := by
  induction xs with
  | nil => rfl
  | cons x xs ih =>
    rw [List.map_cons, List.map_cons, breaks_join_cons, breaks_join_cons, h x List.mem_cons_self,
      ih fun y hy => h y (List.mem_cons_of_mem x hy)]

/-- The text of lines has a line end for each of them, besides those that they hold. -/
theorem breaks_ofLines (ls : List String) :
    breaks (ofLines ls) = ls.length + breaks (String.join ls) := by
  induction ls with
  | nil => rfl
  | cons l ls ih =>
    have hend : breaks "\n" = 1 := rfl
    rw [ofLines_cons, breaks_append, breaks_append, ih, hend, List.length_cons, breaks_join_cons]
    omega

theorem lines_ofLines_cons {l : String} (hl : breaks l = 0) (ls : List String) :
    lines (ofLines (l :: ls)) = l :: lines (ofLines ls) := by
  have hsplit := List.splitOn_append_cons_self_of_not_mem (breaks_eq_zero_iff.mp hl)
    (ofLines ls).toList
  rw [ofLines_cons, lines, String.toList_append, String.toList_append, List.append_assoc]
  rw [show "\n".toList ++ (ofLines ls).toList = '\n' :: (ofLines ls).toList from rfl, hsplit,
    List.dropLast_cons_of_ne_nil (List.splitOn_ne_nil _ _), List.map_cons, String.ofList_toList,
    lines]

/-- Lines are found again in their text just when they hold no line ends. -/
theorem lines_ofLines_iff {ls : List String} :
    lines (ofLines ls) = ls ↔ ∀ l ∈ ls, breaks l = 0 := by
  constructor
  · intro h l hl
    have hlength := length_lines (ofLines ls)
    rw [h, breaks_ofLines] at hlength
    have hnone : breaks (String.join ls) = 0 := by omega
    exact breaks_join_eq_zero_iff.mp hnone l hl
  · intro h
    induction ls with
    | nil => rfl
    | cons l ls ih =>
      rw [lines_ofLines_cons (h l List.mem_cons_self),
        ih fun m hm => h m (List.mem_cons_of_mem l hm)]

theorem mem_hexDigits {c : Char} {n : Nat} (h : c ∈ hexDigits n) : ∃ k < 16, c = hexDigit k := by
  rw [hexDigits] at h
  induction n using Nat.strongRecOn with
  | ind n ih =>
    rw [Nat.toDigits_eq_if (by decide)] at h
    split at h
    · next small => exact ⟨n, small, List.mem_singleton.mp h⟩
    · next large =>
      rcases List.mem_append.mp h with h | h
      · exact ih (n / 16) (by omega) h
      · exact ⟨n % 16, Nat.mod_lt n (by decide), List.mem_singleton.mp h⟩

theorem break_not_mem_quotedChar (c : Char) : '\n' ∉ quotedChar c := by
  have hdigits : '\n' ∉ hexDigits c.toNat := fun h => by
    obtain ⟨k, hk, hbreak⟩ := mem_hexDigits h
    have hnone : ∀ k < 16, '\n' ≠ hexDigit k := by decide
    exact hnone k hk hbreak
  unfold quotedChar
  iterate 6
    split
    · decide
  split
  · simp [hdigits]
  · next hbreak _ _ _ => exact fun h => hbreak (List.mem_singleton.mp h).symm

/-- A quoted text stands on one line. -/
theorem breaks_quoted (s : String) : breaks (quoted s) = 0 := by
  rw [breaks_eq_zero_iff, quoted, String.toList_ofList]
  simp [break_not_mem_quotedChar]

end SlideDeck.Text
