import Mathlib.Data.List.Induction
import Mathlib.Data.List.Nodup
import SlideDeck.Keyed

/-!
Named entries taken out and entered one after another. Taking one out leaves the others in their
order. When many are entered, the names that come out are the given ones at their first places, and
under each stands the value that was given last; entries whose names differ come out as they were.
-/
namespace SlideDeck.Keyed

variable {α : Type}

instance (entries : List (String × α)) : Decidable (Distinct entries) :=
  inferInstanceAs (Decidable (entries.map Prod.fst).Nodup)

/-- What is taken out is the first entry of the name, and the others keep their order. -/
theorem names_erase (key : String) (entries : List (String × α)) :
    (erase key entries).map Prod.fst = (entries.map Prod.fst).erase key := by
  induction entries with
  | nil => rfl
  | cons e rest ih =>
    obtain ⟨k, v⟩ := e
    by_cases h : k = key
    · simp [erase, h]
    · have hk : ¬ (k == key) = true := by simpa using h
      rw [erase, if_neg h, List.map_cons, List.map_cons, ih, List.erase_cons_tail hk]

theorem Distinct.erase {entries : List (String × α)} (h : Distinct entries) (key : String) :
    Distinct (erase key entries) := by
  rw [Distinct, names_erase]
  exact List.Nodup.erase key h

theorem get?_erase_of_ne {key other : String} (h : other ≠ key) (entries : List (String × α)) :
    get? other (erase key entries) = get? other entries := by
  induction entries with
  | nil => rfl
  | cons e rest ih =>
    obtain ⟨k, v⟩ := e
    by_cases hk : k = key
    · simp [erase, get?, hk, Ne.symm h]
    · simp [erase, get?, hk, ih]

theorem get?_erase_self {entries : List (String × α)} (h : Distinct entries) (key : String) :
    get? key (erase key entries) = none := by
  rw [get?_eq_none_iff, names_erase]
  exact List.Nodup.not_mem_erase h

theorem merge_append_singleton (entries : List (String × α)) (key : String) (value : α) :
    merge (entries ++ [(key, value)]) = put key value (merge entries) := by
  simp [merge, List.foldl_append]

theorem put_of_not_mem {key : String} {entries : List (String × α)}
    (h : key ∉ entries.map Prod.fst) (value : α) :
    put key value entries = entries ++ [(key, value)] := by
  induction entries with
  | nil => rfl
  | cons e rest ih =>
    obtain ⟨k, v⟩ := e
    simp only [List.map_cons, List.mem_cons, not_or] at h
    simp [put, Ne.symm h.1, ih h.2]

theorem mem_of_mem_put {key : String} {value : α} {entries : List (String × α)} {e : String × α}
    (h : e ∈ put key value entries) : e = (key, value) ∨ e ∈ entries := by
  induction entries with
  | nil => simpa [put] using h
  | cons x rest ih =>
    obtain ⟨k, v⟩ := x
    by_cases hk : k = key
    · simp only [put, hk, if_true, List.mem_cons] at h
      exact h.imp_right (List.mem_cons_of_mem _)
    · simp only [put, hk, if_false, List.mem_cons] at h
      rcases h with rfl | h
      · exact .inr List.mem_cons_self
      · exact (ih h).imp_right (List.mem_cons_of_mem _)

/-- Nothing is entered that was not given. -/
theorem mem_of_mem_merge {entries : List (String × α)} {e : String × α}
    (h : e ∈ merge entries) : e ∈ entries := by
  induction entries using List.reverseRecOn with
  | nil => exact h
  | append_singleton entries x ih =>
    rw [merge_append_singleton] at h
    rcases mem_of_mem_put h with rfl | h
    · simp
    · exact List.mem_append_left _ (ih h)

/-- Every name comes out once, in the order of the first places. -/
theorem names_merge (entries : List (String × α)) :
    (merge entries).map Prod.fst = (entries.map Prod.fst).eraseDups := by
  induction entries using List.reverseRecOn with
  | nil => rfl
  | append_singleton entries x ih =>
    obtain ⟨key, value⟩ := x
    rw [merge_append_singleton, names_put, ih, List.map_append, List.eraseDups_append]
    by_cases h : key ∈ entries.map Prod.fst <;> simp [List.removeAll, List.eraseDups_cons, h]

theorem distinct_merge (entries : List (String × α)) : Distinct (merge entries) := by
  induction entries using List.reverseRecOn with
  | nil => exact List.nodup_nil
  | append_singleton entries x ih =>
    rw [merge_append_singleton]
    exact ih.put x.1 x.2

/-- The value that comes out is the one that was given last. -/
theorem get?_merge (key : String) (entries : List (String × α)) :
    get? key (merge entries) = get? key entries.reverse := by
  induction entries using List.reverseRecOn with
  | nil => rfl
  | append_singleton entries x ih =>
    obtain ⟨k, v⟩ := x
    rw [merge_append_singleton, List.reverse_concat]
    by_cases h : k = key
    · subst h
      simp [get?_put_self, get?]
    · simp [get?_put_of_ne (Ne.symm h), get?, h, ih]

/-- All values under a name, in their order. -/
def values (key : String) (entries : List (String × α)) : List α :=
  (entries.filter fun e => e.1 == key).map Prod.snd

theorem get?_eq_head? (key : String) (entries : List (String × α)) :
    get? key entries = (values key entries).head? := by
  induction entries with
  | nil => rfl
  | cons e rest ih =>
    obtain ⟨k, v⟩ := e
    by_cases h : k = key
    · simp [get?, values, h]
    · simp [get?, values, h, ih]

/-- Among entries entered one after another, the last value under a name is found. -/
theorem get?_merge_eq_getLast? (key : String) (entries : List (String × α)) :
    get? key (merge entries) = (values key entries).getLast? := by
  rw [get?_merge, get?_eq_head?, values, List.filter_reverse, List.map_reverse, List.head?_reverse,
    values]

theorem merge_of_distinct {entries : List (String × α)} (h : Distinct entries) :
    merge entries = entries := by
  induction entries using List.reverseRecOn with
  | nil => rfl
  | append_singleton entries x ih =>
    obtain ⟨key, value⟩ := x
    simp only [Distinct, List.map_append, List.map_cons, List.map_nil] at h
    obtain ⟨hd, -, hk⟩ := List.nodup_append'.mp h
    rw [merge_append_singleton, ih hd]
    exact put_of_not_mem (fun hm => hk hm (by simp)) value

end SlideDeck.Keyed
