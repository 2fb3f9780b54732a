import SlideDeck.Proofs.Node.Leaves

/-!
Documents with places for comments. A place is an expression whose comments stand for others, which
are filled in at all places at once. Any expressions of a document can be made places.
-/
namespace SlideDeck
namespace Node

/-- The node is an expression that holds a place. -/
def isPlace (places : List String → Bool) : Node → Bool
  | expression _ cs => places cs
  | _ => false

def fillPlace (places : List String → Bool) (f : List String → List String) : Node → Node
  | expression v cs => expression v (if places cs then f cs else cs)
  | n => n

/-- The node with comments filled in at all places in it. -/
def filled (places : List String → Bool) (f : List String → List String) (n : Node) : Node :=
  n.mapLeaves (fillPlace places f)

variable {places : List String → Bool} {f : List String → List String} {n : Node}

theorem keepsShape_filled (places : List String → Bool) (f : List String → List String) :
    KeepsShape (filled places f) := by
  refine KeepsLeaves.keepsShape ⟨fun n hn => ?_, fun n => ?_, fun n => ?_⟩
  · cases n <;> first | rfl | exact hn
  · cases n <;> rfl
  · cases n <;> rfl

/-- A node that can hold children keeps its label. -/
theorem filled_withChildren (h : n.isContainer = true) (cs : List Node) :
    (n.withChildren cs).filled places f = n.withChildren (cs.map (filled places f)) :=
  mapLeaves_withChildren (g := fillPlace places f) h cs

theorem name?_filled (n : Node) : (n.filled places f).name? = n.name? := by
  cases n <;> rfl

theorem places_of_isPlace (h : n.isPlace places = true) : places n.comments = true := by
  cases n <;> first | exact h | cases h

theorem comments_filled_of_place (h : n.isPlace places = true) :
    (n.filled places f).comments = f n.comments := by
  cases n with
  | expression v cs => exact if_pos h
  | _ => cases h

theorem comments_filled_of_not_place (h : n.isPlace places = false) :
    (n.filled places f).comments = n.comments := by
  cases n with
  | expression v cs => exact if_neg (Bool.eq_false_iff.mp h)
  | _ => rfl

/-- The comments of the expressions in a node, one after another in document order. -/
def notesAll (nodes : List Node) : List (List String) :=
  (preorderAll nodes).filterMap fun
    | expression _ cs => some cs
    | _ => none

theorem notesAll_append (xs ys : List Node) : notesAll (xs ++ ys) = notesAll xs ++ notesAll ys := by
  rw [notesAll, preorderAll_append, List.filterMap_append]
  rfl

theorem notesAll_singleton_of_isContainer (h : n.isContainer = true) :
    notesAll [n] = notesAll (n.children?.getD []) := by
  rw [notesAll, preorderAll, preorderAll, List.append_nil, preorder_eq]
  cases n <;> first | rfl | cases h

/-- The nodes `held` hold the comments `notes`, and are the other nodes again when the comments of
these are filled in for them. -/
structure Holds (nodes : List Node) (notes : List (List String)) (held : List Node) : Prop where
  notes_eq : notesAll held = notes
  filled_eq : ∀ places f, notes.map (fun cs => if places cs = true then f cs else cs) =
    notesAll nodes → held.map (filled places f) = nodes

theorem exists_holds_all {nodes : List Node}
    (step : ∀ n ∈ nodes, ∀ notes : List (List String), notes.length = (notesAll [n]).length →
      ∃ held, Holds [n] notes [held])
    {notes : List (List String)} (h : notes.length = (notesAll nodes).length) :
    ∃ held, Holds nodes notes held := by
  induction nodes generalizing notes with
  | nil =>
    obtain rfl := List.eq_nil_of_length_eq_zero h
    exact ⟨[], rfl, fun _ _ _ => rfl⟩
  | cons n rest ih =>
    have hsplit : notesAll (n :: rest) = notesAll [n] ++ notesAll rest := notesAll_append [n] rest
    rw [hsplit, List.length_append] at h
    obtain ⟨front, back, rfl, hfront, hback⟩ : ∃ front back, notes = front ++ back ∧
        front.length = (notesAll [n]).length ∧ back.length = (notesAll rest).length :=
      ⟨notes.take (notesAll [n]).length, notes.drop (notesAll [n]).length,
        (List.take_append_drop _ _).symm, by rw [List.length_take]; omega,
        by rw [List.length_drop]; omega⟩
    obtain ⟨m, hm⟩ := step n List.mem_cons_self front hfront
    obtain ⟨held, hheld⟩ := ih (fun k hk => step k (List.mem_cons_of_mem n hk)) hback
    refine ⟨m :: held, ?_, fun places f hf => ?_⟩
    · rw [← hm.notes_eq, ← hheld.notes_eq]
      exact notesAll_append [m] held
    · rw [hsplit, List.map_append] at hf
      obtain ⟨hf, hf'⟩ := List.append_inj hf (by rw [List.length_map, hfront])
      rw [List.map_cons, hheld.filled_eq places f hf']
      exact congrArg (· ++ rest) (hm.filled_eq places f hf)

theorem exists_holds (n : Node) {notes : List (List String)}
    (h : notes.length = (notesAll [n]).length) : ∃ held, Holds [n] notes [held] := by
  induction n using induction_children generalizing notes with
  | step n ih =>
    cases hn : n.isContainer with
    | true =>
      rw [notesAll_singleton_of_isContainer hn] at h
      obtain ⟨held, hheld⟩ := exists_holds_all (fun k hk notes hnotes => ih k hk hnotes) h
      refine ⟨n.withChildren held, ?_, fun places f hf => ?_⟩
      · rw [notesAll_singleton_of_isContainer (isContainer_of_children?
          (children?_withChildren_of_isContainer hn held)),
          children?_withChildren_of_isContainer hn, Option.getD_some, hheld.notes_eq]
      · rw [notesAll_singleton_of_isContainer hn] at hf
        rw [List.map_singleton, filled_withChildren hn, hheld.filled_eq places f hf,
          withChildren_getD]
    | false =>
      by_cases hnote : notesAll [n] = []
      · rw [hnote] at h
        obtain rfl := List.eq_nil_of_length_eq_zero h
        refine ⟨n, hnote, fun places f _ => ?_⟩
        cases n <;> first | rfl | exact absurd hnote (List.cons_ne_nil _ _) | cases hn
      · cases n with
        | expression v cs =>
          obtain ⟨key, rfl⟩ := List.length_eq_one_iff.mp h
          refine ⟨expression v key, rfl, fun places f hf => ?_⟩
          exact congrArg (fun cs => [expression v cs]) (List.singleton_inj.mp hf)
        | _ => first | exact absurd rfl hnote | cases hn

/-- Any expressions of a document can be made places, given by their numbers in document order. What
a place holds are empty comments, and their number tells it apart from all other expressions. -/
theorem exists_filled (tree : Node) (opened : Nat → Bool) : ∃ (held : Node)
    (places : List String → Bool) (f : List String → List String),
    held.filled places f = tree ∧
      (∀ (i : Nat) cs, (notesAll [held])[i]? = some cs → places cs = opened i) ∧
      (∀ (i j : Nat) cs, places cs = true → (notesAll [held])[i]? = some cs →
        (notesAll [held])[j]? = some cs → i = j) ∧
      ∀ cs, places cs = true → ∀ comment ∈ cs, comment = "" := by
  generalize hnotes : notesAll [tree] = notes
  have hshort : ∀ cs ∈ notes, cs.length < notes.flatten.length + 1 := fun cs hcs =>
    Nat.lt_succ_of_le (List.sublist_flatten_of_mem hcs).length_le
  generalize notes.flatten.length + 1 = bound at hshort
  let note (i : Nat) (cs : List String) : List String :=
    if opened i = true then List.replicate (bound + i) "" else cs
  let places (cs : List String) : Bool := decide (bound ≤ cs.length ∧ ∀ comment ∈ cs, comment = "")
  let f (cs : List String) : List String := notes[cs.length - bound]?.getD []
  obtain ⟨held, hheld⟩ : ∃ held, Holds [tree] (notes.mapIdx note) [held] :=
    exists_holds tree (by rw [hnotes, List.length_mapIdx])
  have hkey (i : Nat) : places (List.replicate (bound + i) "") = true := by
    simp [places]
  have hold {cs : List String} (hcs : cs ∈ notes) : places cs = false := by
    have := hshort cs hcs
    simp only [places, decide_eq_false_iff_not]
    omega
  have hnote {i : Nat} {cs : List String} (h : (notesAll [held])[i]? = some cs) :
      ∃ old ∈ notes, cs = note i old := by
    rw [hheld.notes_eq, List.getElem?_mapIdx] at h
    obtain ⟨old, hmem, rfl⟩ := Option.map_eq_some_iff.mp h
    exact ⟨old, List.mem_of_getElem? hmem, rfl⟩
  refine ⟨held, places, f, ?_, fun i cs h => ?_, fun i j cs hcs hi hj => ?_, fun cs hcs => ?_⟩
  · refine List.singleton_inj.mp (hheld.filled_eq places f ?_)
    rw [hnotes]
    refine List.ext_getElem (by simp) fun i hi hi' => ?_
    rw [List.getElem_map, List.getElem_mapIdx]
    simp only [note]
    cases hopened : opened i with
    | true =>
      rw [if_pos rfl, if_pos (hkey i)]
      simp [f, hi']
    | false =>
      rw [if_neg Bool.false_ne_true, hold (List.getElem_mem hi'), if_neg Bool.false_ne_true]
  · obtain ⟨old, hmem, rfl⟩ := hnote h
    simp only [note]
    cases hi : opened i with
    | true => rw [if_pos rfl, hkey]
    | false => rw [if_neg Bool.false_ne_true, hold hmem]
  · have hlength {k : Nat} (hk : (notesAll [held])[k]? = some cs) : cs.length = bound + k := by
      obtain ⟨old, hmem, hcs'⟩ := hnote hk
      simp only [note] at hcs'
      split at hcs'
      · rw [hcs', List.length_replicate]
      · rw [hcs', hold hmem] at hcs
        cases hcs
    have hi' := hlength hi
    have hj' := hlength hj
    omega
  · exact (of_decide_eq_true hcs).2

end Node
end SlideDeck
