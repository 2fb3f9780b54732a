import SlideDeck.Proofs.Slides.Layout

/-!
What holds of a plan at any time. The indices that it names grow from entry to entry and stay below
its cursor, and below the cursor only markers are not named. So every entry finds all its children
when the plan is carried out, and the new children are those that the entries show.
-/
namespace SlideDeck

namespace Entry

variable {entry : Entry} {i : Nat}

/-- The indices that an entry names. A slide names all of its range. -/
def indices : Entry → List Nat
  | .slide start stop => List.range' start (stop - start)
  | .keep index => [index]

def isSlide : Entry → Bool
  | .slide _ _ => true
  | .keep _ => false

theorem mem_indices_iff : i ∈ entry.indices ↔ entry.names i = true := by
  cases entry with
  | slide start stop =>
    simp only [indices, names, List.mem_range'_1, Bool.and_eq_true, decide_eq_true_eq]
    omega
  | keep index =>
    rw [indices, names, List.mem_singleton, beq_iff_eq]
    exact eq_comm

/-- The entry finds all its children among those that are still there, inside the list. -/
def Takes (slots : List (Option Node)) : Entry → Prop
  | .slide start stop => start < stop ∧ stop ≤ slots.length ∧
      ∀ i, start ≤ i → i < stop → ∃ n, slots[i]? = some (some n)
  | .keep index => ∃ n, slots[index]? = some (some n)

/-- What an entry leaves of the children that are still there. -/
def leaves (slots : List (Option Node)) : Entry → List (Option Node)
  | .slide start stop =>
    slots.take start ++ ((slots.take stop).drop start).map (fun _ => none) ++
      slots.drop (max start stop)
  | .keep index => slots.set index none

/-- The new children for an entry, out of those that are still there. -/
def taken (wrap : List Node → Node) (slots : List (Option Node)) : Entry → List Node
  | .slide start stop => [wrap (((slots.take stop).drop start).filterMap id)]
  | .keep index => (slots[index]?.bind id).toList

end Entry

namespace Plan

/-- The indices that a plan names, in the order of its entries. -/
def named (plan : Plan) : List Nat := plan.entries.flatMap Entry.indices

theorem mem_named_iff {plan : Plan} {i : Nat} : i ∈ plan.named ↔ plan.names i = true := by
  simp [named, names, Entry.mem_indices_iff]

/-- What holds of the plan for a node with the children at any time. -/
structure Sound (c : Cutter) (children : List Node) (plan : Plan) : Prop where
  increasing : plan.named.Pairwise (· < ·)
  nonempty : ∀ {start stop}, Entry.slide start stop ∈ plan.entries → start < stop
  below : ∀ {i}, i ∈ plan.named → i < plan.cursor
  within : plan.cursor ≤ children.length
  unnamed : ∀ {i}, i < plan.cursor → i ∉ plan.named →
    ∃ n, children[i]? = some n ∧ c.isMarker n = true
  excluded : ∀ {i}, i ∈ plan.excluded → i < children.length

/-- Carried out one after another, each entry finds all its children. -/
def TakeAll : List Entry → List (Option Node) → Prop
  | [], _ => True
  | entry :: rest, slots => entry.Takes slots ∧ TakeAll rest (entry.leaves slots)

theorem carryOut_cons (wrap : List Node → Node) (entry : Entry) (rest : List Entry)
    (slots : List (Option Node)) :
    carryOut wrap (entry :: rest) slots =
      (entry.taken wrap slots ++ (carryOut wrap rest (entry.leaves slots)).1,
        (carryOut wrap rest (entry.leaves slots)).2 + entry.isSlide.toNat) := by
  cases entry <;> rfl

theorem carryOut_slides (wrap : List Node → Node) (entries : List Entry)
    (slots : List (Option Node)) :
    (carryOut wrap entries slots).2 = entries.countP Entry.isSlide := by
  induction entries generalizing slots with
  | nil => rfl
  | cons entry rest ih =>
    rw [carryOut_cons, ih, List.countP_cons]
    cases entry <;> rfl

/-- What carrying out a plan comes to for a node that is left with the children. -/
structure CarriedOut (c : Cutter) (children : List Node) (plan : Plan) : Prop where
  /-- Only markers are not named, and no other child is lost. -/
  sound : ((plan.flush children children.length).resumeAt children.length).Sound c children
  /-- No slide has to be cut short, and no entry comes to a child that was taken before. -/
  takes : TakeAll (plan.flush children children.length).entries (children.map some)
  /-- The new children are those that the entries show, each slide with its full range. -/
  built : (plan.flush children children.length).build c.wrap children =
    ((plan.flush children children.length).entries.flatMap (Entry.shown c.wrap children),
      (plan.flush children children.length).entries.countP Entry.isSlide)

end Plan

namespace Lays

variable {c : Cutter} {i : Nat} {ns lost : List Node} {es : List Entry} {ps : List Piece}

theorem le_of_mem_indices (h : Lays i ns es ps lost) {k : Nat}
    (hk : k ∈ es.flatMap Entry.indices) : i ≤ k := by
  by_contra hlt
  have hnames := h.names_eq_false (Nat.lt_of_not_le hlt)
  obtain ⟨entry, hentry, hmem⟩ := List.mem_flatMap.mp hk
  exact List.any_eq_false.mp hnames entry hentry (Entry.mem_indices_iff.mp hmem)

theorem increasing (h : Lays i ns es ps lost) :
    (es.flatMap Entry.indices).Pairwise (· < ·) := by
  induction h with
  | done => exact .nil
  | @keep i n ns es ps lost rest ih =>
    rw [List.flatMap_cons]
    exact List.pairwise_cons.mpr ⟨fun k hk => rest.le_of_mem_indices hk, ih⟩
  | @slide i run ns es ps lost _ rest ih =>
    rw [List.flatMap_cons, List.pairwise_append]
    refine ⟨List.pairwise_lt_range', ih, fun j hj k hk => ?_⟩
    have hle := rest.le_of_mem_indices hk
    rw [Entry.indices, List.mem_range'_1] at hj
    omega
  | skip _ ih => exact ih

theorem nonempty (h : Lays i ns es ps lost) {start stop : Nat}
    (hmem : Entry.slide start stop ∈ es) : start < stop := by
  induction h with
  | done => cases hmem
  | keep _ ih =>
    cases hmem with
    | tail _ hmem => exact ih hmem
  | slide hrun _ ih =>
    cases hmem with
    | head => exact Nat.lt_add_of_pos_right (List.length_pos_iff.mpr hrun)
    | tail _ hmem => exact ih hmem
  | skip _ ih => exact ih hmem

/-- A child that no entry names is left out. -/
theorem mem_lost (h : Lays i ns es ps lost) {k : Nat} {n : Node} (hn : ns[k]? = some n)
    (hk : es.any (·.names (i + k)) = false) : n ∈ lost := by
  rw [← h.leftOut]
  refine List.mem_map.mpr ⟨(n, i + k), List.mem_filter.mpr ⟨?_, ?_⟩, rfl⟩
  · rw [List.mk_add_mem_zipIdx_iff_getElem?]
    exact hn
  · rw [hk]
    rfl

/-- Entries that go through the children up to the cursor, and leave out markers only. -/
theorem sound {plan : Plan} (h : Lays 0 ns plan.entries ps lost) (cursor : plan.cursor = ns.length)
    (markers : ∀ n ∈ lost, c.isMarker n = true) {todo : List Node}
    (excluded : ∀ i ∈ plan.excluded, i < (ns ++ todo).length) : plan.Sound c (ns ++ todo) := by
  refine ⟨h.increasing, h.nonempty, fun {i} hi => ?_, ?_, fun {i} hi hnot => ?_, excluded _⟩
  · have hlt := h.lt_of_names (Plan.mem_named_iff.mp hi)
    rwa [Nat.zero_add, ← cursor] at hlt
  · rw [cursor, List.length_append]
    exact Nat.le_add_right _ _
  · have hlt : i < ns.length := cursor ▸ hi
    refine ⟨ns[i], ?_, markers _ (h.mem_lost (List.getElem?_eq_getElem hlt) ?_)⟩
    · rw [List.getElem?_append_left hlt, List.getElem?_eq_getElem hlt]
    · rw [Nat.zero_add]
      exact Bool.eq_false_iff.mpr fun hnames => hnot (Plan.mem_named_iff.mpr hnames)

/-- The entries find all their children. Those before the first index play no part. -/
theorem takeAll (h : Lays i ns es ps lost) {front : List (Option Node)} (hf : front.length = i) :
    Plan.TakeAll es (front ++ ns.map some) := by
  induction h generalizing front with
  | done => trivial
  | @keep i n ns es ps lost _ ih =>
    subst hf
    refine ⟨⟨n, by simp⟩, ?_⟩
    have hfront : (front ++ [none]).length = front.length + 1 := List.length_append
    have hrest := ih hfront
    simpa [Entry.leaves] using hrest
  | @slide i run ns es ps lost nonempty _ ih =>
    subst hf
    have hpos := List.length_pos_iff.mpr nonempty
    refine ⟨⟨Nat.lt_add_of_pos_right hpos, by simp, fun i hle hlt => ?_⟩, ?_⟩
    · obtain ⟨k, rfl⟩ := Nat.exists_eq_add_of_le hle
      have hk : k < run.length := by omega
      refine ⟨run[k], ?_⟩
      rw [List.getElem?_append_right hle, Nat.add_sub_cancel_left, List.getElem?_map,
        List.getElem?_append_left hk, List.getElem?_eq_getElem hk, Option.map_some]
    · have hfront : (front ++ run.map fun _ => none).length = front.length + run.length := by simp
      have hrest := ih hfront
      have hin := drop_take_run front (run.map some) (ns.map some)
      rw [List.length_map] at hin
      rw [Entry.leaves, List.map_append, hin, Nat.max_eq_right (Nat.le_add_right _ _)]
      simpa [Function.comp_def] using hrest
  | @skip i n ns es ps lost _ ih =>
    subst hf
    have hfront : (front ++ [some n]).length = front.length + 1 := List.length_append
    have hrest := ih hfront
    simpa using hrest

end Lays

namespace Plan

variable {c : Cutter} {before after todo : List Node} {n : Node} {plan : Plan} {a : Assembly}

/-- No child is named or excluded before the walk has come to it, blanks before a marker apart. -/
theorem Stands.lt_length (h : plan.Stands c before (n :: after) a) (hn : n.isWhitespace = false)
    {i : Nat} (hi : i ∈ plan.named ++ plan.excluded) : i < before.length := by
  rcases List.mem_append.mp hi with hi | hi
  · have hnames := mem_named_iff.mp hi
    cases h with
    | behind cursor excluded lays =>
      have hlt := lays.lt_of_names hnames
      rw [List.length_take] at hlt
      omega
    | @ahead blanks rest m ps lost todo_eq blank marker cursor excluded lays =>
      cases blanks with
      | nil =>
        have hlt := lays.lt_of_names hnames
        rwa [List.append_nil, Nat.zero_add] at hlt
      | cons b blanks =>
        obtain ⟨rfl, -⟩ := List.cons.inj todo_eq
        rw [blank n List.mem_cons_self] at hn
        cases hn
  · exact h.excluded_lt i hi

/-- The cursor runs ahead of the walk only where a marker comes next, blanks apart. -/
theorem Stands.cursor_le (h : plan.Stands c before (n :: after) a) (hn : n.isWhitespace = false)
    (hm : c.isMarker n = false) : plan.cursor ≤ before.length := by
  cases h with
  | behind cursor excluded lays => exact cursor
  | @ahead blanks rest m ps lost todo_eq blank marker cursor excluded lays =>
    have hcomes : c.MarkerComes (n :: after) := ⟨blanks, m, rest, todo_eq, blank, marker⟩
    rw [hcomes.head hn] at hm
    cases hm

/-- A plan that stands for an assembly which has dropped only markers is sound. -/
theorem Stands.sound (h : plan.Stands c before todo a)
    (markers : ∀ n ∈ a.dropped, c.isMarker n = true) : plan.Sound c (before ++ todo) := by
  have hexcluded : ∀ i ∈ plan.excluded, i < (before ++ todo).length := fun i hi => by
    have := h.excluded_lt i hi
    rw [List.length_append]
    omega
  cases h with
  | @behind ps lost cursor _ lays =>
    have hsplit : before ++ todo =
        before.take plan.cursor ++ (before.drop plan.cursor ++ todo) := by
      rw [← List.append_assoc, List.take_append_drop]
    rw [hsplit] at hexcluded ⊢
    exact lays.sound (List.length_take_of_le cursor).symm markers hexcluded
  | @ahead blanks rest m ps lost todo_eq _ marker cursor _ lays =>
    have hpassed := lays.append (Lays.skip (n := m) (.done _)) rfl
    rw [List.append_nil] at hpassed
    have hsplit : before ++ todo = before ++ blanks ++ [m] ++ rest := by
      rw [todo_eq]
      simp
    rw [hsplit] at hexcluded ⊢
    refine hpassed.sound ?_ (fun n hn => ?_) hexcluded
    · rw [cursor, List.length_append, List.length_append, List.length_singleton]
    · rcases List.mem_append.mp hn with hn | hn
      · exact markers n hn
      · rwa [List.mem_singleton.mp hn]

theorem Stands.carriedOut {children : List Node} (h : plan.Stands c children [] a)
    (markers : ∀ n ∈ a.dropped, c.isMarker n = true) : plan.CarriedOut c children := by
  have hlays := h.flush rfl []
  rw [List.append_nil] at hlays
  have hshown := hlays.flatMap_shown c.wrap [] rfl
  rw [List.nil_append] at hshown
  have hnone : ([] : List (Option Node)).length = 0 := rfl
  have hbuilt := congrArg Prod.fst (hlays.carryOut c.wrap hnone)
  have hexcluded : ∀ i ∈ plan.excluded, i < (children ++ []).length := by
    rw [List.append_nil]
    exact h.excluded_lt
  have hend : Lays 0 children
      ((plan.flush children children.length).resumeAt children.length).entries
      a.settle.settled a.dropped := hlays
  have hsound := hend.sound rfl markers hexcluded
  rw [List.append_nil] at hsound
  exact ⟨hsound, hlays.takeAll hnone, Prod.ext (hbuilt.trans hshown.symm) (carryOut_slides _ _ _)⟩

end Plan
end SlideDeck
