import SlideDeck.Proofs.Slides.Unfired

/-!
The expressions of a document by their numbers in document order. A recursion says at which of them
directives fire. Any others can hold other comments without directives, and the document is cut as
before.
-/
namespace SlideDeck

open Node (notesAll filled)

/-- The mode behind a node with children, entered in one mode, when the last of its children is left
in another. -/
def SkipMode.behind (entered left : SkipMode) : SkipMode :=
  if entered.suppressesDescent then entered
  else if left.suppressesDescent then .stopped else left

/-- The items that are marked. -/
def marked {α : Type} (items : List α) (marks : List Bool) : List α :=
  ((items.zip marks).filter Prod.snd).map Prod.fst

theorem marked_append {α : Type} {xs ys : List α} {as bs : List Bool}
    (h : xs.length = as.length) : marked (xs ++ ys) (as ++ bs) = marked xs as ++ marked ys bs := by
  rw [marked, List.zip_append h, List.filter_append, List.map_append]
  rfl

theorem marked_replicate_false {α : Type} (items : List α) (k : Nat) :
    marked items (List.replicate k false) = [] := by
  rw [marked, List.map_eq_nil_iff, List.filter_eq_nil_iff]
  intro x hx
  rw [List.eq_of_mem_replicate (List.of_mem_zip hx).2]
  exact Bool.false_ne_true

theorem exists_of_mem_marked {α : Type} {items : List α} {marks : List Bool} {x : α}
    (h : x ∈ marked items marks) :
    ∃ i : Nat, items[i]? = some x ∧ marks[i]? = some true := by
  obtain ⟨⟨y, mark⟩, hmem, rfl⟩ := List.mem_map.mp h
  obtain ⟨hzip, hmark⟩ := List.mem_filter.mp hmem
  obtain rfl : mark = true := hmark
  obtain ⟨i, hi⟩ := List.mem_iff_getElem?.mp hzip
  exact ⟨i, List.getElem?_zip_eq_some.mp hi⟩

namespace Cutter

mutual

/-- Behind a node the mode, and of each of the expressions in the node whether a directive has fired
at it. -/
def marks (c : Cutter) : Node → SkipMode → SkipMode × List Bool
  | .root cs, mode => (mode.behind (marksAll c cs mode).1, (marksAll c cs mode).2)
  | .element _ _ cs, mode => (mode.behind (marksAll c cs mode).1, (marksAll c cs mode).2)
  | .component _ _ cs, mode => (mode.behind (marksAll c cs mode).1, (marksAll c cs mode).2)
  | .expression v cs, mode =>
    match c.fires? mode (.expression v cs) with
    | some (_, next) => (next, [true])
    | none => (mode, [false])
  | .text _, mode => (mode, [])
  | .doctype _, mode => (mode, [])
  | .esm _ _, mode => (mode, [])
  | .comment _, mode => (mode, [])
  | .raw _, mode => (mode, [])

def marksAll (c : Cutter) : List Node → SkipMode → SkipMode × List Bool
  | [], mode => (mode, [])
  | n :: rest, mode =>
    ((marksAll c rest (marks c n mode).1).1,
      (marks c n mode).2 ++ (marksAll c rest (marks c n mode).1).2)

end

/-- Of each of the expressions in a document, in document order, whether a directive fires at it. -/
def firesAt (c : Cutter) (tree : Node) : List Bool := (c.marks tree .stopped).2

/-- The course goes through nodes with the comments `notes` as the marks for these nodes say. -/
structure Tells (notes : List (List String)) (s s' : Course) (m : SkipMode × List Bool) :
    Prop where
  mode : s'.mode = m.1
  length : m.2.length = notes.length
  fired : s'.fired.map (·.1.comments) = s.fired.map (·.1.comments) ++ marked notes m.2

variable {c : Cutter} {n : Node} {mode : SkipMode} {s s' : Course} {places : List String → Bool}
  {f : List String → List String}

theorem marks_of_isContainer (h : n.isContainer = true) (mode : SkipMode) :
    c.marks n mode = (mode.behind (c.marksAll (n.children?.getD []) mode).1,
      (c.marksAll (n.children?.getD []) mode).2) := by
  cases n <;> first | rfl | cases h

theorem notesAll_filled (nodes : List Node) : notesAll (nodes.map (filled places f)) =
    (notesAll nodes).map fun cs => if places cs = true then f cs else cs := by
  have hpreorder : Node.preorderAll (nodes.map (filled places f)) =
      (Node.preorderAll nodes).map (filled places f) := by
    induction nodes with
    | nil => rfl
    | cons n rest ih =>
      rw [List.map_cons, Node.preorderAll, Node.preorderAll, ih, List.map_append,
        (Node.keepsShape_filled places f).preorder]
  rw [notesAll, hpreorder, List.filterMap_map, notesAll, List.map_filterMap]
  apply congrArg (List.filterMap · (Node.preorderAll nodes))
  funext n
  cases n <;> rfl

theorem marksAll_of_suppressed {nodes : List Node}
    (step : ∀ n ∈ nodes, c.marks n mode = (mode, List.replicate (notesAll [n]).length false)) :
    c.marksAll nodes mode = (mode, List.replicate (notesAll nodes).length false) := by
  induction nodes with
  | nil => rfl
  | cons n rest ih =>
    have hnotes : notesAll (n :: rest) = notesAll [n] ++ notesAll rest :=
      Node.notesAll_append [n] rest
    rw [marksAll, step n List.mem_cons_self, ih fun m hm => step m (List.mem_cons_of_mem n hm),
      hnotes, List.length_append, ← List.replicate_append_replicate]

/-- Where nothing is visited any more nothing fires. -/
theorem marks_of_suppressed (hs : mode.suppressesDescent = true) (n : Node) :
    c.marks n mode = (mode, List.replicate (notesAll [n]).length false) := by
  induction n using Node.induction_children with
  | step n ih =>
    cases hn : n.isContainer with
    | true =>
      rw [marks_of_isContainer hn, marksAll_of_suppressed ih, SkipMode.behind, if_pos hs,
        Node.notesAll_singleton_of_isContainer hn]
    | false =>
      cases n with
      | expression v cs =>
        have hfires : c.fires? mode (.expression v cs) = none :=
          SkipMode.firing?_of_suppressed hs _
        rw [marks, hfires]
        rfl
      | _ => first | rfl | cases hn

theorem tells_all {nodes : List Node}
    (step : ∀ n ∈ nodes, ∀ s : Course, Tells (notesAll [n]) s
      (s.visit (c.directive? ∘ filled places f) n) (c.marks (n.filled places f) s.mode))
    (s : Course) : Tells (notesAll nodes) s (s.visitAll (c.directive? ∘ filled places f) nodes)
      (c.marksAll (nodes.map (filled places f)) s.mode) := by
  induction nodes generalizing s with
  | nil =>
    rw [Course.visitAll_nil]
    exact ⟨rfl, rfl, (List.append_nil _).symm⟩
  | cons n rest ih =>
    have hn := step n List.mem_cons_self s
    have hrest := ih (fun m hm => step m (List.mem_cons_of_mem n hm))
      (s.visit (c.directive? ∘ filled places f) n)
    rw [hn.mode] at hrest
    have hnotes : notesAll (n :: rest) = notesAll [n] ++ notesAll rest :=
      Node.notesAll_append [n] rest
    rw [Course.visitAll_cons, List.map_cons, marksAll, hnotes]
    constructor
    · exact hrest.mode
    · rw [List.length_append, List.length_append, hn.length, hrest.length]
    · rw [hrest.fired, hn.fired, marked_append hn.length.symm, List.append_assoc]

/-- A leaf at which no directive fires. -/
theorem tells_leaf (hn : n.isContainer = false) (hs : s.mode.suppressesDescent = false)
    (hf : c.fires? s.mode (n.filled places f) = none) :
    Tells (notesAll [n]) s (s.ascend n s.inside) (c.marks (n.filled places f) s.mode) := by
  have hmode : (s.ascend n s.inside).mode = s.mode := by
    show (if s.mode.suppressesDescent = true then SkipMode.stopped else s.mode) = s.mode
    rw [hs, if_neg Bool.false_ne_true]
  cases n with
  | expression v cs =>
    rw [show Node.filled places f (.expression v cs) = .expression v (if places cs = true then f cs
      else cs) from rfl] at hf ⊢
    rw [marks, hf]
    exact ⟨hmode, rfl, (List.append_nil _).symm⟩
  | _ => first | exact ⟨hmode, rfl, (List.append_nil _).symm⟩ | cases hn

/-- An expression at which a directive fires. -/
theorem tells_fired {d : Directive} {next : SkipMode}
    (hf : c.fires? s.mode (n.filled places f) = some (d, next)) :
    Tells (notesAll [n]) s (s.fire n d next) (c.marks (n.filled places f) s.mode) := by
  obtain ⟨v, cs, hexpression⟩ := eq_expression_of_directive? (transition_of_fires? hf).1
  cases n with
  | expression v' cs' =>
    rw [hexpression] at hf ⊢
    rw [marks, hf]
    constructor
    · rfl
    · rfl
    · rw [Course.fire, List.map_append]
      rfl
  | _ => cases hexpression

/-- A node with children, whose directives fire below it. -/
theorem tells_container (hn : n.isContainer = true) (hs : s.mode.suppressesDescent = false)
    {inner : Course} (h : Tells (notesAll (n.children?.getD [])) s.inside inner
      (c.marksAll ((n.children?.getD []).map (filled places f)) s.mode)) :
    Tells (notesAll [n]) s (s.ascend n inner) (c.marks (n.filled places f) s.mode) := by
  have hg := Node.keepsShape_filled places f
  have hfilled : (n.filled places f).isContainer = true := by
    rw [Node.isContainer, hg.children?, Option.isSome_map]
    exact hn
  rw [marks_of_isContainer hfilled, hg.children_getD, Node.notesAll_singleton_of_isContainer hn]
  constructor
  · rw [SkipMode.behind, hs, if_neg Bool.false_ne_true, ← h.mode]
    rfl
  · exact h.length
  · exact h.fired

/-- The course through a document with comments filled in is the one that the marks tell. -/
theorem tells_visit (c : Cutter) (places : List String → Bool) (f : List String → List String)
    (n : Node) (s : Course) : Tells (notesAll [n]) s
    (s.visit (c.directive? ∘ filled places f) n) (c.marks (n.filled places f) s.mode) := by
  induction n using Node.induction_children generalizing s with
  | step n ih =>
    cases hs : s.mode.suppressesDescent with
    | true =>
      have hnotes : notesAll [n.filled places f] = _ := notesAll_filled [n]
      rw [Course.visit_of_suppressed hs, marks_of_suppressed hs, hnotes, List.length_map]
      constructor
      · rfl
      · rw [List.length_replicate]
      · rw [marked_replicate_false, List.append_nil]
        rfl
    | false =>
      cases hf : c.fires? s.mode (n.filled places f) with
      | some r =>
        obtain ⟨d, next⟩ := r
        rw [Course.visit_of_firing? (c.directive? ∘ filled places f) hs hf]
        exact tells_fired hf
      | none =>
        rw [Course.visit_of_none (c.directive? ∘ filled places f) hs hf]
        cases hn : n.isContainer with
        | true => exact tells_container hn hs (tells_all ih s.inside)
        | false =>
          have hchildren : n.children? = none := by
            rwa [Node.isContainer, Option.isSome_eq_false_iff, Option.isNone_iff_eq_none] at hn
          rw [hchildren, Option.getD_none, Course.visitAll_nil]
          exact tells_leaf hn hs hf

theorem filled_nowhere (n : Node) : n.filled (fun _ => false) f = n := by
  apply (Node.keepsShape_filled (fun _ => false) f).eq_self
  intro m _
  cases m <;> rfl

/-- The directives that fire on the walk are those of the marked expressions. -/
theorem comments_firings (c : Cutter) (tree : Node) :
    (c.firings tree).filterMap (fun turn => turn.entered?.map Node.comments) =
      marked (notesAll [tree]) (c.firesAt tree) := by
  have htells := (tells_visit c (fun _ => false) id tree {}).fired
  have hread : c.directive? ∘ filled (fun _ => false) id = c.directive? :=
    funext fun n => congrArg c.directive? (filled_nowhere n)
  rw [hread, filled_nowhere] at htells
  have hfirings := congrArg (List.map Node.comments) (c.map_entered?_firings tree)
  rw [List.map_filterMap, List.map_map] at hfirings
  exact hfirings.trans htells

/-- Behind a comment that keeps its box whole nothing fires in the box. -/
example :
    let c := Cutter.ofKeyword "hr" "Slide" ⟨[]⟩ "skip"
    let box := Node.component (some "Box") ⟨[]⟩ [.note "skip inner", .note "skip start"]
    c.firesAt (.root [box]) = [true, false] := by
  cbv

/-- No directive fires at a place, when the places are expressions at which none fires. -/
theorem unfired_of_firesAt {held : Node} {chosen : Nat → Bool}
    (hchosen : ∀ (i : Nat) cs, (notesAll [held])[i]? = some cs → places cs = chosen i)
    (unfired : ∀ i, chosen i = true → (c.firesAt (held.filled places f))[i]? ≠ some true) :
    ∀ x ∈ (c.courseFilled places f held).fired, x.1.isPlace places = false := by
  intro x hx
  have htells := (tells_visit c places f held {}).fired
  have hmem : x.1.comments ∈ marked (notesAll [held]) (c.firesAt (held.filled places f)) := by
    rw [← List.nil_append (marked _ _)]
    exact htells ▸ List.mem_map_of_mem hx
  obtain ⟨i, hnotes, hfires⟩ := exists_of_mem_marked hmem
  cases hplace : x.1.isPlace places with
  | false => rfl
  | true =>
    have hopen := hchosen i _ hnotes
    rw [Node.places_of_isPlace hplace] at hopen
    exact absurd hfires (unfired i hopen.symm)

/-- Any expressions of a document can be places, given by their numbers in document order, each with
comments that tell it apart from all other expressions. -/
theorem exists_places (c : Cutter) (tree : Node) (opened : Nat → Bool) : ∃ (held : Node)
    (places : List String → Bool) (f : List String → List String),
    held.filled places f = tree ∧
      (∀ (i : Nat) cs, (Node.notesAll [held])[i]? = some cs → places cs = opened i) ∧
      (∀ (i j : Nat) cs, places cs = true → (Node.notesAll [held])[i]? = some cs →
        (Node.notesAll [held])[j]? = some cs → i = j) ∧
      ∀ cs, places cs = true → c.skip.find? cs = none := by
  obtain ⟨held, places, f, hfilled, hopened, hdistinct, hempty⟩ := Node.exists_filled tree opened
  refine ⟨held, places, f, hfilled, hopened, hdistinct, fun cs hcs => ?_⟩
  refine List.findSome?_eq_none_iff.mpr fun comment hcomment => ?_
  rw [hempty cs hcs comment hcomment, SkipComment.parse?_empty]

/-- In any document choose expressions at which no directive fires. There is a document that holds
places at just these, each told apart from all other expressions, and is the given one when the
comments are filled in there. The two are cut alike, and so are they when any other comments without
directives are filled in. The places are all in the new document or in what was lost. -/
theorem cut_of_unfired (c : Cutter) (tree : Node) (chosen : Nat → Bool)
    (unfired : ∀ i, chosen i = true → (c.firesAt tree)[i]? ≠ some true) :
    ∃ (held : Node) (places : List String → Bool) (f : List String → List String),
      held.filled places f = tree ∧
        (∀ (i : Nat) cs, (notesAll [held])[i]? = some cs → places cs = chosen i) ∧
        (∀ (i j : Nat) cs, places cs = true → (notesAll [held])[i]? = some cs →
          (notesAll [held])[j]? = some cs → i = j) ∧
        c.cut tree = ((c.cut held).1, (c.cut held).2.filled places f) ∧
        c.lost tree = (c.lost held).map (filled places f) ∧
        (∀ g : List String → List String,
          (∀ cs, places cs = true → c.skip.find? (g cs) = none) →
            c.cut (held.filled places g) = ((c.cut tree).1, (c.cut held).2.filled places g)) ∧
        ((Node.preorderAll ((c.cut held).2 :: c.lost held)).filter (Node.isPlace places)).Perm
          (held.preorder.filter (Node.isPlace places)) := by
  obtain ⟨held, places, f, rfl, hchosen, hapart, hplaces⟩ := c.exists_places tree chosen
  have hfired := unfired_of_firesAt hchosen unfired
  obtain ⟨hcut, hlost⟩ := cut_filled_eq hplaces hfired
  refine ⟨held, places, f, rfl, hchosen, hapart, hcut, hlost, ?_, perm_places hplaces held⟩
  intro g hg
  rw [(cut_filled_eq hplaces (unfired_of_inert hg held)).1, hcut]

end Cutter
end SlideDeck
