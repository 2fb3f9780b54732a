import SlideDeck.Proofs.Node.Filled
import SlideDeck.Proofs.Slides.Course
import SlideDeck.Proofs.Slides.Relabelling
import SlideDeck.Proofs.Slides.Tally

/-!
Directives that do not fire. Where a directive is read but does not fire, the walk goes on as if the
comments there said nothing, so they can be replaced by any others that carry no directive.
-/
namespace SlideDeck

open Node (KeepsShape)

variable {g : Node → Node} {n : Node}

theorem SkipComment.parse?_empty (skip : SkipComment) : skip.parse? "" = none := by
  obtain ⟨keyword⟩ := skip
  cases keyword <;> rfl

namespace Course

variable {read : Node → Option Directive} {s : Course}

def map (g : Node → Node) (s : Course) : Course where
  mode := s.mode
  fired := s.fired.map fun x => (g x.1, x.2)
  kept := s.kept.map g

theorem map_ascend (hg : KeepsShape g) (n : Node) (s inner : Course) :
    (s.map g).ascend (g n) (inner.map g) = (s.ascend n inner).map g := by
  simp only [ascend, map, List.map_append, List.map_singleton, hg.withChildren]
  rfl

theorem map_visitAll {nodes : List Node}
    (step : ∀ n ∈ nodes, ∀ s, visit read (g n) (s.map g) = (visit (read ∘ g) n s).map g)
    (s : Course) :
    visitAll read (nodes.map g) (s.map g) = (visitAll (read ∘ g) nodes s).map g := by
  induction nodes generalizing s with
  | nil => rw [List.map_nil, visitAll_nil, visitAll_nil]
  | cons n rest ih =>
    rw [List.map_cons, visitAll_cons, visitAll_cons, step n List.mem_cons_self]
    exact ih (fun m hm => step m (List.mem_cons_of_mem n hm)) _

/-- Nodes can be changed before or after they are visited, when directives are read in them as they
are behind the change. -/
theorem map_visit (hg : KeepsShape g) (read : Node → Option Directive) (n : Node) (s : Course) :
    visit read (g n) (s.map g) = (visit (read ∘ g) n s).map g := by
  induction n using Node.induction_children generalizing s with
  | step n ih =>
    cases hs : s.mode.suppressesDescent with
    | true =>
      rw [visit_of_suppressed (s := s.map g) hs, visit_of_suppressed hs]
      simp [map, pass]
    | false =>
      cases hf : s.mode.firing? (read (g n)) with
      | some r =>
        rw [visit_of_firing? read (s := s.map g) hs hf, visit_of_firing? (read ∘ g) hs hf]
        simp [map, fire]
      | none =>
        have hbelow : visitAll read ((g n).children?.getD []) (s.map g).inside =
            (visitAll (read ∘ g) (n.children?.getD []) s.inside).map g := by
          rw [hg.children_getD]
          exact map_visitAll ih s.inside
        rw [visit_of_none read (s := s.map g) hs hf, visit_of_none (read ∘ g) hs hf, hbelow,
          map_ascend hg]

end Course

namespace Cutter

variable {c : Cutter} {s : Course} {l : Level}

/-- The change of labels takes no directive away and makes no marker, but it may put directives in
where there was none. -/
structure Redirects (c : Cutter) (g : Node → Node) : Prop extends Relabels c c g where
  isMarker_eq : ∀ n, c.isMarker (g n) = c.isMarker n
  directive : ∀ n, c.directive? n = none ∨ c.directive? n = c.directive? (g n)

/-- All directives that fired are read in the nodes as they stand. -/
def Faithful (c : Cutter) (s : Course) : Prop := ∀ x ∈ s.fired, c.directive? x.1 = some x.2

namespace Redirects

theorem markerNext_map (hg : Redirects c g) (after : List Node) :
    c.markerNext (after.map g) = c.markerNext after := by
  have hblank : Node.isWhitespace ∘ g = Node.isWhitespace := funext hg.isWhitespace
  simp only [markerNext, List.dropWhile_map, hblank, List.head?_map, Option.any_map,
    hg.isMarker_eq]

theorem levelAll_of {nodes : List Node}
    (step : ∀ n ∈ nodes, ∀ after (s : Course) (l : Level), l.mode = s.mode →
      Faithful c (s.visit (c.directive? ∘ g) n) →
        c.level (g n) (after.map g) (l.map g) = (c.level n after l).map g ∧
          (c.level n after l).mode = (s.visit (c.directive? ∘ g) n).mode)
    (beyond : List Node) (hmode : l.mode = s.mode)
    (hfired : Faithful c (s.visitAll (c.directive? ∘ g) nodes)) :
    c.levelAll (nodes.map g) (beyond.map g) (l.map g) = (c.levelAll nodes beyond l).map g ∧
      (c.levelAll nodes beyond l).mode = (s.visitAll (c.directive? ∘ g) nodes).mode := by
  induction nodes generalizing s l with
  | nil =>
    rw [List.map_nil, levelAll_nil, levelAll_nil, Course.visitAll_nil]
    exact ⟨rfl, hmode⟩
  | cons n rest ih =>
    rw [Course.visitAll_cons] at hfired ⊢
    obtain ⟨hlevel, hmode'⟩ := step n List.mem_cons_self (rest ++ beyond) s l hmode
      fun x hx => hfired x (Course.fired_subset_visitAll _ rest _ hx)
    rw [List.map_cons, levelAll_cons, levelAll_cons, ← List.map_append, hlevel]
    exact ih (fun m hm => step m (List.mem_cons_of_mem n hm)) hmode' hfired

theorem fires?_eq (hg : Redirects c g) (hs : s.mode.suppressesDescent = false)
    (hfired : Faithful c (s.visit (c.directive? ∘ g) n)) :
    c.fires? s.mode (g n) = c.fires? s.mode n := by
  cases hf : c.fires? s.mode (g n) with
  | some r =>
    obtain ⟨d, mode⟩ := r
    rw [Course.visit_of_firing? (c.directive? ∘ g) hs hf] at hfired
    have hread : c.directive? n = some d :=
      hfired (n, d) (List.mem_append_right _ List.mem_cons_self)
    rw [fires?, hread, ← (transition_of_fires? hf).1]
    exact hf.symm
  | none =>
    rcases hg.directive n with h | h
    · rw [fires?, h]
      rfl
    · rw [fires?, h]
      exact hf.symm

/-- As long as no directive fires that the change put in, nodes can be changed before or after they
are visited. -/
theorem level (hg : Redirects c g) (n : Node) (after : List Node) (hmode : l.mode = s.mode)
    (hfired : Faithful c (s.visit (c.directive? ∘ g) n)) :
    c.level (g n) (after.map g) (l.map g) = (c.level n after l).map g ∧
      (c.level n after l).mode = (s.visit (c.directive? ∘ g) n).mode := by
  induction n using Node.induction_children generalizing after s l with
  | step n ih =>
    rw [level_eq, level_eq, around, around, hg.isMarker_eq, Level.map_mode, hmode]
    cases hs : s.mode.suppressesDescent with
    | true =>
      rw [if_pos rfl, if_pos rfl, Course.visit_of_suppressed hs]
      exact ⟨(Level.map_pass hg.toKeepsShape n l).symm, hmode⟩
    | false =>
      have hfires := hg.fires?_eq hs hfired
      rw [if_neg Bool.false_ne_true, if_neg Bool.false_ne_true, hfires]
      cases hf : c.fires? s.mode n with
      | some r =>
        obtain ⟨d, mode⟩ := r
        rw [Course.visit_of_firing? (c.directive? ∘ g) hs (hfires.trans hf),
          (of_fires? hf).2, Bool.and_false, if_neg Bool.false_ne_true, if_neg Bool.false_ne_true]
        exact ⟨(Level.map_follow g d mode l).symm, rfl⟩
      | none =>
        rw [Course.visit_of_none (c.directive? ∘ g) hs (hfires.trans hf)] at hfired ⊢
        generalize hinner : c.levelAll (n.children?.getD []) [] l.inside = inner
        obtain ⟨hbelow, hmode'⟩ : c.levelAll ((n.children?.getD []).map g) [] (l.inside.map g) =
            (c.levelAll (n.children?.getD []) [] l.inside).map g ∧ _ :=
          levelAll_of (s := s.inside) (fun k hk after s l hl => ih k hk after hl) [] hmode hfired
        rw [hinner] at hbelow hmode'
        have hascend (l₀ : Level) : c.ascend (g n) (after.map g) (l₀.map g) (inner.map g) =
            (c.ascend n after l₀ inner).map g :=
          hg.ascend_of (hg.withChildren n) (hg.markerNext_map after) l₀ inner
        have hleft (l₀ : Level) : (c.ascend n after l₀ inner).mode =
            (s.ascend n (s.inside.visitAll (c.directive? ∘ g) (n.children?.getD []))).mode := by
          rw [ascend_mode, Level.modeAfter, hmode']
          rfl
        rw [hg.children_getD, ← Level.map_inside, hbelow]
        cases s.mode.splits && c.isMarker n with
        | true =>
          rw [if_pos rfl, if_pos rfl, ← Level.map_meetMarker hg.toKeepsShape]
          exact ⟨hascend _, hleft _⟩
        | false =>
          rw [if_neg Bool.false_ne_true, if_neg Bool.false_ne_true]
          exact ⟨hascend l, hleft l⟩

theorem isContainer_iff (hg : Redirects c g) (n : Node) : (g n).isContainer = n.isContainer := by
  rw [Node.isContainer, hg.children?, Option.isSome_map]
  rfl

theorem levelOf (hg : Redirects c g) {tree : Node} (hroot : tree.isContainer = true)
    (hfired : Faithful c (Course.visit (c.directive? ∘ g) tree {})) :
    c.levelOf (g tree) = (c.levelOf tree).map g := by
  have hread : (c.directive? ∘ g) tree = none :=
    directive?_of_isContainer ((hg.isContainer_iff tree).trans hroot)
  rw [Course.visit_of_none _ rfl (by rw [hread]; rfl)] at hfired
  rw [Cutter.levelOf, Cutter.levelOf, hg.children_getD]
  exact (levelAll_of (s := {}) (l := {}) (fun n _ after s l hl => hg.level n after hl) [] rfl
    hfired).1

end Redirects

theorem redirects_filled {places : List String → Bool}
    (hplaces : ∀ cs, places cs = true → c.skip.find? cs = none) (f : List String → List String) :
    Redirects c (Node.filled places f) where
  toKeepsShape := Node.keepsShape_filled places f
  marker := rfl
  skip := rfl
  wrap nodes := Node.filled_withChildren (n := c.wrap []) rfl nodes
  isMarker_eq n := by
    rw [isMarker, Node.hasName, Node.name?_filled]
    rfl
  directive n := by
    cases h : n.isPlace places with
    | true =>
      cases n with
      | expression v cs => exact .inl (hplaces cs h)
      | _ => cases h
    | false =>
      right
      rw [directive?, directive?, Node.comments_filled_of_not_place h]

section Places

variable {places : List String → Bool} {f : List String → List String} {tree : Node}

/-- The course of the directives in a document with comments filled in, with the nodes as they were
before that. -/
def courseFilled (c : Cutter) (places : List String → Bool) (f : List String → List String)
    (tree : Node) : Course :=
  Course.visit (c.directive? ∘ Node.filled places f) tree {}

theorem read_of_fired {x : Node × Directive} (h : x ∈ (c.courseFilled places f tree).fired) :
    c.directive? (x.1.filled places f) = some x.2 := by
  obtain ⟨gone, kept, hprunes⟩ :=
    Course.prunes_visit (c.directive? ∘ Node.filled places f) tree {}
  rw [courseFilled, hprunes.fired, List.nil_append] at h
  exact hprunes.read x h

theorem faithful_of_unfired
    (hfired : ∀ x ∈ (c.courseFilled places f tree).fired, x.1.isPlace places = false) :
    Faithful c (c.courseFilled places f tree) := by
  intro x hx
  have hread := read_of_fired hx
  rwa [directive?, Node.comments_filled_of_not_place (hfired x hx)] at hread

theorem unfired_of_inert (h : ∀ cs, places cs = true → c.skip.find? (f cs) = none) (tree : Node) :
    ∀ x ∈ (c.courseFilled places f tree).fired, x.1.isPlace places = false := by
  intro x hx
  have hread := read_of_fired hx
  cases hplace : x.1.isPlace places with
  | false => rfl
  | true =>
    rw [directive?, Node.comments_filled_of_place hplace,
      h _ (Node.places_of_isPlace hplace)] at hread
    cases hread

theorem cut_filled_eq (hplaces : ∀ cs, places cs = true → c.skip.find? cs = none)
    (hfired : ∀ x ∈ (c.courseFilled places f tree).fired, x.1.isPlace places = false) :
    c.cut (tree.filled places f) = ((c.cut tree).1, (c.cut tree).2.filled places f) ∧
      c.lost (tree.filled places f) = (c.lost tree).map (Node.filled places f) := by
  have hg := redirects_filled (c := c) hplaces f
  have hfaithful := faithful_of_unfired hfired
  cases hchildren : tree.children? with
  | some cs =>
    have hroot := Node.isContainer_of_children? hchildren
    have hroot' := (hg.isContainer_iff tree).trans hroot
    have hlevel := hg.levelOf hroot hfaithful
    refine ⟨hg.toRelabels.cut hroot hroot' hlevel (hg.withChildren tree), ?_⟩
    rw [c.lost_eq hroot, c.lost_eq hroot', hlevel, Level.losses_map, List.map_append]
    rfl
  | none =>
    have hleaf' : (tree.filled places f).children? = none := by
      rw [hg.children?, hchildren, Option.map_none]
    have hfires : c.fires? .stopped (tree.filled places f) = c.fires? .stopped tree :=
      hg.fires?_eq (s := {}) rfl hfaithful
    rw [cut_of_leaf hchildren, cut_of_leaf hleaf', hfires, lost_of_leaf hchildren,
      lost_of_leaf hleaf']
    cases c.fires? .stopped tree <;> exact ⟨rfl, rfl⟩

theorem countable_places (hplaces : ∀ cs, places cs = true → c.skip.find? cs = none)
    (q : Node → Bool) : Countable c fun m => q m && m.isPlace places where
  withChildren n cs := by
    cases n with
    | root ds => exact (Bool.and_false _).trans (Bool.and_false _).symm
    | element t p ds => exact (Bool.and_false _).trans (Bool.and_false _).symm
    | component m p ds => exact (Bool.and_false _).trans (Bool.and_false _).symm
    | _ => rfl
  undirected n h := by
    cases hplace : n.isPlace places with
    | false => exact Bool.and_false _
    | true =>
      rw [directive?, hplaces _ (Node.places_of_isPlace hplace)] at h
      cases h

theorem tally_places (hplaces : ∀ cs, places cs = true → c.skip.find? cs = none) (tree : Node)
    (q : Node → Bool) :
    Node.tally (fun m => q m && m.isPlace places) ((c.cut tree).2 :: c.lost tree) =
      Node.tally (fun m => q m && m.isPlace places) [tree] := by
  have hcountable := countable_places hplaces q
  cases hchildren : tree.children? with
  | some cs =>
    have hweight : c.slideWeight (fun m => q m && m.isPlace places) = 0 :=
      congrArg Bool.toNat (Bool.and_false (q (c.wrap [])))
    have htally := tally_cut hcountable (Node.isContainer_of_children? hchildren)
    rwa [hweight, Nat.zero_mul, Nat.add_zero, ← Node.tally_cons] at htally
  | none =>
    rw [lost_of_leaf hchildren, cut_of_leaf hchildren]
    cases hf : c.fires? .stopped tree with
    | none => rfl
    | some r =>
      have hdirective := Option.isSome_of_eq_some (transition_of_fires? hf).1
      rw [Node.tally_singleton, Node.tally_singleton _ tree, hchildren,
        hcountable.undirected tree hdirective]
      simp [Node.children?, Node.isPlace]

/-- No place is taken out: all places are in the new document or in what was lost. -/
theorem perm_places (hplaces : ∀ cs, places cs = true → c.skip.find? cs = none) (tree : Node) :
    ((Node.preorderAll ((c.cut tree).2 :: c.lost tree)).filter (Node.isPlace places)).Perm
      (tree.preorder.filter (Node.isPlace places)) := by
  classical
  refine List.perm_iff_count.mpr fun m => ?_
  rw [List.count_eq_countP, List.count_eq_countP, List.countP_filter, List.countP_filter,
    Node.countP_preorder]
  exact tally_places hplaces tree (· == m)

/-- Directives that do not fire have no part in how a document is cut. In a document whose places
hold comments without directives let others be filled in, with directives of which none fires at a
place. The counts and the mode at the end stay the same, and the new document and what was lost
change only in that the same comments are filled in there; so they do when comments without
directives come in their place. All places are in the new document or in what was lost. -/
theorem cut_filled (c : Cutter) (tree : Node)
    (hplaces : ∀ cs, places cs = true → c.skip.find? cs = none)
    (hfired : ∀ x ∈ (c.courseFilled places f tree).fired, x.1.isPlace places = false) :
    ((c.firings (tree.filled places f)).map fun turn => (turn.entered?, turn.fires?)) =
        (c.courseFilled places f tree).fired.map
          (fun x => (some (x.1.filled places f), some x.2)) ∧
      c.cut (tree.filled places f) = ((c.cut tree).1, (c.cut tree).2.filled places f) ∧
      (∀ g : List String → List String,
        (∀ cs, places cs = true → c.skip.find? (g cs) = none) →
          c.cut (tree.filled places g) =
            ((c.cut (tree.filled places f)).1, (c.cut tree).2.filled places g)) ∧
      c.lost (tree.filled places f) = (c.lost tree).map (Node.filled places f) ∧
      ((Node.preorderAll ((c.cut tree).2 :: c.lost tree)).filter (Node.isPlace places)).Perm
        (tree.preorder.filter (Node.isPlace places)) := by
  obtain ⟨hcut, hlost⟩ := cut_filled_eq hplaces hfired
  refine ⟨?_, hcut, fun g hg => ?_, hlost, perm_places hplaces tree⟩
  · have hmap : c.course (tree.filled places f) =
        (c.courseFilled places f tree).map (Node.filled places f) :=
      Course.map_visit (Node.keepsShape_filled places f) c.directive? tree {}
    rw [c.firings_eq, hmap, Course.map, List.map_map]
    rfl
  · rw [(cut_filled_eq hplaces (unfired_of_inert hg tree)).1, hcut]

/-- A region that is ended without having been started, and a directive in a node that is kept
whole already. -/
theorem cut_filled_nested :
    let c := Cutter.ofKeyword "hr" "Slide" ⟨[]⟩ "skip"
    let box := Node.component (some "Box") ⟨[]⟩
    let places (cs : List String) : Bool := cs == ["1"] || cs == ["2"]
    let f (cs : List String) : List String := if cs = ["1"] then ["skip stop"] else ["skip outer"]
    let tree : Node := .root [.text "a", .expression "x" ["1"], .element "hr" ⟨[]⟩ [],
      box [.note "skip inner", box [.expression "y" ["2"]]]]
    (∀ cs, places cs = true → c.skip.find? cs = none) ∧
      (∀ x ∈ (c.courseFilled places f tree).fired, x.1.isPlace places = false) ∧
      c.cut (tree.filled places f) = ((c.cut tree).1, (c.cut tree).2.filled places f) ∧
      (c.cut tree).1 = ⟨2, false, .stopped, false⟩ := by
  intro c box places f tree
  have hplaces : ∀ cs, places cs = true → c.skip.find? cs = none := by
    intro cs hcs
    simp only [places, Bool.or_eq_true, beq_iff_eq] at hcs
    rcases hcs with rfl | rfl
    · decide
    · decide
  have hfired : ∀ x ∈ (c.courseFilled places f tree).fired, x.1.isPlace places = false := by
    decide +kernel
  exact ⟨hplaces, hfired, (c.cut_filled tree hplaces hfired).2.1, by decide +kernel⟩

end Places

end Cutter
end SlideDeck
