import SlideDeck.Proofs.Slides.Agreement

/-!
Cutting without directives. A document in which no comment carries a directive is cut as a
definition by plain recursion says: a node is cut when a marker is among its children or one of
them is cut, and then every stretch between markers, preamble and children that are cut becomes a
slide.
-/
namespace SlideDeck

/-- New children of a node, and the number of slides that were built in them. -/
@[ext] structure Slicing where
  nodes : List Node
  slides : Nat

namespace Slicing

def empty : Slicing := ⟨[], 0⟩

instance : Append Slicing := ⟨fun s t => ⟨s.nodes ++ t.nodes, s.slides + t.slides⟩⟩

@[simp] theorem nodes_append (s t : Slicing) : (s ++ t).nodes = s.nodes ++ t.nodes := rfl

@[simp] theorem slides_append (s t : Slicing) : (s ++ t).slides = s.slides + t.slides := rfl

theorem append_assoc (s t u : Slicing) : s ++ t ++ u = s ++ (t ++ u) :=
  Slicing.ext (List.append_assoc _ _ _) (Nat.add_assoc _ _ _)

theorem empty_append (s : Slicing) : empty ++ s = s :=
  Slicing.ext (List.nil_append _) (Nat.zero_add _)

theorem append_empty (s : Slicing) : s ++ empty = s :=
  Slicing.ext (List.append_nil _) (Nat.add_zero _)

end Slicing

namespace Cutter

mutual

/-- A marker is among the children of the node, or one of them is cut. -/
def cuts (c : Cutter) : Node → Bool
  | .root cs => cutsAny c cs
  | .element _ _ cs => cutsAny c cs
  | .component _ _ cs => cutsAny c cs
  | _ => false

def cutsAny (c : Cutter) : List Node → Bool
  | [] => false
  | n :: rest => c.isMarker n || cuts c n || cutsAny c rest

end

/-- A stretch of neighbours: one slide around all of it but the blanks at its ends. -/
def stretch (c : Cutter) (nodes : List Node) : Slicing :=
  let ends := Ends.of Node.isWhitespace nodes
  if ends.core.isEmpty then ⟨nodes, 0⟩ else ⟨ends.ahead ++ c.wrap ends.core :: ends.behind, 1⟩

mutual

def slicing (c : Cutter) : Node → Slicing
  | .root cs => if c.cutsAny cs then slicingAll c [] cs else ⟨cs, 0⟩
  | .element _ _ cs => if c.cutsAny cs then slicingAll c [] cs else ⟨cs, 0⟩
  | .component _ _ cs => if c.cutsAny cs then slicingAll c [] cs else ⟨cs, 0⟩
  | _ => .empty

/-- What the children behind an open stretch are cut into. -/
def slicingAll (c : Cutter) : List Node → List Node → Slicing
  | nodes, [] => c.stretch nodes
  | nodes, n :: rest =>
    if c.cuts n then
      c.stretch nodes ++ ⟨[n.withChildren (slicing c n).nodes], (slicing c n).slides⟩ ++
        slicingAll c [] rest
    else if n.isPreamble then c.stretch nodes ++ ⟨[n], 0⟩ ++ slicingAll c [] rest
    else if c.isMarker n then c.stretch nodes ++ slicingAll c [] rest
    else slicingAll c (nodes ++ [n]) rest

end

/-- Cutting a document by recursion. When no slide is built, everything but the preamble goes into a
single one. -/
def reference (c : Cutter) (tree : Node) : Stats × Node :=
  let s := c.slicing tree
  if s.slides = 0 then
    let (preamble, content) := s.nodes.partition Node.isPreamble
    (⟨1, true, .stopped, false⟩, tree.withChildren (preamble ++ [c.wrap content]))
  else (⟨s.slides, false, .stopped, false⟩, tree.withChildren s.nodes)

/-- No comment of the node or below it carries a directive. -/
def Undirected (c : Cutter) (node : Node) : Prop :=
  ∀ n ∈ node.preorder, ∀ comment ∈ n.comments, c.skip.parse? comment = none

variable {c : Cutter} {n : Node} {after ys : List Node} {l : Level}

theorem Undirected.fires? (h : c.Undirected n) (mode : SkipMode) : c.fires? mode n = none := by
  have hfind : c.directive? n = none := by
    rw [directive?, SkipComment.find?, List.findSome?_eq_none_iff]
    exact h n n.mem_preorder_self
  rw [Cutter.fires?, hfind, Option.bind_none]

theorem Undirected.child (h : c.Undirected n) {child : Node} (hc : child ∈ n.children?.getD []) :
    c.Undirected child := fun m hm => h m (Node.mem_preorder_of_child hc hm)

theorem cuts_eq (c : Cutter) (n : Node) : c.cuts n = c.cutsAny (n.children?.getD []) := by
  cases n <;> simp [cuts, cutsAny, Node.children?]

theorem slicing_eq (c : Cutter) (n : Node) :
    c.slicing n = if c.cuts n then c.slicingAll [] (n.children?.getD [])
      else ⟨n.children?.getD [], 0⟩ := by
  rw [cuts_eq]
  cases n <;> rfl

def Plain (c : Cutter) (n : Node) : Prop := c.isMarker n = false ∧ c.cuts n = false

def ofPieces (c : Cutter) (pieces : List Piece) : Slicing :=
  ⟨pieces.map (Piece.build c.wrap), Piece.slideCount pieces⟩

theorem ofPieces_append (c : Cutter) (ps qs : List Piece) :
    c.ofPieces (ps ++ qs) = c.ofPieces ps ++ c.ofPieces qs := by
  rw [ofPieces, List.map_append, Piece.slideCount_append]
  rfl

theorem ofPieces_cons (c : Cutter) (p : Piece) (ps : List Piece) :
    c.ofPieces (p :: ps) = c.ofPieces [p] ++ c.ofPieces ps := c.ofPieces_append [p] ps

theorem ofPieces_bare (c : Cutter) (n : Node) : c.ofPieces [.bare n] = ⟨[n], 0⟩ := rfl

theorem stretch_eq (c : Cutter) (nodes : List Node) :
    c.stretch nodes = c.ofPieces (Piece.ofSegment (nodes.map (·, false))) := by
  have hedge : Piece.isEdge ∘ (fun n : Node => (n, false)) = Node.isWhitespace := by
    funext n
    simp [Piece.isEdge]
  have hid : Prod.fst ∘ (fun n : Node => (n, false)) = id := rfl
  have happ := Ends.append Node.isWhitespace nodes
  rw [Piece.ofSegment, Ends.of_map, hedge]
  simp only [List.map_map, hid, List.map_id, stretch]
  generalize Ends.of Node.isWhitespace nodes = ends at happ
  cases hcore : ends.core with
  | nil =>
    rw [hcore, List.append_nil] at happ
    simp [ofPieces, Piece.around, Piece.build, Function.comp_def, happ]
  | cons m core =>
    simp [ofPieces, Piece.around, Piece.build, Piece.isSlide, Function.comp_def]

/-- Plain nodes add to the open stretch, preamble apart, up to a tail that ends the stretch. -/
theorem slicingAll_plain {nodes tail : List Node} {s : Slicing}
    (htail : ∀ open_, c.slicingAll open_ tail = c.stretch open_ ++ s)
    (hplain : ∀ n ∈ nodes, c.Plain n) (open_ : List Node) :
    c.slicingAll open_ (nodes ++ tail) =
      c.ofPieces (Piece.ofRun (open_.map (·, false)) (nodes.map (·, false))) ++ s := by
  induction nodes generalizing open_ with
  | nil => rw [List.nil_append, htail, List.map_nil, Piece.ofRun, stretch_eq]
  | cons n rest ih =>
    obtain ⟨hm, hc⟩ := hplain n List.mem_cons_self
    have hrest := ih fun m hm => hplain m (List.mem_cons_of_mem _ hm)
    rw [List.cons_append, slicingAll, List.map_cons, Piece.ofRun]
    simp only [hc, hm, Bool.false_eq_true, if_false]
    by_cases hp : n.isPreamble = true
    · have hnil := hrest []
      rw [List.map_nil] at hnil
      rw [if_pos hp, if_pos hp, hnil, stretch_eq, ofPieces_append, ofPieces_cons, ofPieces_bare,
        Slicing.append_assoc, Slicing.append_assoc, Slicing.append_assoc]
    · rw [if_neg hp, if_neg hp, hrest, List.map_append]
      rfl

/-- What stands in the place of a marker or of a child that is cut. -/
def atCut (c : Cutter) (n : Node) : Slicing :=
  if c.cuts n then ⟨[n.withChildren (c.slicing n).nodes], (c.slicing n).slides⟩ else .empty

theorem slicingAll_cut {m : Node} (hm : (c.isMarker m || c.cuts m) = true)
    (rest open_ : List Node) :
    c.slicingAll open_ (m :: rest) = c.stretch open_ ++ (c.atCut m ++ c.slicingAll [] rest) := by
  rw [slicingAll, atCut]
  by_cases hc : c.cuts m = true
  · rw [if_pos hc, if_pos hc, Slicing.append_assoc]
  · have hmarker : c.isMarker m = true := by simpa [hc] using hm
    have hp : m.isPreamble = false := by
      cases m with
      | doctype _ => simp [isMarker, Node.hasName, Node.name?] at hmarker
      | esm _ _ => simp [isMarker, Node.hasName, Node.name?] at hmarker
      | _ => rfl
    rw [if_neg hc, if_neg hc, if_pos hmarker, hp, Slicing.empty_append]
    rfl

theorem plain_of_isWhitespace (h : n.isWhitespace = true) : c.Plain n := by
  cases n with
  | text v => exact ⟨by simp [isMarker, Node.hasName, Node.name?], by simp [cuts]⟩
  | _ => simp [Node.isWhitespace] at h

theorem ofRun_blank {blanks : List Node} (h : ∀ b ∈ blanks, b.isWhitespace = true) :
    Piece.ofRun [] (blanks.map (·, false)) = blanks.map .bare := by
  have hrun (segment : List Loose) :
      Piece.ofRun segment (blanks.map (·, false)) =
        Piece.ofSegment (segment ++ blanks.map (·, false)) := by
    induction blanks generalizing segment with
    | nil => simp [Piece.ofRun]
    | cons b rest ih =>
      have hb : b.isPreamble = false := by
        have := h b List.mem_cons_self
        cases b <;> first | rfl | simp [Node.isWhitespace] at this
      rw [List.map_cons, Piece.ofRun]
      simp only [hb, Bool.false_eq_true, if_false]
      rw [ih (fun x hx => h x (List.mem_cons_of_mem _ hx)), List.append_assoc]
      rfl
  have hedge : ∀ x ∈ blanks.map (·, false), Piece.isEdge x = true := by
    intro x hx
    obtain ⟨b, hb, rfl⟩ := List.mem_map.mp hx
    simp [Piece.isEdge, h b hb]
  rw [hrun, List.nil_append, Piece.ofSegment, Ends.of_all hedge]
  simp [Piece.around, Function.comp_def]

/-- A blank before a marker stays as it is. -/
theorem slicingAll_blank (hn : n.isWhitespace = true) (h : c.MarkerComes after) :
    c.slicingAll [] (n :: after) = ⟨[n], 0⟩ ++ c.slicingAll [] after := by
  obtain ⟨blanks, m, rest, rfl, hblanks, hm⟩ := h
  have hcut := c.slicingAll_cut (m := m) (by rw [hm, Bool.true_or]) rest
  have hall : ∀ x ∈ n :: blanks, x.isWhitespace = true := by
    intro x hx
    rcases List.mem_cons.mp hx with rfl | hx
    · exact hn
    · exact hblanks x hx
  rw [← List.cons_append, slicingAll_plain hcut (fun x hx => plain_of_isWhitespace (hall x hx)),
    slicingAll_plain hcut (fun x hx => plain_of_isWhitespace (hblanks x hx)), List.map_nil,
    ofRun_blank hall, ofRun_blank hblanks, List.map_cons, ofPieces_cons, ofPieces_bare,
    Slicing.append_assoc]

/-- What the level promises to come to, with the children `todo` still to be visited. -/
def promise (c : Cutter) (l : Level) (todo : List Node) : Slicing :=
  ⟨[], l.slides⟩ ++
    (c.ofPieces l.assembly.settled ++ c.slicingAll [] (l.assembly.loose.map Prod.fst ++ todo))

/-- Nothing was skipped up to the children `todo`, and the loose children are plain. -/
structure Undisturbed (c : Cutter) (l : Level) (todo : List Node) : Prop where
  coherent : Coherent c l todo
  mode : l.mode = .stopped
  loose : ∃ nodes : List Node, l.assembly.loose = nodes.map (·, false) ∧ ∀ n ∈ nodes, c.Plain n

/-- The level `l'` is the level `l` behind further children. -/
structure Advances (c : Cutter) (l : Level) (nodes todo : List Node) (l' : Level) : Prop where
  undisturbed : Undisturbed c l' todo
  promise : c.promise l' todo = c.promise l (nodes ++ todo)
  assembly : l'.assembly?.isSome = (l.assembly?.isSome || c.cutsAny nodes)
  done : l'.assembly? = none → l'.done = l.done ++ nodes

theorem cutsAny_append (c : Cutter) (xs ys : List Node) :
    c.cutsAny (xs ++ ys) = (c.cutsAny xs || c.cutsAny ys) := by
  induction xs with
  | nil => rfl
  | cons x xs ih => simp [cutsAny, ih, Bool.or_assoc]

theorem Advances.trans {l₁ l₂ l₃ : Level} {xs todo : List Node}
    (h : Advances c l₁ xs (ys ++ todo) l₂) (h' : Advances c l₂ ys todo l₃) :
    Advances c l₁ (xs ++ ys) todo l₃ := by
  refine ⟨h'.undisturbed, ?_, ?_, ?_⟩
  · rw [h'.promise, h.promise, List.append_assoc]
  · rw [h'.assembly, h.assembly, cutsAny_append, Bool.or_assoc]
  · intro hnone
    have hsome := h'.assembly
    rw [hnone, Option.isSome_none] at hsome
    have hnone' : l₂.assembly? = none := by
      cases h₂ : l₂.assembly? with
      | none => rfl
      | some a => rw [h₂] at hsome; cases hsome
    rw [h'.done hnone, h.done hnone', List.append_assoc]

theorem advances_refl (h : Undisturbed c l ys) : Advances c l [] ys l :=
  ⟨h, rfl, by simp [cutsAny], fun _ => (List.append_nil _).symm⟩

theorem undisturbed_inside (h : l.mode = .stopped) (todo : List Node) :
    Undisturbed c l.inside todo :=
  ⟨coherent_of_none rfl todo, h, [], rfl, fun n hn => (by cases hn)⟩

theorem promise_of_none (h : l.assembly? = none) (todo : List Node) :
    c.promise l todo = ⟨[], l.slides⟩ ++ c.slicingAll [] (l.done ++ todo) := by
  have hfst : (l.done.map (·, false)).map Prod.fst = l.done := by
    rw [List.map_map]
    exact List.map_id _
  rw [promise, Level.assembly, h, Option.getD_none, Assembly.ofLoose, hfst]
  exact congrArg _ (Slicing.empty_append _)

theorem promise_settle {todo : List Node} {s : Slicing} (h : Undisturbed c l todo)
    (htail : ∀ open_, c.slicingAll open_ ys = c.stretch open_ ++ s) :
    c.promise l ys = ⟨[], l.slides⟩ ++ (c.ofPieces l.assembly.settle.settled ++ s) := by
  obtain ⟨nodes, hloose, hplain⟩ := h.loose
  have hfst : l.assembly.loose.map Prod.fst = nodes := by
    rw [hloose, List.map_map]
    exact List.map_id nodes
  rw [promise, hfst, slicingAll_plain htail hplain, List.map_nil, ← hloose, Assembly.settle,
    ofPieces_append, Slicing.append_assoc]

theorem childrenOf_of_some {a : Assembly} (h : l.assembly? = some a) :
    (⟨c.childrenOf l, Piece.slideCount l.pieces⟩ : Slicing) = c.ofPieces a.settle.settled := by
  rw [childrenOf, l.pieces_of_some h, ofPieces]

/-- The level below a node comes to the slicing of the node. -/
theorem Advances.below {inner : Level}
    (h : Advances c l.inside (n.children?.getD []) [] inner) :
    inner.assembly?.isSome = c.cuts n ∧
      n.withChildren (c.childrenOf inner) = n.withChildren (c.slicing n).nodes ∧
      inner.slides + Piece.slideCount inner.pieces = l.slides + (c.slicing n).slides := by
  have hcuts : inner.assembly?.isSome = c.cuts n := by
    rw [h.assembly, cuts_eq]
    rfl
  have hstart := h.promise
  rw [promise_of_none (l := l.inside) rfl, List.append_nil] at hstart
  refine ⟨hcuts, ?_⟩
  rw [slicing_eq, ← hcuts]
  cases hassembly : inner.assembly? with
  | none =>
    have hdone : inner.done = n.children?.getD [] := h.done hassembly
    rw [promise_of_none hassembly, hdone, List.append_nil] at hstart
    have hslides := congrArg Slicing.slides hstart
    simp only [Slicing.slides_append] at hslides
    rw [childrenOf_of_none c hassembly, hdone, inner.pieces_of_none hassembly]
    refine ⟨rfl, ?_⟩
    simp only [Piece.slideCount_map_bare, Option.isSome_none, Bool.false_eq_true, if_false]
    exact Nat.add_right_cancel hslides
  | some a =>
    have hpieces := childrenOf_of_some (c := c) hassembly
    rw [promise_settle h.undisturbed (s := .empty) (fun open_ => (Slicing.append_empty _).symm),
      Slicing.append_empty, Level.assembly, hassembly, Option.getD_some, ← hpieces] at hstart
    have hnodes := congrArg Slicing.nodes hstart
    have hslides := congrArg Slicing.slides hstart
    simp only [Slicing.nodes_append, Slicing.slides_append, Level.inside, List.nil_append]
      at hnodes hslides
    rw [Option.isSome_some, if_pos rfl, hnodes]
    exact ⟨rfl, hslides⟩

theorem addCut_meetMarker (a : Assembly) (node : Node) (ahead : Bool) :
    a.meetMarker.addCut node ahead = a.addCut node ahead := by
  simp only [Assembly.addCut, Assembly.meetMarker, Assembly.settle, Piece.ofRun_nil,
    List.append_nil]

/-- A child that is cut stands by itself behind the slide before it. -/
theorem advances_addCut {inner l' : Level} (h : Undisturbed c l (n :: after))
    (hbelow : Advances c l.inside (n.children?.getD []) [] inner) (hc : c.cuts n = true)
    (hl' : l' = l ∨ l' = l.meetMarker) (hr : Coherent c (c.ascend n after l' inner) after) :
    Advances c l [n] after (c.ascend n after l' inner) := by
  obtain ⟨hassembly, hnode, hslides⟩ := hbelow.below
  have hmode : inner.modeAfter = .stopped := by
    rw [Level.modeAfter, hbelow.undisturbed.mode]
    rfl
  have hput : (c.ascend n after l' inner).assembly? =
      some (l.assembly.addCut (n.withChildren (c.slicing n).nodes) (c.markerNext after)) := by
    rw [ascend, hassembly, hc, if_pos rfl, hnode]
    rcases hl' with rfl | rfl
    · rfl
    · rw [← addCut_meetMarker]
      rfl
  have hcut : c.atCut n = ⟨[n.withChildren (c.slicing n).nodes], (c.slicing n).slides⟩ := by
    rw [atCut, if_pos hc]
  refine ⟨⟨hr, ?_, ?_⟩, ?_, ?_, ?_⟩
  · rw [ascend_mode, hmode]
  · rw [Level.assembly, hput]
    exact ⟨[], rfl, fun m hm => (by cases hm)⟩
  · rw [List.singleton_append, promise_settle h (slicingAll_cut (by rw [hc, Bool.or_true]) after),
      hcut, promise, ascend_slides, hslides, Level.assembly, hput]
    simp only [Option.getD_some, Assembly.addCut, Assembly.settle_loose, List.map_nil,
      List.nil_append, ofPieces_append, ofPieces_bare]
    apply Slicing.ext
    · simp
    · simp only [Slicing.slides_append]
      omega
  · rw [hput]
    simp [cutsAny, hc]
  · intro hnone
    rw [hput] at hnone
    cases hnone

theorem withChildren_slicing (hc : c.cuts n = false) :
    n.withChildren (c.slicing n).nodes = n ∧ (c.slicing n).slides = 0 := by
  rw [slicing_eq, hc, if_neg Bool.false_ne_true]
  exact ⟨by cases n <;> rfl, rfl⟩

/-- A marker that is not cut ends the slide before it and is dropped. -/
theorem advances_marker {inner : Level} (h : Undisturbed c l (n :: after))
    (hbelow : Advances c l.inside (n.children?.getD []) [] inner) (hc : c.cuts n = false)
    (hm : c.isMarker n = true) (hr : Coherent c (c.ascend n after l.meetMarker inner) after) :
    Advances c l [n] after (c.ascend n after l.meetMarker inner) := by
  obtain ⟨hassembly, hnode, hslides⟩ := hbelow.below
  obtain ⟨hsame, hzero⟩ := withChildren_slicing hc
  rw [hsame] at hnode
  rw [hzero, Nat.add_zero] at hslides
  have hmode : inner.mode = .stopped := hbelow.undisturbed.mode
  have hblank := Node.isWhitespace_eq_false_of_isMarker hm
  have hput : (c.ascend n after l.meetMarker inner).assembly? =
      some { l.assembly.settle with ahead := false, dropped := l.assembly.dropped ++ [n] } := by
    have houter : inner.mode ≠ .outer := by
      rw [hmode]
      decide
    rw [ascend, hassembly, hc, if_neg Bool.false_ne_true, if_neg houter, hnode]
    simp [Level.pass, Level.after, Level.meetMarker, Assembly.meetMarker, Assembly.add, hblank]
  have hcut : c.atCut n = .empty := by
    rw [atCut, hc, if_neg Bool.false_ne_true]
  refine ⟨⟨hr, ?_, ?_⟩, ?_, ?_, ?_⟩
  · rw [ascend_mode, Level.modeAfter, hmode]
    rfl
  · rw [Level.assembly, hput]
    exact ⟨[], rfl, fun m hm => (by cases hm)⟩
  · rw [List.singleton_append, promise_settle h (slicingAll_cut (by rw [hm, Bool.true_or]) after),
      hcut, promise, ascend_slides, hslides, Level.assembly, hput, Slicing.empty_append]
    rfl
  · rw [hput]
    simp [cutsAny, hm]
  · intro hnone
    rw [hput] at hnone
    cases hnone

theorem advances_plain {inner : Level} (h : Undisturbed c l (n :: after))
    (hbelow : Advances c l.inside (n.children?.getD []) [] inner) (hn : c.Plain n)
    (hr : Coherent c (c.ascend n after l inner) after) :
    Advances c l [n] after (c.ascend n after l inner) := by
  obtain ⟨hm, hc⟩ := hn
  obtain ⟨hassembly, hnode, hslides⟩ := hbelow.below
  obtain ⟨hsame, hzero⟩ := withChildren_slicing hc
  rw [hsame] at hnode
  rw [hzero, Nat.add_zero] at hslides
  have hmode : inner.mode = .stopped := hbelow.undisturbed.mode
  have houter : inner.mode ≠ .outer := by
    rw [hmode]
    decide
  have hascend : c.ascend n after l inner = (l.after inner).pass n := by
    rw [ascend, hassembly, hc, if_neg Bool.false_ne_true, if_neg houter, hnode]
  have hadd : (c.ascend n after l inner).assembly = l.assembly.add n := by
    rw [hascend, Level.assembly_pass]
    rfl
  have hsome : (c.ascend n after l inner).assembly?.isSome = l.assembly?.isSome := by
    rw [hascend, Level.pass, Option.isSome_map]
    rfl
  have hslides' : (c.ascend n after l inner).slides = l.slides := by
    rw [ascend_slides, hslides]
  have hmode' : (c.ascend n after l inner).mode = .stopped := by
    rw [ascend_mode, Level.modeAfter, hmode]
    rfl
  have hdone : (c.ascend n after l inner).done = l.done ++ [n] := by
    rw [ascend_done, hnode]
  obtain ⟨nodes, hloose, hplain⟩ := h.loose
  cases hahead : l.assembly.ahead with
  | false =>
    rw [Assembly.add_of_behind hahead] at hadd
    refine ⟨⟨hr, hmode', ?_⟩, ?_, ?_, fun _ => hdone⟩
    · refine ⟨nodes ++ [n], ?_, ?_⟩
      · rw [hadd, List.map_append, hloose]
        rfl
      · intro m hmem
        rcases List.mem_append.mp hmem with hmem | hmem
        · exact hplain m hmem
        · rw [List.mem_singleton.mp hmem]
          exact ⟨hm, hc⟩
    · rw [promise, promise, hslides', hadd]
      simp only [List.map_append, List.map_cons, List.map_nil, List.append_assoc]
    · rw [hsome]
      simp [cutsAny, hm, hc]
  | true =>
    have hcomes := h.coherent.comes hahead
    have hnil := h.coherent.loose hahead
    have hblank : n.isWhitespace = true := by
      cases hw : n.isWhitespace with
      | true => rfl
      | false => rw [hcomes.head hw] at hm; cases hm
    rw [Assembly.add_of_blank hahead hblank] at hadd
    refine ⟨⟨hr, hmode', ?_⟩, ?_, ?_, fun _ => hdone⟩
    · rw [hadd]
      exact ⟨nodes, hloose, hplain⟩
    · rw [promise, promise, hslides', hadd]
      simp only [hnil, List.map_nil, List.nil_append, List.singleton_append]
      rw [slicingAll_blank hblank (hcomes.tail hblank), ofPieces_append, ofPieces_bare,
        Slicing.append_assoc]
    · rw [hsome]
      simp [cutsAny, hm, hc]

theorem advances_levelAll {nodes todo : List Node}
    (hstep : ∀ n ∈ nodes, ∀ (after : List Node) (l : Level), Undisturbed c l (n :: after) →
      Advances c l [n] after (c.level n after l)) (h : Undisturbed c l (nodes ++ todo)) :
    Advances c l nodes todo (c.levelAll nodes todo l) :=
  levelAll_run (R := fun l xs todo r => Undisturbed c l (xs ++ todo) → Advances c l xs todo r)
    (fun _ _ h => advances_refl h)
    (fun hxs hys h => by
      have hadvance := hxs (by rwa [← List.append_assoc])
      exact hadvance.trans (hys hadvance.undisturbed))
    (fun n hn after l _ => hstep n hn after l) h.coherent h

theorem advances_level (hn : c.Undirected n) (h : Undisturbed c l (n :: after)) :
    Advances c l [n] after (c.level n after l) := by
  induction n using Node.induction_children generalizing after l with
  | step n ih =>
    have hbelow : Advances c l.inside (n.children?.getD []) []
        (c.levelAll (n.children?.getD []) [] l.inside) :=
      advances_levelAll (fun k hk _ _ => ih k hk (hn.child hk)) (undisturbed_inside h.mode _)
    have hsuppress : ¬ l.mode.suppressesDescent = true := by
      rw [h.mode]
      decide
    have hsplits : l.mode.splits = true := by
      rw [h.mode]
      rfl
    have hr := coherent_level h.coherent
    rw [level_eq, around, if_neg hsuppress, hsplits, Bool.true_and, hn.fires?] at hr ⊢
    by_cases hm : c.isMarker n = true
    · rw [if_pos hm] at hr ⊢
      cases hc : c.cuts n with
      | false => exact advances_marker h hbelow hc hm hr
      | true => exact advances_addCut h hbelow hc (.inr rfl) hr
    · rw [if_neg hm] at hr ⊢
      cases hc : c.cuts n with
      | false => exact advances_plain h hbelow ⟨by simpa using hm, hc⟩ hr
      | true => exact advances_addCut h hbelow hc (.inl rfl) hr

/-- A document in which no comment carries a directive is cut as the reference says: the tree and
the counts agree. -/
theorem cut_eq_reference (c : Cutter) {tree : Node} (hroot : tree.isContainer = true)
    (hfree : c.Undirected tree) : c.cut tree = c.reference tree := by
  have hlevel : Advances c (Level.inside {}) (tree.children?.getD []) [] (c.levelOf tree) :=
    advances_levelAll (fun _ hk _ _ => advances_level (hfree.child hk)) (undisturbed_inside rfl _)
  obtain ⟨-, hnode, hslides⟩ := hlevel.below
  rw [show ({} : Level).slides = 0 from rfl, Nat.zero_add] at hslides
  have hmode := hlevel.undisturbed.mode
  have hwalk : c.walk tree = ({ slides := (c.slicing tree).slides },
      tree.withChildren (c.slicing tree).nodes) := by
    rw [walk_eq c hroot, progressAfter, hnode, hslides, Level.modeAfter, hmode]
    rfl
  rw [cut, hwalk, reference]
  simp only [Node.children?_withChildren_of_isContainer hroot]
  by_cases hzero : (c.slicing tree).slides = 0
  · rw [if_pos hzero, hzero]
    have hfallback : needsFallback { slides := 0 } = true := rfl
    rw [hfallback, List.partition_eq_filter_filter]
    simp only [Node.withChildren_withChildren]
    rfl
  · have hfallback : (needsFallback { slides := (c.slicing tree).slides }) = false := by
      simp [needsFallback, hzero]
    rw [if_neg hzero, hfallback]

theorem cut_eq_reference_nested :
    let c := Cutter.ofKeyword "hr" "Slide" ⟨[]⟩ "skip"
    let hr : Node := .element "hr" ⟨[]⟩ []
    let slide := Node.element "Slide" ⟨[]⟩
    let tree : Node := .root [.text "a", .component (some "Box") ⟨[]⟩ [.text "b", hr, .text " "],
      .text " ", hr, .expression "/*x*/" ["x"], .doctype "html", .text "c"]
    c.cut tree = (⟨4, false, .stopped, false⟩, .root [slide [.text "a"],
      .component (some "Box") ⟨[]⟩ [slide [.text "b"], .text " "], .text " ",
      slide [.expression "/*x*/" ["x"]], .doctype "html", slide [.text "c"]]) := by
  intro c hr slide tree
  have hfree : c.Undirected tree := by
    unfold Undirected
    decide
  exact (c.cut_eq_reference rfl hfree).trans (by rfl)

end Cutter
end SlideDeck
