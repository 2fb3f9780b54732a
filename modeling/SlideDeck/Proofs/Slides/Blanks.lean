import SlideDeck.Proofs.Slides.Agreement

/-!
Blanks between the nodes of a document. They are taken away here from documents, from pieces and
from levels, and the walk without them is the walk with them, less the blanks. So documents that
differ only in blanks are cut alike.
-/
namespace SlideDeck

namespace Node

mutual

/-- The node without the texts of blanks below it. -/
def stripped : Node → Node
  | .root cs => .root (strippedAll cs)
  | .element t p cs => .element t p (strippedAll cs)
  | .component n p cs => .component n p (strippedAll cs)
  | .text v => .text v
  | .expression v cs => .expression v cs
  | .doctype n => .doctype n
  | .esm v ds => .esm v ds
  | .comment v => .comment v
  | .raw v => .raw v

/-- The nodes without the texts of blanks among and below them. -/
def strippedAll : List Node → List Node
  | [] => []
  | n :: rest => if isWhitespace n then strippedAll rest else stripped n :: strippedAll rest

end

@[simp] theorem stripped_withChildren (n : Node) (cs : List Node) :
    (n.withChildren cs).stripped = n.withChildren (strippedAll cs) := by
  cases n <;> simp [stripped, withChildren]

@[simp] theorem withChildren_stripped (n : Node) (cs : List Node) :
    n.stripped.withChildren cs = n.withChildren cs := by
  cases n <;> rfl

@[simp] theorem children?_stripped (n : Node) :
    n.stripped.children? = n.children?.map strippedAll := by
  cases n <;> rfl

@[simp] theorem isWhitespace_stripped (n : Node) : n.stripped.isWhitespace = n.isWhitespace := by
  cases n <;> rfl

@[simp] theorem isPreamble_stripped (n : Node) : n.stripped.isPreamble = n.isPreamble := by
  cases n <;> rfl

@[simp] theorem isContainer_stripped (n : Node) : n.stripped.isContainer = n.isContainer := by
  cases n <;> rfl

theorem name?_stripped (n : Node) : n.stripped.name? = n.name? := by
  cases n <;> rfl

theorem comments_stripped (n : Node) : n.stripped.comments = n.comments := by
  cases n <;> rfl

theorem isPreamble_of_isWhitespace {n : Node} (h : n.isWhitespace = true) :
    n.isPreamble = false := by
  cases n with
  | text v => rfl
  | _ => cases h

theorem strippedAll_cons_blank {n : Node} (h : n.isWhitespace = true) (nodes : List Node) :
    strippedAll (n :: nodes) = strippedAll nodes := by
  rw [strippedAll, if_pos h]

theorem strippedAll_cons {n : Node} (h : n.isWhitespace = false) (nodes : List Node) :
    strippedAll (n :: nodes) = n.stripped :: strippedAll nodes := by
  rw [strippedAll, h, if_neg Bool.false_ne_true]

/-- A blank is taken away, and any other node is stripped. -/
theorem strippedAll_eq (nodes : List Node) :
    strippedAll nodes = (nodes.filter (!·.isWhitespace)).map stripped := by
  induction nodes with
  | nil => rfl
  | cons n rest ih =>
    cases h : n.isWhitespace with
    | true => simp [strippedAll_cons_blank h, h, ih]
    | false => simp [strippedAll_cons h, h, ih]

@[simp] theorem strippedAll_nil : strippedAll [] = [] := rfl

@[simp] theorem strippedAll_append (xs ys : List Node) :
    strippedAll (xs ++ ys) = strippedAll xs ++ strippedAll ys := by
  simp [strippedAll_eq]

/-- Preamble is no blank, so it is the same nodes that stand between blanks. -/
theorem strippedAll_filter {p : Node → Bool} (hp : ∀ n, p n.stripped = p n) (nodes : List Node) :
    strippedAll (nodes.filter p) = (strippedAll nodes).filter p := by
  have hcomp : p ∘ stripped = p := funext hp
  rw [strippedAll_eq, strippedAll_eq, List.filter_map, hcomp, List.filter_filter,
    List.filter_filter]
  congr 1
  apply List.filter_congr
  intro n _
  exact Bool.and_comm _ _

end Node

open Node (strippedAll)

namespace Ends

variable {α : Type}

theorem takeWhile_filter {p edge : α → Bool} (h : ∀ x, p x = false → edge x = true)
    (xs : List α) : (xs.filter p).takeWhile edge = (xs.takeWhile edge).filter p := by
  induction xs with
  | nil => rfl
  | cons x xs ih =>
    cases hp : p x with
    | false => simp [hp, h x hp, ih]
    | true => cases he : edge x <;> simp [hp, he, ih]

theorem dropWhile_filter {p edge : α → Bool} (h : ∀ x, p x = false → edge x = true)
    (xs : List α) : (xs.filter p).dropWhile edge = (xs.dropWhile edge).filter p := by
  induction xs with
  | nil => rfl
  | cons x xs ih =>
    cases hp : p x with
    | false => simp [hp, h x hp, ih]
    | true => cases he : edge x <;> simp [hp, he, ih]

/-- Taking away some of the elements that are at home at the ends changes nothing else. -/
theorem of_filter {p edge : α → Bool} (h : ∀ x, p x = false → edge x = true) (xs : List α) :
    of edge (xs.filter p) =
      ⟨(of edge xs).ahead.filter p, (of edge xs).core.filter p, (of edge xs).behind.filter p⟩ := by
  simp only [of, dropWhile_filter h, takeWhile_filter h, ← List.filter_reverse]

end Ends

/-- The children that are not planned for yet, without blanks. -/
def Loose.strippedAll (run : List Loose) : List Loose :=
  (run.filter fun x => !x.1.isWhitespace).map fun x => (x.1.stripped, x.2)

namespace Loose

theorem strippedAll_append (xs ys : List Loose) :
    strippedAll (xs ++ ys) = strippedAll xs ++ strippedAll ys := by
  simp [strippedAll]

theorem map_fst_strippedAll (run : List Loose) :
    (strippedAll run).map Prod.fst = Node.strippedAll (run.map Prod.fst) := by
  simp [strippedAll, Node.strippedAll_eq, List.filter_map, Function.comp_def]

theorem strippedAll_singleton_blank {n : Node} (h : n.isWhitespace = true) (outer : Bool) :
    strippedAll [(n, outer)] = [] := by
  simp [strippedAll, h]

theorem strippedAll_singleton {n : Node} (h : n.isWhitespace = false) (outer : Bool) :
    strippedAll [(n, outer)] = [(n.stripped, outer)] := by
  simp [strippedAll, h]

end Loose

namespace Piece

/-- The pieces without the blanks that stand by themselves, and their nodes without blanks. -/
def strippedAll : List Piece → List Piece
  | [] => []
  | .slide nodes :: ps => .slide (Node.strippedAll nodes) :: strippedAll ps
  | .bare node :: ps => (Node.strippedAll [node]).map .bare ++ strippedAll ps

@[simp] theorem strippedAll_append (ps qs : List Piece) :
    strippedAll (ps ++ qs) = strippedAll ps ++ strippedAll qs := by
  induction ps with
  | nil => rfl
  | cons p ps ih => cases p <;> simp [strippedAll, ih]

@[simp] theorem strippedAll_map_bare (nodes : List Node) :
    strippedAll (nodes.map .bare) = (Node.strippedAll nodes).map .bare := by
  induction nodes with
  | nil => rfl
  | cons n rest ih =>
    rw [List.map_cons, strippedAll, ih, ← List.map_append, ← Node.strippedAll_append,
      List.singleton_append]

theorem strippedAll_bare {n : Node} (h : n.isWhitespace = false) :
    strippedAll [.bare n] = [.bare n.stripped] := by
  simp [strippedAll, Node.strippedAll_cons h]

theorem strippedAll_bare_blank {n : Node} (h : n.isWhitespace = true) :
    strippedAll [.bare n] = [] := by
  simp [strippedAll, Node.strippedAll_cons_blank h]

@[simp] theorem slideCount_strippedAll (pieces : List Piece) :
    slideCount (strippedAll pieces) = slideCount pieces := by
  induction pieces with
  | nil => rfl
  | cons p ps ih => cases p <;> simp [strippedAll, isSlide, ih]

/-- A slide is no blank, so pieces can be put down before blanks are taken away or after that. -/
theorem strippedAll_map_build (c : Cutter) (pieces : List Piece) :
    Node.strippedAll (pieces.map (build c.wrap)) = (strippedAll pieces).map (build c.wrap) := by
  induction pieces with
  | nil => rfl
  | cons p ps ih =>
    cases p with
    | slide nodes =>
      have hslide : (c.wrap nodes).isWhitespace = false := rfl
      rw [List.map_cons, build, Node.strippedAll_cons hslide, ih]
      rfl
    | bare node =>
      rw [List.map_cons, build, ← List.singleton_append, Node.strippedAll_append, ih, strippedAll,
        List.map_append, map_build_bare]

theorem strippedAll_around {core : List Node} (h : ∀ n ∈ core.head?, n.isWhitespace = false) :
    strippedAll (around core) = around (Node.strippedAll core) := by
  cases core with
  | nil => rfl
  | cons n rest =>
    have hn : n.isWhitespace = false := h n rfl
    simp [around, strippedAll, Node.strippedAll_cons hn]

theorem strippedAll_ofSegment (segment : List Loose) :
    strippedAll (ofSegment segment) = ofSegment (Loose.strippedAll segment) := by
  have hedge : isEdge ∘ (fun x : Loose => (x.1.stripped, x.2)) = isEdge := by
    funext x
    simp [isEdge]
  have hblank : ∀ x : Loose, (!x.1.isWhitespace) = false → isEdge x = true := by
    intro x hx
    simp_all [isEdge]
  have hends : Ends.of isEdge (Loose.strippedAll segment) =
      ⟨Loose.strippedAll (Ends.of isEdge segment).ahead,
        Loose.strippedAll (Ends.of isEdge segment).core,
        Loose.strippedAll (Ends.of isEdge segment).behind⟩ := by
    rw [Loose.strippedAll, Ends.of_map, hedge, Ends.of_filter hblank]
    rfl
  have hcore : ∀ n ∈ ((Ends.of isEdge segment).core.map Prod.fst).head?,
      n.isWhitespace = false := by
    intro n hn
    rw [List.head?_map, Option.mem_def, Option.map_eq_some_iff] at hn
    obtain ⟨x, hx, rfl⟩ := hn
    have hedge := Ends.head_core isEdge segment x hx
    exact (Bool.or_eq_false_iff.mp hedge).2
  simp only [ofSegment, hends, strippedAll_append, strippedAll_map_bare, strippedAll_around hcore,
    Loose.map_fst_strippedAll]

theorem strippedAll_ofRun (segment run : List Loose) :
    strippedAll (ofRun segment run) =
      ofRun (Loose.strippedAll segment) (Loose.strippedAll run) := by
  induction run generalizing segment with
  | nil => exact strippedAll_ofSegment segment
  | cons x rest ih =>
    have hcons : Loose.strippedAll (x :: rest) =
        Loose.strippedAll [x] ++ Loose.strippedAll rest := Loose.strippedAll_append [x] rest
    rw [hcons, ofRun]
    cases hw : x.1.isWhitespace with
    | true =>
      rw [Node.isPreamble_of_isWhitespace hw, if_neg Bool.false_ne_true, ih,
        Loose.strippedAll_append, Loose.strippedAll_singleton_blank hw, List.append_nil,
        List.nil_append]
    | false =>
      rw [Loose.strippedAll_singleton hw, List.singleton_append, ofRun, Node.isPreamble_stripped]
      by_cases hp : x.1.isPreamble = true
      · rw [if_pos hp, if_pos hp, strippedAll_append, strippedAll_ofSegment,
          ← List.singleton_append, strippedAll_append, strippedAll_bare hw, ih]
        rfl
      · rw [if_neg hp, if_neg hp, ih, Loose.strippedAll_append, Loose.strippedAll_singleton hw]

end Piece

namespace Assembly

def stripped (a : Assembly) : Assembly where
  settled := Piece.strippedAll a.settled
  loose := Loose.strippedAll a.loose
  ahead := a.ahead
  dropped := Node.strippedAll a.dropped

variable {a : Assembly} {node : Node}

theorem stripped_ofLoose (nodes : List Node) :
    (ofLoose nodes).stripped = ofLoose (Node.strippedAll nodes) := by
  simp [ofLoose, stripped, Piece.strippedAll, Loose.strippedAll, Node.strippedAll_eq,
    List.filter_map, Function.comp_def]

theorem stripped_settle (a : Assembly) : a.settle.stripped = a.stripped.settle := by
  simp only [settle, stripped, Piece.strippedAll_append, Piece.strippedAll_ofRun]
  rfl

theorem stripped_meetMarker (a : Assembly) : a.meetMarker.stripped = a.stripped.meetMarker := by
  rw [meetMarker, meetMarker, ← stripped_settle]
  rfl

theorem stripped_addCut (h : node.isWhitespace = false) (ahead : Bool) (a : Assembly) :
    (a.addCut node ahead).stripped = a.stripped.addCut node.stripped ahead := by
  rw [addCut, addCut, ← stripped_settle]
  simp only [stripped, Piece.strippedAll_append, Piece.strippedAll_bare h]

theorem stripped_add_blank (h : node.isWhitespace = true) (a : Assembly) :
    (a.add node).stripped = a.stripped := by
  cases ha : a.ahead with
  | false => simp [add_of_behind ha, stripped, Loose.strippedAll_append,
      Loose.strippedAll_singleton_blank h]
  | true => simp [add_of_blank ha h, stripped, Piece.strippedAll_bare_blank h]

theorem stripped_add (h : node.isWhitespace = false) (a : Assembly) :
    (a.add node).stripped = a.stripped.add node.stripped := by
  cases ha : a.ahead with
  | false => simp [add, ha, stripped, Loose.strippedAll_append, Loose.strippedAll_singleton h]
  | true => simp [add, ha, h, stripped, Node.strippedAll_cons h]

theorem stripped_addOuter (h : node.isWhitespace = false) (a : Assembly) :
    (a.addOuter node).stripped = a.stripped.addOuter node.stripped := by
  cases ha : a.ahead with
  | false => simp [addOuter, ha, stripped, Loose.strippedAll_append, Loose.strippedAll_singleton h]
  | true => simp [addOuter, ha, stripped, Piece.strippedAll_bare h]

end Assembly

namespace Level

def stripped (l : Level) : Level :=
  { l with
    dropped := Node.strippedAll l.dropped
    done := Node.strippedAll l.done
    assembly? := l.assembly?.map Assembly.stripped }

variable {node : Node}

theorem assembly_stripped (l : Level) : l.stripped.assembly = l.assembly.stripped := by
  unfold assembly
  cases h : l.assembly? with
  | none => simp [stripped, h, Assembly.stripped_ofLoose]
  | some a => simp [stripped, h]

theorem pieces_stripped (l : Level) : l.stripped.pieces = Piece.strippedAll l.pieces := by
  cases h : l.assembly? with
  | none =>
    rw [l.pieces_of_none h, pieces_of_none (by simp [stripped, h]), Piece.strippedAll_map_bare]
    rfl
  | some a =>
    rw [l.pieces_of_some h, pieces_of_some (by simp [stripped, h]; rfl),
      ← Assembly.stripped_settle]
    rfl

theorem losses_stripped (l : Level) : l.stripped.losses = Node.strippedAll l.losses := by
  rw [losses_eq, losses_eq, assembly_stripped]
  rfl

theorem stripped_after (l inner : Level) :
    (l.after inner).stripped = l.stripped.after inner.stripped := by
  rw [after, after, pieces_stripped, losses_stripped, Piece.slideCount_strippedAll]
  simp only [stripped, Node.strippedAll_append]
  rfl

theorem stripped_put {change change' : Assembly → Assembly} (h : node.isWhitespace = false)
    (hchange : ∀ a, (change a).stripped = change' a.stripped) (l : Level) :
    (l.put change node).stripped = l.stripped.put change' node.stripped := by
  simp only [put, assembly_stripped, ← hchange]
  simp [stripped, Node.strippedAll_cons h]

theorem stripped_pass (h : node.isWhitespace = false) (l : Level) :
    (l.pass node).stripped = l.stripped.pass node.stripped := by
  simp [pass, stripped, Node.strippedAll_cons h, Function.comp_def, Assembly.stripped_add h]

theorem stripped_pass_blank (h : node.isWhitespace = true) (l : Level) :
    (l.pass node).stripped = l.stripped := by
  simp [pass, stripped, Node.strippedAll_cons_blank h, Function.comp_def,
    Assembly.stripped_add_blank h]

theorem stripped_meetMarker (l : Level) : l.meetMarker.stripped = l.stripped.meetMarker := by
  simp only [meetMarker, assembly_stripped, ← Assembly.stripped_meetMarker]
  rfl

theorem stripped_follow (d : Directive) (mode : SkipMode) (l : Level) :
    (l.follow d mode).stripped = l.stripped.follow d mode := by
  cases h : d.discardsParent <;> simp [follow, stripped, h]

/-- Going below a node that has no children and coming up again changes nothing. -/
theorem after_inside {l : Level} (h : l.mode.suppressesDescent = false) : l.after l.inside = l := by
  simp [after, inside, modeAfter, h, pieces, losses]

end Level

namespace Cutter

variable {c : Cutter} {n : Node}

theorem isMarker_stripped (c : Cutter) (n : Node) : c.isMarker n.stripped = c.isMarker n := by
  rw [isMarker, isMarker, Node.hasName, Node.hasName, Node.name?_stripped]

theorem fires?_stripped (c : Cutter) (mode : SkipMode) (n : Node) :
    c.fires? mode n.stripped = c.fires? mode n := by
  rw [fires?, fires?, directive?, directive?, Node.comments_stripped]

theorem childrenOf_stripped (c : Cutter) (l : Level) :
    c.childrenOf l.stripped = Node.strippedAll (c.childrenOf l) := by
  rw [childrenOf, childrenOf, Level.pieces_stripped, Piece.strippedAll_map_build]

theorem markerNext_stripped (c : Cutter) (after : List Node) :
    c.markerNext (Node.strippedAll after) = c.markerNext after := by
  induction after with
  | nil => rfl
  | cons n rest ih =>
    cases h : n.isWhitespace with
    | true => simpa [markerNext, Node.strippedAll_cons_blank h, h] using ih
    | false => simp [markerNext, Node.strippedAll_cons h, h, isMarker_stripped]

theorem stripped_ascend (h : n.isWhitespace = false) (after : List Node) (l inner : Level) :
    (c.ascend n after l inner).stripped =
      c.ascend n.stripped (Node.strippedAll after) l.stripped inner.stripped := by
  have hsome : inner.stripped.assembly?.isSome = inner.assembly?.isSome := by
    simp [Level.stripped]
  have hnode : (n.withChildren (c.childrenOf inner)).isWhitespace = false := by
    rw [Node.isWhitespace_withChildren, h]
  have hstripped : n.stripped.withChildren (c.childrenOf inner.stripped) =
      (n.withChildren (c.childrenOf inner)).stripped := by
    rw [childrenOf_stripped, Node.withChildren_stripped, Node.stripped_withChildren]
  unfold ascend
  rw [hsome, hstripped, markerNext_stripped, ← Level.stripped_after]
  by_cases hcut : inner.assembly?.isSome = true
  · rw [if_pos hcut, if_pos hcut]
    exact Level.stripped_put hnode (Assembly.stripped_addCut hnode _) _
  · rw [if_neg hcut, if_neg hcut]
    by_cases houter : inner.mode = .outer
    · rw [if_pos houter, if_pos (show inner.stripped.mode = .outer from houter)]
      exact Level.stripped_put hnode (Assembly.stripped_addOuter hnode) _
    · rw [if_neg houter, if_neg (show ¬ inner.stripped.mode = .outer from houter)]
      exact Level.stripped_pass hnode _

/-- A blank is passed in every mode. -/
theorem level_blank (h : n.isWhitespace = true) (after : List Node) (l : Level) :
    c.level n after l = l.pass n := by
  have hbelow : c.levelBelow n l = l.inside := by
    rw [levelBelow, Node.children?_of_isWhitespace h, Option.getD_none, levelAll_nil]
  have hsteps := c.steps_level n after l
  generalize c.level n after l = r at hsteps ⊢
  cases hsteps with
  | skip suppressed => rfl
  | follow fires =>
    rw [(of_fires? fires).1] at h
    cases h
  | @below l₀ awake opens =>
    rw [hbelow]
    cases opens with
    | marker splits met =>
      rw [Node.isWhitespace_eq_false_of_isMarker met] at h
      cases h
    | plain unmet =>
      have houter : ¬ l.inside.mode = .outer := by
        intro hmode
        rw [show l.mode = .outer from hmode] at awake
        cases awake
      show c.ascend n after l l.inside = l.pass n
      rw [ascend, if_neg (by simp [Level.inside]), if_neg houter, Level.after_inside awake,
        Node.withChildren_of_isWhitespace h]

/-- The walk over children without blanks is the walk over the children, less the blanks. -/
theorem stripped_levelAll_of {nodes : List Node}
    (step : ∀ n ∈ nodes, ∀ after l, (c.level n after l).stripped =
      c.levelAll (strippedAll [n]) (strippedAll after) l.stripped) (beyond : List Node)
    (l : Level) : (c.levelAll nodes beyond l).stripped =
      c.levelAll (strippedAll nodes) (strippedAll beyond) l.stripped := by
  induction nodes generalizing l with
  | nil => rfl
  | cons n rest ih =>
    have hrest := ih fun m hm => step m (List.mem_cons_of_mem n hm)
    rw [levelAll_cons, hrest, step n List.mem_cons_self, ← List.singleton_append (l := rest),
      Node.strippedAll_append, Node.strippedAll_append, levelAll_append]

theorem stripped_level (c : Cutter) (n : Node) (after : List Node) (l : Level) :
    (c.level n after l).stripped =
      c.levelAll (strippedAll [n]) (strippedAll after) l.stripped := by
  induction n using Node.induction_children generalizing after l with
  | step n ih =>
    cases h : n.isWhitespace with
    | true =>
      rw [level_blank h, Level.stripped_pass_blank h, Node.strippedAll_cons_blank h,
        Node.strippedAll_nil, levelAll_nil]
    | false =>
      have hbelow : (c.levelAll (n.children?.getD []) [] l.inside).stripped =
          c.levelAll (n.stripped.children?.getD []) [] l.stripped.inside := by
        rw [stripped_levelAll_of ih, Node.children?_stripped]
        cases n.children? <;> rfl
      rw [Node.strippedAll_cons h, levelAll_cons, Node.strippedAll_nil, levelAll_nil,
        List.nil_append, level_eq, level_eq, around, around, isMarker_stripped, fires?_stripped,
        ← hbelow]
      by_cases hs : l.mode.suppressesDescent = true
      · rw [if_pos hs, if_pos (show l.stripped.mode.suppressesDescent = true from hs)]
        exact Level.stripped_pass h l
      · rw [if_neg hs, if_neg (show ¬ l.stripped.mode.suppressesDescent = true from hs)]
        by_cases hm : (l.mode.splits && c.isMarker n) = true
        · rw [if_pos hm, if_pos (show (l.stripped.mode.splits && c.isMarker n) = true from hm),
            stripped_ascend h, Level.stripped_meetMarker]
        · rw [if_neg hm, if_neg (show ¬ (l.stripped.mode.splits && c.isMarker n) = true from hm)]
          rw [show l.stripped.mode = l.mode from rfl]
          cases c.fires? l.mode n with
          | some r => exact Level.stripped_follow r.1 r.2 l
          | none => exact stripped_ascend h after l _

theorem levelOf_stripped (c : Cutter) (tree : Node) :
    c.levelOf tree.stripped = (c.levelOf tree).stripped := by
  rw [levelOf, levelOf, stripped_levelAll_of fun n _ => c.stripped_level n, Node.children?_stripped]
  cases tree.children? <;> rfl

theorem progressAfter_stripped (l : Level) : progressAfter l.stripped = progressAfter l := by
  rw [progressAfter, progressAfter, Level.pieces_stripped, Piece.slideCount_strippedAll]
  rfl

theorem wrapWhole_stripped (c : Cutter) (nodes : List Node) :
    c.wrapWhole (strippedAll nodes) = strippedAll (c.wrapWhole nodes) := by
  have hslide (ns : List Node) : strippedAll [c.wrap ns] = [c.wrap (strippedAll ns)] := rfl
  rw [wrapWhole, wrapWhole, Node.strippedAll_append, hslide,
    Node.strippedAll_filter Node.isPreamble_stripped,
    Node.strippedAll_filter fun n => by rw [Node.isPreamble_stripped]]

/-- Cutting a document and taking the blanks away can be done in either order. -/
theorem cut_stripped (c : Cutter) {tree : Node} (hroot : tree.isContainer = true) :
    c.cut tree.stripped = ((c.cut tree).1, (c.cut tree).2.stripped) := by
  have hroot' : tree.stripped.isContainer = true := by rw [Node.isContainer_stripped, hroot]
  rw [cut, cut, walk_eq c hroot, walk_eq c hroot', levelOf_stripped, progressAfter_stripped,
    childrenOf_stripped]
  simp only [Node.withChildren_stripped, Node.children?_withChildren_of_isContainer hroot]
  cases needsFallback (progressAfter (c.levelOf tree)) with
  | false => simp
  | true => simp [wrapWhole_stripped]

/-- Documents that differ only in blanks are cut alike: the counts are the same, and so are the new
documents, blanks apart. -/
theorem cut_of_stripped_eq (c : Cutter) {tree tree' : Node} (hroot : tree.isContainer = true)
    (hroot' : tree'.isContainer = true) (h : tree.stripped = tree'.stripped) :
    (c.cut tree).1 = (c.cut tree').1 ∧ (c.cut tree).2.stripped = (c.cut tree').2.stripped := by
  have hcut := c.cut_stripped hroot
  rw [h, c.cut_stripped hroot'] at hcut
  obtain ⟨hstats, htree⟩ := Prod.mk.inj hcut
  exact ⟨hstats.symm, htree.symm⟩

/-- Blanks at both ends of a slide, before a marker that is passed over, and beside a node that is
kept out of slides. -/
theorem cut_of_stripped_eq_nested :
    let c := Cutter.ofKeyword "hr" "Slide" ⟨[]⟩ "skip"
    let hr : Node := .element "hr" ⟨[]⟩ []
    let box := Node.component (some "Box") ⟨[]⟩
    let tree : Node := .root [.text "\n", box [.text "a", hr, .text " ", .text "b"], .text " ", hr,
      .text "\t", box [.note "skip outer", .text "c"], .text " ", .text "d"]
    let tree' : Node := .root [box [.text "a", .text " ", hr, .text "b"], hr,
      box [.note "skip outer", .text " ", .text "c"], .text "d", .text "\n"]
    tree.isContainer = true ∧ tree'.isContainer = true ∧ tree.stripped = tree'.stripped ∧
      (c.cut tree).1 = (c.cut tree').1 ∧ (c.cut tree).2.stripped = (c.cut tree').2.stripped := by
  intro c hr box tree tree'
  have hsame : tree.stripped = tree'.stripped := rfl
  exact ⟨rfl, rfl, hsame, c.cut_of_stripped_eq rfl rfl hsame⟩

end Cutter
end SlideDeck
