import SlideDeck.Slides.Plan
import Mathlib.Data.List.TakeWhile

/-!
Plans without indices. The entries of a plan are read as pieces, each a slide around neighbours or a
node that stands by itself, and carrying out a plan puts down its pieces one after another.
-/
namespace SlideDeck

/-- One of the new children of a node: a slide around neighbours, or a child as it is. -/
inductive Piece where
  | slide (nodes : List Node)
  | bare (node : Node)

namespace Piece

def nodes : Piece → List Node
  | slide nodes => nodes
  | bare node => [node]

def isSlide : Piece → Bool
  | slide _ => true
  | bare _ => false

/-- The new child that a piece stands for. -/
def build (wrap : List Node → Node) : Piece → Node
  | slide nodes => wrap nodes
  | bare node => node

def contents (pieces : List Piece) : List Node := pieces.flatMap nodes

def slideCount (pieces : List Piece) : Nat := pieces.countP isSlide

@[simp] theorem contents_nil : contents [] = [] := rfl

@[simp] theorem contents_cons (p : Piece) (ps : List Piece) :
    contents (p :: ps) = p.nodes ++ contents ps := rfl

@[simp] theorem contents_append (ps qs : List Piece) :
    contents (ps ++ qs) = contents ps ++ contents qs := by
  simp [contents]

@[simp] theorem contents_map_bare (ns : List Node) : contents (ns.map bare) = ns := by
  induction ns with
  | nil => rfl
  | cons n ns ih => simp [nodes, ih]

@[simp] theorem slideCount_nil : slideCount [] = 0 := rfl

@[simp] theorem slideCount_cons (p : Piece) (ps : List Piece) :
    slideCount (p :: ps) = slideCount ps + p.isSlide.toNat := by
  cases p <;> simp [slideCount, List.countP_cons, isSlide]

@[simp] theorem slideCount_append (ps qs : List Piece) :
    slideCount (ps ++ qs) = slideCount ps + slideCount qs := by
  simp [slideCount]

@[simp] theorem slideCount_map_bare (ns : List Node) : slideCount (ns.map bare) = 0 := by
  simp [slideCount, isSlide]

@[simp] theorem map_build_bare (wrap : List Node → Node) (ns : List Node) :
    (ns.map bare).map (build wrap) = ns := by
  simp [build, Function.comp_def]

/-- Where no slide is among pieces, they are put down as they are. -/
theorem map_build_of_slideCount (wrap : List Node → Node) {pieces : List Piece}
    (h : slideCount pieces = 0) : pieces.map (build wrap) = contents pieces := by
  induction pieces with
  | nil => rfl
  | cons p ps ih =>
    rw [slideCount_cons] at h
    cases p with
    | slide nodes => simp [isSlide] at h
    | bare node =>
      rw [List.map_cons, contents_cons, ih (by omega)]
      rfl

end Piece

/-- The longest parts at the two ends of a list that have a property throughout, and the part
between them. -/
structure Ends (α : Type) where
  ahead : List α
  core : List α
  behind : List α

namespace Ends

variable {α β : Type}

def of (edge : α → Bool) (xs : List α) : Ends α :=
  let rest := (xs.dropWhile edge).reverse
  ⟨xs.takeWhile edge, (rest.dropWhile edge).reverse, (rest.takeWhile edge).reverse⟩

theorem append (edge : α → Bool) (xs : List α) :
    (of edge xs).ahead ++ (of edge xs).core ++ (of edge xs).behind = xs := by
  simp only [of, List.append_assoc, ← List.reverse_append, List.takeWhile_append_dropWhile,
    List.reverse_reverse]

theorem of_map (edge : β → Bool) (f : α → β) (xs : List α) :
    of edge (xs.map f) = ⟨(of (edge ∘ f) xs).ahead.map f, (of (edge ∘ f) xs).core.map f,
      (of (edge ∘ f) xs).behind.map f⟩ := by
  simp only [of, List.takeWhile_map, List.dropWhile_map, ← List.map_reverse]

theorem of_all {edge : α → Bool} {xs : List α} (h : ∀ x ∈ xs, edge x = true) :
    of edge xs = ⟨xs, [], []⟩ := by
  have ht : xs.takeWhile edge = xs := List.takeWhile_eq_self_iff.mpr h
  have hd : xs.dropWhile edge = [] := List.dropWhile_eq_nil_iff.mpr h
  simp [of, ht, hd]

theorem head_dropWhile {edge : α → Bool} {xs : List α} {x : α}
    (h : x ∈ (xs.dropWhile edge).head?) : edge x = false := by
  have hnot := List.head?_dropWhile_not edge xs
  rw [Option.mem_def.mp h] at hnot
  exact hnot

/-- The part between the ends begins with nothing that is at home there. -/
theorem head_core (edge : α → Bool) (xs : List α) :
    ∀ x ∈ (of edge xs).core.head?, edge x = false := by
  intro x hx
  have hrest : (of edge xs).core ++ (of edge xs).behind = xs.dropWhile edge := by
    simp only [of, ← List.reverse_append, List.takeWhile_append_dropWhile, List.reverse_reverse]
  have hhead : x ∈ (xs.dropWhile edge).head? := by
    rw [← hrest, List.head?_append, Option.mem_def.mp hx]
    rfl
  exact head_dropWhile hhead

theorem last_core (edge : α → Bool) (xs : List α) :
    ∀ x ∈ (of edge xs).core.getLast?, edge x = false := by
  intro x hx
  rw [of, List.getLast?_reverse] at hx
  exact head_dropWhile hx

end Ends

/-- A child that is not planned for yet, and whether it was excluded. -/
abbrev Loose := Node × Bool

namespace Piece

def isEdge (x : Loose) : Bool := x.2 || x.1.isWhitespace

def around (core : List Node) : List Piece := if core.isEmpty then [] else [slide core]

def ofSegment (segment : List Loose) : List Piece :=
  let ends := Ends.of isEdge segment
  (ends.ahead.map Prod.fst).map bare ++ around (ends.core.map Prod.fst) ++
    (ends.behind.map Prod.fst).map bare

/-- The pieces for a run behind the children of an open segment. -/
def ofRun : List Loose → List Loose → List Piece
  | segment, [] => ofSegment segment
  | segment, x :: rest =>
    if x.1.isPreamble then ofSegment segment ++ bare x.1 :: ofRun [] rest
    else ofRun (segment ++ [x]) rest

@[simp] theorem contents_around (core : List Node) : contents (around core) = core := by
  unfold around
  split
  · next h => rw [List.isEmpty_iff.mp h]; rfl
  · simp [nodes]

@[simp] theorem contents_ofSegment (segment : List Loose) :
    contents (ofSegment segment) = segment.map Prod.fst := by
  rw [← congrArg (List.map Prod.fst) (Ends.append isEdge segment)]
  simp only [ofSegment, contents_append, contents_map_bare, contents_around, List.map_append]

/-- A run is cut up without loss. -/
@[simp] theorem contents_ofRun (segment run : List Loose) :
    contents (ofRun segment run) = segment.map Prod.fst ++ run.map Prod.fst := by
  induction run generalizing segment with
  | nil => simp [ofRun]
  | cons x rest ih =>
    unfold ofRun
    split
    · simp [nodes, ih]
    · simp [ih]

end Piece

/-- The entries, read from an index on, arrange the children from there on into pieces, and leave
out the last-named ones. -/
inductive Lays : Nat → List Node → List Entry → List Piece → List Node → Prop
  | done (i : Nat) : Lays i [] [] [] []
  | keep {i : Nat} {n : Node} {ns : List Node} {es : List Entry} {ps : List Piece}
      {lost : List Node} (rest : Lays (i + 1) ns es ps lost) :
      Lays i (n :: ns) (.keep i :: es) (.bare n :: ps) lost
  | slide {i : Nat} {run ns : List Node} {es : List Entry} {ps : List Piece} {lost : List Node}
      (nonempty : run ≠ []) (rest : Lays (i + run.length) ns es ps lost) :
      Lays i (run ++ ns) (.slide i (i + run.length) :: es) (.slide run :: ps) lost
  | skip {i : Nat} {n : Node} {ns : List Node} {es : List Entry} {ps : List Piece}
      {lost : List Node} (rest : Lays (i + 1) ns es ps lost) : Lays i (n :: ns) es ps (n :: lost)

namespace Lays

theorem append {i j : Nat} {ns ms : List Node} {es fs : List Entry} {ps qs : List Piece}
    {lost gone : List Node} (h : Lays i ns es ps lost) (h' : Lays j ms fs qs gone)
    (hj : j = i + ns.length) : Lays i (ns ++ ms) (es ++ fs) (ps ++ qs) (lost ++ gone) := by
  induction h with
  | done i =>
    rw [List.length_nil, Nat.add_zero] at hj
    exact hj ▸ h'
  | keep _ ih => exact .keep (ih (by rw [hj, List.length_cons]; omega))
  | slide hr _ ih =>
    rw [List.append_assoc]
    exact .slide hr (ih (by rw [hj, List.length_append]; omega))
  | skip _ ih => exact .skip (ih (by rw [hj, List.length_cons]; omega))

theorem keepAll (i : Nat) (ns : List Node) :
    Lays i ns ((List.range' i ns.length).map .keep) (ns.map .bare) [] := by
  induction ns generalizing i with
  | nil => exact .done i
  | cons n ns ih =>
    rw [List.length_cons, List.range'_succ]
    exact .keep (ih (i + 1))

/-- Carrying out entries puts down their pieces. The children before the first index play no
part. -/
theorem carryOut {i : Nat} {ns : List Node} {es : List Entry} {ps : List Piece} {lost : List Node}
    (h : Lays i ns es ps lost) (wrap : List Node → Node) {front : List (Option Node)}
    (hf : front.length = i) :
    Plan.carryOut wrap es (front ++ ns.map some) =
      (ps.map (Piece.build wrap), Piece.slideCount ps) := by
  induction h generalizing front with
  | done i => rfl
  | @keep i n ns es ps lost _ ih =>
    subst hf
    have hset : (front ++ (n :: ns).map some).set front.length none =
        (front ++ [none]) ++ ns.map some := by
      simp
    rw [Plan.carryOut, hset, ih (by simp)]
    simp [Piece.build, Piece.isSlide]
  | @slide i run ns es ps lost _ _ ih =>
    subst hf
    have hin : ((front ++ (run ++ ns).map some).take (front.length + run.length)).drop
        front.length = run.map some := by
      rw [List.take_length_add_append, List.drop_left, List.map_append,
        ← List.length_map some, List.take_left]
    have hout : (front ++ (run ++ ns).map some).drop (front.length + run.length) =
        ns.map some := by
      simp
    have hfront : (front ++ (run ++ ns).map some).take front.length = front := by simp
    rw [Plan.carryOut]
    simp only [hin, hfront, Nat.max_eq_right (Nat.le_add_right _ _), hout]
    rw [ih (by simp)]
    simp [Piece.build, Piece.isSlide]
  | @skip i n ns es ps lost _ ih =>
    subst hf
    have hfront : (front ++ [some n]).length = front.length + 1 := by simp
    simpa using ih hfront

end Lays

namespace Plan

def loosen (plan : Plan) (c : Child) : Loose := (c.1, plan.excluded.contains c.2)

theorem isBoundary_eq (plan : Plan) : plan.isBoundary = Piece.isEdge ∘ plan.loosen := rfl

theorem map_fst_loosen (plan : Plan) (i : Nat) (ns : List Node) :
    ((ns.zipIdx i).map plan.loosen).map Prod.fst = ns := by
  rw [List.map_map]
  exact List.zipIdx_map_fst i ns

theorem lays_slideAround (i : Nat) (ns : List Node) :
    Lays i ns (slideAround (ns.zipIdx i)) (Piece.around ns) [] := by
  cases ns with
  | nil => exact .done i
  | cons n rest =>
    have h := Lays.slide (List.cons_ne_nil n rest) (.done (i + (n :: rest).length))
    simpa [slideAround, Piece.around] using h

theorem lays_segmentEntries (plan : Plan) (i : Nat) (ns : List Node) :
    Lays i ns (segmentEntries plan.isBoundary (ns.zipIdx i))
      (Piece.ofSegment ((ns.zipIdx i).map plan.loosen)) [] := by
  have happ := Ends.append plan.isBoundary (ns.zipIdx i)
  have hkeep (j : Nat) (ms : List Node) :
      Lays j ms ((ms.zipIdx j).map fun c => .keep c.2) (ms.map .bare) [] := by
    have h := Lays.keepAll j ms
    rwa [← List.zipIdx_map_snd j ms, List.map_map] at h
  obtain ⟨front, back, rfl, hfront, hback⟩ := List.zipIdx_eq_append_iff.mp happ.symm
  obtain ⟨ahead, core, rfl, hahead, hcore⟩ := List.zipIdx_eq_append_iff.mp hfront.symm
  have hpieces : Piece.ofSegment (((ahead ++ core ++ back).zipIdx i).map plan.loosen) =
      ahead.map .bare ++ Piece.around core ++ back.map .bare := by
    rw [isBoundary_eq] at hahead hcore hback
    simp only [Piece.ofSegment, Ends.of_map, hahead, hcore, hback, map_fst_loosen]
  have hentries : segmentEntries plan.isBoundary ((ahead ++ core ++ back).zipIdx i) =
      (ahead.zipIdx i).map (fun c => .keep c.2) ++ slideAround (core.zipIdx (i + ahead.length)) ++
        (back.zipIdx (i + (ahead ++ core).length)).map (fun c => .keep c.2) := by
    rw [← hahead, ← hcore, ← hback]
    rfl
  rw [hpieces, hentries]
  exact ((hkeep i ahead).append (lays_slideAround _ core) rfl).append (hkeep _ back) rfl

/-- The entries that a run adds to a plan stand for the pieces of the run. -/
theorem lays_runEntries (plan : Plan) (i : Nat) (segment run : List Node) :
    Lays i (segment ++ run)
      (runEntries plan.isBoundary (segment.zipIdx i) (run.zipIdx (i + segment.length)))
      (Piece.ofRun ((segment.zipIdx i).map plan.loosen)
        ((run.zipIdx (i + segment.length)).map plan.loosen)) [] := by
  induction run generalizing i segment with
  | nil => simpa [runEntries, Piece.ofRun] using plan.lays_segmentEntries i segment
  | cons n rest ih =>
    simp only [List.zipIdx_cons, List.map_cons, runEntries, Piece.ofRun]
    by_cases hp : n.isPreamble = true
    · have hp' : (plan.loosen (n, i + segment.length)).1.isPreamble = true := hp
      rw [if_pos hp, if_pos hp']
      have hrest := ih (i + segment.length + 1) []
      simp only [List.zipIdx_nil, List.map_nil, List.nil_append, List.length_nil,
        Nat.add_zero] at hrest
      exact (plan.lays_segmentEntries i segment).append (.keep hrest) rfl
    · have hp' : ¬ (plan.loosen (n, i + segment.length)).1.isPreamble = true := hp
      rw [if_neg hp, if_neg hp']
      have hrest := ih i (segment ++ [n])
      simpa [List.zipIdx_append, Nat.add_assoc] using hrest

end Plan

def Entry.names (i : Nat) : Entry → Bool
  | .slide start stop => start ≤ i && i < stop
  | .keep index => index == i

/-- The children that no entry of the plan names when the node is left. -/
def Plan.leftOut (plan : Plan) (children : List Node) : List Node :=
  let entries := (plan.flush children children.length).entries
  (children.zipIdx.filter fun c => !entries.any (·.names c.2)).map Prod.fst

namespace Lays

theorem names_eq_false {i j : Nat} {ns : List Node} {es : List Entry} {ps : List Piece}
    {lost : List Node} (h : Lays i ns es ps lost) (hj : j < i) :
    es.any (·.names j) = false := by
  induction h with
  | done => rfl
  | keep _ ih =>
    rw [List.any_cons, ih (by omega)]
    simp only [Entry.names, Bool.or_false, beq_eq_false_iff_ne]
    omega
  | slide _ _ ih =>
    rw [List.any_cons, ih (by omega)]
    simp only [Entry.names, Bool.or_false, Bool.and_eq_false_imp, decide_eq_true_eq,
      decide_eq_false_iff_not]
    omega
  | skip _ ih => exact ih (by omega)

/-- What the entries leave out is what they do not name. -/
theorem leftOut {i : Nat} {ns : List Node} {es : List Entry} {ps : List Piece} {lost : List Node}
    (h : Lays i ns es ps lost) :
    ((ns.zipIdx i).filter fun c => !es.any (·.names c.2)).map Prod.fst = lost := by
  induction h with
  | done => rfl
  | @keep i n ns es ps lost _ ih =>
    have hsame : ((ns.zipIdx (i + 1)).filter fun c => !(Entry.keep i :: es).any (·.names c.2)) =
        (ns.zipIdx (i + 1)).filter fun c => !es.any (·.names c.2) := by
      apply List.filter_congr
      intro c hc
      have hle := List.le_snd_of_mem_zipIdx hc
      have hne : (i == c.2) = false := beq_eq_false_iff_ne.mpr (by omega)
      rw [List.any_cons, Entry.names, hne, Bool.false_or]
    rw [List.zipIdx_cons, List.filter_cons, hsame]
    simpa [Entry.names] using ih
  | @slide i run ns es ps lost _ _ ih =>
    have hrun : ((run.zipIdx i).filter fun c =>
        !(Entry.slide i (i + run.length) :: es).any (·.names c.2)) = [] := by
      apply List.filter_eq_nil_iff.mpr
      intro c hc
      have hle := List.le_snd_of_mem_zipIdx hc
      have hlt := List.snd_lt_add_of_mem_zipIdx hc
      simp only [List.any_cons, Entry.names, decide_eq_true hle, decide_eq_true hlt]
      simp
    have hsame : ((ns.zipIdx (i + run.length)).filter fun c =>
        !(Entry.slide i (i + run.length) :: es).any (·.names c.2)) =
        (ns.zipIdx (i + run.length)).filter fun c => !es.any (·.names c.2) := by
      apply List.filter_congr
      intro c hc
      have hle := List.le_snd_of_mem_zipIdx hc
      have hge : decide (c.2 < i + run.length) = false := decide_eq_false (by omega)
      rw [List.any_cons, Entry.names, hge, Bool.and_false, Bool.false_or]
    rw [List.zipIdx_append, List.filter_append, hrun, hsame, List.nil_append, ih]
  | @skip i n ns es ps lost rest ih =>
    rw [List.zipIdx_cons, List.filter_cons, rest.names_eq_false (Nat.lt_succ_self i)]
    simp [ih]

end Lays
end SlideDeck
