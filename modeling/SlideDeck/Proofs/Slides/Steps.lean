import SlideDeck.Proofs.Node.Basic
import SlideDeck.Proofs.Slides.Level

/-!
The ways to visit a child, one by one, and what is preserved by all of them. Invariants of a level
are proved for a single child and carried over to all children by one induction.
-/
namespace SlideDeck

namespace Node

theorem isWhitespace_eq_false_of_isMarker {c : Cutter} {n : Node} (h : c.isMarker n = true) :
    n.isWhitespace = false := by
  cases n with
  | text v => simp [Cutter.isMarker, hasName, name?] at h
  | _ => rfl

theorem comments_of_isMarker {c : Cutter} {n : Node} (h : c.isMarker n = true) :
    n.comments = [] := by
  cases n with
  | expression v cs => simp [Cutter.isMarker, hasName, name?] at h
  | _ => rfl

theorem isMarker_withChildren (c : Cutter) (n : Node) (cs : List Node) :
    c.isMarker (n.withChildren cs) = c.isMarker n := by
  simp [Cutter.isMarker, hasName]

end Node

namespace Assembly

variable {a : Assembly} {node : Node}

@[simp] theorem contents_settle (a : Assembly) : a.settle.contents = a.contents := by
  simp [contents, settle]

@[simp] theorem contents_ofLoose (nodes : List Node) : (ofLoose nodes).contents = nodes := by
  rw [contents, ofLoose, List.map_map]
  exact List.map_id nodes

theorem contents_settled (a : Assembly) : Piece.contents a.settle.settled = a.contents := by
  have h := contents_settle a
  rwa [contents, settle_loose, List.map_nil, List.append_nil] at h

@[simp] theorem contents_meetMarker (a : Assembly) : a.meetMarker.contents = a.contents :=
  contents_settle a

@[simp] theorem contents_addCut (a : Assembly) (node : Node) (ahead : Bool) :
    (a.addCut node ahead).contents = a.contents ++ [node] := by
  have h := contents_settled a
  simp only [contents] at h
  simp [contents, addCut, h, Piece.nodes]

theorem contents_addOuter (h : a.ahead = true → a.loose = []) (node : Node) :
    (a.addOuter node).contents = a.contents ++ [node] := by
  unfold addOuter
  cases ha : a.ahead with
  | false => simp [contents]
  | true => simp [contents, h ha, Piece.nodes]

/-- Adding a child either keeps it or, when it is the marker that was passed over, drops it. -/
theorem contents_add (h : a.ahead = true → a.loose = []) (node : Node) :
    ((a.add node).contents = a.contents ++ [node] ∧ (a.add node).dropped = a.dropped) ∨
      (a.ahead = true ∧ node.isWhitespace = false ∧ (a.add node).contents = a.contents ∧
        (a.add node).dropped = a.dropped ++ [node]) := by
  cases ha : a.ahead with
  | false =>
    left
    rw [add_of_behind ha]
    simp [contents]
  | true =>
    cases hn : node.isWhitespace with
    | true =>
      left
      rw [add_of_blank ha hn]
      simp [contents, h ha, Piece.nodes]
    | false =>
      right
      simp [add, ha, hn, contents]

end Assembly

namespace Cutter

variable {c : Cutter} {n : Node} {after todo : List Node} {l : Level}

theorem fires?_eq_none_of_isMarker (mode : SkipMode) (hm : c.isMarker n = true) :
    c.fires? mode n = none := by
  rw [fires?, directive?, Node.comments_of_isMarker hm]
  rfl

/-- Directives are read in expressions only. -/
theorem eq_expression_of_directive? {d : Directive} (h : c.directive? n = some d) :
    ∃ v cs, n = .expression v cs := by
  cases n with
  | expression v cs => exact ⟨v, cs, rfl⟩
  | _ => simp [directive?, Node.comments, SkipComment.find?] at h

theorem directive?_of_isContainer (h : n.isContainer = true) : c.directive? n = none := by
  cases n <;> first | rfl | cases h

/-- A node at which a directive fires is neither blank nor a marker, and has no children. -/
theorem of_fires? {mode : SkipMode} {r : Directive × SkipMode} (h : c.fires? mode n = some r) :
    n.isWhitespace = false ∧ c.isMarker n = false := by
  cases n with
  | expression v cs => exact ⟨rfl, rfl⟩
  | _ => simp [fires?, directive?, Node.comments, SkipComment.find?] at h

theorem transition_of_fires? {mode next : SkipMode} {d : Directive}
    (h : c.fires? mode n = some (d, next)) :
    c.directive? n = some d ∧ mode.transition d = some next := by
  rw [fires?, Option.bind_eq_some_iff] at h
  obtain ⟨d', hdirective, hd'⟩ := h
  rw [Option.map_eq_some_iff] at hd'
  obtain ⟨next', htransition, he⟩ := hd'
  obtain ⟨rfl, rfl⟩ := Prod.mk.inj he
  exact ⟨hdirective, htransition⟩

/-- The directives that take back the plan of the enclosing node are those that end the descent. -/
theorem suppressesDescent_of_fires? {mode next : SkipMode} {d : Directive}
    (h : c.fires? mode n = some (d, next)) : next.suppressesDescent = d.discardsParent := by
  have htransition := (transition_of_fires? h).2
  cases mode <;> cases d <;> cases htransition <;> rfl

/-- A marker comes next, blanks apart. -/
def MarkerComes (c : Cutter) (todo : List Node) : Prop :=
  ∃ blanks m rest, todo = blanks ++ m :: rest ∧ (∀ b ∈ blanks, b.isWhitespace = true) ∧
    c.isMarker m = true

theorem MarkerComes.of_isMarker (hm : c.isMarker n = true) : c.MarkerComes (n :: after) :=
  ⟨[], n, after, rfl, fun b hb => (by cases hb), hm⟩

theorem MarkerComes.tail (h : c.MarkerComes (n :: after)) (hn : n.isWhitespace = true) :
    c.MarkerComes after := by
  obtain ⟨blanks, m, rest, htodo, hblanks, hm⟩ := h
  cases blanks with
  | nil =>
    obtain ⟨rfl, -⟩ := List.cons.inj htodo
    rw [Node.isWhitespace_eq_false_of_isMarker hm] at hn
    cases hn
  | cons b blanks =>
    rw [List.cons_append] at htodo
    obtain ⟨rfl, rfl⟩ := List.cons.inj htodo
    exact ⟨blanks, m, rest, rfl, fun x hx => hblanks x (List.mem_cons_of_mem n hx), hm⟩

theorem MarkerComes.head (h : c.MarkerComes (n :: after)) (hn : n.isWhitespace = false) :
    c.isMarker n = true := by
  obtain ⟨blanks, m, rest, htodo, hblanks, hm⟩ := h
  cases blanks with
  | nil =>
    obtain ⟨rfl, -⟩ := List.cons.inj htodo
    exact hm
  | cons b blanks =>
    rw [List.cons_append] at htodo
    obtain ⟨rfl, -⟩ := List.cons.inj htodo
    rw [hblanks n List.mem_cons_self] at hn
    cases hn

theorem markerNext_spec (h : c.markerNext after = true) : c.MarkerComes after := by
  cases hd : after.dropWhile Node.isWhitespace with
  | nil => simp [markerNext, hd] at h
  | cons m rest =>
    refine ⟨after.takeWhile Node.isWhitespace, m, rest, ?_, ?_, ?_⟩
    · rw [← hd, List.takeWhile_append_dropWhile]
    · exact fun b hb => List.mem_takeWhile_imp hb
    · simpa [markerNext, hd] using h

def levelBelow (c : Cutter) (n : Node) (l : Level) : Level :=
  c.levelAll (n.children?.getD []) [] l.inside

/-- The level at which a node is entered: a marker that cuts is met before that. -/
inductive Opens (c : Cutter) (n : Node) (l : Level) : Level → Prop
  | plain (unmet : (l.mode.splits && c.isMarker n) = false) : Opens c n l l
  | marker (splits : l.mode.splits = true) (met : c.isMarker n = true) : Opens c n l l.meetMarker

inductive Steps (c : Cutter) (n : Node) (after : List Node) (l : Level) : Level → Prop
  | skip (suppressed : l.mode.suppressesDescent = true) : Steps c n after l (l.pass n)
  | follow {d : Directive} {mode : SkipMode} (fires : c.fires? l.mode n = some (d, mode)) :
      Steps c n after l (l.follow d mode)
  | below {l₀ : Level} (awake : l.mode.suppressesDescent = false) (opens : Opens c n l l₀) :
      Steps c n after l (c.ascend n after l₀ (c.levelBelow n l))

theorem steps_level (c : Cutter) (n : Node) (after : List Node) (l : Level) :
    Steps c n after l (c.level n after l) := by
  rw [level_eq, around]
  by_cases hs : l.mode.suppressesDescent = true
  · rw [if_pos hs]
    exact .skip hs
  · rw [if_neg hs]
    have hawake : l.mode.suppressesDescent = false := by simpa using hs
    by_cases hm : (l.mode.splits && c.isMarker n) = true
    · rw [if_pos hm]
      obtain ⟨hsplits, hmarker⟩ := Bool.and_eq_true_iff.mp hm
      exact .below hawake (.marker hsplits hmarker)
    · rw [if_neg hm]
      cases hf : c.fires? l.mode n with
      | some r => exact .follow hf
      | none => exact .below hawake (.plain (by simpa using hm))

inductive Ascends (c : Cutter) (n : Node) (after : List Node) (l inner : Level) : Level → Prop
  | cut {a : Assembly} (assembly : inner.assembly? = some a) : Ascends c n after l inner
      ((l.after inner).put (.addCut (n.withChildren (c.childrenOf inner)) (c.markerNext after))
        (n.withChildren (c.childrenOf inner)))
  | outer (assembly : inner.assembly? = none) (mode : inner.mode = .outer) :
      Ascends c n after l inner
      ((l.after inner).put (.addOuter (n.withChildren inner.done)) (n.withChildren inner.done))
  | pass (assembly : inner.assembly? = none) (mode : inner.mode ≠ .outer) :
      Ascends c n after l inner
      ((l.after inner).pass (n.withChildren inner.done))

theorem ascends_ascend (c : Cutter) (n : Node) (after : List Node) (l inner : Level) :
    Ascends c n after l inner (c.ascend n after l inner) := by
  unfold ascend
  cases hassembly : inner.assembly? with
  | some a => exact .cut hassembly
  | none =>
    rw [Option.isSome_none, if_neg Bool.false_ne_true, c.childrenOf_of_none hassembly]
    by_cases hm : inner.mode = .outer
    · rw [if_pos hm]
      exact .outer hassembly hm
    · rw [if_neg hm]
      exact .pass hassembly hm

/-- A marker that is passed over comes next and nothing is loose before it, and there is no assembly
when no child is visited any more. -/
structure Coherent (c : Cutter) (l : Level) (todo : List Node) : Prop where
  loose : l.assembly.ahead = true → l.assembly.loose = []
  comes : l.assembly.ahead = true → c.MarkerComes todo
  quiet : l.mode.suppressesDescent = true → l.assembly? = none

theorem coherent_of_none (h : l.assembly? = none) (todo : List Node) : Coherent c l todo := by
  have hahead : l.assembly.ahead = false := by
    rw [Level.assembly, h]
    rfl
  refine ⟨fun ha => ?_, fun ha => ?_, fun _ => h⟩
  · rw [hahead] at ha
    cases ha
  · rw [hahead] at ha
    cases ha

theorem Coherent.opens {l₀ : Level} (h : Coherent c l (n :: after))
    (hawake : l.mode.suppressesDescent = false) (ho : Opens c n l l₀) :
    Coherent c l₀ (n :: after) := by
  cases ho with
  | plain unmet => exact h
  | marker splits met =>
    refine ⟨fun _ => rfl, fun _ => .of_isMarker met, fun hs => ?_⟩
    rw [show l.meetMarker.mode = l.mode from rfl, hawake] at hs
    cases hs

theorem Coherent.pass {n' : Node} (h : Coherent c l (n :: after))
    (hw : n'.isWhitespace = n.isWhitespace) : Coherent c (l.pass n') after := by
  have hadd := Level.assembly_pass n' l
  have hahead : (l.pass n').assembly.ahead = true →
      l.assembly.ahead = true ∧ n'.isWhitespace = true := by
    rw [hadd, Assembly.add]
    cases l.assembly.ahead <;> cases n'.isWhitespace <;> simp
  refine ⟨fun ha => ?_, fun ha => ?_, fun hs => ?_⟩
  · obtain ⟨hl, hn⟩ := hahead ha
    rw [hadd, Assembly.add_of_blank hl hn]
    exact h.loose hl
  · obtain ⟨hl, hn⟩ := hahead ha
    exact (h.comes hl).tail (hw.symm.trans hn)
  · rw [Level.pass, h.quiet hs]
    rfl

theorem Coherent.afterBelow {todo : List Node} (h : Coherent c l todo) (inner : Level) :
    Coherent c (l.after inner) todo :=
  ⟨h.loose, h.comes, fun hs => absurd (inner.modeAfter_awake.symm.trans hs) Bool.false_ne_true⟩

theorem coherent_level (h : Coherent c l (n :: after)) : Coherent c (c.level n after l) after := by
  have hsteps := c.steps_level n after l
  generalize c.level n after l = r at hsteps ⊢
  cases hsteps with
  | skip suppressed => exact h.pass rfl
  | @follow d mode fires =>
    obtain ⟨hblank, hmarker⟩ := of_fires? fires
    cases hd : d.discardsParent with
    | true =>
      apply coherent_of_none
      rw [Level.follow, hd]
      rfl
    | false =>
      have hsame : (l.follow d mode).assembly = l.assembly := by
        rw [Level.follow, hd]
        rfl
      have hbehind : l.assembly.ahead = false := by
        cases ha : l.assembly.ahead with
        | false => rfl
        | true => rw [(h.comes ha).head hblank] at hmarker; cases hmarker
      refine ⟨fun ha => ?_, fun ha => ?_, fun hs => ?_⟩
      · rw [hsame, hbehind] at ha
        cases ha
      · rw [hsame, hbehind] at ha
        cases ha
      · rw [← suppressesDescent_of_fires? fires] at hd
        exact absurd (hd.symm.trans hs) Bool.false_ne_true
  | @below l₀ awake opens =>
    have hopens := h.opens awake opens
    have hascends := c.ascends_ascend n after l₀ (c.levelBelow n l)
    have hmode := c.ascend_mode n after l₀ (c.levelBelow n l)
    generalize c.ascend n after l₀ (c.levelBelow n l) = r at hascends hmode ⊢
    have hquiet : r.mode.suppressesDescent = true → r.assembly? = none := by
      rw [hmode, Level.modeAfter_awake]
      intro hs
      cases hs
    cases hascends with
    | cut assembly => exact ⟨fun _ => rfl, fun ha => markerNext_spec ha, hquiet⟩
    | outer assembly mode =>
      have hbehind :
          (l₀.assembly.addOuter (n.withChildren (c.levelBelow n l).done)).ahead = false := by
        unfold Assembly.addOuter
        cases ha : l₀.assembly.ahead <;> simp
      refine ⟨fun ha => ?_, fun ha => ?_, hquiet⟩
      · exact absurd (hbehind.symm.trans ha) Bool.false_ne_true
      · exact absurd (hbehind.symm.trans ha) Bool.false_ne_true
    | pass assembly mode =>
      exact (hopens.afterBelow (c.levelBelow n l)).pass (Node.isWhitespace_withChildren n _)

theorem coherent_levelAll {nodes : List Node} (h : Coherent c l (nodes ++ todo)) :
    Coherent c (c.levelAll nodes todo l) todo := by
  induction nodes generalizing l with
  | nil => exact h
  | cons n rest ih =>
    rw [levelAll_cons]
    exact ih (coherent_level h)

section Runs

variable {R : Level → List Node → List Node → Level → Prop}

/-- What holds of the visit of every child, and can be put together, holds of all visits. -/
theorem levelAll_run (refl : ∀ l todo, R l [] todo l)
    (trans : ∀ {l₁ l₂ l₃ xs ys todo}, R l₁ xs (ys ++ todo) l₂ → R l₂ ys todo l₃ →
      R l₁ (xs ++ ys) todo l₃) {nodes : List Node}
    (step : ∀ n ∈ nodes, ∀ after l, Coherent c l (n :: after) → R l [n] after (c.level n after l))
    (h : Coherent c l (nodes ++ todo)) : R l nodes todo (c.levelAll nodes todo l) := by
  induction nodes generalizing l with
  | nil => exact refl l todo
  | cons n rest ih =>
    rw [levelAll_cons]
    exact trans (step n List.mem_cons_self (rest ++ todo) l h)
      (ih (fun m hm => step m (List.mem_cons_of_mem n hm)) (coherent_level h))

/-- What the visit of a node has when the visits of its children have it, all visits have. -/
theorem level_run (refl : ∀ l todo, R l [] todo l)
    (trans : ∀ {l₁ l₂ l₃ xs ys todo}, R l₁ xs (ys ++ todo) l₂ → R l₂ ys todo l₃ →
      R l₁ (xs ++ ys) todo l₃)
    (step : ∀ n after l, Coherent c l (n :: after) →
      R l.inside (n.children?.getD []) [] (c.levelBelow n l) → R l [n] after (c.level n after l))
    (n : Node) (h : Coherent c l (n :: after)) : R l [n] after (c.level n after l) := by
  induction n using Node.induction_children generalizing after l with
  | step n ih =>
    exact step n after l h
      (levelAll_run refl trans (fun k hk after l => ih k hk) (coherent_of_none rfl _))

end Runs

/-- The node that a visit leaves in the place of a child. -/
inductive Visited (c : Cutter) (n : Node) (l : Level) : Node → Prop
  | skipped (suppressed : l.mode.suppressesDescent = true) : Visited c n l n
  | left (awake : l.mode.suppressesDescent = false) :
      Visited c n l (n.withChildren (c.childrenOf (c.levelBelow n l)))

/-- What becomes of a child: it is kept, or lost as a marker that was passed over, or taken out
because of a directive. -/
inductive Passage (c : Cutter) (n : Node) (l r : Level) : Prop
  | keep {n' : Node} (visited : Visited c n l n') (done : r.done = l.done ++ [n'])
      (contents : r.assembly.contents = l.assembly.contents ++ [n'])
      (dropped : r.assembly.dropped = l.assembly.dropped)
      (planned : l.assembly?.isSome = true → r.assembly?.isSome = true)
  | lose {n' : Node} (visited : Visited c n l n') (marker : c.isMarker n = true)
      (done : r.done = l.done ++ [n']) (contents : r.assembly.contents = l.assembly.contents)
      (dropped : r.assembly.dropped = l.assembly.dropped ++ [n'])
      (planned : l.assembly?.isSome = true → r.assembly?.isSome = true)
  | remove (directive : (c.directive? n).isSome = true) (done : r.done = l.done)
      (assembly : r.assembly? = l.assembly? ∨
        (r.assembly? = none ∧ r.mode.suppressesDescent = true))

theorem passage_pass {n' : Node} {l₀ : Level} (h : Coherent c l₀ (n :: after))
    (visited : Visited c n l n') (hw : n'.isWhitespace = n.isWhitespace) (hdone : l₀.done = l.done)
    (hcontents : l₀.assembly.contents = l.assembly.contents)
    (hdropped : l₀.assembly.dropped = l.assembly.dropped)
    (hplanned : l.assembly?.isSome = true → l₀.assembly?.isSome = true) :
    Passage c n l (l₀.pass n') := by
  have hadd := Level.assembly_pass n' l₀
  have hd : (l₀.pass n').done = l.done ++ [n'] := by
    rw [← hdone]
    rfl
  have hp (hsome : l.assembly?.isSome = true) : (l₀.pass n').assembly?.isSome = true := by
    rw [Level.pass, Option.isSome_map]
    exact hplanned hsome
  rcases Assembly.contents_add h.loose n' with ⟨hc, hd'⟩ | ⟨ha, hn, hc, hd'⟩
  · refine .keep visited hd ?_ ?_ hp
    · rw [hadd, hc, hcontents]
    · rw [hadd, hd', hdropped]
  · refine .lose visited ((h.comes ha).head (hw.symm.trans hn)) hd ?_ ?_ hp
    · rw [hadd, hc, hcontents]
    · rw [hadd, hd', hdropped]

theorem passage_level (h : Coherent c l (n :: after)) : Passage c n l (c.level n after l) := by
  have hsteps := c.steps_level n after l
  generalize c.level n after l = r at hsteps ⊢
  cases hsteps with
  | skip suppressed => exact passage_pass h (.skipped suppressed) rfl rfl rfl rfl id
  | @follow d mode fires =>
    have hdirective : (c.directive? n).isSome = true := by
      rw [(transition_of_fires? fires).1, Option.isSome_some]
    have hsuppressed := suppressesDescent_of_fires? fires
    refine .remove hdirective rfl ?_
    unfold Level.follow
    cases hd : d.discardsParent with
    | true => exact .inr ⟨rfl, hsuppressed.trans hd⟩
    | false => exact .inl rfl
  | @below l₀ awake opens =>
    have hopens := h.opens awake opens
    have hl₀ : l₀.done = l.done ∧ l₀.assembly.contents = l.assembly.contents ∧
        l₀.assembly.dropped = l.assembly.dropped ∧
        (l.assembly?.isSome = true → l₀.assembly?.isSome = true) := by
      cases opens with
      | plain unmet => exact ⟨rfl, rfl, rfl, id⟩
      | marker splits met => exact ⟨rfl, Assembly.contents_meetMarker _, rfl, fun _ => rfl⟩
    obtain ⟨hdone, hcontents, hdropped, hplanned⟩ := hl₀
    have hvisited := Visited.left (c := c) (n := n) awake
    have hascends := c.ascends_ascend n after l₀ (c.levelBelow n l)
    generalize c.ascend n after l₀ (c.levelBelow n l) = r at hascends ⊢
    cases hascends with
    | cut assembly =>
      refine .keep hvisited ?_ ?_ hdropped fun _ => rfl
      · rw [← hdone]
        rfl
      · rw [← hcontents]
        exact Assembly.contents_addCut _ _ _
    | outer assembly mode =>
      rw [c.childrenOf_of_none assembly] at hvisited
      refine .keep hvisited ?_ ?_ ?_ fun _ => rfl
      · rw [← hdone]
        rfl
      · rw [← hcontents]
        exact Assembly.contents_addOuter hopens.loose _
      · rw [← hdropped]
        show (l₀.assembly.addOuter _).dropped = _
        unfold Assembly.addOuter
        split <;> rfl
    | pass assembly mode =>
      rw [c.childrenOf_of_none assembly] at hvisited
      have hafter : Coherent c (l₀.after (c.levelBelow n l)) (n :: after) :=
        hopens.afterBelow (c.levelBelow n l)
      exact passage_pass hafter hvisited (Node.isWhitespace_withChildren n _) hdone hcontents
        hdropped hplanned

/-- The new children at the end of a level hold what its assembly holds. -/
theorem contents_pieces (l : Level) : Piece.contents l.pieces = l.assembly.contents := by
  cases hassembly : l.assembly? with
  | none =>
    rw [l.pieces_of_none hassembly, Piece.contents_map_bare, Level.assembly, hassembly,
      Option.getD_none, Assembly.contents_ofLoose]
  | some a =>
    rw [l.pieces_of_some hassembly, Assembly.contents_settled, l.assembly_of_some hassembly]

/-- The level `r` has the children `new` besides those of `l`. Unless the plan was discarded, what
it holds grew at the end, by some of them. -/
structure Grows (l r : Level) (new : List Node) : Prop where
  done : r.done = l.done ++ new
  contents : r.mode.suppressesDescent = true ∨
    ∃ back, back.Sublist new ∧ r.assembly.contents = l.assembly.contents ++ back
  planned : r.mode.suppressesDescent = true ∨
    (l.assembly?.isSome = true → r.assembly?.isSome = true)
  suppressed : l.mode.suppressesDescent = true → r.mode.suppressesDescent = true

theorem grows_refl (l : Level) : Grows l l [] :=
  ⟨(List.append_nil _).symm, .inr ⟨[], .slnil, (List.append_nil _).symm⟩, .inr id, id⟩

theorem Grows.trans {l₁ l₂ l₃ : Level} {xs ys : List Node} (h : Grows l₁ l₂ xs)
    (h' : Grows l₂ l₃ ys) : Grows l₁ l₃ (xs ++ ys) := by
  refine ⟨?_, ?_, ?_, fun hs => h'.suppressed (h.suppressed hs)⟩
  · rw [h'.done, h.done, List.append_assoc]
  · rcases h.contents with hs | ⟨back, hback, hcontents⟩
    · exact .inl (h'.suppressed hs)
    · rcases h'.contents with hs | ⟨back', hback', hcontents'⟩
      · exact .inl hs
      · refine .inr ⟨back ++ back', hback.append hback', ?_⟩
        rw [hcontents', hcontents, List.append_assoc]
  · rcases h.planned with hs | hp
    · exact .inl (h'.suppressed hs)
    · rcases h'.planned with hs | hp'
      · exact .inl hs
      · exact .inr fun hsome => hp' (hp hsome)

theorem grows_level (h : Coherent c l (n :: after)) : ∃ new, Grows l (c.level n after l) new := by
  have hsuppressed (hs : l.mode.suppressesDescent = true) :
      (c.level n after l).mode.suppressesDescent = true := by
    rw [level_eq, around, if_pos hs]
    exact hs
  have hpassage := passage_level h
  generalize c.level n after l = r at hsuppressed hpassage ⊢
  cases hpassage with
  | @keep n' visited done contents dropped planned =>
    exact ⟨[n'], done, .inr ⟨[n'], .refl _, contents⟩, .inr planned, hsuppressed⟩
  | @lose n' visited marker done contents dropped planned =>
    refine ⟨[n'], done, .inr ⟨[], List.nil_sublist _, ?_⟩, .inr planned, hsuppressed⟩
    rw [contents, List.append_nil]
  | remove directive done assembly =>
    refine ⟨[], ?_, ?_, ?_, hsuppressed⟩
    · rw [done, List.append_nil]
    · rcases assembly with hsame | ⟨-, hs⟩
      · refine .inr ⟨[], .slnil, ?_⟩
        rw [Level.assembly_congr hsame done, List.append_nil]
      · exact .inl hs
    · rcases assembly with hsame | ⟨-, hs⟩
      · rw [hsame]
        exact .inr id
      · exact .inl hs

theorem grows_levelAll {nodes : List Node} (h : Coherent c l (nodes ++ todo)) :
    ∃ new, Grows l (c.levelAll nodes todo l) new :=
  levelAll_run (R := fun l _ _ r => ∃ new, Grows l r new) (fun l _ => ⟨[], grows_refl l⟩)
    (fun ⟨_, hx⟩ ⟨_, hy⟩ => ⟨_, hx.trans hy⟩) (fun _ _ _ _ hl => grows_level hl) h

end Cutter
end SlideDeck
