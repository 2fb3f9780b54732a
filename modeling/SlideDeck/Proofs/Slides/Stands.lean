import SlideDeck.Proofs.Slides.Steps

/-!
A plan stands for an assembly. The entries below the cursor lay out the settled pieces, and the
children from the cursor to the walk are the loose ones; when a marker was passed over, the cursor
is just behind it and the blanks before it are laid out already. Each change of a plan is a change
of the assembly that it stands for.
-/
namespace SlideDeck

theorem Piece.ofRun_nil : Piece.ofRun [] [] = [] := rfl

namespace Cutter

variable {c : Cutter} {n : Node} {index : Nat} {plan : Plan}

theorem planOuter_of_behind (h : ¬ index < plan.cursor) :
    c.planOuter n index plan = plan.exclude index := by
  simp [planOuter, Plan.exclude, h]

theorem planOuter_of_passed (hm : c.isMarker n = true) (h : index < plan.cursor) :
    c.planOuter n index plan = (plan.exclude index).keep [index] := by
  simp [planOuter, Plan.exclude, hm, h]

end Cutter

namespace Plan

def looseFrom (plan : Plan) (before : List Node) : List Loose :=
  ((before.drop plan.cursor).zipIdx plan.cursor).map plan.loosen

/-- The plan stands for the assembly, with the children `before` behind the walk and `todo`
ahead. -/
inductive Stands (c : Cutter) (before todo : List Node) (plan : Plan) : Assembly → Prop
  | behind {ps : List Piece} {lost : List Node} (cursor : plan.cursor ≤ before.length)
      (excluded : ∀ i ∈ plan.excluded, i < before.length)
      (lays : Lays 0 (before.take plan.cursor) plan.entries ps lost) :
      Stands c before todo plan ⟨ps, plan.looseFrom before, false, lost⟩
  | ahead {blanks rest : List Node} {m : Node} {ps : List Piece} {lost : List Node}
      (todo_eq : todo = blanks ++ m :: rest) (blank : ∀ b ∈ blanks, b.isWhitespace = true)
      (marker : c.isMarker m = true) (cursor : plan.cursor = before.length + blanks.length + 1)
      (excluded : ∀ i ∈ plan.excluded, i < before.length)
      (lays : Lays 0 (before ++ blanks) plan.entries (ps ++ blanks.map .bare) lost) :
      Stands c before todo plan ⟨ps, [], true, lost⟩

variable {c : Cutter} {before after todo : List Node} {n n' : Node} {plan : Plan} {a : Assembly}

theorem stands_new (c : Cutter) (before todo : List Node) :
    Stands c before todo {} (.ofLoose before) := by
  have hloosen : loosen {} = fun child => (child.1, false) := by
    funext child
    simp [loosen]
  have hloose : looseFrom {} before = before.map (·, false) := by
    have hfst := List.zipIdx_map_fst 0 before
    rw [looseFrom, List.drop_zero, hloosen]
    calc (before.zipIdx 0).map (fun child => (child.1, false))
        = ((before.zipIdx 0).map Prod.fst).map (·, false) := by rw [List.map_map]; rfl
      _ = before.map (·, false) := by rw [hfst]
  rw [Assembly.ofLoose, ← hloose]
  exact .behind (Nat.zero_le _) (fun i hi => by cases hi) (.done 0)

theorem drop_zipIdx (k i : Nat) (ns : List Node) :
    (ns.zipIdx i).drop k = (ns.drop k).zipIdx (i + k) := by
  induction k generalizing i ns with
  | zero => rfl
  | succ k ih =>
    cases ns with
    | nil => rfl
    | cons n ns =>
      rw [List.zipIdx_cons, List.drop_succ_cons, List.drop_succ_cons, ih]
      congr 1
      omega

theorem run_eq (plan : Plan) (before tail : List Node) :
    plan.run (before ++ tail) before.length = (before.drop plan.cursor).zipIdx plan.cursor := by
  have htake : ((before ++ tail).zipIdx).take before.length = before.zipIdx := by
    rw [List.zipIdx_append, List.take_append_of_le_length (by simp),
      List.take_of_length_le (by simp)]
  rw [run, htake, drop_zipIdx, Nat.zero_add]

theorem looseFrom_snoc (plan : Plan) (h : plan.cursor ≤ before.length) (n : Node) :
    plan.looseFrom (before ++ [n]) =
      plan.looseFrom before ++ [(n, plan.excluded.contains before.length)] := by
  have hlen : plan.cursor + (before.length - plan.cursor) = before.length := by omega
  simp [looseFrom, List.drop_append_of_le_length h, List.zipIdx_append, hlen, loosen]

/-- Excluding a child to come changes nothing about those before it. -/
theorem looseFrom_exclude (plan : Plan) (before : List Node) :
    (plan.exclude before.length).looseFrom before = plan.looseFrom before := by
  apply List.map_congr_left
  intro child hc
  have hlt := List.snd_lt_add_of_mem_zipIdx hc
  rw [List.length_drop] at hlt
  have hge := List.le_snd_of_mem_zipIdx hc
  simp only [exclude] at hlt hge
  have hne : child.2 ≠ before.length := by omega
  simp [loosen, exclude, hne]

/-- Planning for the children up to one that is no blank settles the loose ones. -/
theorem Stands.flush (h : plan.Stands c before todo a)
    (hn : todo.head?.all (!·.isWhitespace) = true) (tail : List Node) :
    Lays 0 before (plan.flush (before ++ tail) before.length).entries a.settle.settled
      a.dropped := by
  cases h with
  | behind cursor excluded lays =>
    simp only [Plan.flush, run_eq, Assembly.settle]
    have hrun := plan.lays_runEntries plan.cursor [] (before.drop plan.cursor)
    simp only [List.zipIdx_nil, List.map_nil, List.nil_append, List.length_nil,
      Nat.add_zero] at hrun
    have happ := lays.append hrun (by rw [List.length_take]; omega)
    rwa [List.take_append_drop, List.append_nil] at happ
  | @ahead blanks rest m ps lost todo_eq blank marker cursor excluded lays =>
    have hblanks : blanks = [] := by
      cases blanks with
      | nil => rfl
      | cons b bs =>
        have hb := blank b List.mem_cons_self
        simp [todo_eq, hb] at hn
    subst hblanks
    have hdrop : before.drop plan.cursor = [] := List.drop_eq_nil_of_le (by omega)
    simp only [Plan.flush, run_eq, hdrop, Assembly.settle, Piece.ofRun_nil]
    simpa [runEntries, segmentEntries, slideAround] using lays

theorem Stands.excluded_lt (h : plan.Stands c before todo a) :
    ∀ i ∈ plan.excluded, i < before.length := by
  cases h <;> assumption

theorem Stands.meetMarker (h : plan.Stands c before (n :: after) a)
    (hn : c.isMarker n = true) (tail : List Node) :
    ((plan.flush (before ++ tail) before.length).resumeAt (before.length + 1)).Stands c before
      (n :: after) a.meetMarker := by
  have hlays := h.flush (by simp [Node.isWhitespace_eq_false_of_isMarker hn]) tail
  have hblank : ∀ b ∈ ([] : List Node), b.isWhitespace = true := by simp
  refine .ahead rfl hblank hn rfl h.excluded_lt ?_
  simpa [resumeAt, Assembly.settle] using hlays

theorem markerNext_eq (c : Cutter) (after : List Node) :
    c.markerNext after =
      after[(after.takeWhile Node.isWhitespace).length]?.any c.isMarker := by
  have h : (after.takeWhile Node.isWhitespace ++ after.dropWhile Node.isWhitespace)[
      (after.takeWhile Node.isWhitespace).length]? = (after.dropWhile Node.isWhitespace).head? := by
    rw [List.getElem?_append_right (Nat.le_refl _), Nat.sub_self, List.head?_eq_getElem?]
  rw [List.takeWhile_append_dropWhile] at h
  rw [Cutter.markerNext, h]

/-- A plan whose cursor is at the walk stands for an assembly with nothing loose. -/
theorem Stands.caughtUp {ps : List Piece} {lost : List Node} (cursor : plan.cursor = before.length)
    (excluded : ∀ i ∈ plan.excluded, i < before.length)
    (lays : Lays 0 before plan.entries ps lost) :
    plan.Stands c before todo ⟨ps, [], false, lost⟩ := by
  have hloose : plan.looseFrom before = [] := by
    rw [looseFrom, List.drop_eq_nil_of_le (Nat.le_of_eq cursor.symm)]
    rfl
  rw [← hloose]
  refine .behind (Nat.le_of_eq cursor) excluded ?_
  rwa [cursor, List.take_length]

theorem excluded_lt_snoc (h : ∀ i ∈ plan.excluded, i < before.length) (n : Node) :
    ∀ i ∈ plan.excluded, i < (before ++ [n]).length := by
  intro i hi
  have := h i hi
  rw [List.length_append]
  omega

/-- A child that was cut is settled by itself, and a marker that comes next is passed over. -/
theorem Stands.addCut (h : plan.Stands c before (n :: after) a) (hn : n.isWhitespace = false)
    (n' : Node) :
    (c.planCut n' ⟨before, after⟩ plan).Stands c (before ++ [n']) after
      (a.addCut n' (c.markerNext after)) := by
  have hlays := h.flush (by simp [hn]) (n' :: after)
  have hexcluded := excluded_lt_snoc h.excluded_lt n'
  rw [Cutter.planCut, ← markerNext_eq]
  cases hm : c.markerNext after with
  | false =>
    have hkeep := hlays.append (Lays.keepAll before.length [n']) (by simp)
    rw [List.append_nil] at hkeep
    exact .caughtUp (by simp [resumeAt, Place.index]) hexcluded hkeep
  | true =>
    cases hd : after.dropWhile Node.isWhitespace with
    | nil => simp [Cutter.markerNext, hd] at hm
    | cons m rest =>
      have hmarker : c.isMarker m = true := by simpa [Cutter.markerNext, hd] using hm
      have hafter : after = after.takeWhile Node.isWhitespace ++ m :: rest := by
        rw [← hd, List.takeWhile_append_dropWhile]
      have hkeep := hlays.append
        (Lays.keepAll before.length (n' :: after.takeWhile Node.isWhitespace)) (by simp)
      rw [if_pos rfl]
      refine .ahead hafter (fun b hb => List.mem_takeWhile_imp hb) hmarker ?_ hexcluded ?_
      · simp only [resumeAt, Place.index, List.length_append, List.length_singleton]
        omega
      · simpa [resumeAt, Plan.keep, Place.index, Place.around] using hkeep

/-- A child that was not cut is loose, unless a marker was passed over. -/
theorem Stands.add (h : plan.Stands c before (n :: after) a)
    (hw : n'.isWhitespace = n.isWhitespace) (hsame : n.isWhitespace = true → n' = n) :
    plan.Stands c (before ++ [n']) after (a.add n') := by
  have hexcluded := excluded_lt_snoc h.excluded_lt n'
  cases h with
  | behind cursor excluded lays =>
    have hnot : plan.excluded.contains before.length = false := by
      rw [Bool.eq_false_iff, Ne, List.contains_iff_mem]
      exact fun hmem => Nat.lt_irrefl _ (excluded _ hmem)
    have hloose : plan.looseFrom before ++ [(n', false)] = plan.looseFrom (before ++ [n']) := by
      rw [plan.looseFrom_snoc cursor, hnot]
    simp only [Assembly.add, Bool.false_eq_true, if_false, hloose]
    refine .behind (by rw [List.length_append]; omega) hexcluded ?_
    rwa [List.take_append_of_le_length cursor]
  | @ahead blanks rest m ps lost todo_eq blank marker cursor excluded lays =>
    cases blanks with
    | nil =>
      obtain ⟨rfl, rfl⟩ := List.cons.inj todo_eq
      have hmarker : n'.isWhitespace = false :=
        hw.trans (Node.isWhitespace_eq_false_of_isMarker marker)
      have hlays := lays.append (.skip (n := n') (.done (before.length + 1))) (by simp)
      simp only [List.append_nil, List.map_nil] at hlays
      simp only [Assembly.add, hmarker, if_true, if_false, Bool.false_eq_true]
      exact .caughtUp (by simp [cursor]) hexcluded hlays
    | cons b blanks =>
      obtain ⟨rfl, rfl⟩ := List.cons.inj todo_eq
      have hb := blank n List.mem_cons_self
      obtain rfl := hsame hb
      simp only [Assembly.add, hb, if_true]
      refine .ahead rfl (fun x hx => blank x (List.mem_cons_of_mem _ hx)) marker ?_ hexcluded ?_
      · rw [cursor, List.length_append, List.length_cons, List.length_singleton]
        omega
      · simpa using lays

/-- A child that is kept out of slides is loose, and kept if a marker was passed over. -/
theorem Stands.addOuter (h : plan.Stands c before (n :: after) a) (hn : n.isWhitespace = false)
    (hm : c.isMarker n' = c.isMarker n) :
    (c.planOuter n' before.length plan).Stands c (before ++ [n']) after (a.addOuter n') := by
  have hexcluded : ∀ i ∈ (plan.exclude before.length).excluded, i < (before ++ [n']).length := by
    intro i hi
    rcases List.mem_cons.mp hi with rfl | hi
    · simp
    · exact excluded_lt_snoc h.excluded_lt n' i hi
  cases h with
  | behind cursor excluded lays =>
    have hnot : ¬ before.length < plan.cursor := Nat.not_lt.mpr cursor
    have hloose : plan.looseFrom before ++ [(n', true)] =
        (plan.exclude before.length).looseFrom (before ++ [n']) := by
      rw [(plan.exclude before.length).looseFrom_snoc cursor, looseFrom_exclude]
      simp [exclude]
    rw [Cutter.planOuter_of_behind hnot]
    simp only [Assembly.addOuter, Bool.false_eq_true, if_false, hloose]
    refine .behind ?_ hexcluded ?_
    · simp only [exclude, List.length_append]
      omega
    · rw [List.take_append_of_le_length (by simpa [exclude] using cursor)]
      exact lays
  | @ahead blanks rest m ps lost todo_eq blank marker cursor excluded lays =>
    cases blanks with
    | nil =>
      obtain ⟨rfl, rfl⟩ := List.cons.inj todo_eq
      have hlt : before.length < plan.cursor := by
        rw [cursor]
        omega
      have hlays := lays.append (Lays.keepAll before.length [n']) (by simp)
      rw [Cutter.planOuter_of_passed (hm.trans marker) hlt]
      simp only [List.append_nil, List.map_nil, Assembly.addOuter, if_true] at hlays ⊢
      exact .caughtUp (by simp [Plan.keep, exclude, cursor]) hexcluded hlays
    | cons b blanks =>
      obtain ⟨rfl, rfl⟩ := List.cons.inj todo_eq
      have hb := blank n List.mem_cons_self
      rw [hn] at hb
      cases hb

theorem Stands.remove (h : plan.Stands c before (n :: after) a) (hn : n.isWhitespace = false)
    (hm : c.isMarker n = false) : plan.Stands c before after a := by
  cases h with
  | behind cursor excluded lays => exact .behind cursor excluded lays
  | @ahead blanks rest m ps lost todo_eq blank marker cursor excluded lays =>
    cases blanks with
    | nil =>
      obtain ⟨rfl, rfl⟩ := List.cons.inj todo_eq
      rw [hm] at marker
      cases marker
    | cons b blanks =>
      obtain ⟨rfl, rfl⟩ := List.cons.inj todo_eq
      have hb := blank n List.mem_cons_self
      rw [hn] at hb
      cases hb

end Plan
end SlideDeck
