import SlideDeck.Proofs.Slides.Shape
import SlideDeck.Proofs.Slides.Soundness

/-!
What planning for a run of children adds to a plan. The entries name the children of the run one
after another. Preamble is kept and cuts the run into segments, and in each segment there is one
slide from the first child that is no boundary to the last one, if there are any.
-/
namespace SlideDeck

/-- Where nothing is left out, the entries name the indices one after another. -/
theorem Lays.indices {i : Nat} {ns : List Node} {es : List Entry} {ps : List Piece}
    (h : Lays i ns es ps []) : es.flatMap Entry.indices = List.range' i ns.length := by
  generalize hlost : ([] : List Node) = lost at h
  induction h with
  | done => rfl
  | keep _ ih =>
    rw [List.flatMap_cons, ih hlost, List.length_cons, List.range'_succ]
    rfl
  | slide _ _ ih =>
    rw [List.flatMap_cons, ih hlost, List.length_append, ← List.range'_append_1, Entry.indices,
      Nat.add_sub_cancel_left]
  | skip _ _ => cases hlost

namespace Ends

theorem all_ahead {α : Type} (edge : α → Bool) (xs : List α) :
    ∀ x ∈ (of edge xs).ahead, edge x = true :=
  fun _ hx => List.mem_takeWhile_imp hx

theorem all_behind {α : Type} (edge : α → Bool) (xs : List α) :
    ∀ x ∈ (of edge xs).behind, edge x = true :=
  fun _ hx => List.mem_takeWhile_imp (List.mem_reverse.mp hx)

/-- The ends of numbered children, with their numbers. -/
theorem exists_zipIdx (edge : Plan.Child → Bool) (i : Nat) (ns : List Node) :
    ∃ ahead core behind, ns = ahead ++ core ++ behind ∧ of edge (ns.zipIdx i) =
      ⟨ahead.zipIdx i, core.zipIdx (i + ahead.length),
        behind.zipIdx (i + (ahead ++ core).length)⟩ := by
  have happ := append edge (ns.zipIdx i)
  obtain ⟨front, behind, rfl, hfront, hbehind⟩ := List.zipIdx_eq_append_iff.mp happ.symm
  obtain ⟨ahead, core, rfl, hahead, hcore⟩ := List.zipIdx_eq_append_iff.mp hfront.symm
  refine ⟨ahead, core, behind, rfl, ?_⟩
  rw [← hahead, ← hcore, ← hbehind]

end Ends

theorem getElem?_middle {α : Type} {part : List α} {x : α} {k : Nat} (h : part[k]? = some x)
    (front back : List α) : (front ++ part ++ back)[front.length + k]? = some x := by
  obtain ⟨hk, -⟩ := List.getElem?_eq_some_iff.mp h
  rw [List.append_assoc, List.getElem?_append_right (Nat.le_add_right _ _),
    Nat.add_sub_cancel_left, List.getElem?_append_left hk, h]

namespace Plan

/-- The child at the index begins and ends no slide. -/
def EdgeAt (plan : Plan) (children : List Node) (i : Nat) : Prop :=
  i ∈ plan.excluded ∨ ∃ n, children[i]? = some n ∧ n.isWhitespace = true

def PreambleAt (children : List Node) (i : Nat) : Prop :=
  ∃ n, children[i]? = some n ∧ n.isPreamble = true

/-- From `first` to before `last` there is no preamble, and within the run from `low` to before
`high` this is so no further to either side. -/
structure Segment (children : List Node) (low high first last : Nat) : Prop where
  low_le : low ≤ first
  lt : first < last
  le_high : last ≤ high
  bare : ∀ i, first ≤ i → i < last → ¬ PreambleAt children i
  left : low < first → PreambleAt children (first - 1)
  right : last < high → PreambleAt children last

/-- Entries that keep the children from one index to before another. -/
def kept (start stop : Nat) : List Entry := (List.range' start (stop - start)).map .keep

/-- The entries for a segment. When all of its children are boundaries they are kept; otherwise a
slide goes from the first child that is none to the last one, and the children beside it are
kept. -/
inductive Covers (edge : Nat → Prop) (first last : Nat) : List Entry → Prop
  | bare (edges : ∀ i, first ≤ i → i < last → edge i) : Covers edge first last (kept first last)
  | slide {start stop : Nat} (first_le : first ≤ start) (lt : start < stop) (le_last : stop ≤ last)
      (ahead : ∀ i, first ≤ i → i < start → edge i) (begins : ¬ edge start)
      (ends : ¬ edge (stop - 1)) (behind : ∀ i, stop ≤ i → i < last → edge i) :
      Covers edge first last (kept first start ++ [.slide start stop] ++ kept stop last)

/-- What a plan gets for the children from its cursor to before `stop`. -/
structure Partition (plan : Plan) (children : List Node) (stop : Nat) (added : List Entry) :
    Prop where
  /-- Every index of the run is named once, in increasing order, and no other is. -/
  named : added.flatMap Entry.indices = List.range' plan.cursor (stop - plan.cursor)
  preamble : ∀ i, plan.cursor ≤ i → i < stop → PreambleAt children i → .keep i ∈ added
  slides : ∀ {first last}, .slide first last ∈ added →
    first < last ∧ ∀ i, first ≤ i → i < last → ¬ PreambleAt children i
  segments : ∀ {first last}, Segment children plan.cursor stop first last →
    ∃ front entries back, added = front ++ entries ++ back ∧
      Covers (plan.EdgeAt children) first last entries

variable {plan : Plan} {children front segment back : List Node} {stop : Nat}
  {boundary : Child → Bool}

theorem run_eq_zipIdx (plan : Plan) (children : List Node) (stop : Nat) :
    plan.run children stop = ((children.take stop).drop plan.cursor).zipIdx plan.cursor := by
  have htake : children.zipIdx.take stop = (children.take stop).zipIdx := by
    apply List.ext_getElem?
    intro k
    simp only [List.getElem?_take, List.getElem?_zipIdx]
    split <;> rfl
  rw [run, htake, drop_zipIdx, Nat.zero_add]

theorem getElem?_take_eq_some_iff {α : Type} {xs : List α} {x : α} {k m : Nat} :
    (xs.take m)[k]? = some x ↔ k < m ∧ xs[k]? = some x := by
  rw [List.getElem?_take]
  split <;> simp [*]

/-- The child at an index of the run. -/
theorem getElem?_run_iff {low high i k : Nat} (hi : low + k = i) {n : Node} :
    ((children.take high).drop low)[k]? = some n ↔ i < high ∧ children[i]? = some n := by
  rw [List.getElem?_drop, hi, getElem?_take_eq_some_iff]

/-- A child in a part of a run. -/
theorem getElem?_of_parts {low high k : Nat}
    (hparts : (children.take high).drop low = front ++ segment ++ back) {n : Node}
    (hn : segment[k]? = some n) : children[low + front.length + k]? = some n := by
  have hget := getElem?_middle hn front back
  rw [← hparts] at hget
  exact ((getElem?_run_iff (Nat.add_assoc _ _ _).symm).mp hget).2

/-- A segment of a run as a part of the list of its children. -/
theorem Segment.exists_parts {low high first last : Nat}
    (h : Segment children low high first last) (hhigh : high ≤ children.length) :
    ∃ front segment back, (children.take high).drop low = front ++ segment ++ back ∧
      first = low + front.length ∧ last = first + segment.length ∧
      (∀ n ∈ front.getLast?, n.isPreamble = true) ∧ (∀ n ∈ segment, n.isPreamble = false) ∧
      ∀ n ∈ back.head?, n.isPreamble = true := by
  obtain ⟨hlow, hlt, hle, hbare, hleft, hright⟩ := h
  have hget {i k : Nat} {n : Node} (hi : low + k = i) :
      ((children.take high).drop low)[k]? = some n ↔ i < high ∧ children[i]? = some n :=
    getElem?_run_iff hi
  generalize hrun : (children.take high).drop low = run at hget
  have hlength : run.length = high - low := by
    rw [← hrun, List.length_drop, List.length_take, Nat.min_eq_left hhigh]
  have hparts : run = run.take (first - low) ++ (run.drop (first - low)).take (last - first) ++
      run.drop (last - low) := by
    rw [show last - low = (first - low) + (last - first) by omega, ← List.drop_drop,
      List.append_assoc, List.take_append_drop, List.take_append_drop]
  refine ⟨_, _, _, hparts, ?_, ?_, fun n hn => ?_, fun n hn => ?_, fun n hn => ?_⟩
  · rw [List.length_take]
    omega
  · rw [List.length_take, List.length_drop]
    omega
  · rw [Option.mem_def, List.getLast?_eq_getElem?, List.length_take, hlength] at hn
    obtain ⟨hk, hn⟩ := getElem?_take_eq_some_iff.mp hn
    obtain ⟨m, hm, hpreamble⟩ := hleft (by omega)
    have hchild := ((hget (show _ = first - 1 by omega)).mp hn).2
    obtain rfl := Option.some.inj (hm.symm.trans hchild)
    exact hpreamble
  · obtain ⟨k, hn⟩ := List.mem_iff_getElem?.mp hn
    obtain ⟨hk, hn⟩ := getElem?_take_eq_some_iff.mp hn
    rw [List.getElem?_drop] at hn
    have hchild := ((hget (show _ = first + k by omega)).mp hn).2
    exact Bool.eq_false_iff.mpr fun hp => hbare (first + k) (by omega) (by omega) ⟨n, hchild, hp⟩
  · rw [Option.mem_def, List.head?_drop] at hn
    obtain ⟨hlast, hchild⟩ := (hget (show _ = last by omega)).mp hn
    obtain ⟨m, hm, hpreamble⟩ := hright hlast
    obtain rfl := Option.some.inj (hm.symm.trans hchild)
    exact hpreamble

theorem kept_append {first middle last : Nat} (h : first ≤ middle) (h' : middle ≤ last) :
    kept first middle ++ kept middle last = kept first last := by
  rw [kept, kept, kept, ← List.map_append, show last - first = (middle - first) + (last - middle) by
    omega, ← List.range'_append_1, show first + (middle - first) = middle by omega]

theorem map_keep_zipIdx (i : Nat) (ns : List Node) :
    (ns.zipIdx i).map (fun c => Entry.keep c.2) = kept i (i + ns.length) := by
  rw [kept, Nat.add_sub_cancel_left, ← List.zipIdx_map_snd i ns, List.map_map]
  rfl

/-- The entries for a segment, where its ends are known. -/
theorem segmentEntries_of_ends {ahead core behind : List Node} {i : Nat}
    (h : Ends.of boundary ((ahead ++ core ++ behind).zipIdx i) = ⟨ahead.zipIdx i,
      core.zipIdx (i + ahead.length), behind.zipIdx (i + (ahead ++ core).length)⟩) :
    segmentEntries boundary ((ahead ++ core ++ behind).zipIdx i) = kept i (i + ahead.length) ++
      slideAround (core.zipIdx (i + ahead.length)) ++
        kept (i + (ahead ++ core).length) (i + (ahead ++ core).length + behind.length) := by
  have hentries := congrArg (fun ends : Ends Child => ends.ahead.map (fun c => Entry.keep c.2) ++
    slideAround ends.core ++ ends.behind.map (fun c => Entry.keep c.2)) h
  simp only [map_keep_zipIdx] at hentries
  exact hentries

theorem slideAround_zipIdx (i : Nat) (n : Node) (rest : List Node) :
    slideAround ((n :: rest).zipIdx i) = [.slide i (i + (n :: rest).length)] := by
  rw [List.zipIdx_cons, slideAround, List.length_cons, List.length_zipIdx, List.length_cons]

/-- Among children that are numbered from `i` on, those with the property are the boundaries. -/
def Marks (boundary : Child → Bool) (i : Nat) (ns : List Node) (edge : Nat → Prop) : Prop :=
  ∀ k n, ns[k]? = some n → (boundary (n, i + k) = true ↔ edge (i + k))

namespace Marks

variable {edge : Nat → Prop} {i : Nat} {ns ms : List Node}

theorem left (h : Marks boundary i (ns ++ ms) edge) : Marks boundary i ns edge := by
  intro k n hn
  obtain ⟨hk, -⟩ := List.getElem?_eq_some_iff.mp hn
  exact h k n (by rw [List.getElem?_append_left hk, hn])

theorem right (h : Marks boundary i (ns ++ ms) edge) :
    Marks boundary (i + ns.length) ms edge := by
  intro k n hn
  have hmarks := h (ns.length + k) n (by
    rw [List.getElem?_append_right (Nat.le_add_right _ _), Nat.add_sub_cancel_left, hn])
  rwa [← Nat.add_assoc] at hmarks

theorem all (h : Marks boundary i ns edge) (hall : ∀ c ∈ ns.zipIdx i, boundary c = true) {j : Nat}
    (hle : i ≤ j) (hlt : j < i + ns.length) : edge j := by
  obtain ⟨k, rfl⟩ := Nat.exists_eq_add_of_le hle
  have hk : ns[k]? = some ns[k] := List.getElem?_eq_getElem (by omega)
  exact (h k _ hk).mp (hall _ (List.mk_add_mem_zipIdx_iff_getElem?.mpr hk))

theorem not_of_eq_false (h : Marks boundary i ns edge) {k : Nat} {n : Node} (hn : ns[k]? = some n)
    (hb : boundary (n, i + k) = false) : ¬ edge (i + k) := fun hedge => by
  rw [(h k n hn).mpr hedge] at hb
  cases hb

end Marks

theorem covers_segmentEntries {edge : Nat → Prop} {i : Nat} {segment : List Node}
    (h : Marks boundary i segment edge) :
    Covers edge i (i + segment.length) (segmentEntries boundary (segment.zipIdx i)) := by
  obtain ⟨ahead, core, behind, rfl, hends⟩ := Ends.exists_zipIdx boundary i segment
  have hahead := Ends.all_ahead boundary ((ahead ++ core ++ behind).zipIdx i)
  have hbehind := Ends.all_behind boundary ((ahead ++ core ++ behind).zipIdx i)
  have hhead := Ends.head_core boundary ((ahead ++ core ++ behind).zipIdx i)
  have hlast := Ends.last_core boundary ((ahead ++ core ++ behind).zipIdx i)
  rw [segmentEntries_of_ends hends]
  rw [hends] at hahead hbehind hhead hlast
  have hedges (j : Nat) (hle : i ≤ j) (hlt : j < i + ahead.length) : edge j :=
    h.left.left.all hahead hle hlt
  have hedges' (j : Nat) (hle : i + (ahead ++ core).length ≤ j)
      (hlt : j < i + (ahead ++ core).length + behind.length) : edge j := h.right.all hbehind hle hlt
  rw [List.length_append, ← Nat.add_assoc]
  cases core with
  | nil =>
    rw [List.append_nil] at hedges' ⊢
    rw [List.zipIdx_nil, slideAround, List.append_nil,
      kept_append (Nat.le_add_right _ _) (Nat.le_add_right _ _)]
    refine .bare fun j hle hlt => ?_
    rcases Nat.lt_or_ge j (i + ahead.length) with hj | hj
    · exact hedges j hle hj
    · exact hedges' j hj hlt
  | cons n rest =>
    obtain ⟨m, hm⟩ : ∃ m, (n :: rest).getLast? = some m := ⟨_, List.getLast?_cons⟩
    have hm' : (n :: rest)[rest.length]? = some m := by rw [← hm, List.getLast?_eq_getElem?]; rfl
    have hbegins := h.left.right.not_of_eq_false (k := 0) rfl (hhead (n, i + ahead.length) rfl)
    have hlast' := h.left.right.not_of_eq_false hm' (hlast (m, i + ahead.length + rest.length) (by
      rw [List.getLast?_zipIdx, hm]
      rfl))
    rw [slideAround_zipIdx]
    rw [List.length_append, ← Nat.add_assoc] at hedges' ⊢
    exact .slide (Nat.le_add_right _ _) (Nat.lt_add_of_pos_right (Nat.succ_pos _))
      (Nat.le_add_right _ _) hedges hbegins hlast' hedges'

theorem runEntries_preamble (pending xs ys : List Child) {c : Child}
    (hc : c.1.isPreamble = true) :
    runEntries boundary pending (xs ++ c :: ys) =
      runEntries boundary pending xs ++ .keep c.2 :: runEntries boundary [] ys := by
  induction xs generalizing pending with
  | nil => rw [List.nil_append, runEntries, runEntries, if_pos hc]
  | cons x xs ih =>
    rw [List.cons_append, runEntries, runEntries, ih, ih]
    split
    · rw [List.append_assoc, List.cons_append]
    · rfl

theorem runEntries_bare (pending : List Child) {xs : List Child}
    (h : ∀ c ∈ xs, c.1.isPreamble = false) :
    runEntries boundary pending xs = segmentEntries boundary (pending ++ xs) := by
  induction xs generalizing pending with
  | nil => rw [runEntries, List.append_nil]
  | cons x xs ih =>
    obtain ⟨hx, hxs⟩ := List.forall_mem_cons.mp h
    rw [runEntries, hx, if_neg Bool.false_ne_true, ih _ hxs, List.append_assoc,
      List.singleton_append]

/-- Among the entries for a run stand together those for each of its segments. -/
theorem exists_segmentEntries (boundary : Child → Bool) (i : Nat)
    (left : ∀ n ∈ front.getLast?, n.isPreamble = true)
    (bare : ∀ n ∈ segment, n.isPreamble = false)
    (right : ∀ n ∈ back.head?, n.isPreamble = true) :
    ∃ es fs, runEntries boundary [] ((front ++ segment ++ back).zipIdx i) =
      es ++ segmentEntries boundary (segment.zipIdx (i + front.length)) ++ fs := by
  have hfront : ∃ es, ∀ tail, runEntries boundary [] (front.zipIdx i ++ tail) =
      es ++ runEntries boundary [] tail := by
    rcases List.eq_nil_or_concat front with rfl | ⟨xs, n, rfl⟩
    · exact ⟨[], fun _ => rfl⟩
    · rw [List.concat_eq_append] at left ⊢
      refine ⟨runEntries boundary [] (xs.zipIdx i) ++ [.keep (i + xs.length)], fun tail => ?_⟩
      have hn : n.isPreamble = true := left n (by simp)
      rw [List.zipIdx_append, List.append_assoc, List.append_assoc]
      exact runEntries_preamble [] _ _ hn
  have hback (j k : Nat) : ∃ fs, runEntries boundary [] (segment.zipIdx j ++ back.zipIdx k) =
      segmentEntries boundary (segment.zipIdx j) ++ fs := by
    have hsegment : ∀ c ∈ segment.zipIdx j, c.1.isPreamble = false :=
      fun c hc => bare c.1 (List.fst_mem_of_mem_zipIdx hc)
    cases back with
    | nil =>
      refine ⟨[], ?_⟩
      rw [List.zipIdx_nil, List.append_nil, runEntries_bare _ hsegment, List.append_nil,
        List.nil_append]
    | cons n rest =>
      have hn : n.isPreamble = true := right n rfl
      rw [List.zipIdx_cons, runEntries_preamble [] _ _ hn, runEntries_bare _ hsegment]
      exact ⟨_, rfl⟩
  obtain ⟨es, hes⟩ := hfront
  obtain ⟨fs, hfs⟩ := hback (i + front.length) (i + (front ++ segment).length)
  refine ⟨es, fs, ?_⟩
  rw [List.zipIdx_append, List.zipIdx_append, List.append_assoc, hes, hfs, List.append_assoc]

theorem isBoundary_iff {n : Node} {i : Nat} (hn : children[i]? = some n) :
    plan.isBoundary (n, i) = true ↔ plan.EdgeAt children i := by
  simp [isBoundary, EdgeAt, hn]

theorem keep_mem_runEntries {i : Nat} (hi : plan.cursor ≤ i) (hlt : i < stop)
    (hp : PreambleAt children i) :
    .keep i ∈ runEntries plan.isBoundary [] (plan.run children stop) := by
  obtain ⟨n, hn, hp⟩ := hp
  obtain ⟨k, rfl⟩ := Nat.exists_eq_add_of_le hi
  have hget := (getElem?_run_iff rfl).mpr ⟨hlt, hn⟩
  obtain ⟨hk, hchild⟩ := List.getElem?_eq_some_iff.mp hget
  rw [run_eq_zipIdx]
  generalize (children.take stop).drop plan.cursor = nodes at hk hchild
  have hsplit := List.take_append_drop k nodes
  rw [List.drop_eq_getElem_cons hk, hchild] at hsplit
  have hindex : (nodes.take k).length = k := List.length_take_of_le (Nat.le_of_lt hk)
  rw [← hsplit, List.zipIdx_append, List.zipIdx_cons, hindex, runEntries_preamble [] _ _ hp]
  exact List.mem_append_right _ List.mem_cons_self

theorem slide_mem_runEntries {first last : Nat}
    (h : .slide first last ∈ runEntries plan.isBoundary [] (plan.run children stop)) :
    first < last ∧ ∀ i, first ≤ i → i < last → ¬ PreambleAt children i := by
  rw [run_eq_zipIdx] at h
  obtain ⟨front, core, back, hparts, rfl, rfl, htrimmed⟩ :=
    trimmed_runEntries plan.isBoundary plan.cursor [] _ (fun m hm => by cases hm) h
  refine ⟨Nat.lt_add_of_pos_right (List.length_pos_iff.mpr htrimmed.nonempty),
    fun i hi hlt ⟨n, hn, hp⟩ => ?_⟩
  obtain ⟨k, rfl⟩ := Nat.exists_eq_add_of_le hi
  have hk : core[k]? = some core[k] := List.getElem?_eq_getElem (by omega)
  obtain rfl := Option.some.inj (hn.symm.trans (getElem?_of_parts hparts hk))
  rw [htrimmed.bare _ (List.mem_of_getElem? hk)] at hp
  cases hp

/-- The entries for a run that ends within the children. -/
theorem partition_runEntries (plan : Plan) (hstop : stop ≤ children.length) :
    plan.Partition children stop (runEntries plan.isBoundary [] (plan.run children stop)) := by
  refine ⟨?_, fun i => keep_mem_runEntries, slide_mem_runEntries, fun h => ?_⟩
  · have hlays := plan.lays_runEntries plan.cursor [] ((children.take stop).drop plan.cursor)
    have hlength : ((children.take stop).drop plan.cursor).length = stop - plan.cursor := by
      rw [List.length_drop, List.length_take, Nat.min_eq_left hstop]
    rw [run_eq_zipIdx, ← hlength]
    exact hlays.indices
  · obtain ⟨front, segment, back, hparts, rfl, rfl, hleft, hbare, hright⟩ := h.exists_parts hstop
    obtain ⟨es, fs, hentries⟩ :=
      exists_segmentEntries plan.isBoundary plan.cursor hleft hbare hright
    rw [run_eq_zipIdx, hparts]
    exact ⟨es, _, fs, hentries,
      covers_segmentEntries fun _ _ hn => isBoundary_iff (getElem?_of_parts hparts hn)⟩

/-- Planning for the children from the cursor to before an index, or to the last child when the
index is beyond it, adds entries that partition them. Where there are none, nothing is added. -/
theorem flush_partitions (plan : Plan) (children : List Node) (stop : Nat) :
    (∃ added, plan.flush children stop = { plan with entries := plan.entries ++ added } ∧
      plan.Partition children (min stop children.length) added) ∧
      (min stop children.length ≤ plan.cursor → plan.flush children stop = plan) := by
  have htake : children.take stop = children.take (min stop children.length) := by
    rw [List.take_eq_take_iff]
    omega
  have hrun : plan.run children stop = plan.run children (min stop children.length) := by
    rw [run_eq_zipIdx, run_eq_zipIdx, ← htake]
  refine ⟨⟨_, rfl, ?_⟩, fun hempty => ?_⟩
  · rw [hrun]
    exact plan.partition_runEntries (Nat.min_le_right _ _)
  · have hnil : plan.run children stop = [] := by
      refine List.drop_eq_nil_of_le ?_
      rw [List.length_take, List.length_zipIdx]
      exact hempty
    rw [flush, hnil]
    simp [runEntries, segmentEntries, slideAround]

/-- The excluded child at index 4 ends no slide, and the one at index 1 stands inside one. -/
example :
    let p : Node := .element "p" {} []
    ((⟨[.keep 9], 0, [1, 4]⟩ : Plan).flush
        [p, .text "x", p, .text " ", .text "y", .doctype "html", .text " "] 20).entries =
      [.keep 9, .slide 0 3, .keep 3, .keep 4, .keep 5, .keep 6] := by
  cbv

end Plan
end SlideDeck
