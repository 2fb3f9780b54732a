import SlideDeck.Proofs.Slides.Blanks
import SlideDeck.Proofs.Slides.Inert
import Mathlib.Data.List.Induction

/-!
Markers that are seen from a child that was cut. Such a marker is met at once, in front of the
blanks before it, and that is the same as to meet it when the walk comes to it. So it makes no
difference what is seen from the children in front of nodes that are passed.
-/
namespace SlideDeck

namespace Ends

variable {α : Type} {edge : α → Bool}

theorem of_append_edge {x : α} (hx : edge x = true) {xs : List α}
    (h : ¬ ∀ y ∈ xs, edge y = true) :
    of edge (xs ++ [x]) = { of edge xs with behind := (of edge xs).behind ++ [x] } := by
  have hdrop : (xs.dropWhile edge).isEmpty = false := by
    rw [← Bool.not_eq_true, List.isEmpty_iff, List.dropWhile_eq_nil_iff]
    exact h
  have htake : ¬ (xs.takeWhile edge).length = xs.length := by
    intro hlength
    have hself := (List.takeWhile_prefix edge (l := xs)).eq_of_length hlength
    exact h (List.takeWhile_eq_self_iff.mp hself)
  simp [of, List.takeWhile_append, List.dropWhile_append, hdrop, htake, hx]

end Ends

namespace Piece

theorem ofSegment_blank {b : Node} (hb : b.isWhitespace = true) (segment : List Loose) :
    ofSegment (segment ++ [(b, false)]) = ofSegment segment ++ [bare b] := by
  have hedge : isEdge (b, false) = true := by simp [isEdge, hb]
  by_cases h : ∀ x ∈ segment, isEdge x = true
  · have hall : ∀ x ∈ segment ++ [(b, false)], isEdge x = true := by
      simp only [List.forall_mem_append, List.forall_mem_singleton]
      exact ⟨h, hedge⟩
    simp [ofSegment, Ends.of_all h, Ends.of_all hall, around]
  · simp [ofSegment, Ends.of_append_edge hedge h]

/-- A blank at the end of a run stands by itself behind the pieces of the run. -/
theorem ofRun_append_blank {b : Node} (hb : b.isWhitespace = true) (segment run : List Loose) :
    ofRun segment (run ++ [(b, false)]) = ofRun segment run ++ [bare b] := by
  induction run generalizing segment with
  | nil =>
    have hpreamble := Node.isPreamble_of_isWhitespace hb
    simp [ofRun, hpreamble, ofSegment_blank hb]
  | cons x rest ih =>
    rw [List.cons_append, ofRun, ofRun]
    by_cases hp : x.1.isPreamble = true
    · rw [if_pos hp, if_pos hp, ih, List.append_assoc, List.cons_append]
    · rw [if_neg hp, if_neg hp, ih]

end Piece

namespace Assembly

theorem meetMarker_meetMarker (a : Assembly) : a.meetMarker.meetMarker = a.meetMarker := by
  simp [meetMarker, settle, Piece.ofRun_nil]

theorem addCut_ahead (node : Node) (a : Assembly) :
    a.addCut node true = (a.addCut node false).meetMarker := by
  simp [meetMarker, addCut, settle, Piece.ofRun_nil]

theorem meetMarker_add_blank {a : Assembly} {b : Node} (hb : b.isWhitespace = true)
    (h : a.ahead = false) : (a.add b).meetMarker = a.meetMarker.add b := by
  rw [add_of_blank (a := a.meetMarker) rfl hb, add_of_behind h]
  simp [meetMarker, settle, Piece.ofRun_append_blank hb]

end Assembly

namespace Level

variable {l : Level}

theorem meetMarker_meetMarker (l : Level) : l.meetMarker.meetMarker = l.meetMarker := by
  simp only [meetMarker, assembly, Option.getD_some, Assembly.meetMarker_meetMarker]

theorem meetMarker_pass_blank {b : Node} (hb : b.isWhitespace = true)
    (h : l.assembly.ahead = false) : (l.pass b).meetMarker = l.meetMarker.pass b := by
  simp only [meetMarker, assembly_pass, Assembly.meetMarker_add_blank hb h]
  rfl

theorem pass_ahead (h : l.assembly.ahead = false) (n : Node) :
    (l.pass n).assembly.ahead = false := by
  rw [assembly_pass, Assembly.add_of_behind h]
  exact h

theorem passAll_ahead (h : l.assembly.ahead = false) (nodes : List Node) :
    (l.passAll nodes).assembly.ahead = false := by
  induction nodes generalizing l with
  | nil => exact h
  | cons n rest ih => exact ih (pass_ahead h n)

theorem meetMarker_passAll_blank {nodes : List Node} (hblank : ∀ b ∈ nodes, b.isWhitespace = true)
    (h : l.assembly.ahead = false) : (l.passAll nodes).meetMarker = l.meetMarker.passAll nodes := by
  induction nodes generalizing l with
  | nil => rfl
  | cons b rest ih =>
    rw [passAll_cons, passAll_cons,
      ih (fun m hm => hblank m (List.mem_cons_of_mem b hm)) (pass_ahead h b),
      meetMarker_pass_blank (hblank b List.mem_cons_self) h]

end Level

namespace Cutter

variable {c : Cutter} {n : Node} {nodes xs ys : List Node} {l : Level}

theorem levelAll_of_blank (h : ∀ b ∈ nodes, b.isWhitespace = true) (beyond : List Node)
    (l : Level) : c.levelAll nodes beyond l = l.passAll nodes :=
  levelAll_of_passes (fun b hb after l (_ : l.mode = _) => level_blank (h b hb) after l) beyond rfl

theorem level_marker (hmode : l.mode = .stopped) (hn : c.isMarker n = true) (after : List Node) :
    c.level n after l = c.ascend n after l.meetMarker (c.levelBelow n l) := by
  rw [level_eq, around, hmode, hn]
  rfl

theorem level_meetMarker (hmode : l.mode = .stopped) (hn : c.isMarker n = true)
    (after : List Node) : c.level n after l.meetMarker = c.level n after l := by
  have hmet : l.meetMarker.mode = .stopped := hmode
  rw [level_marker hmode hn, level_marker hmet hn, Level.meetMarker_meetMarker]
  rfl

/-- A marker that comes next can be met before the blanks in front of it. -/
theorem levelAll_meetMarker (hmode : l.mode = .stopped) (hl : l.assembly.ahead = false)
    (h : c.MarkerComes nodes) : c.levelAll nodes [] l.meetMarker = c.levelAll nodes [] l := by
  obtain ⟨blanks, m, rest, rfl, hblanks, hm⟩ := h
  have hmode' : (l.passAll blanks).mode = .stopped := by rw [Level.passAll_mode, hmode]
  rw [levelAll_append, levelAll_append, levelAll_of_blank hblanks, levelAll_of_blank hblanks,
    levelAll_cons, levelAll_cons, ← Level.meetMarker_passAll_blank hblanks hl,
    level_meetMarker hmode' hm]

theorem ascend_ahead (hxs : c.markerNext xs = false) (hys : c.markerNext ys = true) (n : Node)
    (l inner : Level) : c.ascend n ys l inner = c.ascend n xs l inner ∨
      c.ascend n ys l inner = (c.ascend n xs l inner).meetMarker := by
  unfold ascend
  rw [hxs, hys]
  by_cases hcut : inner.assembly?.isSome = true
  · rw [if_pos hcut, if_pos hcut]
    refine .inr ?_
    simp only [Level.put, Level.meetMarker, Assembly.addCut_ahead]
    rfl
  · rw [if_neg hcut, if_neg hcut]
    exact .inl rfl

/-- A child from which a marker is seen leaves the level at which that marker is met, or the level
that it leaves where none is seen. -/
theorem level_ahead (hxs : c.markerNext xs = false) (ys : List Node) (n : Node) (l : Level) :
    c.level n ys l = c.level n xs l ∨
      (c.MarkerComes ys ∧ c.level n ys l = (c.level n xs l).meetMarker) := by
  cases hys : c.markerNext ys with
  | false => exact .inl (level_congr (hys.trans hxs.symm) n l)
  | true =>
    have hcomes := markerNext_spec hys
    rw [level_eq, level_eq, around, around]
    by_cases hs : l.mode.suppressesDescent = true
    · rw [if_pos hs, if_pos hs]
      exact .inl rfl
    · rw [if_neg hs, if_neg hs]
      by_cases hm : (l.mode.splits && c.isMarker n) = true
      · rw [if_pos hm, if_pos hm]
        exact (ascend_ahead hxs hys n _ _).imp_right fun h => ⟨hcomes, h⟩
      · rw [if_neg hm, if_neg hm]
        cases c.fires? l.mode n with
        | some r => exact .inl rfl
        | none => exact (ascend_ahead hxs hys n _ _).imp_right fun h => ⟨hcomes, h⟩

theorem MarkerComes.markerNext_eq (h : c.MarkerComes xs) : c.markerNext xs = true := by
  obtain ⟨blanks, m, rest, rfl, hblanks, hm⟩ := h
  induction blanks with
  | nil =>
    rw [List.nil_append, markerNext_cons, Node.isWhitespace_eq_false_of_isMarker hm, hm]
    rfl
  | cons b blanks ih =>
    rw [List.cons_append, markerNext_cons, hblanks b List.mem_cons_self, if_pos rfl]
    exact ih fun x hx => hblanks x (List.mem_cons_of_mem b hx)

theorem ahead_levelAll (hxs : c.markerNext xs = false) (hl : Coherent c l (nodes ++ xs)) :
    (c.levelAll nodes xs l).assembly.ahead = false := by
  cases ha : (c.levelAll nodes xs l).assembly.ahead with
  | false => rfl
  | true =>
    have hnext := ((coherent_levelAll hl).comes ha).markerNext_eq
    rw [hxs] at hnext
    cases hnext

/-- What comes behind siblings makes no difference to them but for a marker that is met early. -/
theorem levelAll_ahead (hxs : c.markerNext xs = false) (ys : List Node)
    (hl : Coherent c l (nodes ++ xs)) : c.levelAll nodes ys l = c.levelAll nodes xs l ∨
      (c.MarkerComes ys ∧ c.levelAll nodes ys l = (c.levelAll nodes xs l).meetMarker) := by
  induction nodes using List.reverseRecOn generalizing xs ys with
  | nil =>
    rw [levelAll_nil, levelAll_nil]
    exact .inl rfl
  | append_singleton front n ih =>
    have hsnoc (zs : List Node) : c.levelAll (front ++ [n]) zs l =
        c.level n zs (c.levelAll front (n :: zs) l) := by
      rw [levelAll_append, levelAll_cons, levelAll_nil, List.singleton_append, List.nil_append]
    rw [hsnoc, hsnoc]
    cases hn : n.isWhitespace with
    | false =>
      have hnext : c.markerNext (n :: ys) = c.markerNext (n :: xs) := by
        rw [markerNext_cons, markerNext_cons, hn]
        rfl
      rw [levelAll_congr hnext]
      exact level_ahead hxs ys n _
    | true =>
      have hfront : Coherent c l (front ++ n :: xs) := by simpa using hl
      have hxs' : c.markerNext (n :: xs) = false := by
        rw [markerNext_cons, hn, if_pos rfl, hxs]
      rw [level_blank hn, level_blank hn]
      rcases ih hxs' (n :: ys) hfront with hsame | ⟨hcomes, hmet⟩
      · exact .inl (by rw [hsame])
      · refine .inr ⟨hcomes.tail hn, ?_⟩
        rw [hmet, Level.meetMarker_pass_blank hn (ahead_levelAll hxs' hfront)]

/-- A marker that comes behind nodes that are none comes behind blanks. -/
theorem MarkerComes.behind {after : List Node} (h : c.MarkerComes (nodes ++ after))
    (hnodes : ∀ n ∈ nodes, c.isMarker n = false) :
    (∀ n ∈ nodes, n.isWhitespace = true) ∧ c.MarkerComes after := by
  induction nodes with
  | nil => exact ⟨fun n hn => (by cases hn), h⟩
  | cons n rest ih =>
    have hblank : n.isWhitespace = true := by
      cases hn : n.isWhitespace with
      | true => rfl
      | false => exact absurd ((hnodes n List.mem_cons_self).symm.trans (h.head hn)) (by decide)
    obtain ⟨hrest, hcomes⟩ := ih (h.tail hblank) fun m hm => hnodes m (List.mem_cons_of_mem n hm)
    exact ⟨List.forall_mem_cons.mpr ⟨hblank, hrest⟩, hcomes⟩

/-- Nodes that are not cut at are passed, and what the children in front of them see behind makes
no difference. -/
theorem levelAll_inert_between {front : List Node} (hfront : ∀ n ∈ front, c.Undirected n)
    (hnodes : ∀ n ∈ nodes, c.Inert .stopped n) (hxs : c.markerNext xs = false)
    (hmode : l.mode = .stopped) (hnone : l.assembly? = none) (after : List Node) :
    c.levelAll (front ++ (nodes ++ after)) [] l =
      c.levelAll after [] ((c.levelAll front xs l).passAll nodes) := by
  have hmodes (zs : List Node) : (c.levelAll front zs l).mode = .stopped :=
    (mode_levelAll hfront zs l).trans hmode
  have hl : Coherent c l (front ++ xs) := coherent_of_none hnone _
  rw [levelAll_append, List.append_nil, levelAll_append, List.append_nil,
    levelAll_of_inert (l := c.levelAll front (nodes ++ after) l) (by rw [hmodes]; exact hnodes)]
  rcases levelAll_ahead hxs (nodes ++ after) hl with hsame | ⟨hcomes, hmet⟩
  · rw [hsame]
  · obtain ⟨hblank, hcomes⟩ := hcomes.behind fun n hn => (hnodes n hn n n.mem_preorder_self).1
    have hahead := ahead_levelAll hxs hl
    rw [hmet, ← Level.meetMarker_passAll_blank hblank hahead]
    refine levelAll_meetMarker ?_ ?_ hcomes
    · rw [Level.passAll_mode, hmodes]
    · exact Level.passAll_ahead hahead nodes

end Cutter
end SlideDeck
