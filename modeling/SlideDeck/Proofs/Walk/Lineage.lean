import SlideDeck.Proofs.Walk.Frames
import SlideDeck.Proofs.Walk.Protocol

/-!
The ancestors of a node on a walk. A stack on which every call that opens a node is put, and from
which every call that leaves one takes the first, holds at each call those that entered the
ancestors of its node, and what is taken off is what was put on when the node was entered.
-/
namespace SlideDeck

variable {σ : Type}

/-- The calls that entered the ancestors of the node at a site, the one for its parent first and the
one for the top of the tree last. Each of them sent the walk over the children of its node, and the
next node down is one of these, with those behind it not visited yet. -/
inductive Lineage (tree : Node) : List (Event σ) → Site → Prop
  | top : Lineage tree [] (.top tree)
  | child {a : Event σ} {above : List (Event σ)} {visited before after : List Node} {n : Node}
      (parent : Lineage tree above a.site) (opens : a.opens = true)
      (children : a.children = visited ++ n :: after) :
      Lineage tree (a :: above) ⟨n, a.site.depth + 1, some ⟨before, after⟩⟩

theorem Lineage.length_eq {tree : Node} {above : List (Event σ)} {site : Site}
    (h : Lineage tree above site) : above.length = site.depth := by
  induction h with
  | top => rfl
  | child _ _ _ ih => rw [List.length_cons, ih]

theorem Lineage.eq_nil_iff {tree : Node} {above : List (Event σ)} {site : Site}
    (h : Lineage tree above site) : above = [] ↔ site = .top tree := by
  cases h with
  | top => exact ⟨fun _ => rfl, fun _ => rfl⟩
  | child => exact ⟨fun h => (by cases h), fun h => (by cases h)⟩

theorem Lineage.eq_nil_of_place? {tree : Node} {above : List (Event σ)} {site : Site}
    (h : Lineage tree above site) (hplace : site.place? = none) : above = [] := by
  cases h with
  | top => rfl
  | child => cases hplace

namespace Event

/-- The calls whose nodes are open behind a call, with those that are open before it. -/
def reopen (opened : List (Event σ)) (e : Event σ) : List (Event σ) :=
  if e.opens then e :: opened else e.outside opened

/-- The calls whose nodes are open behind calls, the innermost node first. -/
def openAfter (opened es : List (Event σ)) : List (Event σ) := es.foldl reopen opened

def stateAfter (s : σ) (es : List (Event σ)) : σ := es.foldl (fun _ e => e.reply.state) s

theorem reopen_passed {e : Event σ} (phase : e.phase = .enter) (opens : e.opens = false)
    (opened : List (Event σ)) : reopen opened e = opened := by
  rw [reopen, opens, if_neg Bool.false_ne_true, outside_enter phase]

theorem reopen_opened {e : Event σ} (opens : e.opens = true) (opened : List (Event σ)) :
    reopen opened e = e :: opened := if_pos opens

theorem reopen_left {e : Event σ} (phase : e.phase = .leave) (opened : List (Event σ)) :
    reopen opened e = opened.tail := by
  rw [reopen, opens_of_leave phase, if_neg Bool.false_ne_true, outside_leave phase]

theorem openAfter_append (opened es fs : List (Event σ)) :
    openAfter opened (es ++ fs) = openAfter (openAfter opened es) fs := List.foldl_append

/-- A call behind the calls `front`, with the calls `opened` before these whose nodes are open. -/
structure Nested (tree : Node) (opened front : List (Event σ)) (e : Event σ) : Prop where
  entered : e.phase = .enter → Lineage tree (openAfter opened front) e.site
  /-- The node is left that the first of the open calls entered, at the same place, with its
  children as the walk has left them. -/
  left : e.phase = .leave → ∃ outer a inner children, front = outer ++ a :: inner ∧
    a.Bracket inner e ∧ e.site = { a.site with node := a.reply.node.withChildren children } ∧
    openAfter opened front = a :: openAfter opened outer ∧
    Lineage tree (openAfter opened outer) a.site

theorem Nested.prepend {tree : Node} {opened opened' first front : List (Event σ)} {e : Event σ}
    (h : e.Nested tree opened' front) (hopened : openAfter opened first = opened') :
    e.Nested tree opened (first ++ front) := by
  subst hopened
  obtain ⟨hentered, hleft⟩ := h
  refine ⟨fun hphase => ?_, fun hphase => ?_⟩
  · rw [openAfter_append]
    exact hentered hphase
  · obtain ⟨outer, a, inner, children, rfl, hbracket, hsite, hopen, hlineage⟩ := hleft hphase
    refine ⟨first ++ outer, a, inner, children, ?_, hbracket, hsite, ?_, ?_⟩
    · rw [List.append_assoc]
    · rw [openAfter_append, hopen, openAfter_append]
    · rw [openAfter_append]
      exact hlineage

theorem Throughout.split {P : List (List Node) → Event σ → Prop} {frames : List (List Node)}
    {es front rest : List (Event σ)} {e : Event σ} (h : Throughout P frames es)
    (hes : es = front ++ e :: rest) : P (framesAfter frames front) e := by
  rw [hes, throughout_append] at h
  exact h.2.1

end Event

namespace Walk

open Event

variable {v : Visitor σ} {s t : σ} {depth : Nat} {before nodes left : List Node}
  {es opened : List (Event σ)} {tree : Node}

/-- Behind the calls for siblings the same nodes are open as before. -/
theorem Calls.openAfter_eq (h : Calls v s depth before nodes es t left)
    (opened : List (Event σ)) : openAfter opened es = opened := by
  induction h generalizing opened with
  | none => rfl
  | passed enter opens _ ih =>
    rw [openAfter, List.foldl_cons, reopen_passed (Visitor.eq_of_entering enter).1 opens]
    exact ih opened
  | @visited _ _ _ _ _ e inner _ _ l es _ _ enter opens _ leave _ ihInside ih =>
    have hinside : openAfter (e :: opened) inner = e :: opened := ihInside (e :: opened)
    rw [openAfter] at hinside
    rw [openAfter, List.foldl_cons, List.foldl_append, reopen_opened opens, hinside,
      List.foldl_cons, reopen_left (Visitor.eq_of_leaving leave).1]
    exact ih opened

/-- The children that a call sends the walk over have the node of the call for their parent. -/
theorem lineage_children {e : Event σ} {n m : Node} {visited rest rest' before' : List Node}
    (site : e.site = .among depth before n rest) (opens : e.opens = true)
    (parent : Lineage tree opened (.among depth before n rest))
    (children : e.children = visited ++ m :: rest') :
    Lineage tree (e :: opened) (.among (depth + 1) before' m rest') := by
  rw [Site.among_of_pos (Nat.succ_pos depth)]
  have hdepth : e.site.depth = depth := congrArg Site.depth site
  rw [← site] at parent
  rw [← hdepth]
  exact .child parent opens children

theorem nested_enter {e : Event σ} (phase : e.phase = .enter)
    (lineage : Lineage tree opened e.site) : e.Nested tree opened [] :=
  ⟨fun _ => lineage, fun hleave => by rw [phase] at hleave; cases hleave⟩

theorem nested_leave {e l : Event σ} {inner : List (Event σ)} {children : List Node}
    (bracket : e.Bracket inner l)
    (site : l.site = { e.site with node := e.reply.node.withChildren children })
    (inside : openAfter (e :: opened) inner = e :: opened)
    (lineage : Lineage tree opened e.site) : l.Nested tree opened (e :: inner) := by
  refine ⟨fun henter => ?_, fun _ => ⟨[], e, inner, children, rfl, bracket, site, ?_, lineage⟩⟩
  · rw [bracket.closes.phase] at henter
    cases henter
  · show openAfter (reopen opened e) inner = _
    rw [reopen_opened bracket.opens, inside]
    rfl

/-- Calls for siblings of which each has the open nodes for its ancestors. -/
theorem Calls.nested (h : Calls v s depth before nodes es t left)
    (lineage : ∀ visited n rest before, nodes = visited ++ n :: rest →
      Lineage tree opened (.among depth before n rest)) {front rest : List (Event σ)} {f : Event σ}
    (hes : es = front ++ f :: rest) : f.Nested tree opened front := by
  induction h generalizing opened front rest f with
  | none => simp at hes
  | @passed s depth before n nodes e es t left enter opens further ih =>
    obtain ⟨hphase, hsite, -⟩ := Visitor.eq_of_entering enter
    cases front with
    | nil =>
      obtain ⟨rfl, rfl⟩ := List.cons.inj hes
      exact nested_enter hphase (hsite ▸ lineage [] n nodes before rfl)
    | cons k front =>
      obtain ⟨rfl, htail⟩ := List.cons.inj hes
      have hfurther : f.Nested tree opened front :=
        ih (fun visited m rest before hnodes =>
          lineage (n :: visited) m rest before (congrArg (n :: ·) hnodes)) htail
      have hopened : openAfter opened [e] = opened := reopen_passed hphase opens opened
      exact hfurther.prepend hopened
  | @visited s depth before n nodes e inner u children l es t left enter opens inside leave further
      ihInside ih =>
    obtain ⟨hphase, hsite, -⟩ := Visitor.eq_of_entering enter
    obtain ⟨hphase', hsite', -⟩ := Visitor.eq_of_leaving leave
    have hlineage : Lineage tree opened (.among depth before n nodes) :=
      lineage [] n nodes before rfl
    have hopened : openAfter opened [e] = e :: opened := reopen_opened opens opened
    have hinside : openAfter (e :: opened) inner = e :: opened := inside.openAfter_eq (e :: opened)
    rcases split_visited hes with ⟨rfl, rfl, -⟩ | ⟨as, bs, hinner, rfl, -⟩ | ⟨rfl, rfl, -⟩ |
      ⟨as, htail, rfl⟩
    · exact nested_enter hphase (hsite ▸ hlineage)
    · have hbelow : f.Nested tree (e :: opened) as :=
        ihInside (fun visited m rest' before' hchildren =>
          lineage_children hsite opens hlineage hchildren) hinner
      exact hbelow.prepend hopened
    · have hsame : l.site = { e.site with node := e.reply.node.withChildren children } := by
        rw [hsite', hsite]
        rfl
      exact nested_leave (inside.bracket enter opens leave) hsame hinside (hsite ▸ hlineage)
    · have hfurther : f.Nested tree opened as :=
        ih (fun visited m rest' before' hnodes =>
          lineage (n :: visited) m rest' before' (congrArg (n :: ·) hnodes)) htail
      have hvisited : openAfter opened ([e] ++ inner ++ [l]) = opened := by
        rw [openAfter_append, openAfter_append, hopened, hinside]
        exact reopen_left hphase' (e :: opened)
      have hfront : e :: (inner ++ l :: as) = [e] ++ inner ++ [l] ++ as := by simp
      rw [hfront]
      exact hfurther.prepend hvisited

/-- The calls for the top of a tree, with no open node around it. -/
theorem Calls.nested_top (h : Calls v s 0 [] [tree] es t left) {front rest : List (Event σ)}
    {e : Event σ} (hes : es = front ++ e :: rest) : e.Nested tree [] front := by
  refine h.nested (fun visited n rest before hnodes => ?_) hes
  obtain ⟨-, rfl, rfl⟩ : visited = [] ∧ n = tree ∧ rest = [] := by
    cases visited with
    | nil =>
      obtain ⟨rfl, rfl⟩ := List.cons.inj hnodes
      exact ⟨rfl, rfl, rfl⟩
    | cons m visited => simp at hnodes
  exact .top

/-- The children of the open nodes around the innermost, behind a call. -/
theorem tail_reframe {frames : List (List Node)} {e : Event σ}
    (frames_tail : frames.tail = opened.filterMap Event.siblingsLeft?)
    (framed : e.Framed frames) (entered : e.phase = .enter → Lineage tree opened e.site)
    (left : e.phase = .leave → ∃ a above, opened = a :: above ∧ Lineage tree above a.site ∧
      a.site.place? = e.site.place?) :
    (reframe frames e).tail = (reopen opened e).filterMap Event.siblingsLeft? := by
  have hleft_none (hplace : e.site.place? = none) : e.siblingsLeft? = none := by
    rw [Event.siblingsLeft?, hplace, Option.map_none]
  have hleft_some {place : Place} (hplace : e.site.place? = some place) :
      e.siblingsLeft? = some (place.before ++ e.kept?.toList ++ place.after) := by
    rw [Event.siblingsLeft?, hplace, Option.map_some]
  cases hphase : e.phase with
  | enter =>
    have hlineage := entered hphase
    cases hplace : e.site.place? with
    | none =>
      obtain rfl := hlineage.eq_nil_of_place? hplace
      have hframes : frames = [] := by
        rw [← List.length_eq_zero_iff, (framed.enter hphase).1, ← hlineage.length_eq]
        rfl
      rw [hframes, reframe, hleft_none hplace, outside_enter hphase, reopen,
        outside_enter hphase]
      cases e.opens with
      | false => rfl
      | true => simp [hleft_none hplace]
    | some place =>
      rw [reframe, hleft_some hplace, outside_enter hphase, reopen, outside_enter hphase]
      cases e.opens with
      | false => exact frames_tail
      | true => simp [hleft_some hplace, frames_tail]
  | leave =>
    obtain ⟨a, above, rfl, hlineage, hsame⟩ := left hphase
    rw [reframe, opens_of_leave hphase, reopen_left hphase, outside_leave hphase, frames_tail]
    cases hplace : e.site.place? with
    | none =>
      obtain rfl := hlineage.eq_nil_of_place? (hsame.trans hplace)
      simp [Event.siblingsLeft?, hsame, hplace]
    | some place => simp [Event.siblingsLeft?, hsame, hplace]

/-- The children of each open node but the innermost are those that the call for the next open node
below it has left. -/
theorem Calls.tail_framesAfter (h : Calls v s 0 [] [tree] es t left) {front rest : List (Event σ)}
    (hes : es = front ++ rest) :
    (framesAfter [] front).tail = (openAfter [] front).filterMap Event.siblingsLeft? := by
  induction front using List.reverseRecOn generalizing rest with
  | nil => rfl
  | append_singleton front e ih =>
    rw [List.append_assoc, List.singleton_append] at hes
    have hnested := h.nested_top hes
    rw [framesAfter, openAfter, List.foldl_append, List.foldl_append]
    refine tail_reframe (ih hes) (h.framed_top.split hes) hnested.entered fun hleave => ?_
    obtain ⟨outer, a, inner, children, -, -, hsite, hopen, hlineage⟩ := hnested.left hleave
    exact ⟨a, _, hopen, hlineage, by rw [hsite]⟩

/-- The state goes from each call to the next. -/
theorem Calls.stateAfter_eq (h : Calls v s depth before nodes es t left) : stateAfter s es = t := by
  induction h with
  | none => rfl
  | passed enter _ _ ih => exact ih
  | visited enter _ _ leave _ ihInside ih =>
    rw [stateAfter, List.foldl_cons, List.foldl_append]
    rw [stateAfter] at ihInside ih
    rw [ihInside, List.foldl_cons, ih]

/-- Every call is one of the visitor, in the state that the call before it has left. -/
theorem Calls.threads (h : Calls v s depth before nodes es t left) {front rest : List (Event σ)}
    {f : Event σ} (hes : es = front ++ f :: rest) :
    f.state = stateAfter s front ∧
      (f = v.entering f.state f.site ∨ f = v.leaving f.state f.site) := by
  induction h generalizing front rest f with
  | none => simp at hes
  | @passed s depth before n nodes e es t left enter opens further ih =>
    cases front with
    | nil =>
      obtain ⟨rfl, rfl⟩ := List.cons.inj hes
      rw [enter]
      exact ⟨rfl, .inl rfl⟩
    | cons k front =>
      obtain ⟨rfl, htail⟩ := List.cons.inj hes
      exact ih htail
  | @visited s depth before n nodes e inner u children l es t left enter opens inside leave further
      ihInside ih =>
    have hstate (as : List (Event σ)) : stateAfter s (e :: (inner ++ as)) = stateAfter u as := by
      rw [← inside.stateAfter_eq, stateAfter, List.foldl_cons, List.foldl_append]
      rfl
    rcases split_visited hes with ⟨rfl, rfl, -⟩ | ⟨as, bs, hinner, rfl, -⟩ | ⟨rfl, rfl, -⟩ |
      ⟨as, htail, rfl⟩
    · rw [enter]
      exact ⟨rfl, .inl rfl⟩
    · exact ihInside hinner
    · have hlast := hstate []
      rw [List.append_nil] at hlast
      rw [hlast, leave]
      exact ⟨rfl, .inr rfl⟩
    · rw [hstate]
      exact ih htail

end Walk
end SlideDeck
