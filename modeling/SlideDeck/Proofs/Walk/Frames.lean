import SlideDeck.Proofs.Walk.Calls

/-!
The open nodes of a walk. Their children, innermost node first, follow from the calls alone: a node
that is entered brings the children that the walk goes over, every call leaves its mark among the
siblings of its node, and leaving a node takes its children away again.
-/
namespace SlideDeck

variable {σ : Type}

theorem Site.among_of_pos {depth : Nat} (h : 0 < depth) (before : List Node) (n : Node)
    (rest : List Node) : among depth before n rest = ⟨n, depth, some ⟨before, rest⟩⟩ := by
  rw [among, if_neg (Nat.pos_iff_ne_zero.mp h)]

namespace Event

/-- Of a stack before a call, with an item for each open node, what is for the nodes around the one
of the call. -/
def outside {α : Type} (stack : List α) (e : Event σ) : List α :=
  if e.enters then stack else stack.tail

/-- The same of a stack behind the call. -/
def outsideAfter {α : Type} (stack : List α) (e : Event σ) : List α :=
  if e.opens then stack.tail else stack

theorem outside_enter {α : Type} {e : Event σ} (h : e.phase = .enter) (stack : List α) :
    outside stack e = stack := by
  rw [outside, enters, h]
  rfl

theorem outside_leave {α : Type} {e : Event σ} (h : e.phase = .leave) (stack : List α) :
    outside stack e = stack.tail := by
  rw [outside, enters, h]
  rfl

theorem outsideAfter_of_opens {α : Type} {e : Event σ} (h : e.opens = true) (stack : List α) :
    outsideAfter stack e = stack.tail := by
  rw [outsideAfter, if_pos h]

theorem outsideAfter_of_not_opens {α : Type} {e : Event σ} (h : e.opens = false)
    (stack : List α) : outsideAfter stack e = stack := by
  rw [outsideAfter, h, if_neg Bool.false_ne_true]

/-- The children of the open nodes behind a call. One of them that is open itself stands there as it
was entered. -/
def reframe (frames : List (List Node)) (e : Event σ) : List (List Node) :=
  let around := match e.siblingsLeft? with
    | some left => left :: (e.outside frames).tail
    | none => e.outside frames
  if e.opens then e.children :: around else around

/-- The children of the open nodes behind calls. -/
def framesAfter (frames : List (List Node)) (es : List (Event σ)) : List (List Node) :=
  es.foldl reframe frames

/-- Every call has the property with the children of the nodes that are open before it. -/
def Throughout (P : List (List Node) → Event σ → Prop) :
    List (List Node) → List (Event σ) → Prop
  | _, [] => True
  | frames, e :: es => P frames e ∧ Throughout P (reframe frames e) es

variable {P : List (List Node) → Event σ → Prop} {frames : List (List Node)} {e : Event σ}
  {es fs : List (Event σ)}

theorem throughout_append :
    Throughout P frames (es ++ fs) ↔
      Throughout P frames es ∧ Throughout P (framesAfter frames es) fs := by
  induction es generalizing frames with
  | nil => simp [Throughout, framesAfter]
  | cons e es ih => simp [Throughout, framesAfter, ih, and_assoc]

theorem Throughout.and {Q : List (List Node) → Event σ → Prop} (h : Throughout P frames es)
    (h' : Throughout Q frames es) :
    Throughout (fun frames e => P frames e ∧ Q frames e) frames es := by
  induction es generalizing frames with
  | nil => trivial
  | cons e es ih => exact ⟨⟨h.1, h'.1⟩, ih h.2 h'.2⟩

/-- What a call sees is what the calls before it have left: of the node that it enters the siblings,
and of the node that it leaves the children and the siblings. -/
structure Framed (frames : List (List Node)) (e : Event σ) : Prop where
  enter : e.phase = .enter → frames.length = e.site.depth ∧ e.site.siblings? = frames.head?
  leave : e.phase = .leave → frames.length = e.site.depth + 1 ∧
    ∃ entered : Node, e.site.node = entered.withChildren (frames.headD []) ∧
      e.site.place?.map (·.around entered) = frames.tail.head?

end Event

namespace Walk

variable {v : Visitor σ} {s t u : σ} {depth : Nat} {before nodes left rest children : List Node}
  {n : Node} {e l : Event σ} {es inner : List (Event σ)} {outer : List (List Node)}

theorem siblingsLeft?_among (deep : 0 < depth) (site : e.site = .among depth before n rest) :
    e.siblingsLeft? = some (before ++ e.kept?.toList ++ rest) := by
  rw [Event.siblingsLeft?, site, Site.among_of_pos deep]
  rfl

theorem reframe_passed (phase : e.phase = .enter) (opens : e.opens = false) (deep : 0 < depth)
    (site : e.site = .among depth before n rest) (siblings : List Node)
    (outer : List (List Node)) :
    Event.reframe (siblings :: outer) e = (before ++ e.kept?.toList ++ rest) :: outer := by
  unfold Event.reframe
  rw [siblingsLeft?_among deep site, opens, Event.outside_enter phase]
  rfl

theorem reframe_left (phase : e.phase = .leave) (deep : 0 < depth)
    (site : e.site = .among depth before n rest) (children siblings : List Node)
    (outer : List (List Node)) :
    Event.reframe (children :: siblings :: outer) e =
      (before ++ e.kept?.toList ++ rest) :: outer := by
  unfold Event.reframe
  rw [siblingsLeft?_among deep site, Event.opens_of_leave phase, Event.outside_leave phase]
  rfl

theorem reframe_opened (opens : e.opens = true) (deep : 0 < depth)
    (site : e.site = .among depth before n rest) (siblings : List Node)
    (outer : List (List Node)) :
    Event.reframe (siblings :: outer) e =
      e.children :: (before ++ e.reply.node :: rest) :: outer := by
  obtain ⟨⟨hphase, hremoved⟩, -⟩ :
      (e.phase = .enter ∧ e.reply.removed = false) ∧ e.reply.skipped = false := by
    simpa [Event.opens, Event.enters] using opens
  unfold Event.reframe
  rw [siblingsLeft?_among deep site, opens, Event.outside_enter hphase, Event.kept?, hremoved]
  simp

theorem framed_enter (enter : e = v.entering s (.among depth before n rest))
    (deep : depth = outer.length + 1) : e.Framed ((before ++ n :: rest) :: outer) := by
  obtain ⟨hphase, hsite, -⟩ := Visitor.eq_of_entering enter
  refine ⟨fun _ => ⟨?_, ?_⟩, fun h => ?_⟩
  · rw [hsite, List.length_cons]
    exact deep.symm
  · rw [hsite, Site.siblings?_among, if_neg (by omega), List.head?_cons]
  · rw [hphase] at h
    cases h

theorem framed_leave (leave : l = v.leaving u (.among depth before (n.withChildren children) rest))
    (deep : depth = outer.length + 1) :
    l.Framed (children :: (before ++ n :: rest) :: outer) := by
  obtain ⟨hphase, hsite, -⟩ := Visitor.eq_of_leaving leave
  refine ⟨fun h => ?_, fun _ => ⟨?_, n, ?_, ?_⟩⟩
  · rw [hphase] at h
    cases h
  · rw [hsite, List.length_cons, List.length_cons]
    exact congrArg (· + 1) deep.symm
  · rw [hsite]
    rfl
  · rw [hsite, Site.among_of_pos (by omega)]
    rfl

/-- The calls for siblings find them among the open nodes, and leave there what is left of them. -/
theorem Calls.framed (h : Calls v s depth before nodes es t left)
    (deep : depth = outer.length + 1) :
    Event.Throughout Event.Framed ((before ++ nodes) :: outer) es ∧
      Event.framesAfter ((before ++ nodes) :: outer) es = left :: outer := by
  induction h generalizing outer with
  | none => exact ⟨trivial, by rw [List.append_nil]; rfl⟩
  | @passed s depth before n rest e es t left enter opens further ih =>
    obtain ⟨hphase, hsite, -⟩ := Visitor.eq_of_entering enter
    obtain ⟨hframed, hafter⟩ := ih deep
    rw [Event.Throughout, Event.framesAfter, List.foldl_cons,
      reframe_passed hphase opens (by omega) hsite]
    exact ⟨⟨framed_enter enter deep, hframed⟩, hafter⟩
  | @visited s depth before n rest e inner u children l es t left enter opens inside leave further
      ihInside ih =>
    obtain ⟨-, hsite, -⟩ := Visitor.eq_of_entering enter
    obtain ⟨hphase, hleft, -⟩ := Visitor.eq_of_leaving leave
    have hdeeper : depth + 1 = ((before ++ e.reply.node :: rest) :: outer).length + 1 := by
      rw [List.length_cons, deep]
    obtain ⟨hinner, hinnerAfter⟩ := ihInside hdeeper
    obtain ⟨hframed, hafter⟩ := ih deep
    rw [Event.Throughout, Event.framesAfter, List.foldl_cons, List.foldl_append, List.foldl_cons,
      Event.throughout_append, Event.Throughout, reframe_opened opens (by omega) hsite]
    rw [List.nil_append] at hinner hinnerAfter
    simp only [Event.framesAfter] at hinnerAfter ⊢
    rw [hinnerAfter, reframe_left hphase (by omega) hleft]
    exact ⟨⟨framed_enter enter deep, hinner, framed_leave leave deep, hframed⟩, hafter⟩

/-- The calls for the top of a tree, with no open node around it. -/
theorem Calls.framed_top {tree : Node} (h : Calls v s 0 [] [tree] es t left) :
    Event.Throughout Event.Framed [] es := by
  have hframed {site : Site} (hsite : site = .top tree) : (v.entering s site).Framed [] := by
    subst hsite
    exact ⟨fun _ => ⟨rfl, rfl⟩, fun h => by cases h⟩
  cases h with
  | passed enter opens further =>
    cases further
    subst enter
    exact ⟨hframed rfl, trivial⟩
  | @visited _ _ _ _ _ e inner u children l _ _ _ enter opens inside leave further =>
    cases further
    subst enter
    have hreframe : Event.reframe [] (v.entering s (.among 0 [] tree [])) =
        [(v.entering s (.among 0 [] tree [])).children] := by
      rw [Event.reframe, opens, if_pos rfl]
      rfl
    have hdeep : 0 + 1 = ([] : List (List Node)).length + 1 := rfl
    obtain ⟨hinner, hafter⟩ := inside.framed hdeep
    rw [List.nil_append] at hinner hafter
    rw [Event.Throughout, Event.throughout_append, hreframe, hafter]
    subst leave
    exact ⟨hframed rfl, hinner, ⟨fun h => (by cases h), fun _ => ⟨rfl, _, rfl, rfl⟩⟩, trivial⟩

theorem framed_calls (hv : v.NonGrowing) (s : σ) (tree : Node) :
    Event.Throughout Event.Framed [] (calls v hv s tree) := by
  obtain ⟨kept?, hcalls, -⟩ := calls_of_toEnd hv s tree
  exact hcalls.framed_top

end Walk
end SlideDeck
