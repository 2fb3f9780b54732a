import SlideDeck.Proofs.Walk.Subtree

/-!
The calls of a walk. What a walk that ends asks of its visitor is laid out as a derivation: for
siblings from left to right, each is entered and, unless it is removed or skipped, its children are
walked and it is left. Facts about a walk are proved by induction on this derivation. No visitor is
ruled out: it may enlarge what it enters, as long as the walk ends.
-/
namespace SlideDeck

variable {σ : Type}

namespace Event

def enters (e : Event σ) : Bool := e.phase == .enter

/-- The walk goes below the node after this call. -/
def opens (e : Event σ) : Bool := e.enters && !e.reply.removed && !e.reply.skipped

/-- What stands in the place of the node after this call, if anything. -/
def kept? (e : Event σ) : Option Node := if e.reply.removed then none else some e.reply.node

/-- The siblings after this call. -/
def siblingsLeft? (e : Event σ) : Option (List Node) :=
  e.site.place?.map fun place => place.before ++ e.kept?.toList ++ place.after

/-- The children that the walk goes over after this call. -/
def children (e : Event σ) : List Node := e.reply.node.children?.getD []

theorem opens_of_leave {e : Event σ} (h : e.phase = .leave) : e.opens = false := by
  simp [opens, enters, h]

end Event

/-- The site of a node at a depth, between its siblings. At depth 0 is the top of a tree, which has
none. -/
def Site.among (depth : Nat) (before : List Node) (node : Node) (after : List Node) : Site :=
  ⟨node, depth, if depth = 0 then none else some ⟨before, after⟩⟩

theorem Site.index?_among (depth : Nat) (before : List Node) (node : Node) (after : List Node) :
    (among depth before node after).index? = if depth = 0 then none else some before.length := by
  unfold index? among
  split <;> rfl

theorem Site.siblings?_among (depth : Nat) (before : List Node) (node : Node)
    (after : List Node) : (among depth before node after).siblings? =
      if depth = 0 then none else some (before ++ node :: after) := by
  unfold siblings? among
  split <;> rfl

theorem Site.hasParent_among (depth : Nat) (before : List Node) (node : Node)
    (after : List Node) : (among depth before node after).hasParent = !decide (depth = 0) := by
  unfold hasParent among
  split <;> simp [*]

namespace Visitor

/-- The call of `enter` in a state at a site. -/
def entering (v : Visitor σ) (s : σ) (site : Site) : Event σ := ⟨.enter, s, site, v.enter s site⟩

/-- The call of `leave` in a state at a site. -/
def leaving (v : Visitor σ) (s : σ) (site : Site) : Event σ := ⟨.leave, s, site, v.leave s site⟩

theorem eq_of_entering {v : Visitor σ} {s : σ} {site : Site} {e : Event σ}
    (h : e = v.entering s site) :
    e.phase = .enter ∧ e.site = site ∧ e.reply = v.enter s site := by
  subst h
  exact ⟨rfl, rfl, rfl⟩

theorem eq_of_leaving {v : Visitor σ} {s : σ} {site : Site} {e : Event σ}
    (h : e = v.leaving s site) :
    e.phase = .leave ∧ e.site = site ∧ e.reply = v.leave s site := by
  subst h
  exact ⟨rfl, rfl, rfl⟩

theorem traced_enter (v : Visitor σ) (s : σ) (record : List (Event σ)) (site : Site) :
    v.traced.enter (s, record) site =
      ⟨((v.enter s site).state, record ++ [v.entering s site]), (v.enter s site).node,
        (v.enter s site).removed, (v.enter s site).skipped⟩ := rfl

theorem traced_leave (v : Visitor σ) (s : σ) (record : List (Event σ)) (site : Site) :
    v.traced.leave (s, record) site =
      ⟨((v.leave s site).state, record ++ [v.leaving s site]), (v.leave s site).node,
        (v.leave s site).removed, (v.leave s site).skipped⟩ := rfl

end Visitor

namespace Walk

/-- The calls that a walk makes for siblings, from a state to a state. The siblings `before` were
visited already; at the end stands what is left of all. -/
inductive Calls (v : Visitor σ) :
    σ → Nat → List Node → List Node → List (Event σ) → σ → List Node → Prop
  | none {s depth before} : Calls v s depth before [] [] s before
  /-- A node is removed or skipped when it is entered. -/
  | passed {s depth before n rest e es t nodes}
      (enter : e = v.entering s (.among depth before n rest)) (opens : e.opens = false)
      (further : Calls v e.reply.state depth (before ++ e.kept?.toList) rest es t nodes) :
      Calls v s depth before (n :: rest) (e :: es) t nodes
  /-- A node is entered, its children are walked, and it is left. -/
  | visited {s depth before n rest e inner u children l es t nodes}
      (enter : e = v.entering s (.among depth before n rest)) (opens : e.opens = true)
      (inside : Calls v e.reply.state (depth + 1) [] e.children inner u children)
      (leave : l = v.leaving u (.among depth before (e.reply.node.withChildren children) rest))
      (further : Calls v l.reply.state depth (before ++ l.kept?.toList) rest es t nodes) :
      Calls v s depth before (n :: rest) (e :: (inner ++ l :: es)) t nodes

variable {v : Visitor σ}

/-- The record of the calls rides along with a visit, and whatever is walked behind the node, the
calls for the node come first. -/
def Recorded (v : Visitor σ) (reach : Nat) (s : σ) (site : Site) (t : σ) (kept? : Option Node) :
    Prop :=
  ∃ es, (∀ record, visit v.traced reach (s, record) site = some ((t, record ++ es), kept?)) ∧
    ∀ {depth before n rest es' u nodes}, site = .among depth before n rest →
      Calls v t depth (before ++ kept?.toList) rest es' u nodes →
      Calls v s depth before (n :: rest) (es ++ es') u nodes

theorem recorded_siblings {reach : Nat}
    (hvisit : ∀ s site t kept?, visit v reach s site = some (t, kept?) →
      Recorded v reach s site t kept?)
    {depth : Nat} {s t : σ} {before nodes left : List Node}
    (h : visitAll (visit v reach) (depth + 1) s before nodes = some (t, left)) :
    ∃ es, (∀ record, visitAll (visit v.traced reach) (depth + 1) (s, record) before nodes =
        some ((t, record ++ es), left)) ∧
      Calls v s (depth + 1) before nodes es t left := by
  induction nodes generalizing s before with
  | nil =>
    obtain ⟨rfl, rfl⟩ := Prod.mk.inj (Option.some.inj h)
    exact ⟨[], fun record => by rw [visitAll, List.append_nil], .none⟩
  | cons n rest ih =>
    simp only [visitAll, Option.bind_eq_bind, Option.bind_eq_some_iff] at h
    obtain ⟨⟨u, kept?⟩, hn, hrest⟩ := h
    obtain ⟨es, hes, hcalls⟩ := hvisit _ _ _ _ hn
    obtain ⟨es', hes', hfurther⟩ := ih hrest
    refine ⟨es ++ es', fun record => ?_, hcalls rfl hfurther⟩
    simp only [visitAll, hes, hes', Option.bind_eq_bind, Option.bind_some, List.append_assoc]

/-- Every call of a walk is made among siblings, or at the top. -/
theorem Calls.site_eq {s t : σ} {depth : Nat} {before nodes left : List Node}
    {es : List (Event σ)} (h : Calls v s depth before nodes es t left) :
    ∀ e ∈ es, depth ≤ e.site.depth ∧
      ∃ front back, e.site = .among e.site.depth front e.site.node back := by
  induction h with
  | none => simp
  | passed enter _ _ ih =>
    intro f hf
    rcases List.mem_cons.mp hf with rfl | hf
    · obtain ⟨-, hsite, -⟩ := Visitor.eq_of_entering enter
      rw [hsite]
      exact ⟨Nat.le_refl _, _, _, rfl⟩
    · exact ih f hf
  | visited enter _ _ leave _ ihInside ih =>
    intro f hf
    simp only [List.mem_cons, List.mem_append] at hf
    rcases hf with rfl | hf | rfl | hf
    · obtain ⟨-, hsite, -⟩ := Visitor.eq_of_entering enter
      rw [hsite]
      exact ⟨Nat.le_refl _, _, _, rfl⟩
    · exact ⟨Nat.le_of_succ_le (ihInside f hf).1, (ihInside f hf).2⟩
    · obtain ⟨-, hsite, -⟩ := Visitor.eq_of_leaving leave
      rw [hsite]
      exact ⟨Nat.le_refl _, _, _, rfl⟩
    · exact ih f hf

theorem visit_of_passed {reach : Nat} {s : σ} {site : Site}
    (h : (v.entering s site).opens = false) :
    visit v (reach + 1) s site = some ((v.enter s site).state, (v.entering s site).kept?) := by
  rw [visit]
  by_cases hr : (v.enter s site).removed = true
  · simp [Event.kept?, Visitor.entering, hr]
  · have hs : (v.enter s site).skipped = true := by
      simpa [Event.opens, Event.enters, Visitor.entering, hr] using h
    simp [Event.kept?, Visitor.entering, hr, hs]

theorem visit_of_opens {reach : Nat} {s : σ} {site : Site}
    (h : (v.entering s site).opens = true) :
    visit v (reach + 1) s site =
      (visitAll (visit v reach) (site.depth + 1) (v.enter s site).state []
        (v.entering s site).children).map fun (u, children) =>
          let node := (v.enter s site).node.withChildren children
          ((v.leave u { site with node := node }).state,
            (v.leaving u { site with node := node }).kept?) := by
  obtain ⟨hr, hs⟩ : (v.enter s site).removed = false ∧ (v.enter s site).skipped = false := by
    simpa [Event.opens, Event.enters, Visitor.entering] using h
  rw [visit]
  simp only [hr, hs, Bool.false_eq_true, ↓reduceIte, Option.bind_eq_bind, Option.map_eq_bind]
  rfl

theorem recorded {reach : Nat} {s t : σ} {site : Site} {kept? : Option Node}
    (h : visit v reach s site = some (t, kept?)) : Recorded v reach s site t kept? := by
  induction reach generalizing s site t kept? with
  | zero => cases h
  | succ reach ih =>
    cases hopens : (v.entering s site).opens with
    | false =>
      rw [visit_of_passed hopens] at h
      obtain ⟨rfl, rfl⟩ := Prod.mk.inj (Option.some.inj h)
      refine ⟨[v.entering s site], fun record => ?_, fun hsite hfurther => ?_⟩
      · exact visit_of_passed (v := v.traced) (s := (s, record)) hopens
      · subst hsite
        exact .passed rfl hopens hfurther
    | true =>
      rw [visit_of_opens hopens, Option.map_eq_some_iff] at h
      obtain ⟨⟨u, children⟩, hbelow, hleave⟩ := h
      obtain ⟨rfl, rfl⟩ := Prod.mk.inj hleave
      obtain ⟨inner, hinner, hinside⟩ := recorded_siblings (fun _ _ _ _ h => ih h) hbelow
      refine ⟨v.entering s site :: (inner ++
        [v.leaving u { site with node := (v.enter s site).node.withChildren children }]),
        fun record => ?_, fun hsite hfurther => ?_⟩
      · have hinner' := hinner (record ++ [v.entering s site])
        rw [visit_of_opens (v := v.traced) (s := (s, record)) hopens, Visitor.traced_enter]
        simp only [Event.children, Visitor.entering, Visitor.traced_enter] at hinner' ⊢
        rw [hinner', Option.map_some]
        simp only [Visitor.traced_leave, List.append_assoc, List.cons_append, List.nil_append]
        rfl
      · subst hsite
        rw [List.cons_append, List.append_assoc, List.singleton_append]
        exact .visited rfl hopens hinside rfl hfurther

/-- A walk that ends makes the same calls with a record as without, and the record holds them. -/
theorem calls_of_within? {reach : Nat} {s t : σ} {tree left : Node}
    (h : within? reach v s tree = some (t, left)) :
    ∃ (es : List (Event σ)) (kept? : Option Node),
      within? reach v.traced (s, []) tree = some ((t, es), left) ∧
      Calls v s 0 [] [tree] es t kept?.toList ∧ left = kept?.getD (.root []) := by
  rw [within?, Option.map_eq_some_iff] at h
  obtain ⟨⟨u, kept?⟩, hvisit, hleft⟩ := h
  obtain ⟨rfl, rfl⟩ := Prod.mk.inj hleft
  obtain ⟨es, hes, hcalls⟩ := recorded hvisit
  refine ⟨es, kept?, ?_, ?_, rfl⟩
  · rw [within?, hes]
    rfl
  · have hend : Calls v u 0 ([] ++ kept?.toList) [] [] u kept?.toList := .none
    rw [← List.append_nil es]
    exact hcalls rfl hend

/-- The calls of the walk over a tree, with a visitor that does not enlarge what it enters. -/
def calls (v : Visitor σ) (hv : v.NonGrowing) (s : σ) (tree : Node) : List (Event σ) :=
  (toEnd v.traced (Visitor.traced_nonGrowing hv) (s, []) tree).1.2

theorem calls_of_toEnd (hv : v.NonGrowing) (s : σ) (tree : Node) :
    ∃ kept? : Option Node,
      Calls v s 0 [] [tree] (calls v hv s tree) (toEnd v hv s tree).1 kept?.toList ∧
      (toEnd v hv s tree).2 = kept?.getD (.root []) := by
  have hends : within? tree.size v s tree = some (toEnd v hv s tree) := (Option.some_get _).symm
  have hrecord : within? tree.size v.traced (s, []) tree =
      some (toEnd v.traced (Visitor.traced_nonGrowing hv) (s, []) tree) := (Option.some_get _).symm
  obtain ⟨es, kept?, hes, hcalls, hleft⟩ := calls_of_within? hends
  rw [hrecord] at hes
  have hes' : calls v hv s tree = es := congrArg (fun r => r.1.2) (Option.some.inj hes)
  exact ⟨kept?, hes' ▸ hcalls, hleft⟩

/-- A walk that does not enlarge what it enters makes no more calls of `enter` than there are nodes
to begin with. -/
theorem Calls.countP_enters_le (hv : v.NonGrowing) {s t : σ} {depth : Nat}
    {before nodes left : List Node} {es : List (Event σ)}
    (h : Calls v s depth before nodes es t left) : es.countP Event.enters ≤ Node.sizeAll nodes := by
  induction h with
  | none => exact Nat.le_refl _
  | @passed _ _ _ n _ e es _ _ enter opens further ih =>
    have hpos := n.size_pos
    rw [List.countP_cons, Node.sizeAll]
    split <;> omega
  | @visited s depth before n rest e inner _ _ l es _ _ enter opens inside leave further ihInside
      ih =>
    obtain ⟨-, -, hreply⟩ := Visitor.eq_of_entering enter
    obtain ⟨hphase, -, -⟩ := Visitor.eq_of_leaving leave
    have hsize : e.reply.node.size ≤ n.size := hreply ▸ hv s _
    have hl : l.enters = false := by simp [Event.enters, hphase]
    rw [Node.size_eq] at hsize
    simp only [Event.children] at ihInside
    rw [List.countP_cons, List.countP_append, List.countP_cons, Node.sizeAll, hl,
      if_neg Bool.false_ne_true]
    split <;> omega

end Walk
end SlideDeck
