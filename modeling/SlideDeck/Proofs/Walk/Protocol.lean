import Mathlib.Data.List.Chain
import SlideDeck.Proofs.Walk.Calls

/-!
The protocol between a walk and its visitor. However the visitor edits the tree and whatever state
it keeps, enters and leaves of a walk that ends are paired like brackets, siblings come one after
another, and every call is made at the place that the calls before it have left.
-/
namespace SlideDeck

variable {σ : Type}

namespace Event

/-- The call leaves the node that `e` entered. -/
structure Closes (l e : Event σ) : Prop where
  phase : l.phase = .leave
  depth : l.site.depth = e.site.depth
  index? : l.site.index? = e.site.index?
  hasParent : l.site.hasParent = e.site.hasParent

/-- A node is entered by `e`, the calls in between are made below it, and it is left by `l`. -/
structure Bracket (e : Event σ) (inner : List (Event σ)) (l : Event σ) : Prop where
  opens : e.opens = true
  deeper : ∀ k ∈ inner, e.site.depth < k.site.depth
  closes : l.Closes e

/-- The index of the sibling that is entered next, when this is the last call for a node. -/
def nextIndex? (e : Event σ) : Option Nat :=
  e.site.index?.map fun i => if e.reply.removed then i else i + 1

/-- The last call for siblings at a depth, and what is left of them. -/
structure EndsLevel (e : Event σ) (depth : Nat) (left : List Node) : Prop where
  ended : e.opens = false
  place : ∃ before n, e.site = .among depth before n [] ∧ left = before ++ e.kept?.toList

/-- A call and the one right before it. -/
inductive Follows (e f : Event σ) : Prop
  /-- The first child of a node is entered. -/
  | child (opens : e.opens = true) (phase : f.phase = .enter)
      (depth : f.site.depth = e.site.depth + 1) (index : f.site.index? = some 0)
      (siblings : f.site.siblings? = e.reply.node.children?)
  /-- A node without children is left at once. -/
  | childless (opens : e.opens = true) (closes : f.Closes e) (children : e.children = [])
  /-- The next sibling is entered. -/
  | sibling (ended : e.opens = false) (phase : f.phase = .enter)
      (depth : f.site.depth = e.site.depth) (index : f.site.index? = e.nextIndex?)
      (siblings : f.site.siblings? = e.siblingsLeft?)
  /-- The parent is left behind the last of its children. -/
  | parent (ended : e.opens = false) (phase : f.phase = .leave)
      (depth : f.site.depth + 1 = e.site.depth)
      (last : e.site.place?.map Place.after = some [])
      (children : f.site.node.children? = e.siblingsLeft?)

/-- Behind the last call for a node, the walk neither goes below that node nor leaves it. -/
theorem Follows.outside {e f : Event σ} (h : e.Follows f) (ended : e.opens = false) :
    f.site.depth ≤ e.site.depth ∧ (f.phase = .leave → f.site.depth < e.site.depth) := by
  cases h with
  | child opens => simp [ended] at opens
  | childless opens => simp [ended] at opens
  | sibling _ phase depth => exact ⟨depth.le, fun h => by simp [phase] at h⟩
  | parent _ _ depth => exact ⟨by omega, fun _ => by omega⟩

/-- What a visitor may rely on in the calls of a walk over a tree. -/
structure Protocol (tree : Node) (es : List (Event σ)) : Prop where
  /-- A node that is entered, and neither removed nor skipped, is left behind the calls below it. -/
  opened : ∀ {front e rest}, es = front ++ e :: rest → e.opens = true →
    ∃ inner l more, rest = inner ++ l :: more ∧ e.Bracket inner l
  /-- Only such nodes are left. -/
  closed : ∀ {front l rest}, es = front ++ l :: rest → l.phase = .leave →
    ∃ outer e inner, front = outer ++ e :: inner ∧ e.Bracket inner l
  /-- Behind the call that removed, skipped or left a node comes no call below that node, and none
  that leaves it again. -/
  ended : ∀ {front e f rest}, es = front ++ e :: f :: rest → e.opens = false →
    f.site.depth ≤ e.site.depth ∧ (f.phase = .leave → f.site.depth < e.site.depth)
  /-- The sibling behind a node is entered at the next index, or at the same one when the last call
  for the node had it removed, and it sees the siblings that this call left. -/
  siblings : ∀ {front e inner f rest}, es = front ++ e :: (inner ++ f :: rest) →
    e.phase = .enter → f.phase = .enter → f.site.depth = e.site.depth →
    (∀ k ∈ inner, e.site.depth ≤ k.site.depth ∧ (k.site.depth = e.site.depth → k.phase = .leave)) →
    let last := inner.getLastD e
    f.site.index? = e.site.index?.map (fun i => if last.reply.removed then i else i + 1) ∧
      f.site.siblings? = last.siblingsLeft?
  /-- A call is made for the node at its index among the siblings. -/
  located : ∀ e ∈ es, ∀ i, e.site.index? = some i →
    ∃ nodes, e.site.siblings? = some nodes ∧ nodes[i]? = some e.site.node
  /-- Depth 0, no parent, no index and no siblings are one and the same. -/
  alone : ∀ e ∈ es, (e.site.depth = 0 ↔ e.site.hasParent = false) ∧
    (e.site.depth = 0 ↔ e.site.index? = none) ∧ (e.site.depth = 0 ↔ e.site.siblings? = none)
  /-- The first call enters the top of the tree, and another call at depth 0 leaves it. -/
  top : ∃ e rest, es = e :: rest ∧ e.phase = .enter ∧ e.site = .top tree ∧
    ∀ f ∈ rest, f.site.depth = 0 → f.Closes e
  /-- Each call goes on from the one before it. -/
  chain : es.IsChain Follows

end Event

/-- A place in two lists joined is a place in the first or in the second. -/
theorem split_append {α : Type} {as bs xs ys : List α} {a : α} (h : as ++ bs = xs ++ a :: ys) :
    (∃ zs, as = xs ++ a :: zs ∧ ys = zs ++ bs) ∨ ∃ zs, xs = as ++ zs ∧ bs = zs ++ a :: ys := by
  rcases List.append_eq_append_iff.mp h with ⟨zs, rfl, rfl⟩ | ⟨zs, rfl, hzs⟩
  · exact .inr ⟨zs, rfl, rfl⟩
  · cases zs with
    | nil => exact .inr ⟨[], by simp, hzs.symm⟩
    | cons b zs =>
      obtain ⟨rfl, rfl⟩ := List.cons.inj hzs
      exact .inl ⟨zs, rfl, rfl⟩

namespace Walk

variable {v : Visitor σ} {s t : σ} {depth : Nat} {before nodes left : List Node}
  {es : List (Event σ)}

theorem Calls.nodes_eq_nil (h : Calls v s depth before nodes [] t left) :
    nodes = [] ∧ left = before := by
  cases h
  exact ⟨rfl, rfl⟩

theorem Calls.events_eq_nil (h : Calls v s depth before [] es t left) : es = [] := by
  cases h
  rfl

theorem Calls.head (h : Calls v s depth before nodes es t left) :
    ∀ f ∈ es.head?, ∃ n rest,
      nodes = n :: rest ∧ f.phase = .enter ∧ f.site = .among depth before n rest := by
  cases h with
  | none => simp
  | passed enter _ _ | visited enter _ _ _ _ =>
    rintro f ⟨⟩
    obtain ⟨hphase, hsite, -⟩ := Visitor.eq_of_entering enter
    exact ⟨_, _, rfl, hphase, hsite⟩

theorem Calls.last_cons {e : Event σ} {n : Node} {rest : List Node} (ended : e.opens = false)
    (site : e.site = .among depth before n rest)
    (further : Calls v s depth (before ++ e.kept?.toList) rest es t left)
    (ih : ∀ k ∈ es.getLast?, k.EndsLevel depth left) :
    ∀ k ∈ (e :: es).getLast?, k.EndsLevel depth left := by
  cases es with
  | nil =>
    rintro k ⟨⟩
    obtain ⟨rfl, rfl⟩ := further.nodes_eq_nil
    exact ⟨ended, before, n, site, rfl⟩
  | cons f es => rwa [List.getLast?_cons_cons]

theorem Calls.last (h : Calls v s depth before nodes es t left) :
    ∀ k ∈ es.getLast?, k.EndsLevel depth left := by
  induction h with
  | none => simp
  | passed enter ended further ih =>
    exact last_cons ended (Visitor.eq_of_entering enter).2.1 further ih
  | @visited _ _ _ _ _ e inner _ _ l es _ _ _ _ _ leave further _ ih =>
    have hlast : (e :: (inner ++ l :: es)).getLast? = (l :: es).getLast? := by
      simp [List.getLast?_cons, List.getLast?_append]
    obtain ⟨hphase, hsite, -⟩ := Visitor.eq_of_leaving leave
    rw [hlast]
    exact last_cons (Event.opens_of_leave hphase) hsite further ih

/-- The call behind the last one for a node, when there is a further sibling. -/
theorem Calls.follows_sibling {e : Event σ} {n : Node} {rest : List Node} (ended : e.opens = false)
    (site : e.site = .among depth before n rest)
    (further : Calls v s depth (before ++ e.kept?.toList) rest es t left) :
    ∀ f ∈ es.head?, e.Follows f := by
  intro f hf
  obtain ⟨m, rest', rfl, hphase, hsite⟩ := further.head f hf
  refine .sibling ended hphase (by rw [hsite, site]; rfl) ?_ ?_
  · rw [hsite, Event.nextIndex?, site, Site.index?_among, Site.index?_among]
    by_cases hd : depth = 0
    · simp [hd]
    · by_cases hr : e.reply.removed = true <;> simp [hd, hr, Event.kept?]
  · rw [hsite, Event.siblingsLeft?, site, Site.siblings?_among]
    by_cases hd : depth = 0 <;> simp [hd, Site.among]

theorem Calls.bracket {u : σ} {e l : Event σ} {inner : List (Event σ)} {n m : Node}
    {children rest : List Node} (inside : Calls v u (depth + 1) [] nodes inner t children)
    (enter : e = v.entering s (.among depth before n rest)) (opens : e.opens = true)
    (leave : l = v.leaving t (.among depth before m rest)) : e.Bracket inner l := by
  obtain ⟨-, hsite, -⟩ := Visitor.eq_of_entering enter
  obtain ⟨hphase, hsite', -⟩ := Visitor.eq_of_leaving leave
  refine ⟨opens, fun k hk => ?_, hphase, ?_, ?_, ?_⟩
  · rw [hsite]
    exact (inside.site_eq k hk).1
  · rw [hsite, hsite']
    rfl
  · rw [hsite, hsite', Site.index?_among, Site.index?_among]
  · rw [hsite, hsite', Site.hasParent_among, Site.hasParent_among]

/-- The call behind one that opens a node is for its first child, if it has any. -/
theorem Calls.follows_opening {u : σ} {e l : Event σ} {inner : List (Event σ)} {n m : Node}
    {children rest : List Node} (inside : Calls v u (depth + 1) [] e.children inner t children)
    (enter : e = v.entering s (.among depth before n rest)) (opens : e.opens = true)
    (leave : l = v.leaving t (.among depth before m rest)) :
    ∀ f ∈ (inner ++ l :: es).head?, e.Follows f := by
  cases inner with
  | nil =>
    rintro f ⟨⟩
    exact .childless opens (inside.bracket enter opens leave).closes inside.nodes_eq_nil.1
  | cons k inner =>
    rintro f ⟨⟩
    obtain ⟨-, hsite, -⟩ := Visitor.eq_of_entering enter
    obtain ⟨m, rest', hnodes, hphase, hchild⟩ := inside.head k rfl
    refine .child opens hphase (by rw [hchild, hsite]; rfl) ?_ ?_
    · rw [hchild, Site.index?_among, if_neg (Nat.succ_ne_zero _)]
      rfl
    · rw [hchild, Site.siblings?_among, if_neg (Nat.succ_ne_zero _), List.nil_append, ← hnodes]
      cases hchildren : e.reply.node.children? with
      | none => simp [Event.children, hchildren] at hnodes
      | some cs => simp [Event.children, hchildren]

/-- The call behind the last one for the children of a node leaves that node. -/
theorem Calls.follows_children {u : σ} {e l : Event σ} {inner : List (Event σ)}
    {children rest : List Node} (inside : Calls v u (depth + 1) [] e.children inner t children)
    (leave : l = v.leaving t (.among depth before (e.reply.node.withChildren children) rest)) :
    ∀ g ∈ inner.getLast?, g.Follows l := by
  intro g hg
  obtain ⟨hphase, hsite, -⟩ := Visitor.eq_of_leaving leave
  obtain ⟨ended, before', m, hchild, rfl⟩ := inside.last g hg
  refine .parent ended hphase (by rw [hsite, hchild]; rfl) (by rw [hchild]; rfl) ?_
  rw [hsite, Event.siblingsLeft?, hchild]
  cases hchildren : e.reply.node.children? with
  | none =>
    rw [Event.children, hchildren] at inside
    rw [inside.events_eq_nil] at hg
    cases hg
  | some cs => simp [Site.among, hchildren]

theorem Calls.chain (h : Calls v s depth before nodes es t left) :
    es.IsChain Event.Follows := by
  induction h with
  | none => exact .nil
  | passed enter ended further ih =>
    obtain ⟨-, hsite, -⟩ := Visitor.eq_of_entering enter
    exact List.isChain_cons.mpr ⟨further.follows_sibling ended hsite, ih⟩
  | @visited _ _ _ _ _ e inner _ _ l es _ _ enter opens inside leave further ihInside ih =>
    obtain ⟨hphase, hsite, -⟩ := Visitor.eq_of_leaving leave
    have hnext : ∀ f ∈ es.head?, l.Follows f :=
      further.follows_sibling (Event.opens_of_leave hphase) hsite
    have hfirst : ∀ f ∈ (inner ++ l :: es).head?, e.Follows f :=
      inside.follows_opening enter opens leave
    have hback : ∀ g ∈ inner.getLast?, ∀ f ∈ (l :: es).head?, g.Follows f := by
      rintro g hg f ⟨⟩
      exact inside.follows_children leave g hg
    rw [List.isChain_cons, List.isChain_append, List.isChain_cons]
    exact ⟨hfirst, ihInside, ⟨hnext, ih⟩, hback⟩

/-- A call for a node that is visited, for one below it, or for a later sibling. -/
theorem split_visited {e l f : Event σ} {inner es front rest : List (Event σ)}
    (h : e :: (inner ++ l :: es) = front ++ f :: rest) :
    (front = [] ∧ e = f ∧ rest = inner ++ l :: es) ∨
      (∃ as bs, inner = as ++ f :: bs ∧ front = e :: as ∧ rest = bs ++ l :: es) ∨
      (l = f ∧ front = e :: inner ∧ rest = es) ∨
      ∃ as, es = as ++ f :: rest ∧ front = e :: (inner ++ l :: as) := by
  cases front with
  | nil =>
    obtain ⟨rfl, rfl⟩ := List.cons.inj h
    exact .inl ⟨rfl, rfl, rfl⟩
  | cons k front =>
    obtain ⟨rfl, htail⟩ := List.cons.inj h
    rcases split_append htail with ⟨bs, rfl, rfl⟩ | ⟨as, rfl, hback⟩
    · exact .inr (.inl ⟨front, bs, rfl, rfl, rfl⟩)
    · cases as with
      | nil =>
        obtain ⟨rfl, rfl⟩ := List.cons.inj hback
        exact .inr (.inr (.inl ⟨rfl, by rw [List.append_nil], rfl⟩))
      | cons k as =>
        obtain ⟨rfl, rfl⟩ := List.cons.inj hback
        exact .inr (.inr (.inr ⟨as, rfl, rfl⟩))

theorem Calls.opened (h : Calls v s depth before nodes es t left) :
    ∀ {front f rest}, es = front ++ f :: rest → f.opens = true →
      ∃ inner l more, rest = inner ++ l :: more ∧ f.Bracket inner l := by
  induction h with
  | none => simp
  | passed enter ended further ih =>
    intro front f rest hsplit hf
    cases front with
    | nil =>
      obtain ⟨rfl, rfl⟩ := List.cons.inj hsplit
      simp [ended] at hf
    | cons k front => exact ih (List.cons.inj hsplit).2 hf
  | @visited _ _ _ _ _ e inner _ _ l es _ _ enter opens inside leave further ihInside ih =>
    intro front f rest hsplit hf
    rcases split_visited hsplit with ⟨rfl, rfl, rfl⟩ | ⟨as, bs, hinner, rfl, rfl⟩ |
      ⟨rfl, rfl, rfl⟩ | ⟨as, hes, rfl⟩
    · exact ⟨inner, l, es, rfl, inside.bracket enter opens leave⟩
    · obtain ⟨inner', k, more, rfl, hbracket⟩ := ihInside hinner hf
      exact ⟨inner', k, more ++ l :: es, by simp, hbracket⟩
    · rw [Event.opens_of_leave (Visitor.eq_of_leaving leave).1] at hf
      cases hf
    · exact ih hes hf

theorem Calls.closed (h : Calls v s depth before nodes es t left) :
    ∀ {front f rest}, es = front ++ f :: rest → f.phase = .leave →
      ∃ outer e inner, front = outer ++ e :: inner ∧ e.Bracket inner f := by
  induction h with
  | none => simp
  | passed enter ended further ih =>
    intro front f rest hsplit hf
    cases front with
    | nil =>
      obtain ⟨rfl, rfl⟩ := List.cons.inj hsplit
      rw [(Visitor.eq_of_entering enter).1] at hf
      cases hf
    | cons k front =>
      obtain ⟨outer, e, inner, rfl, hbracket⟩ := ih (List.cons.inj hsplit).2 hf
      exact ⟨k :: outer, e, inner, rfl, hbracket⟩
  | @visited _ _ _ _ _ e inner _ _ l es _ _ enter opens inside leave further ihInside ih =>
    intro front f rest hsplit hf
    rcases split_visited hsplit with ⟨rfl, rfl, rfl⟩ | ⟨as, bs, hinner, rfl, rfl⟩ |
      ⟨rfl, rfl, rfl⟩ | ⟨as, hes, rfl⟩
    · rw [(Visitor.eq_of_entering enter).1] at hf
      cases hf
    · obtain ⟨outer, k, inner', rfl, hbracket⟩ := ihInside hinner hf
      exact ⟨e :: outer, k, inner', rfl, hbracket⟩
    · exact ⟨[], e, inner, rfl, inside.bracket enter opens leave⟩
    · obtain ⟨outer, k, inner', rfl, hbracket⟩ := ih hes hf
      exact ⟨e :: (inner ++ l :: outer), k, inner', by simp, hbracket⟩

/-- Behind the last call for a node, a call at its depth enters the next sibling. -/
theorem next_sibling {k f : Event σ} {front more rest : List (Event σ)}
    (chain : es.IsChain Event.Follows) (hes : es = front ++ k :: (more ++ f :: rest))
    (ended : k.opens = false) (phase : f.phase = .enter)
    (hmore : ∀ m ∈ more, k.site.depth ≤ m.site.depth ∧
      (m.site.depth = k.site.depth → m.phase = .leave)) :
    more = [] ∧ f.site.index? = k.nextIndex? ∧ f.site.siblings? = k.siblingsLeft? := by
  have hchain := List.isChain_iff_forall_rel_of_append_cons_cons.mp chain
  cases more with
  | cons m more =>
    obtain ⟨hle, hleave⟩ := hmore m List.mem_cons_self
    obtain ⟨hge, hlt⟩ := (hchain hes).outside ended
    have := hlt (hleave (by omega))
    omega
  | nil =>
    cases hchain hes with
    | child opens => simp [ended] at opens
    | childless opens => simp [ended] at opens
    | sibling _ _ _ index siblings => exact ⟨rfl, index, siblings⟩
    | parent _ hleave => simp [phase] at hleave

theorem Calls.siblings (h : Calls v s depth before nodes es t left) {front rest : List (Event σ)}
    {e f : Event σ} {inner : List (Event σ)} (hes : es = front ++ e :: (inner ++ f :: rest))
    (hf : f.phase = .enter) (hdepth : f.site.depth = e.site.depth)
    (hinner : ∀ k ∈ inner, e.site.depth ≤ k.site.depth ∧
      (k.site.depth = e.site.depth → k.phase = .leave)) :
    f.site.index? = e.site.index?.map
        (fun i => if (inner.getLastD e).reply.removed then i else i + 1) ∧
      f.site.siblings? = (inner.getLastD e).siblingsLeft? := by
  cases hopens : e.opens with
  | false =>
    obtain ⟨rfl, hindex, hsiblings⟩ := next_sibling h.chain hes hopens hf hinner
    exact ⟨hindex, hsiblings⟩
  | true =>
    obtain ⟨below, l, more, hrest, hbracket⟩ := h.opened hes hopens
    have hclose := hbracket.closes
    rcases split_append hrest with ⟨zs, rfl, rfl⟩ | ⟨zs, rfl, hback⟩
    · have hl : l.opens = false := by simp [Event.opens, Event.enters, hclose.phase]
      have hzs : ∀ k ∈ zs, l.site.depth ≤ k.site.depth ∧
          (k.site.depth = l.site.depth → k.phase = .leave) := by
        rw [hclose.depth]
        exact fun k hk => hinner k (by simp [hk])
      have hes' : es = (front ++ e :: below) ++ l :: (zs ++ f :: rest) := by simp [hes]
      obtain ⟨rfl, hindex, hsiblings⟩ := next_sibling h.chain hes' hl hf hzs
      rw [hindex, hsiblings, Event.nextIndex?, hclose.index?]
      simp
    · cases zs with
      | nil =>
        obtain ⟨rfl, -⟩ := List.cons.inj hback
        rw [hclose.phase] at hf
        cases hf
      | cons k zs =>
        obtain ⟨rfl, -⟩ := List.cons.inj hback
        exact absurd hdepth (hbracket.deeper f (by simp)).ne'

/-- Whatever a visitor does and remembers, in a walk that ends its calls keep to the protocol. -/
theorem protocol_of_ends {reach : Nat} {tree result : Node}
    (ends : within? reach v s tree = some (t, result)) :
    ∃ es, within? reach v.traced (s, []) tree = some ((t, es), result) ∧
      Event.Protocol tree es := by
  obtain ⟨es, kept?, hrecord, hcalls, -⟩ := calls_of_within? ends
  refine ⟨es, hrecord, hcalls.opened, hcalls.closed, fun hes hended => ?_,
    fun hes _ => hcalls.siblings hes, ?_, ?_, ?_, hcalls.chain⟩
  · exact (List.isChain_iff_forall_rel_of_append_cons_cons.mp hcalls.chain hes).outside hended
  · intro e he i hi
    obtain ⟨front, back, hsite⟩ := (hcalls.site_eq e he).2
    rw [hsite, Site.index?_among] at hi
    by_cases hd : e.site.depth = 0
    · simp [hd] at hi
    · obtain rfl : front.length = i := by simpa [hd] using hi
      refine ⟨front ++ e.site.node :: back, ?_, by simp⟩
      rw [hsite, Site.siblings?_among, if_neg hd]
      rfl
  · intro e he
    obtain ⟨front, back, hsite⟩ := (hcalls.site_eq e he).2
    rw [hsite, Site.hasParent_among, Site.index?_among, Site.siblings?_among]
    simp [Site.among]
  · cases hcalls with
    | passed enter ended further =>
      obtain rfl := further.events_eq_nil
      obtain ⟨hphase, hsite, -⟩ := Visitor.eq_of_entering enter
      exact ⟨_, [], rfl, hphase, hsite, by simp⟩
    | @visited _ _ _ _ _ e inner _ _ l _ _ _ enter opens inside leave further =>
      obtain rfl := further.events_eq_nil
      obtain ⟨hphase, hsite, -⟩ := Visitor.eq_of_entering enter
      refine ⟨e, inner ++ [l], rfl, hphase, hsite, fun f hf hd => ?_⟩
      rcases List.mem_append.mp hf with hf | hf
      · have hle := (inside.site_eq f hf).1
        omega
      · obtain rfl := List.mem_singleton.mp hf
        exact (inside.bracket enter opens leave).closes

/-- Counts its calls. It puts an element with two texts in the place of a component, which is
larger, removes comments when it enters them and the first text of that element when it leaves it,
and goes past a raw node. -/
def sprouting : Visitor Nat where
  enter s site :=
    match site.node with
    | .component _ props _ =>
      ⟨s + 1, .element "p" props [.text "a", .text "b"], false, false⟩
    | .comment _ => ⟨s + 1, site.node, true, true⟩
    | .raw _ => ⟨s + 1, site.node, false, true⟩
    | node => ⟨s + 1, node, false, false⟩
  leave s site := ⟨s + 1, site.node, s == 5, true⟩

theorem protocol_of_ends_sprouting :
    let tree : Node := .root [.comment "x", .comment "y", .component none {} [], .raw "z"]
    within? 3 sprouting 0 tree =
        some (11, .root [.element "p" {} [.text "b"], .raw "z"]) ∧
      ∃ es, within? 3 sprouting.traced (0, []) tree =
          some ((11, es), .root [.element "p" {} [.text "b"], .raw "z"]) ∧
        Event.Protocol tree es :=
  ⟨rfl, protocol_of_ends rfl⟩

end Walk
end SlideDeck
