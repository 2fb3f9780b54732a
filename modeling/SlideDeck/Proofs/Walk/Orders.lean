import SlideDeck.Proofs.Walk.Calls

/-!
The orders in which the nodes of a tree are come to. The enumeration hands them out in document
order. A walk with a visitor that changes nothing enters them in the same order, and leaves each of
them behind all that is below it.
-/
namespace SlideDeck

namespace Node

mutual

/-- The nodes of a tree, each behind those below it and the children from left to right. -/
def postorder : Node → List Node
  | root cs => postorderAll cs ++ [root cs]
  | element tag props cs => postorderAll cs ++ [element tag props cs]
  | component name? props cs => postorderAll cs ++ [component name? props cs]
  | text v => [text v]
  | expression v cs => [expression v cs]
  | doctype n => [doctype n]
  | esm v decls => [esm v decls]
  | comment v => [comment v]
  | raw v => [raw v]

/-- The nodes of several trees in that order, one tree after another. -/
def postorderAll : List Node → List Node
  | [] => []
  | n :: rest => postorder n ++ postorderAll rest

end

theorem postorder_eq (n : Node) : n.postorder = postorderAll (n.children?.getD []) ++ [n] := by
  cases n <;> simp [postorder, postorderAll, children?]

end Node

namespace Descendants

variable {d e : Descendants} {n : Node}

/-- The enumeration hands out the nodes one after another, and then it has ended. -/
inductive Yields : Descendants → List Node → Prop
  | done {d : Descendants} (ended : d.next? = none) : Yields d []
  | more {d e : Descendants} {n : Node} {ns : List Node} (next : d.next? = some (n, e))
      (further : Yields e ns) : Yields d (n :: ns)

/-- Of the nodes that are pending, the first is handed out next, and its children come before the
others. -/
theorem yields (d : Descendants) : d.Yields (Node.preorderAll d.pending) := by
  induction hr : d.remaining using Nat.strongRecOn generalizing d with
  | ind size ih =>
    subst hr
    cases hp : d.pending with
    | nil =>
      refine .done ?_
      rw [next?, hp]
    | cons n rest =>
      have hnext : d.next? = some (n, ⟨n.children?.getD [] ++ rest⟩) := by rw [next?, hp]
      have hrest := ih _ (remaining_of_next? hnext) _ rfl
      rw [Node.preorderAll_append] at hrest
      rw [Node.preorderAll, Node.preorder_eq]
      exact .more hnext hrest

theorem Yields.toList_eq {ns : List Node} (h : d.Yields ns) : d.toList = ns := by
  induction h with
  | done ended =>
    unfold toList
    split
    · rfl
    · next hn => simp [ended] at hn
  | more next _ ih =>
    unfold toList
    split
    · next hn => simp [next] at hn
    · next hn =>
      obtain ⟨rfl, rfl⟩ := Prod.mk.inj (Option.some.inj (next.symm.trans hn))
      rw [ih]

/-- A search comes to the first of the nodes that fits, and to none when the enumeration ends. -/
theorem Yields.find?_eq {ns : List Node} (h : d.Yields ns) (fits : Node → Bool) :
    d.find? fits = ns.find? fits := by
  induction h with
  | done ended =>
    unfold find?
    split
    · rfl
    · next hn => simp [ended] at hn
  | more next _ ih =>
    unfold find?
    split
    · next hn => simp [next] at hn
    · next hn =>
      obtain ⟨rfl, rfl⟩ := Prod.mk.inj (Option.some.inj (next.symm.trans hn))
      rw [ih, List.find?_cons]
      split <;> simp [*]

end Descendants

namespace Node

theorem yields_descendants (n : Node) : n.descendants.Yields n.preorder := by
  have h := n.descendants.yields
  rwa [descendants, preorderAll, preorderAll, List.append_nil] at h

end Node

variable {σ : Type}

namespace Event

/-- The nodes that calls enter, in the order of the calls. -/
def nodesEntered (es : List (Event σ)) : List Node := (es.filter enters).map (·.site.node)

/-- The nodes that calls leave, in the order of the calls. -/
def nodesLeft (es : List (Event σ)) : List Node := (es.filter (!·.enters)).map (·.site.node)

variable {e : Event σ} (es fs : List (Event σ))

@[simp] theorem nodesEntered_append :
    nodesEntered (es ++ fs) = nodesEntered es ++ nodesEntered fs := by
  simp [nodesEntered]

@[simp] theorem nodesLeft_append : nodesLeft (es ++ fs) = nodesLeft es ++ nodesLeft fs := by
  simp [nodesLeft]

theorem nodesEntered_enter (h : e.phase = .enter) :
    nodesEntered (e :: es) = e.site.node :: nodesEntered es := by
  simp [nodesEntered, enters, h]

theorem nodesEntered_leave (h : e.phase = .leave) : nodesEntered (e :: es) = nodesEntered es := by
  simp [nodesEntered, enters, h]

theorem nodesLeft_enter (h : e.phase = .enter) : nodesLeft (e :: es) = nodesLeft es := by
  simp [nodesLeft, enters, h]

theorem nodesLeft_leave (h : e.phase = .leave) :
    nodesLeft (e :: es) = e.site.node :: nodesLeft es := by
  simp [nodesLeft, enters, h]

end Event

/-- The visitor changes nothing: no node is exchanged or removed, and the walk goes below each. -/
structure Visitor.Observes (v : Visitor σ) : Prop where
  node_enter : ∀ s site, (v.enter s site).node = site.node
  kept_enter : ∀ s site, (v.enter s site).removed = false
  entered : ∀ s site, (v.enter s site).skipped = false
  node_leave : ∀ s site, (v.leave s site).node = site.node
  kept_leave : ∀ s site, (v.leave s site).removed = false

theorem Visitor.Observes.nonGrowing {v : Visitor σ} (hv : v.Observes) : v.NonGrowing :=
  fun s site => Nat.le_of_eq (congrArg Node.size (hv.node_enter s site))

namespace Walk

open Event

variable {v : Visitor σ} {s t : σ} {depth : Nat} {before nodes left : List Node}
  {es : List (Event σ)}

/-- The calls for siblings, with a visitor that changes nothing. -/
theorem Calls.of_observes (hv : v.Observes) (h : Calls v s depth before nodes es t left) :
    left = before ++ nodes ∧ nodesEntered es = Node.preorderAll nodes ∧
      nodesLeft es = Node.postorderAll nodes := by
  induction h with
  | none => exact ⟨(List.append_nil _).symm, rfl, rfl⟩
  | passed enter opens _ _ =>
    obtain ⟨hphase, -, hreply⟩ := Visitor.eq_of_entering enter
    simp [Event.opens, Event.enters, hphase, hreply, hv.kept_enter, hv.entered] at opens
  | @visited s depth before n rest e inner u children l es t left enter opens _ leave _ ihInside
      ih =>
    obtain ⟨hphase, hsite, hreply⟩ := Visitor.eq_of_entering enter
    obtain ⟨hphase', hsite', hreply'⟩ := Visitor.eq_of_leaving leave
    have hnode : e.reply.node = n := hreply ▸ hv.node_enter _ _
    rw [Event.children, hnode, List.nil_append] at ihInside
    obtain ⟨hchildren, henter, hleave⟩ := ihInside
    have hsame : e.reply.node.withChildren children = n := by
      rw [hnode, hchildren, Node.withChildren_getD]
    have hkept : l.kept?.toList = [n] := by
      rw [Event.kept?, hreply', hv.kept_leave, if_neg Bool.false_ne_true, hv.node_leave]
      exact congrArg ([·]) hsame
    obtain ⟨hleft, hentered, hends⟩ := ih
    refine ⟨?_, ?_, ?_⟩
    · rw [hleft, hkept, List.append_assoc, List.singleton_append]
    · rw [nodesEntered_enter _ hphase, nodesEntered_append, nodesEntered_leave _ hphase', henter,
        hentered, hsite, Node.preorderAll, Node.preorder_eq]
      rfl
    · rw [nodesLeft_enter _ hphase, nodesLeft_append, nodesLeft_leave _ hphase', hleave, hends,
        hsite', Node.postorderAll, Node.postorder_eq, List.append_assoc, List.singleton_append]
      exact congrArg (_ ++ · :: _) hsame

/-- The enumeration of a tree ends, and hands out the nodes of the recursion in their order; so
counting, searching and picking out elements answer for these. A walk with a visitor that changes
nothing enters the nodes in this order and leaves them in the one where each comes behind those
below it, and the tree is as it was. -/
theorem traversals_agree (hv : v.Observes) (s : σ) (tree : Node) (fits : Node → Bool)
    (tag : String) :
    (tree.descendants.Yields tree.preorder ∧ tree.descendants.toList = tree.preorder) ∧
      tree.nodeCount = tree.size ∧ tree.find? fits = tree.preorder.find? fits ∧
      tree.elementsNamed tag = tree.preorder.filter (Node.isElementNamed tag) ∧
      nodesEntered (calls v hv.nonGrowing s tree) = tree.preorder ∧
      nodesLeft (calls v hv.nonGrowing s tree) = tree.postorder ∧
      (toEnd v hv.nonGrowing s tree).2 = tree := by
  have hyields := tree.yields_descendants
  obtain ⟨kept?, hcalls, hleft⟩ := calls_of_toEnd hv.nonGrowing s tree
  obtain ⟨hkept, hentered, hends⟩ := hcalls.of_observes hv
  refine ⟨⟨hyields, hyields.toList_eq⟩, tree.nodeCount_eq, hyields.find?_eq fits,
    tree.elementsNamed_eq tag, ?_, ?_, ?_⟩
  · rw [hentered, Node.preorderAll, Node.preorderAll, List.append_nil]
  · rw [hends, Node.postorderAll, Node.postorderAll, List.append_nil]
  · have hsome : kept? = some tree := by
      cases kept? with
      | none => cases hkept
      | some n => exact congrArg some (List.cons.inj hkept).1
    rw [hleft, hsome, Option.getD_some]

/-- Remembers what it is called for, and changes nothing. -/
def noting : Visitor (List String) where
  enter s site := ⟨s ++ ["+" ++ site.node.signature], site.node, false, false⟩
  leave s site := ⟨s ++ ["-" ++ site.node.signature], site.node, false, false⟩

theorem noting_observes : noting.Observes :=
  ⟨fun _ _ => rfl, fun _ _ => rfl, fun _ _ => rfl, fun _ _ => rfl, fun _ _ => rfl⟩

/-- The two texts are equal, and each of them is come to. -/
theorem traversals_agree_noting :
    let p : Node := .element "p" {} [.text "a", .text "a"]
    let tree : Node := .root [p, .component none {} [.element "p" {} []]]
    noting.Observes ∧
      (tree.descendants.Yields tree.preorder ∧ tree.descendants.toList = tree.preorder) ∧
      tree.nodeCount = 6 ∧ tree.find? (·.kind == .text) = some (.text "a") ∧
      tree.elementsNamed "p" = [p, .element "p" {} []] ∧
      nodesEntered (calls noting noting_observes.nonGrowing [] tree) = [tree, p, .text "a",
        .text "a", .component none {} [.element "p" {} []], .element "p" {} []] ∧
      nodesLeft (calls noting noting_observes.nonGrowing [] tree) = [.text "a", .text "a", p,
        .element "p" {} [], .component none {} [.element "p" {} []], tree] ∧
      (toEnd noting noting_observes.nonGrowing [] tree).2 = tree :=
  ⟨noting_observes, traversals_agree noting_observes [] _ (·.kind == .text) "p"⟩

end Walk
end SlideDeck
