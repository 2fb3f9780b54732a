import SlideDeck.Proofs.Node.Basic
import SlideDeck.Walk.Trace

/-!
Walks without a bound. For a visitor that does not enlarge what it enters, the visit of a node is
given here by equations that mention no depth. The record of the calls rides along with a walk and
does not change it.
-/
namespace SlideDeck

namespace Walk

variable {σ : Type} {v : Visitor σ}

theorem visit_mono {reach reach' : Nat} (h : reach ≤ reach') {s : σ} {site : Site}
    {r : σ × Option Node} (hr : visit v reach s site = some r) :
    visit v reach' s site = some r := by
  induction h with
  | refl => exact hr
  | step _ ih => exact visit_succ _ _ _ _ ih

/-- The visit of a node and all below it: the state and the node left in its place, if any. -/
def subtree (v : Visitor σ) (hv : v.NonGrowing) (s : σ) (site : Site) : σ × Option Node :=
  (visit v site.node.size s site).get (visit_isSome hv _ s site (Nat.le_refl _))

/-- The visit of siblings from left to right, between those that were visited before and those
beyond, which are not visited. -/
def siblings (v : Visitor σ) (hv : v.NonGrowing) (depth : Nat) (beyond : List Node) :
    σ → List Node → List Node → σ × List Node
  | s, before, [] => (s, before)
  | s, before, node :: after =>
    let r := subtree v hv s ⟨node, depth, some ⟨before, after ++ beyond⟩⟩
    siblings v hv depth beyond r.1 (before ++ r.2.toList) after

def below (v : Visitor σ) (hv : v.NonGrowing) (s : σ) (site : Site) : σ × List Node :=
  siblings v hv (site.depth + 1) [] (v.enter s site).state []
    ((v.enter s site).node.children?.getD [])

/-- What the visitor sees when it leaves a node that it went below. -/
def leaving (v : Visitor σ) (hv : v.NonGrowing) (s : σ) (site : Site) : Site :=
  { site with node := (v.enter s site).node.withChildren (below v hv s site).2 }

def left (v : Visitor σ) (hv : v.NonGrowing) (s : σ) (site : Site) : Reply σ :=
  v.leave (below v hv s site).1 (leaving v hv s site)

theorem visit_eq_subtree (hv : v.NonGrowing) {reach : Nat} {s : σ} {site : Site}
    (h : site.node.size ≤ reach) : visit v reach s site = some (subtree v hv s site) := by
  apply visit_mono h
  rw [subtree, Option.some_get]

theorem visitAll_eq_siblings (hv : v.NonGrowing) {reach : Nat} (depth : Nat) (nodes : List Node)
    (h : Node.sizeAll nodes ≤ reach) (s : σ) (before : List Node) :
    visitAll (visit v reach) depth s before nodes =
      some (siblings v hv depth [] s before nodes) := by
  induction nodes generalizing s before with
  | nil => rfl
  | cons n rest ih =>
    rw [Node.sizeAll] at h
    rw [visitAll, visit_eq_subtree hv (by simp only; omega)]
    simp only [siblings, List.append_nil]
    exact ih (by omega) _ _

theorem subtree_eq (hv : v.NonGrowing) (s : σ) (site : Site) :
    subtree v hv s site =
      if (v.enter s site).removed then ((v.enter s site).state, none)
      else if (v.enter s site).skipped then ((v.enter s site).state, some (v.enter s site).node)
      else ((left v hv s site).state,
        if (left v hv s site).removed then none else some (left v hv s site).node) := by
  apply Option.some.inj
  rw [← visit_eq_subtree hv (Nat.le_succ site.node.size), visit]
  by_cases hr : (v.enter s site).removed = true
  · rw [if_pos hr, if_pos hr]
  · rw [if_neg hr, if_neg hr]
    by_cases hs : (v.enter s site).skipped = true
    · rw [if_pos hs, if_pos hs]
    · have hsize := hv s site
      rw [Node.size_eq] at hsize
      have hle : Node.sizeAll ((v.enter s site).node.children?.getD []) ≤ site.node.size := by
        omega
      have hall := visitAll_eq_siblings hv (site.depth + 1) _ hle (v.enter s site).state []
      rw [if_neg hs, if_neg hs]
      simp only [hall]
      rfl

theorem toEnd_eq (hv : v.NonGrowing) (s : σ) (tree : Node) :
    toEnd v hv s tree =
      ((subtree v hv s (Site.top tree)).1, (subtree v hv s (Site.top tree)).2.getD (.root [])) := by
  apply Option.some.inj
  have h : visit v tree.size s (Site.top tree) = some (subtree v hv s (Site.top tree)) :=
    visit_eq_subtree hv (Nat.le_refl _)
  rw [toEnd, Option.some_get, within?, h]
  rfl

/-- The record of the calls changes neither the state nor the tree. -/
def Unrecorded (hv : v.NonGrowing) (node : Node) : Prop :=
  ∀ (s : σ) (es : List (Event σ)) (depth : Nat) (place? : Option Place),
    let r := subtree v.traced (Visitor.traced_nonGrowing hv) (s, es) ⟨node, depth, place?⟩
    (r.1.1, r.2) = subtree v hv s ⟨node, depth, place?⟩

theorem siblings_traced_of (hv : v.NonGrowing) {nodes : List Node}
    (h : ∀ n ∈ nodes, Unrecorded hv n) (depth : Nat) (beyond : List Node) (s : σ)
    (es : List (Event σ)) (before : List Node) :
    let r := siblings v.traced (Visitor.traced_nonGrowing hv) depth beyond (s, es) before nodes
    (r.1.1, r.2) = siblings v hv depth beyond s before nodes := by
  induction nodes generalizing s es before with
  | nil => rfl
  | cons n rest ih =>
    have hn := h n List.mem_cons_self s es depth (some ⟨before, rest ++ beyond⟩)
    simp only [siblings, ← hn]
    exact ih (fun m hm => h m (List.mem_cons_of_mem n hm)) _ _ _

theorem unrecorded (hv : v.NonGrowing) (node : Node) : Unrecorded hv node := by
  induction hn : node.size using Nat.strongRecOn generalizing node with
  | ind size ih =>
    subst hn
    intro s es depth place?
    have hbelow : (((below v.traced (Visitor.traced_nonGrowing hv) (s, es)
        ⟨node, depth, place?⟩).1.1, (below v.traced (Visitor.traced_nonGrowing hv) (s, es)
          ⟨node, depth, place?⟩).2) : σ × List Node) = below v hv s ⟨node, depth, place?⟩ :=
      siblings_traced_of hv (fun n hmem =>
        ih n.size (Nat.lt_of_lt_of_le (Node.size_lt_of_mem hmem) (hv s _)) n rfl) _ _ _ _ _
    have hleaving : leaving v.traced (Visitor.traced_nonGrowing hv) (s, es)
        ⟨node, depth, place?⟩ = leaving v hv s ⟨node, depth, place?⟩ := by
      rw [leaving, leaving, ← hbelow]
      rfl
    simp only [subtree_eq]
    by_cases hr : (v.enter s ⟨node, depth, place?⟩).removed = true
    · simp [Visitor.traced, hr]
    · by_cases hs : (v.enter s ⟨node, depth, place?⟩).skipped = true
      · simp [Visitor.traced, hr, hs]
      · rw [if_neg hr, if_neg hs, left, hleaving, left, ← hbelow, if_neg, if_neg]
        · rfl
        · exact hs
        · exact hr

theorem siblings_traced (hv : v.NonGrowing) (depth : Nat) (beyond : List Node) (s : σ)
    (es : List (Event σ)) (before nodes : List Node) :
    let r := siblings v.traced (Visitor.traced_nonGrowing hv) depth beyond (s, es) before nodes
    (r.1.1, r.2) = siblings v hv depth beyond s before nodes :=
  siblings_traced_of hv (fun n _ => unrecorded hv n) depth beyond s es before

theorem toEnd_traced (hv : v.NonGrowing) (s : σ) (tree : Node) :
    let r := toEnd v.traced (Visitor.traced_nonGrowing hv) (s, []) tree
    (r.1.1, r.2) = toEnd v hv s tree := by
  have h := unrecorded hv tree s [] 0 none
  simp only [toEnd_eq, Site.top, ← h]

theorem siblings_append (hv : v.NonGrowing) (depth : Nat) (beyond : List Node) (s : σ)
    (before xs ys : List Node) :
    siblings v hv depth beyond s before (xs ++ ys) =
      siblings v hv depth beyond (siblings v hv depth (ys ++ beyond) s before xs).1
        (siblings v hv depth (ys ++ beyond) s before xs).2 ys := by
  induction xs generalizing s before with
  | nil => rfl
  | cons x xs ih => simp only [List.cons_append, siblings, ih, List.append_assoc]

theorem prefix_siblings (hv : v.NonGrowing) (depth : Nat) (beyond : List Node) (s : σ)
    (before nodes : List Node) : before <+: (siblings v hv depth beyond s before nodes).2 := by
  induction nodes generalizing s before with
  | nil => exact List.prefix_rfl
  | cons n rest ih => exact (List.prefix_append before _).trans (ih _ _)

/-- The state in which the walk comes to the children `todo` of a node, and the children before
them, which were `nodes`. -/
def arrival (v : Visitor σ) (hv : v.NonGrowing) (s : σ) (site : Site) (nodes todo : List Node) :
    σ × List Node :=
  siblings v hv (site.depth + 1) todo (v.enter s site).state [] nodes

def childSite (v : Visitor σ) (hv : v.NonGrowing) (s : σ) (site : Site) (xs : List Node) (n : Node)
    (ys : List Node) : Site :=
  ⟨n, site.depth + 1, some ⟨(arrival v hv s site xs (n :: ys)).2, ys⟩⟩

/-- The walk below a node goes on behind each of its children. -/
theorem below_eq (hv : v.NonGrowing) {s : σ} {site : Site} {xs ys : List Node} {n : Node}
    (children : (v.enter s site).node.children? = some (xs ++ n :: ys)) :
    let r := subtree v hv (arrival v hv s site xs (n :: ys)).1 (childSite v hv s site xs n ys)
    below v hv s site = siblings v hv (site.depth + 1) [] r.1
      ((arrival v hv s site xs (n :: ys)).2 ++ r.2.toList) ys := by
  rw [below, children, Option.getD_some, siblings_append, List.append_nil, siblings,
    List.append_nil]
  rfl

/-- What stands in the place of a child stays there behind it. -/
theorem prefix_below (hv : v.NonGrowing) {s : σ} {site : Site} {xs ys : List Node} {n : Node}
    (children : (v.enter s site).node.children? = some (xs ++ n :: ys)) :
    (arrival v hv s site xs (n :: ys)).2 ++ (subtree v hv (arrival v hv s site xs (n :: ys)).1
      (childSite v hv s site xs n ys)).2.toList <+: (below v hv s site).2 := by
  rw [below_eq hv children]
  exact prefix_siblings hv _ _ _ _ _

/-- What stands behind a walk over siblings is what stood there before, or what the visit of one of
them left, behind what the visits before it left. -/
theorem split_siblings (hv : v.NonGrowing) {depth : Nat} {beyond : List Node} {s : σ}
    {before nodes front back : List Node} {m : Node}
    (h : (siblings v hv depth beyond s before nodes).2 = before ++ front ++ m :: back) :
    ∃ xs n ys, nodes = xs ++ n :: ys ∧
      let a := siblings v hv depth (n :: ys ++ beyond) s before xs
      a.2 = before ++ front ∧
        (subtree v hv a.1 ⟨n, depth, some ⟨a.2, ys ++ beyond⟩⟩).2 = some m := by
  induction nodes generalizing s before front with
  | nil => simp [siblings] at h
  | cons n rest ih =>
    rw [siblings] at h
    generalize hr : subtree v hv s ⟨n, depth, some ⟨before, rest ++ beyond⟩⟩ = r at h
    obtain ⟨s', n'?⟩ := r
    have hlater {front' : List Node} (hfront : before ++ n'?.toList ++ front' = before ++ front)
        (h : (siblings v hv depth beyond s' (before ++ n'?.toList) rest).2 =
          before ++ n'?.toList ++ front' ++ m :: back) :
        ∃ xs k ys, n :: rest = xs ++ k :: ys ∧
          let a := siblings v hv depth (k :: ys ++ beyond) s before xs
          a.2 = before ++ front ∧
            (subtree v hv a.1 ⟨k, depth, some ⟨a.2, ys ++ beyond⟩⟩).2 = some m := by
      obtain ⟨xs, k, ys, rfl, hbefore, hk⟩ := ih h
      refine ⟨n :: xs, k, ys, rfl, ?_⟩
      rw [List.append_assoc] at hr
      rw [siblings, hr]
      exact ⟨hbefore.trans hfront, hk⟩
    cases n'? with
    | none =>
      simp only [Option.toList_none, List.append_nil] at h hlater
      exact hlater rfl h
    | some n' =>
      simp only [Option.toList_some, List.append_assoc, List.singleton_append] at h hlater
      cases front with
      | nil =>
        have hprefix := prefix_siblings hv depth beyond s' (before ++ [n']) rest
        rw [h] at hprefix
        obtain rfl : n' = m := by simpa using hprefix
        refine ⟨[], n, rest, rfl, (List.append_nil _).symm, ?_⟩
        rw [siblings, hr]
      | cons k front =>
        have hprefix := prefix_siblings hv depth beyond s' (before ++ [n']) rest
        rw [h] at hprefix
        obtain rfl : n' = k := by simpa using hprefix
        exact hlater rfl h

/-- What stands among the children of a node at the end is what the visit of one of them left. -/
theorem split_below (hv : v.NonGrowing) {s : σ} {site : Site} {front back : List Node} {m : Node}
    (h : (below v hv s site).2 = front ++ m :: back) :
    ∃ xs n ys, (v.enter s site).node.children? = some (xs ++ n :: ys) ∧
      (arrival v hv s site xs (n :: ys)).2 = front ∧
      (subtree v hv (arrival v hv s site xs (n :: ys)).1 (childSite v hv s site xs n ys)).2 =
        some m := by
  rw [← List.nil_append front] at h
  obtain ⟨xs, n, ys, hchildren, hbefore, hn⟩ := split_siblings hv h
  simp only [List.append_nil, List.nil_append] at hbefore hn
  refine ⟨xs, n, ys, ?_, hbefore, hn⟩
  cases hnode : (v.enter s site).node.children? with
  | none => simp [hnode] at hchildren
  | some children =>
    rw [hnode, Option.getD_some] at hchildren
    rw [hchildren]

theorem mem_below (hv : v.NonGrowing) {s : σ} {site : Site} {m : Node}
    (hm : m ∈ (below v hv s site).2) :
    ∃ xs n ys, (v.enter s site).node.children? = some (xs ++ n :: ys) ∧
      (subtree v hv (arrival v hv s site xs (n :: ys)).1 (childSite v hv s site xs n ys)).2 =
        some m := by
  obtain ⟨front, back, hsplit⟩ := List.append_of_mem hm
  obtain ⟨xs, n, ys, hchildren, -, hn⟩ := split_below hv hsplit
  exact ⟨xs, n, ys, hchildren, hn⟩

/-- The walk over a tree calls `enter` with the state and the site. -/
inductive Comes (v : Visitor σ) (hv : v.NonGrowing) (start : σ) (tree : Node) : σ → Site → Prop
  | top : Comes v hv start tree start (Site.top tree)
  | child {s : σ} {site : Site} {xs ys : List Node} {n : Node}
      (parent : Comes v hv start tree s site)
      (kept : (v.enter s site).removed = false) (entered : (v.enter s site).skipped = false)
      (children : (v.enter s site).node.children? = some (xs ++ n :: ys)) :
      Comes v hv start tree (arrival v hv s site xs (n :: ys)).1 (childSite v hv s site xs n ys)

/-- The walk that comes to a site comes, at it or below it, to another one. -/
inductive Reaches (v : Visitor σ) (hv : v.NonGrowing) (s : σ) (site : Site) : σ → Site → Prop
  | here : Reaches v hv s site s site
  | child {s' : σ} {site' : Site} {xs ys : List Node} {n : Node}
      (parent : Reaches v hv s site s' site')
      (kept : (v.enter s' site').removed = false) (entered : (v.enter s' site').skipped = false)
      (children : (v.enter s' site').node.children? = some (xs ++ n :: ys)) :
      Reaches v hv s site (arrival v hv s' site' xs (n :: ys)).1 (childSite v hv s' site' xs n ys)

theorem Comes.reaches {hv : v.NonGrowing} {start s s' : σ} {tree : Node} {site site' : Site}
    (h : Comes v hv start tree s site) (h' : Reaches v hv s site s' site') :
    Comes v hv start tree s' site' := by
  induction h' with
  | here => exact h
  | child _ kept entered children ih => exact .child ih kept entered children

end Walk
end SlideDeck
