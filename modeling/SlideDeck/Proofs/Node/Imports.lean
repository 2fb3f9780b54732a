import SlideDeck.Node.Binding
import SlideDeck.Proofs.Node.Basic

/-!
Documents that are asked for imports, one after another. Two requests go for the same export when
they have the same key. A statement in front of a document binds its own key and hides no other, so
a name that a request was answered with stays the answer whatever is asked for later, and only the
first request for a key that the document does not bind puts a statement in front.
-/
namespace SlideDeck

/-- A request for an export of a module, under a name if one is preferred to its own. -/
structure ImportRequest where
  path : String
  item : String
  byDefault : Bool := false
  preferred? : Option String := none

namespace ImportRequest

/-- What is asked for: the module with the name of the export, which the default one has not. -/
def key (r : ImportRequest) : String × Option String :=
  (r.path, if r.byDefault then none else some r.item)

/-- The name that the document binds to what is asked for. -/
def bound? (r : ImportRequest) (tree : Node) : Option String :=
  tree.binding? r.path r.item r.byDefault

/-- The name that a new statement binds. -/
def name (r : ImportRequest) : String := r.preferred?.getD r.item

def statement (r : ImportRequest) : Node :=
  .importing (Node.declaration r.path r.item r.byDefault r.name)

def add (r : ImportRequest) (tree : Node) : String × Node :=
  tree.addImport r.path r.item r.byDefault r.preferred?

/-- Makes the requests in order. The result is the names they are answered with and the document
behind the last of them. -/
def addAll : List ImportRequest → Node → List String × Node
  | [], tree => ([], tree)
  | r :: rest, tree =>
    let (name, tree) := r.add tree
    let (names, last) := addAll rest tree
    (name :: names, last)

/-- The requests for what the document does not bind, the first for each key. -/
def unmet (tree : Node) (requests : List ImportRequest) : List ImportRequest :=
  (requests.filter fun r => (r.bound? tree).isNone).eraseDupsBy fun r s => r.key == s.key

variable {r s : ImportRequest} {tree : Node} {cs : List Node} {name : String}

theorem nameOf?_congr (h : r.key = s.key) (decl : Import) :
    decl.nameOf? r.item r.byDefault = decl.nameOf? s.item s.byDefault := by
  obtain ⟨-, hitem⟩ := Prod.mk.inj h
  cases hr : r.byDefault <;> cases hs : s.byDefault <;> rw [hr, hs] at hitem
  · simp only [Bool.false_eq_true, if_false, Option.some.injEq] at hitem
    rw [hitem]
  · cases hitem
  · cases hitem
  · simp [Import.nameOf?]

/-- What a document binds depends on the key alone. -/
theorem bound?_congr (h : r.key = s.key) (tree : Node) : r.bound? tree = s.bound? tree := by
  have hpath : r.path = s.path := congrArg Prod.fst h
  simp only [bound?, Node.binding?, hpath, nameOf?_congr h]

/-- The declaration that a request leads to binds the key of the request and nothing else. -/
theorem nameOf?_declaration (r s : ImportRequest) (hpath : s.path = r.path) :
    (Node.declaration r.path r.item r.byDefault r.name).nameOf? s.item s.byDefault =
      if s.key = r.key then some r.name else none := by
  unfold Node.declaration key
  rw [hpath]
  cases r.byDefault <;> cases s.byDefault
  · by_cases hitem : s.item = r.item
    · simp [Import.nameOf?, Import.ofNamed, hitem]
    · simp [Import.nameOf?, Import.ofNamed, hitem, Ne.symm hitem]
  · simp [Import.nameOf?, Import.ofNamed]
  · simp [Import.nameOf?, Import.ofDefault]
  · simp [Import.nameOf?, Import.ofDefault]

theorem source_declaration (r : ImportRequest) :
    (Node.declaration r.path r.item r.byDefault r.name).source = r.path := by
  unfold Node.declaration
  split <;> rfl

theorem bound?_statement (hcs : tree.children? = some cs) (r s : ImportRequest) :
    s.bound? (tree.withChildren (r.statement :: cs)) =
      if s.key = r.key then some r.name else s.bound? tree := by
  have hcontainer := Node.isContainer_of_children? hcs
  rw [bound?, bound?, Node.binding?, Node.binding?, hcs,
    Node.children?_withChildren_of_isContainer hcontainer, Option.getD_some, Option.getD_some,
    List.flatMap_cons, statement, Node.importing, Node.imports, List.singleton_append,
    List.filter_cons, source_declaration]
  by_cases hpath : s.path = r.path
  · rw [if_pos (beq_iff_eq.mpr hpath.symm), List.findSome?_cons, nameOf?_declaration r s hpath]
    by_cases hkey : s.key = r.key
    · rw [if_pos hkey, if_pos hkey]
    · rw [if_neg hkey, if_neg hkey]
  · have hkey : s.key ≠ r.key := fun h => hpath (congrArg Prod.fst h)
    have hsource : ¬ (r.path == s.path) = true := fun h => hpath (beq_iff_eq.mp h).symm
    rw [if_neg hsource, if_neg hkey]

theorem add_of_bound (h : r.bound? tree = some name) : r.add tree = (name, tree) := by
  have h : tree.binding? r.path r.item r.byDefault = some name := h
  simp only [add, Node.addImport, h]

theorem add_of_unbound (h : r.bound? tree = none) (hcs : tree.children? = some cs) :
    r.add tree = (r.name, tree.withChildren (r.statement :: cs)) := by
  have h : tree.binding? r.path r.item r.byDefault = none := h
  simp only [add, Node.addImport, h, hcs]
  rfl

theorem isContainer_add (htree : tree.isContainer = true) (r : ImportRequest) :
    (r.add tree).2.isContainer = true := by
  obtain ⟨cs, hcs⟩ := Option.isSome_iff_exists.mp htree
  cases h : r.bound? tree with
  | some name => rwa [add_of_bound h]
  | none =>
    rw [add_of_unbound h hcs]
    exact Node.isContainer_of_children? (Node.children?_withChildren_of_isContainer htree _)

/-- A request binds the key it is for to its answer, and changes what no other key is bound to. -/
theorem bound?_add (htree : tree.isContainer = true) (r s : ImportRequest) :
    s.bound? (r.add tree).2 = if s.key = r.key then some (r.add tree).1 else s.bound? tree := by
  obtain ⟨cs, hcs⟩ := Option.isSome_iff_exists.mp htree
  cases h : r.bound? tree with
  | some name =>
    rw [add_of_bound h]
    by_cases hkey : s.key = r.key
    · rw [if_pos hkey, bound?_congr hkey, h]
    · rw [if_neg hkey]
  | none =>
    rw [add_of_unbound h hcs]
    exact bound?_statement hcs r s

theorem bound?_add_of_some (htree : tree.isContainer = true) (r : ImportRequest)
    (h : s.bound? tree = some name) : s.bound? (r.add tree).2 = some name := by
  rw [bound?_add htree]
  by_cases hkey : s.key = r.key
  · rw [if_pos hkey, add_of_bound ((bound?_congr hkey tree).symm.trans h)]
  · rw [if_neg hkey, h]

theorem addAll_cons (r : ImportRequest) (rest : List ImportRequest) (tree : Node) :
    addAll (r :: rest) tree =
      ((r.add tree).1 :: (addAll rest (r.add tree).2).1, (addAll rest (r.add tree).2).2) := rfl

theorem getElem?_addAll (before : List ImportRequest) (r : ImportRequest)
    (after : List ImportRequest) (tree : Node) :
    (addAll (before ++ r :: after) tree).1[before.length]? =
      some (r.add (addAll before tree).2).1 := by
  induction before generalizing tree with
  | nil => rfl
  | cons b before ih => exact ih (b.add tree).2

theorem isContainer_addAll (htree : tree.isContainer = true) (requests : List ImportRequest) :
    (addAll requests tree).2.isContainer = true := by
  induction requests generalizing tree with
  | nil => exact htree
  | cons r rest ih => exact ih (isContainer_add htree r)

/-- What is bound stays bound to the same name. -/
theorem bound?_addAll_of_some (htree : tree.isContainer = true) (h : s.bound? tree = some name)
    (requests : List ImportRequest) : s.bound? (addAll requests tree).2 = some name := by
  induction requests generalizing tree with
  | nil => exact h
  | cons r rest ih => exact ih (isContainer_add htree r) (bound?_add_of_some htree r h)

/-- A key is bound by the document or by a request for it. -/
theorem bound?_addAll_eq_none_iff (htree : tree.isContainer = true)
    (requests : List ImportRequest) (s : ImportRequest) :
    s.bound? (addAll requests tree).2 = none ↔
      s.bound? tree = none ∧ ∀ r ∈ requests, r.key ≠ s.key := by
  induction requests generalizing tree with
  | nil => simp [addAll]
  | cons r rest ih =>
    rw [addAll_cons, ih (isContainer_add htree r), bound?_add htree, List.forall_mem_cons]
    by_cases hkey : s.key = r.key
    · simp [hkey]
    · have hkey' : r.key ≠ s.key := fun h => hkey h.symm
      simp [hkey, hkey']

/-- Behind the last request every key still has the name that its requests were answered with. -/
theorem map_bound?_addAll (htree : tree.isContainer = true) (requests : List ImportRequest) :
    requests.map (·.bound? (addAll requests tree).2) = (addAll requests tree).1.map some := by
  induction requests generalizing tree with
  | nil => rfl
  | cons r rest ih =>
    have hcontainer := isContainer_add htree r
    have hbound : r.bound? (r.add tree).2 = some (r.add tree).1 := by
      rw [bound?_add htree, if_pos rfl]
    rw [addAll_cons, List.map_cons, List.map_cons, ih hcontainer,
      bound?_addAll_of_some hcontainer hbound]

theorem bound?_of_mem_zip (htree : tree.isContainer = true) (requests : List ImportRequest)
    {p : ImportRequest × String} (hp : p ∈ requests.zip (addAll requests tree).1) :
    p.1.bound? (addAll requests tree).2 = some p.2 := by
  obtain ⟨i, hi, rfl⟩ := List.mem_iff_getElem.mp hp
  have hnames := map_bound?_addAll htree requests
  have hat := congrArg (·[i]?) hnames
  rw [List.length_zip] at hi
  simpa [List.getElem?_eq_getElem, show i < requests.length by omega,
    show i < (addAll requests tree).1.length by omega] using hat

theorem unmet_of_bound (h : (r.bound? tree).isNone = false) (rest : List ImportRequest) :
    unmet tree (r :: rest) = unmet tree rest := by
  rw [unmet, List.filter_cons, h, if_neg Bool.false_ne_true]
  rfl

/-- Once the first request for a key is met, so are all others for it. -/
theorem unmet_of_unbound (htree : tree.isContainer = true) (h : r.bound? tree = none)
    (rest : List ImportRequest) : unmet tree (r :: rest) = r :: unmet (r.add tree).2 rest := by
  have hfilter : (rest.filter fun s => (s.bound? (r.add tree).2).isNone) =
      (rest.filter fun s => (s.bound? tree).isNone).filter
        fun s => decide ((s.key == r.key) = false) := by
    rw [List.filter_filter]
    refine List.filter_congr fun s _ => ?_
    rw [bound?_add htree]
    by_cases hkey : s.key = r.key <;> simp [hkey]
  rw [unmet, List.filter_cons, h, Option.isNone_none, if_pos rfl, List.eraseDupsBy_cons, unmet,
    hfilter]

/-- The children stay behind the statements that were put in front of them. -/
theorem addAll_snd (hcs : tree.children? = some cs) (requests : List ImportRequest) :
    (addAll requests tree).2 =
      tree.withChildren ((unmet tree requests).reverse.map statement ++ cs) := by
  induction requests generalizing tree cs with
  | nil => exact (Node.withChildren_self hcs).symm
  | cons r rest ih =>
    have hcontainer := Node.isContainer_of_children? hcs
    rw [addAll_cons]
    cases h : r.bound? tree with
    | some name =>
      rw [add_of_bound h, unmet_of_bound (by rw [h]; rfl)]
      exact ih hcs
    | none =>
      rw [unmet_of_unbound hcontainer h, add_of_unbound h hcs,
        ih (Node.children?_withChildren_of_isContainer hcontainer _),
        Node.withChildren_withChildren, List.reverse_cons, List.map_append, List.append_assoc]
      rfl

/-- In a document that is asked for imports, every key has in the end the name that each request
for it was answered with. The first request for a key that the document did not bind puts its
statement in front, and no other changes the document; so the children stay, in order, behind the
statements that were put in front of them. -/
theorem addAll_binds_once (hcs : tree.children? = some cs) (requests : List ImportRequest) :
    let names := (addAll requests tree).1
    let last := (addAll requests tree).2
    requests.map (·.bound? last) = names.map some ∧
      (∀ p ∈ requests.zip names, ∀ q ∈ requests.zip names, p.1.key = q.1.key → p.2 = q.2) ∧
      (∀ before r after, requests = before ++ r :: after →
        let now := (addAll before tree).2
        names[before.length]? = some (r.add now).1 ∧ (r.add now).2 =
          if r.bound? tree = none ∧ ∀ b ∈ before, b.key ≠ r.key then
            now.withChildren (r.statement :: now.children?.getD [])
          else now) ∧
      last = tree.withChildren ((unmet tree requests).reverse.map statement ++ cs) := by
  intro names last
  have htree := Node.isContainer_of_children? hcs
  refine ⟨map_bound?_addAll htree requests, ?_, ?_, addAll_snd hcs requests⟩
  · intro p hp q hq hkey
    apply Option.some.inj
    rw [← bound?_of_mem_zip htree requests hp, ← bound?_of_mem_zip htree requests hq,
      bound?_congr hkey]
  · rintro before r after rfl now
    obtain ⟨ds, hds⟩ := Option.isSome_iff_exists.mp (isContainer_addAll htree before)
    have hunbound := bound?_addAll_eq_none_iff htree before r
    refine ⟨getElem?_addAll before r after tree, ?_⟩
    cases h : r.bound? now with
    | some name =>
      have hbound := fun hnone => Option.some_ne_none name (h.symm.trans (hunbound.mpr hnone))
      rw [if_neg hbound, add_of_bound h]
    | none => rw [if_pos (hunbound.mp h), add_of_unbound h hds, hds, Option.getD_some]

theorem addAll_binds_once_mixed :
    let cs : List Node := [.esm "x" [⟨"m", [.allExports "M", .namedExport "A" "B"]⟩,
      ⟨"m", [.defaultExport "D"]⟩], .text "a"]
    let requests : List ImportRequest := [⟨"m", "A", false, some "X"⟩, ⟨"m", "C", false, none⟩,
      ⟨"m", "Z", true, none⟩, ⟨"m", "C", false, some "E"⟩, ⟨"n", "C", true, some "N"⟩]
    (Node.root cs).children? = some cs ∧
      (addAll requests (.root cs)).1 = ["B", "C", "D", "C", "N"] ∧
      (addAll requests (.root cs)).2 = .root (.importing (.ofDefault "n" "N") ::
        .importing (.ofNamed "m" "C" "C") :: cs) := by
  intro cs requests
  have hcs : (Node.root cs).children? = some cs := rfl
  exact ⟨hcs, by decide +kernel, (addAll_binds_once hcs requests).2.2.2⟩

end ImportRequest
end SlideDeck
