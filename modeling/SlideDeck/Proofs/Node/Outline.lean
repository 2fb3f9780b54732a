import SlideDeck.Node.Outline
import SlideDeck.Proofs.Node.Basic
import SlideDeck.Proofs.Text.Lines

/-!
The lines of an outline. Every node has its entry, in document order and with its depth, and the
entry is one line unless the node shows a line end: texts, module statements and raw markup are
quoted, while names, code and comments stand in the outline as they are.
-/
namespace SlideDeck
namespace Node
open Text

mutual

/-- The nodes of a tree in document order, each with its depth, the top at the given one. -/
def rowsAt (depth : Nat) : Node → List (Nat × Node)
  | root cs => (depth, root cs) :: rowsAll (depth + 1) cs
  | element tag props cs => (depth, element tag props cs) :: rowsAll (depth + 1) cs
  | component name? props cs => (depth, component name? props cs) :: rowsAll (depth + 1) cs
  | text v => [(depth, text v)]
  | expression v cs => [(depth, expression v cs)]
  | doctype n => [(depth, doctype n)]
  | esm v decls => [(depth, esm v decls)]
  | comment v => [(depth, comment v)]
  | raw v => [(depth, raw v)]

/-- The nodes of several trees whose tops stand at the given depth. -/
def rowsAll (depth : Nat) : List Node → List (Nat × Node)
  | [] => []
  | n :: rest => rowsAt depth n ++ rowsAll depth rest

end

def rows (tree : Node) : List (Nat × Node) := rowsAt 0 tree

theorem rowsAt_eq (depth : Nat) (n : Node) :
    rowsAt depth n = (depth, n) :: rowsAll (depth + 1) (n.children?.getD []) := by
  cases n <;> simp [rowsAt, rowsAll, children?]

theorem outlineAt_eq (depth : Nat) (n : Node) :
    outlineAt depth n = outlineEntry depth n ++ outlineAll (depth + 1) (n.children?.getD []) := by
  cases n <;> simp [outlineAt, outlineAll, children?]

theorem map_snd_rowsAll {depth : Nat} {nodes : List Node}
    (h : ∀ n ∈ nodes, (rowsAt depth n).map Prod.snd = n.preorder) :
    (rowsAll depth nodes).map Prod.snd = preorderAll nodes := by
  induction nodes with
  | nil => rfl
  | cons n rest ih =>
    rw [rowsAll, List.map_append, h n List.mem_cons_self,
      ih fun m hm => h m (List.mem_cons_of_mem n hm), preorderAll]

/-- The rows are the nodes in document order. -/
theorem map_snd_rowsAt (depth : Nat) (n : Node) : (rowsAt depth n).map Prod.snd = n.preorder := by
  induction n using induction_children generalizing depth with
  | step n ih =>
    rw [rowsAt_eq, List.map_cons, map_snd_rowsAll fun m hm => ih m hm (depth + 1), preorder_eq]

/-- The line of a row: the node behind two spaces for each level. -/
def rowLine (row : Nat × Node) : String := indent row.1 ++ row.2.summary

theorem outlineAll_eq_ofLines {depth : Nat} {nodes : List Node}
    (h : ∀ n ∈ nodes, outlineAt depth n = ofLines ((rowsAt depth n).map rowLine)) :
    outlineAll depth nodes = ofLines ((rowsAll depth nodes).map rowLine) := by
  induction nodes with
  | nil => rfl
  | cons n rest ih =>
    rw [outlineAll, h n List.mem_cons_self, ih fun m hm => h m (List.mem_cons_of_mem n hm),
      rowsAll, List.map_append, ofLines_append]

/-- An outline is the text of the lines of its rows. -/
theorem outlineAt_eq_ofLines (depth : Nat) (n : Node) :
    outlineAt depth n = ofLines ((rowsAt depth n).map rowLine) := by
  induction n using induction_children generalizing depth with
  | step n ih =>
    rw [outlineAt_eq, outlineAll_eq_ofLines fun m hm => ih m hm (depth + 1), rowsAt_eq,
      List.map_cons, ofLines_cons]
    rfl

/-- What a node shows of itself as it is: its name, its code or its comment. -/
def unquoted : Node → String
  | element tag _ _ => tag
  | component name? _ _ => name?.getD ""
  | expression v _ => v
  | doctype name => name
  | comment v => v
  | _ => ""

theorem breaks_summary (n : Node) : breaks n.summary = breaks n.unquoted := by
  cases n with
  | root cs => exact (by decide : breaks "root" = breaks "")
  | text v => exact breaks_quoted v
  | esm v decls | raw v =>
    simp only [summary, unquoted, breaks_append, breaks_quoted]
    rfl
  | _ =>
    simp only [summary, unquoted, breaks_append]
    simp [breaks]

/-- All line ends in the line of a row are in what the node shows as it is. -/
theorem breaks_rowLine (row : Nat × Node) : breaks (rowLine row) = breaks row.2.unquoted := by
  have hindent : breaks (indent row.1) = 0 := by
    rw [breaks_eq_zero_iff, indent, String.toList_ofList, List.mem_replicate]
    exact fun h => absurd h.2 (by decide)
  rw [rowLine, breaks_append, hindent, Nat.zero_add, breaks_summary]

theorem breaks_rows (tree : Node) :
    breaks (String.join (tree.rows.map rowLine)) =
      breaks (String.join (tree.preorder.map unquoted)) := by
  rw [← map_snd_rowsAt 0 tree, ← rows, List.map_map]
  exact breaks_join_map_congr fun row _ => breaks_rowLine row

theorem length_rows (tree : Node) : tree.rows.length = tree.nodeCount := by
  rw [nodeCount_eq, ← length_preorder, ← map_snd_rowsAt 0 tree, List.length_map, rows]

/-- An outline is the text of one entry for each node, in document order and behind two spaces for
each level. It has a line for each node, and another for each line end in a name, in code or in a
comment; so the entries are its lines, and there are as many as nodes, just when there is none. -/
theorem lines_outline_iff (tree : Node) :
    tree.outline = ofLines (tree.rows.map rowLine) ∧
      tree.rows.map Prod.snd = tree.preorder ∧
      (lines tree.outline).length =
        tree.nodeCount + breaks (String.join (tree.preorder.map unquoted)) ∧
      (lines tree.outline = tree.rows.map rowLine ↔ ∀ n ∈ tree.preorder, breaks n.unquoted = 0) ∧
      ((lines tree.outline).length = tree.nodeCount ↔
        ∀ n ∈ tree.preorder, breaks n.unquoted = 0) := by
  have houtline : tree.outline = ofLines (tree.rows.map rowLine) := outlineAt_eq_ofLines 0 tree
  have hrows : tree.rows.map Prod.snd = tree.preorder := map_snd_rowsAt 0 tree
  have hlength : (lines tree.outline).length =
      tree.nodeCount + breaks (String.join (tree.preorder.map unquoted)) := by
    rw [length_lines, houtline, breaks_ofLines, List.length_map, length_rows, breaks_rows]
  refine ⟨houtline, hrows, hlength, ?_, ?_⟩
  · rw [houtline, lines_ofLines_iff, List.forall_mem_map, ← hrows, List.forall_mem_map]
    exact forall₂_congr fun row _ => by rw [breaks_rowLine]
  · rw [hlength, Nat.add_eq_left, breaks_join_eq_zero_iff, List.forall_mem_map]

/-- Line ends in texts, in module statements and in raw markup are spelled, and break no line. -/
theorem lines_outline_iff_quoted :
    let tree : Node := .root [.element "section" ⟨[]⟩ [.text "a\nb"], .esm "import x\n" [],
      .component none ⟨[]⟩ [.raw "\n"]]
    (∀ n ∈ tree.preorder, breaks n.unquoted = 0) ∧
      lines tree.outline = tree.rows.map rowLine ∧
      (lines tree.outline).length = tree.nodeCount ∧ tree.nodeCount = 6 := by
  intro tree
  have hunbroken : ∀ n ∈ tree.preorder, breaks n.unquoted = 0 := by decide
  obtain ⟨-, -, -, hlines, hlength⟩ := lines_outline_iff tree
  refine ⟨hunbroken, hlines.mpr hunbroken, hlength.mpr hunbroken, ?_⟩
  rw [nodeCount_eq]
  rfl

/-- Code of two lines takes two lines of the outline, the second one without its depth. -/
theorem outline_broken :
    let tree : Node := .root [.expression "a\nb" []]
    tree.outline = "root\n  \x7ba\nb\x7d\n" ∧ tree.nodeCount = 2 ∧
      lines tree.outline = ["root", "  \x7ba", "b\x7d"] ∧
      ¬ (lines tree.outline).length = tree.nodeCount := by
  intro tree
  have hcount : tree.nodeCount = 2 := by
    rw [nodeCount_eq]
    rfl
  rw [hcount]
  exact ⟨by decide, rfl, by decide, by decide⟩

end Node
end SlideDeck
