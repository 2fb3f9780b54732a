import SlideDeck.Pipeline
import SlideDeck.Proofs.Node.Imports
import SlideDeck.Proofs.Slides.Preamble

/-!
Plugins whose slides come from a module. The import that gives the slides their name stands among
the children of the top before the document is cut, and cutting leaves it there; so the slides of
every further application go by the same name and need no other import.
-/
namespace SlideDeck
namespace Plugin

/-- What the plugin imports from the module at the path. -/
def request (p : Plugin) (path : String) : ImportRequest where
  path := path
  item := p.options.importName?.getD p.options.wrapper
  byDefault := p.options.byDefault
  preferred? := some p.options.wrapper

variable {p : Plugin} {path name : String} {tree : Node}

theorem bindWrapper_eq (hpath : p.options.importPath? = some path) (tree : Node) :
    p.bindWrapper tree = (p.request path).add tree := by
  simp only [bindWrapper, hpath]
  rfl

theorem apply_eq (p : Plugin) (tree : Node) :
    p.apply tree = (p.cutter (p.bindWrapper tree).1).cut (p.bindWrapper tree).2 := rfl

/-- A document with children at its top that binds what the plugin imports to a name. -/
structure Binds (p : Plugin) (path name : String) (tree : Node) : Prop where
  container : tree.isContainer = true
  bound : (p.request path).bound? tree = some name

theorem Binds.bindWrapper (hpath : p.options.importPath? = some path) (h : p.Binds path name tree) :
    p.bindWrapper tree = (name, tree) := by
  rw [bindWrapper_eq hpath]
  exact ImportRequest.add_of_bound h.bound

theorem Binds.cut (h : p.Binds path name tree) (c : Cutter) : p.Binds path name (c.cut tree).2 where
  container := c.isContainer_cut h.container
  bound := (c.binding?_cut h.container _ _ _).trans h.bound

theorem Binds.apply (hpath : p.options.importPath? = some path) (h : p.Binds path name tree) :
    p.Binds path name (p.apply tree).2 := by
  rw [apply_eq, h.bindWrapper hpath]
  exact h.cut _

theorem Binds.run (hpath : p.options.importPath? = some path) (h : p.Binds path name tree)
    (times : Nat) :
    p.Binds path name (Pipeline.run (List.replicate times (.apply p)) tree).2 := by
  induction times generalizing tree with
  | zero => exact h
  | succ times ih => exact ih (h.apply hpath)

theorem binds_bindWrapper (hpath : p.options.importPath? = some path)
    (htree : tree.isContainer = true) :
    p.Binds path (p.bindWrapper tree).1 (p.bindWrapper tree).2 := by
  rw [bindWrapper_eq hpath]
  refine ⟨ImportRequest.isContainer_add htree _, ?_⟩
  rw [ImportRequest.bound?_add htree, if_pos rfl]

/-- The first child behind the plugin is the import, when the plugin put it in front. -/
theorem head?_apply (hpath : p.options.importPath? = some path) (htree : tree.isContainer = true)
    (hunbound : (p.request path).bound? tree = none) :
    ((p.apply tree).2.children?.getD []).head? = some (p.request path).statement := by
  obtain ⟨cs, hcs⟩ := Option.isSome_iff_exists.mp htree
  rw [apply_eq, bindWrapper_eq hpath, ImportRequest.add_of_unbound hunbound hcs]
  apply Cutter.head?_cut
  · exact Node.isContainer_of_children? (Node.children?_withChildren_of_isContainer htree _)
  · rw [Node.children?_withChildren_of_isContainer htree]
    rfl
  · rfl

/-- All slides of a plugin that imports them go by one name, and the document behind the plugin
binds what the plugin imports to that name. Either the document bound it before, or the plugin put
an import in front, which is then the first child behind the plugin. The preamble among the children
of the top stays there, the import with it, and no slide has preamble among its children. However
often the plugin is applied again, it finds the name and adds no import. -/
theorem apply_keeps_import (p : Plugin) (hpath : p.options.importPath? = some path)
    (htree : tree.isContainer = true) :
    let request := p.request path
    let name := (p.bindWrapper tree).1
    let bound := (p.bindWrapper tree).2
    let out := (p.apply tree).2
    request.bound? out = some name ∧
      (∀ fresh, bound.elementsNamed fresh = [] →
        let plain := (p.cutter name).plain fresh
        p.apply tree =
            ((plain.cut bound).1, (plain.cut bound).2.retagged fresh name p.options.props) ∧
          ∀ w ∈ (plain.cut bound).2.elementsNamed fresh,
            ∃ nodes, w = plain.wrap nodes ∧ ∀ n ∈ nodes, n.isPreamble = false) ∧
      out.preamble = bound.preamble ∧
      (request.bound? tree = some name ∧ bound = tree ∨
        request.bound? tree = none ∧ name = p.options.wrapper ∧
          bound = tree.withChildren (request.statement :: tree.children?.getD []) ∧
          (out.children?.getD []).head? = some request.statement) ∧
      ∀ times, let again := (Pipeline.run (List.replicate times (.apply p)) out).2
        p.bindWrapper again = (name, again) := by
  intro request name bound out
  have hbinds : p.Binds path name bound := binds_bindWrapper hpath htree
  have hout : p.Binds path name out := hbinds.cut _
  refine ⟨hout.bound, ?_, (p.cutter name).preamble_cut hbinds.container, ?_, ?_⟩
  · intro fresh hfresh plain
    have hlacks := Node.lacks_iff.mpr hfresh
    constructor
    · exact (p.cutter name).cut_of_lacks hlacks
    · intro w hw
      exact Cutter.exists_eq_wrap (c := plain) hlacks hw
  · obtain ⟨cs, hcs⟩ := Option.isSome_iff_exists.mp htree
    have hadd : (name, bound) = request.add tree := bindWrapper_eq hpath tree
    cases hunbound : request.bound? tree with
    | some old =>
      rw [ImportRequest.add_of_bound hunbound, Prod.mk.injEq] at hadd
      exact .inl ⟨congrArg some hadd.1.symm, hadd.2⟩
    | none =>
      rw [ImportRequest.add_of_unbound hunbound hcs, Prod.mk.injEq] at hadd
      rw [hcs]
      exact .inr ⟨rfl, hadd.1, hadd.2, head?_apply hpath htree hunbound⟩
  · intro times again
    exact (hout.run hpath times).bindWrapper hpath

/-- The document imports what the slides are under another name, between its blocks. -/
theorem apply_keeps_import_alias :
    let options : Options :=
      { marker := "hr"
        wrapper := "Slide"
        importPath? := some "./slides"
        importName? := some "Card" }
    let p : Plugin := ⟨options, by decide +kernel⟩
    let hr : Node := .element "hr" ⟨[]⟩ []
    let tree : Node := .root [.text "a", .esm "x" [⟨"./slides", [.namedExport "Card" "C"]⟩], hr,
      .text "b"]
    p.options.importPath? = some "./slides" ∧ tree.isContainer = true ∧
      (p.apply tree).1.slides = 2 ∧ (p.request "./slides").bound? (p.apply tree).2 = some "C" := by
  intro options p hr tree
  have hpath : p.options.importPath? = some "./slides" := rfl
  have htree : tree.isContainer = true := rfl
  exact ⟨hpath, htree, by decide +kernel, (p.apply_keeps_import hpath htree).1⟩

end Plugin
end SlideDeck
