import SlideDeck.Node.Binding
import SlideDeck.Options.Load
import SlideDeck.Slides.Document

/-!
The plugin: usable options, applied to documents. When the slides come from a module, the document
imports them first, and the slides take the name that the document gives them.
-/
namespace SlideDeck

/-- Options that can be applied to documents. -/
structure Plugin where
  options : Options
  usable : options.Usable

namespace Plugin

def ofOptions (o : Options) : Except Options.Refusal Plugin :=
  match h : o.flaw? with
  | none => .ok ⟨o, h⟩
  | some (field, flaw) => .error (.invalid field flaw)

/-- The plugin with the options that a text spells. -/
def ofText (text : String) : Except Options.Refusal Plugin := do ofOptions (← Options.ofText text)

/-- The name of the slides in a document, and the document with that name bound. -/
def bindWrapper (p : Plugin) (tree : Node) : String × Node :=
  let o := p.options
  match o.importPath? with
  | none => (o.wrapper, tree)
  | some path => tree.addImport path (o.importName?.getD o.wrapper) o.byDefault (some o.wrapper)

/-- The cutter of a plugin for slides of that name. -/
def cutter (p : Plugin) (wrapper : String) : Cutter :=
  .ofKeyword p.options.marker wrapper p.options.props p.options.keyword

def apply (p : Plugin) (tree : Node) : Stats × Node :=
  let (wrapper, tree) := p.bindWrapper tree
  (p.cutter wrapper).cut tree

def applyAll (p : Plugin) (trees : List Node) : List (Stats × Node) := trees.map p.apply

end Plugin
end SlideDeck
