import SlideDeck.Node.Basic

/-!
Making an export of a module available to a document. An import at the top of the document that
binds it already is used again; otherwise a declaration is put in front.
-/
namespace SlideDeck.Node

/-- The name that the document binds to an export of a module: to the default one when `byDefault`
is set, and otherwise to the export `item`. Only imports directly below the top count. -/
def binding? (path item : String) (byDefault : Bool) (tree : Node) : Option String :=
  let decls := (tree.children?.getD []).flatMap imports
  (decls.filter (·.source == path)).findSome? (·.nameOf? item byDefault)

/-- The declaration that binds an export to a name. -/
def declaration (path item : String) (byDefault : Bool) (name : String) : Import :=
  if byDefault then .ofDefault path name else .ofNamed path item name

/-- Makes an export available, under the name `preferred?` or else its own unless it has one
already. The result is the name to use, and the document with it bound; a leaf has no room for an
import. -/
def addImport (path item : String) (byDefault : Bool) (preferred? : Option String) (tree : Node) :
    String × Node :=
  match tree.binding? path item byDefault with
  | some name => (name, tree)
  | none =>
    let name := preferred?.getD item
    match tree.children? with
    | none => (name, tree)
    | some cs => (name, tree.withChildren (importing (declaration path item byDefault name) :: cs))

end SlideDeck.Node
