import SlideDeck.Props
import SlideDeck.Slides.SkipComment
import SlideDeck.Json.Printer

/-!
The options of the plugin: how they are built up, what makes them usable, and how they are written
as an object.
-/
namespace SlideDeck

/-- The options of the plugin. -/
structure Options where
  /-- The name of the markers. -/
  marker : String
  /-- The name of the slides. -/
  wrapper : String
  /-- The properties of every slide. -/
  props : Props := {}
  /-- The keyword of the comments that carry directives. -/
  keyword : String := SkipComment.defaultKeyword
  /-- The module that the slides are imported from, if they have to be imported. -/
  importPath? : Option String := none
  /-- The export that is imported, when it is not called as the slides are. -/
  importName? : Option String := none
  /-- The slides are the default export of their module. -/
  byDefault : Bool := false
  deriving Repr

namespace Options

/-- The members of an options object, in the order in which they are written. -/
inductive Field where
  | splitComponent
  | wrapperComponent
  | wrapperProps
  | skipComment
  | importPath
  | importName
  | defaultImport
  deriving DecidableEq, Repr

def Field.key : Field → String
  | splitComponent => "splitComponent"
  | wrapperComponent => "wrapperComponent"
  | wrapperProps => "wrapperProps"
  | skipComment => "skipComment"
  | importPath => "importPath"
  | importName => "importName"
  | defaultImport => "defaultImport"

def Field.all : List Field :=
  [splitComponent, wrapperComponent, wrapperProps, skipComment, importPath, importName,
    defaultImport]

def Field.ofKey? (key : String) : Option Field := Field.all.find? fun f => f.key == key

/-- What is wrong with the value of an option. -/
inductive Flaw where
  | empty
  | blank
  | emptyWhenSet
  deriving DecidableEq, Repr

def Flaw.reason : Flaw → String
  | .empty => "must not be empty"
  | .blank => "must not be blank"
  | .emptyWhenSet => "must not be empty when set"

/-- The first option, in order, that makes the options unusable. -/
def flaw? (o : Options) : Option (Field × Flaw) :=
  if Text.allBlank o.marker then some (.splitComponent, .empty)
  else if Text.allBlank o.wrapper then some (.wrapperComponent, .empty)
  else if Text.allBlank o.keyword then some (.skipComment, .blank)
  else if o.importPath?.any Text.allBlank then some (.importPath, .emptyWhenSet)
  else if o.importName?.any Text.allBlank then some (.importName, .emptyWhenSet)
  else none

def Usable (o : Options) : Prop := o.flaw? = none

instance (o : Options) : Decidable o.Usable := inferInstanceAs (Decidable (o.flaw? = none))

def withProp (o : Options) (name : String) (value : Json.Value) : Options :=
  { o with props := o.props.set name value }

/-- The value of a member in the options object; none when the member is left out. -/
def value? (o : Options) : Field → Option Json.Value
  | .splitComponent => some (.string o.marker)
  | .wrapperComponent => some (.string o.wrapper)
  | .wrapperProps => if o.props.entries.isEmpty then none else some (.object o.props.toMembers)
  | .skipComment => some (.string o.keyword)
  | .importPath => o.importPath?.map .string
  | .importName => o.importName?.map .string
  | .defaultImport => some (.bool o.byDefault)

/-- The options as an object. -/
def toValue (o : Options) : Json.Value :=
  .object (Field.all.filterMap fun f => (o.value? f).map fun v => (f.key, v))

def toText (o : Options) : String := o.toValue.toText

end Options
end SlideDeck
