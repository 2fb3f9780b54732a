/-!
Import declarations of a module: what they bind, and the statement that spells them.
-/
namespace SlideDeck

/-- One name that an import declaration binds. -/
inductive Specifier where
  /-- The default export, bound to `name`. -/
  | defaultExport (name : String)
  /-- The export `exported`, bound to `name`. -/
  | namedExport (exported name : String)
  /-- All exports together, bound to `name`. -/
  | allExports (name : String)
  deriving DecidableEq, Repr

/-- An import declaration: the module it imports from and the names it binds. -/
structure Import where
  source : String
  specifiers : List Specifier
  deriving DecidableEq, Repr

namespace Specifier

def name : Specifier → String
  | defaultExport n => n
  | namedExport _ n => n
  | allExports n => n

def defaultName? : Specifier → Option String
  | defaultExport n => some n
  | _ => none

def allName? : Specifier → Option String
  | allExports n => some n
  | _ => none

/-- The clause of an export that is imported by name. -/
def namedClause? : Specifier → Option String
  | namedExport e n => some (if e = n then e else e ++ " as " ++ n)
  | _ => none

end Specifier

namespace Import

/-- The declaration that imports the default export. -/
def ofDefault (source name : String) : Import := ⟨source, [.defaultExport name]⟩

/-- The declaration that imports one export by name. -/
def ofNamed (source exported name : String) : Import := ⟨source, [.namedExport exported name]⟩

/-- The clauses of the statement: the default export, all exports, and the named ones in braces. Of
several default names, and of several names for all exports, the last one counts. -/
def clauses (decl : Import) : List String :=
  let default? := (decl.specifiers.filterMap Specifier.defaultName?).getLast?
  let all? := (decl.specifiers.filterMap Specifier.allName?).getLast?
  let named := decl.specifiers.filterMap Specifier.namedClause?
  default?.toList ++ (all?.map ("* as " ++ ·)).toList ++
    (if named.isEmpty then [] else ["\x7b " ++ ", ".intercalate named ++ " \x7d"])

def statement (decl : Import) : String :=
  let origin := "'" ++ decl.source ++ "'"
  if decl.clauses.isEmpty then "import " ++ origin
  else "import " ++ ", ".intercalate decl.clauses ++ " from " ++ origin

/-- The name that the declaration binds to an export: to the default one when `byDefault` is set,
and otherwise to the export `item`. -/
def nameOf? (decl : Import) (item : String) (byDefault : Bool) : Option String :=
  decl.specifiers.findSome? fun
    | .defaultExport n => if byDefault then some n else none
    | .namedExport e n => if !byDefault && e == item then some n else none
    | .allExports _ => none

end Import
end SlideDeck
