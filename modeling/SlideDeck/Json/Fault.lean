import SlideDeck.Json.Printer

/-!
What can be wrong with a JSON text, or with the value it spells where a certain kind of value is
wanted, and the wording of each.
-/
namespace SlideDeck.Json

/-- What a text spells at a place where something else was wanted. -/
inductive Found where
  | null
  | bool (value : Bool)
  | number (value : Number)
  | string (value : String)
  | sequence
  | map
  deriving DecidableEq, Repr

/-- What a value is called where it is not wanted. -/
def Found.ofValue : Value → Found
  | .null => .null
  | .bool b => .bool b
  | .number n => .number n
  | .string s => .string s
  | .array _ => .sequence
  | .object _ => .map

/-- What is wanted at a place of a text. -/
inductive Wanted where
  | string
  | bool
  | map
  | record (name : String)
  deriving DecidableEq, Repr

/-- The cause for which a text is refused. -/
inductive Fault where
  | endInList
  | endInObject
  | endInString
  | endInValue
  | colonMissing
  | listCommaMissing
  | objectCommaMissing
  | wordMisspelt
  | valueMissing
  | badEscape
  | badNumber
  | numberTooLarge
  | controlInString
  | keyNotString
  | loneSurrogate
  | trailingComma
  | trailingText
  | surrogateUnpaired
  | tooDeep
  | wrongKind (found : Found) (wanted : Wanted)
  | fieldMissing (name : String)
  | fieldRepeated (name : String)
  | fieldsMissing (found : Nat) (record : String) (fields : Nat)
  deriving DecidableEq, Repr

/-- What the fault is about: the grammar, a text that ends too early, or the value spelt. -/
inductive FaultKind where
  | grammar
  | ended
  | content
  deriving DecidableEq, Repr

def Found.describe : Found → String
  | .null => "null"
  | .bool true => "boolean `true`"
  | .bool false => "boolean `false`"
  | .number (.int n) => "integer `" ++ String.ofList (printInt n) ++ "`"
  | .number (.double d) => "floating point `" ++ String.ofList (doubleLayout.write d) ++ "`"
  | .string s => "string " ++ Text.quoted s
  | .sequence => "sequence"
  | .map => "map"

def Wanted.describe : Wanted → String
  | .string => "a string"
  | .bool => "a boolean"
  | .map => "a map"
  | .record name => "struct " ++ name

namespace Fault

def kind : Fault → FaultKind
  | .endInList | .endInObject | .endInString | .endInValue => .ended
  | .wrongKind .. | .fieldMissing .. | .fieldRepeated .. | .fieldsMissing .. => .content
  | _ => .grammar

def message : Fault → String
  | .endInList => "EOF while parsing a list"
  | .endInObject => "EOF while parsing an object"
  | .endInString => "EOF while parsing a string"
  | .endInValue => "EOF while parsing a value"
  | .colonMissing => "expected `:`"
  | .listCommaMissing => "expected `,` or `]`"
  | .objectCommaMissing => "expected `,` or `\x7d`"
  | .wordMisspelt => "expected ident"
  | .valueMissing => "expected value"
  | .badEscape => "invalid escape"
  | .badNumber => "invalid number"
  | .numberTooLarge => "number out of range"
  | .controlInString => "control character (\\u0000-\\u001F) found while parsing a string"
  | .keyNotString => "key must be a string"
  | .loneSurrogate => "lone leading surrogate in hex escape"
  | .trailingComma => "trailing comma"
  | .trailingText => "trailing characters"
  | .surrogateUnpaired => "unexpected end of hex escape"
  | .tooDeep => "recursion limit exceeded"
  | .wrongKind found wanted =>
    "invalid type: " ++ found.describe ++ ", expected " ++ wanted.describe
  | .fieldMissing name => "missing field `" ++ name ++ "`"
  | .fieldRepeated name => "duplicate field `" ++ name ++ "`"
  | .fieldsMissing found record fields =>
    "invalid length " ++ toString found ++ ", expected struct " ++ record ++ " with " ++
      toString fields ++ " elements"

end Fault
end SlideDeck.Json
