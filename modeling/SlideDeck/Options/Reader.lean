import SlideDeck.Json.Skim
import SlideDeck.Options.Basic

/-!
Reading options from a text: an object with the known members in any order, or a list of their
values in the order of the members. Members that are not known are passed over. The first fault met
from left to right is reported; members that are missing are noticed at the end.
-/
namespace SlideDeck.Options
open Json

/-- The name under which the options go in the wording of faults. -/
def recordName : String := "SplitWrapOptions"

/-- The options read so far. -/
structure Draft where
  marker? : Option String := none
  wrapper? : Option String := none
  props? : Option Props := none
  keyword? : Option String := none
  importPath? : Option (Option String) := none
  importName? : Option (Option String) := none
  byDefault? : Option Bool := none

/-- The fault of a value that is not of the kind that is wanted. Words, numbers and strings are read
to their end first, and their own faults are reported before. -/
def refuse (wanted : Wanted) (cs : List Char) : Fault :=
  match skipSpace cs with
  | '[' :: _ => .wrongKind .sequence wanted
  | '\x7b' :: _ => .wrongKind .map wanted
  | cs =>
    match readValue 0 cs with
    | .ok (v, _) => .wrongKind (.ofValue v) wanted
    | .error fault => fault

def readText : Reader String := fun cs =>
  match skipSpace cs with
  | '"' :: rest => readString rest
  | _ => .error (refuse .string cs)

/-- A string, or `null` for none. -/
def readOptionalText : Reader (Option String) := fun cs =>
  match skipSpace cs with
  | 'n' :: rest => do .ok (none, ← expectWord ['u', 'l', 'l'] rest)
  | _ => do
    let (s, rest) ← readText cs
    .ok (some s, rest)

def readBool : Reader Bool := fun cs =>
  match skipSpace cs with
  | 't' :: rest => do .ok (true, ← expectWord ['r', 'u', 'e'] rest)
  | 'f' :: rest => do .ok (false, ← expectWord ['a', 'l', 's', 'e'] rest)
  | _ => .error (refuse .bool cs)

/-- The properties of the slides: an object inside of the options. -/
def readProps : Reader Props := fun cs =>
  match skipSpace cs with
  | '\x7b' :: rest => do
    let (members, rest) ← readMembers (readValue (deepest - 2)) (rest.length + 1) true rest
    .ok (.ofMembers (Keyed.merge members), rest)
  | _ => .error (refuse .map cs)

namespace Draft

def has (d : Draft) : Field → Bool
  | .splitComponent => d.marker?.isSome
  | .wrapperComponent => d.wrapper?.isSome
  | .wrapperProps => d.props?.isSome
  | .skipComment => d.keyword?.isSome
  | .importPath => d.importPath?.isSome
  | .importName => d.importName?.isSome
  | .defaultImport => d.byDefault?.isSome

def readField (d : Draft) (f : Field) : Reader Draft := fun cs =>
  match f with
  | .splitComponent => do
    let (s, rest) ← readText cs
    .ok ({ d with marker? := some s }, rest)
  | .wrapperComponent => do
    let (s, rest) ← readText cs
    .ok ({ d with wrapper? := some s }, rest)
  | .wrapperProps => do
    let (props, rest) ← readProps cs
    .ok ({ d with props? := some props }, rest)
  | .skipComment => do
    let (s, rest) ← readText cs
    .ok ({ d with keyword? := some s }, rest)
  | .importPath => do
    let (s?, rest) ← readOptionalText cs
    .ok ({ d with importPath? := some s? }, rest)
  | .importName => do
    let (s?, rest) ← readOptionalText cs
    .ok ({ d with importName? := some s? }, rest)
  | .defaultImport => do
    let (b, rest) ← readBool cs
    .ok ({ d with byDefault? := some b }, rest)

/-- The options of a draft: members that are not there take their defaults, and the first two have
to be there. -/
def finish (d : Draft) : Except Fault Options :=
  match d.marker?, d.wrapper? with
  | none, _ => .error (.fieldMissing Field.splitComponent.key)
  | _, none => .error (.fieldMissing Field.wrapperComponent.key)
  | some marker, some wrapper =>
    .ok {
      marker := marker
      wrapper := wrapper
      props := d.props?.getD {}
      keyword := d.keyword?.getD SkipComment.defaultKeyword
      importPath? := d.importPath?.join
      importName? := d.importName?.join
      byDefault := d.byDefault?.getD false }

/-- One member of the object, from behind the opening quote of its name. -/
def readMember (d : Draft) : Reader Draft := fun cs => do
  let (key, rest) ← readString cs
  match Field.ofKey? key with
  | none => do .ok (d, ← skimValue (← expectColon rest))
  | some f =>
    if d.has f then .error (.fieldRepeated key) else d.readField f (← expectColon rest)

/-- The members of the object and its closing brace. -/
def readMembers : Nat → Bool → Draft → Reader Draft
  | 0, _, _, _ => .error .endInObject
  | budget + 1, first, d, cs => do
    match ← nextName first cs with
    | none => .ok (d, closed cs)
    | some cs =>
      let (d, rest) ← d.readMember cs
      readMembers budget false d rest

end Draft

/-- The end of a list behind the last value that is wanted. -/
def closeList (cs : List Char) : Except Fault (List Char) :=
  match skipSpace cs with
  | [] => .error .endInList
  | ']' :: rest => .ok rest
  | ',' :: rest => if (skipSpace rest).head? = some ']' then .error .trailingComma
    else .error .trailingText
  | _ => .error .trailingText

/-- The values of the given members in their order and the closing bracket; `count` values were read
before. The first two cannot be left out. -/
def readPositions : List Field → Nat → Draft → Reader Draft
  | [], _, d, cs => do .ok (d, ← closeList cs)
  | f :: fields, count, d, cs => do
    match ← nextItem (count == 0) cs with
    | none =>
      if f == .splitComponent || f == .wrapperComponent then
        .error (.fieldsMissing count recordName Field.all.length)
      else .ok (d, closed cs)
    | some cs =>
      let (d, rest) ← d.readField f cs
      readPositions fields (count + 1) d rest

/-- Options as an object or a list. -/
def read : Reader Options := fun cs =>
  match skipSpace cs with
  | '[' :: rest => do
    let (d, rest) ← readPositions Field.all 0 {} rest
    .ok (← d.finish, rest)
  | '\x7b' :: rest => do
    let (d, rest) ← Draft.readMembers (rest.length + 1) true {} rest
    .ok (← d.finish, rest)
  | _ => .error (refuse (.record recordName) cs)

end SlideDeck.Options
