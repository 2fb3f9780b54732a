import SlideDeck.Json.StringBody

/-!
Reading of JSON values from left to right: the first fault that is met is the one reported. Lists
and objects may be nested to a given number of levels.
-/
namespace SlideDeck.Json

/-- The rest of one of the words `null`, `true` and `false`. -/
def expectWord : List Char → List Char → Except Fault (List Char)
  | [], cs => .ok cs
  | _ :: _, [] => .error .endInValue
  | w :: word, c :: cs => if c = w then expectWord word cs else .error .wordMisspelt

def expectColon (cs : List Char) : Except Fault (List Char) :=
  match skipSpace cs with
  | [] => .error .endInObject
  | ':' :: rest => .ok rest
  | _ => .error .colonMissing

/-- The place of the next item of a list, or none when the list is about to be closed. Items but
the first follow a comma. -/
def nextItem (first : Bool) (cs : List Char) : Except Fault (Option (List Char)) :=
  match skipSpace cs with
  | [] => .error .endInList
  | ']' :: _ => .ok none
  | c :: rest =>
    if first then .ok (some (c :: rest))
    else if c = ',' then
      match skipSpace rest with
      | ']' :: _ => .error .trailingComma
      | rest => .ok (some rest)
    else .error .listCommaMissing

/-- The text behind the opening quote of the next member's name, or none when the object is about
to be closed. Members but the first follow a comma. -/
def nextName (first : Bool) (cs : List Char) : Except Fault (Option (List Char)) :=
  match skipSpace cs with
  | [] => .error .endInObject
  | '\x7d' :: _ => .ok none
  | c :: rest =>
    if first then
      if c = '"' then .ok (some rest) else .error .keyNotString
    else if c = ',' then
      match skipSpace rest with
      | [] => .error .endInValue
      | '"' :: rest => .ok (some rest)
      | '\x7d' :: _ => .error .trailingComma
      | _ => .error .keyNotString
    else .error .objectCommaMissing

/-- The text behind the closing bracket that comes next. -/
def closed (cs : List Char) : List Char := (skipSpace cs).drop 1

/-- The items of a list and its closing bracket. The budget bounds the number of items; the length
of the text is always enough. -/
def readItems {α : Type} (item : Reader α) : Nat → Bool → Reader (List α)
  | 0, _, _ => .error .endInList
  | budget + 1, first, cs => do
    match ← nextItem first cs with
    | none => .ok ([], closed cs)
    | some cs =>
      let (v, rest) ← item cs
      let (vs, rest) ← readItems item budget false rest
      .ok (v :: vs, rest)

/-- The members of an object and its closing brace, in their order and with repetitions. The budget
bounds the number of members; the length of the text is always enough. -/
def readMembers {α : Type} (value : Reader α) : Nat → Bool → Reader (List (String × α))
  | 0, _, _ => .error .endInObject
  | budget + 1, first, cs => do
    match ← nextName first cs with
    | none => .ok ([], closed cs)
    | some cs =>
      let (k, rest) ← readString cs
      let (v, rest) ← value (← expectColon rest)
      let (ms, rest) ← readMembers value budget false rest
      .ok ((k, v) :: ms, rest)

/-- A value. Lists and objects may open one another as often as `levels` says. -/
def readValue (levels : Nat) : Reader Value := fun cs =>
  match skipSpace cs with
  | [] => .error .endInValue
  | c :: rest =>
    if c = 'n' then do .ok (.null, ← expectWord ['u', 'l', 'l'] rest)
    else if c = 't' then do .ok (.bool true, ← expectWord ['r', 'u', 'e'] rest)
    else if c = 'f' then do .ok (.bool false, ← expectWord ['a', 'l', 's', 'e'] rest)
    else if c = '-' then do
      let (n, rest) ← readNumber true rest
      .ok (.number n, rest)
    else if c.isDigit then do
      let (n, rest) ← readNumber false (c :: rest)
      .ok (.number n, rest)
    else if c = '"' then do
      let (s, rest) ← readString rest
      .ok (.string s, rest)
    else if c = '[' then
      match levels with
      | 0 => .error .tooDeep
      | levels + 1 => do
        let (items, rest) ← readItems (readValue levels) (rest.length + 1) true rest
        .ok (.array items, rest)
    else if c = '\x7b' then
      match levels with
      | 0 => .error .tooDeep
      | levels + 1 => do
        let (members, rest) ← readMembers (readValue levels) (rest.length + 1) true rest
        .ok (.object (Keyed.merge members), rest)
    else .error .valueMissing

/-- The number of levels to which lists and objects may be nested in a text. -/
def deepest : Nat := 127

/-- A reading that has to use up the whole text, blanks at its end apart. -/
def readWhole {α : Type} (reader : Reader α) (text : String) : Except Fault α := do
  let (a, rest) ← reader text.toList
  match skipSpace rest with
  | [] => .ok a
  | _ => .error .trailingText

/-- The value that a text spells. -/
def Value.ofText (text : String) : Except Fault Value := readWhole (readValue deepest) text

end SlideDeck.Json
