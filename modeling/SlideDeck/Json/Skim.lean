import SlideDeck.Json.Reader

/-!
Passing over values that nobody wants. Only their grammar is looked at: numbers may be of any size,
surrogates may stand alone and nesting has no limit.
-/
namespace SlideDeck.Json

/-- The text behind what is passed over. -/
abbrev Skimmer := List Char → Except Fault (List Char)

/-- Behind at least one digit. -/
def skimDigits : Skimmer := fun cs =>
  if startsWithDigit cs then .ok (skipDigits cs) else .error .badNumber

/-- The rest of a numeral behind the mark of its exponent. -/
def skimExponent : Skimmer
  | '+' :: rest => skimDigits rest
  | '-' :: rest => skimDigits rest
  | rest => skimDigits rest

/-- The rest of a numeral behind its whole part: fraction and exponent. -/
def skimFraction : Skimmer
  | 'e' :: rest => skimExponent rest
  | 'E' :: rest => skimExponent rest
  | '.' :: rest => do
    match ← skimDigits rest with
    | 'e' :: rest => skimExponent rest
    | 'E' :: rest => skimExponent rest
    | rest => .ok rest
  | rest => .ok rest

def skimNumber : Skimmer
  | [] => .error .badNumber
  | c :: rest =>
    if c = '0' then if startsWithDigit rest then .error .badNumber else skimFraction rest
    else if c.isDigit then skimFraction (skipDigits rest)
    else .error .badNumber

def skimString : Skimmer := fun cs => (readStringBody false cs).map Prod.snd

/-- The items of a list and its closing bracket. -/
def skimItems (value : Skimmer) : Nat → Bool → Skimmer
  | 0, _, _ => .error .endInList
  | budget + 1, first, cs =>
    match skipSpace cs with
    | [] => .error .endInList
    | ']' :: rest => .ok rest
    | c :: rest =>
      if first then do skimItems value budget false (← value (c :: rest))
      else if c = ',' then do skimItems value budget false (← value rest)
      else .error .listCommaMissing

def skimMember (value : Skimmer) : Skimmer := fun cs =>
  match skipSpace cs with
  | [] => .error .endInObject
  | '"' :: rest => do value (← expectColon (← skimString rest))
  | _ => .error .keyNotString

/-- The members of an object and its closing brace. -/
def skimMembers (value : Skimmer) : Nat → Bool → Skimmer
  | 0, _, _ => .error .endInObject
  | budget + 1, first, cs =>
    match skipSpace cs with
    | [] => .error .endInObject
    | '\x7d' :: rest => .ok rest
    | c :: rest =>
      if first then do skimMembers value budget false (← skimMember value (c :: rest))
      else if c = ',' then do skimMembers value budget false (← skimMember value rest)
      else .error .objectCommaMissing

/-- A value whose lists and objects open one another at most `levels` times. -/
def skimNested (levels : Nat) : Skimmer := fun cs =>
  match skipSpace cs with
  | [] => .error .endInValue
  | c :: rest =>
    if c = 'n' then expectWord ['u', 'l', 'l'] rest
    else if c = 't' then expectWord ['r', 'u', 'e'] rest
    else if c = 'f' then expectWord ['a', 'l', 's', 'e'] rest
    else if c = '-' then skimNumber rest
    else if c.isDigit then skimNumber (c :: rest)
    else if c = '"' then skimString rest
    else if c = '[' then
      match levels with
      | 0 => .error .tooDeep
      | levels + 1 => skimItems (skimNested levels) (rest.length + 1) true rest
    else if c = '\x7b' then
      match levels with
      | 0 => .error .tooDeep
      | levels + 1 => skimMembers (skimNested levels) (rest.length + 1) true rest
    else .error .valueMissing

/-- A value of any depth: a text cannot open more levels than it has characters. -/
def skimValue : Skimmer := fun cs => skimNested cs.length cs

end SlideDeck.Json
