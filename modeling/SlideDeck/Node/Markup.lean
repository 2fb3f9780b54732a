import SlideDeck.Json.Printer
import SlideDeck.Node.Basic

/-!
The markup of a tree on one line. Texts and property texts are escaped; code, comments and raw
markup stand as they are.
-/
namespace SlideDeck

namespace Markup

/-- How a character of a text is written. -/
def escapeTextChar (c : Char) : List Char :=
  if c = '&' then ['&', 'a', 'm', 'p', ';']
  else if c = '<' then ['&', 'l', 't', ';']
  else if c = '>' then ['&', 'g', 't', ';']
  else [c]

/-- How a character of a property text is written. -/
def escapePropChar (c : Char) : List Char :=
  if c = '"' then ['&', 'q', 'u', 'o', 't', ';'] else escapeTextChar c

def escapeText (s : String) : String := String.ofList (s.toList.flatMap escapeTextChar)

def escapeProp (s : String) : String := String.ofList (s.toList.flatMap escapePropChar)

/-- The tags of elements that are closed at once when they are empty. -/
def voidTags : List String :=
  ["area", "base", "br", "col", "embed", "hr", "img", "input", "link", "meta", "source", "track",
    "wbr"]

/-- The markup of a property value: a string in quotes, any other value in braces. -/
def propValue : Json.Value → String
  | .string s => "\"" ++ escapeProp s ++ "\""
  | value => "\x7b" ++ value.toText ++ "\x7d"

/-- The markup of properties, each with a space before it. -/
def propList (props : Props) : String :=
  String.join (props.entries.map fun (name, value) => " " ++ name ++ "=" ++ propValue value)

/-- The markup of a named container around the markup of its children. -/
def container (name : String) (props : Props) (inside : String) : String :=
  "<" ++ name ++ propList props ++ ">" ++ inside ++ "</" ++ name ++ ">"

end Markup

namespace Node
open Markup

mutual

/-- The markup of a tree. When `minify` is set, texts of blanks only are left out. -/
def markup (minify : Bool) : Node → String
  | root cs => markupAll minify cs
  | element tag props cs =>
    if cs.isEmpty && voidTags.contains tag then "<" ++ tag ++ propList props ++ " />"
    else container tag props (markupAll minify cs)
  | component name? props cs => container (name?.getD "") props (markupAll minify cs)
  | text value => if minify && Text.allBlank value then "" else escapeText value
  | expression value _ => "\x7b" ++ value ++ "\x7d"
  | doctype name => "<!doctype " ++ name ++ ">"
  | esm value _ => value ++ "\n"
  | comment value => "<!--" ++ value ++ "-->"
  | raw value => value

def markupAll (minify : Bool) : List Node → String
  | [] => ""
  | n :: rest => markup minify n ++ markupAll minify rest

end

end Node
end SlideDeck
