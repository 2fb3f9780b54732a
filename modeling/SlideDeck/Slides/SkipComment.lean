import SlideDeck.Slides.SkipMode
import SlideDeck.Text.Blank
import SlideDeck.Text.LowerCase

/-!
The comments that carry directives: a keyword, blanks and the word of a directive, in upper or lower
case and with any blanks around them.
-/
namespace SlideDeck

/-- Recognises the comments of one keyword, which is held trimmed and in lower case. -/
structure SkipComment where
  keyword : List Char
  deriving Repr

namespace SkipComment

/-- The keyword that is used when none is given. -/
def defaultKeyword : String := "splitwrap-skip"

/-- Comments with the given keyword. -/
def ofKeyword (keyword : String) : SkipComment := ⟨Text.lower (Text.trim keyword.toList)⟩

def parse? (skip : SkipComment) (comment : String) : Option Directive :=
  match skip.keyword.isPrefixOf? (Text.lower (Text.trim comment.toList)) with
  | some (c :: rest) =>
    if Text.isBlank c then Directive.ofWord? (String.ofList (Text.trim (c :: rest))) else none
  | _ => none

/-- The first directive among comments. -/
def find? (skip : SkipComment) (comments : List String) : Option Directive :=
  comments.findSome? skip.parse?

end SkipComment
end SlideDeck
