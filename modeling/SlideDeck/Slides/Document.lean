import SlideDeck.Slides.Cutter

/-!
Cutting a whole document. One that has nothing to cut at becomes a single slide behind its preamble.
-/
namespace SlideDeck

/-- What cutting a document came to. -/
structure Stats where
  /-- The number of slides built. -/
  slides : Nat
  /-- The whole document became one slide. -/
  fellBack : Bool
  /-- The mode at the end of the document. -/
  skipMode : SkipMode
  /-- The document itself was kept out of slides. -/
  rootExcluded : Bool
  deriving DecidableEq, Repr

namespace Cutter

/-- A cutter for markers of that name, with a keyword for its comments. -/
def ofKeyword (marker wrapper : String) (props : Props) (keyword : String) : Cutter :=
  ⟨marker, wrapper, props, SkipComment.ofKeyword keyword⟩

def walk (c : Cutter) (tree : Node) : Progress × Node :=
  Walk.toEnd c.visitor c.visitor_nonGrowing {} tree

/-- The walk found nothing to cut at and was not told to leave the document alone. -/
def needsFallback (p : Progress) : Bool :=
  p.slides == 0 && p.mode == .stopped && !p.rootExcluded

/-- The children with everything but the preamble in one slide. -/
def wrapWhole (c : Cutter) (children : List Node) : List Node :=
  children.filter Node.isPreamble ++ [c.wrap (children.filter (!·.isPreamble))]

def cut (c : Cutter) (tree : Node) : Stats × Node :=
  let (p, tree) := c.walk tree
  let stats : Stats := ⟨p.slides, false, p.mode, p.rootExcluded⟩
  match needsFallback p, tree.children? with
  | true, some children =>
    ({ stats with slides := stats.slides + 1, fellBack := true },
      tree.withChildren (c.wrapWhole children))
  | _, _ => (stats, tree)

end Cutter
end SlideDeck
