import SlideDeck.Proofs.Slides.Course

/-!
Documents without markers. Where no node below the top is a marker and `outer` does not fire,
nothing is ever planned. The document stays as it is but for the directives that fire, and becomes
one slide behind its preamble unless a region is still open at the end.
-/
namespace SlideDeck

namespace Cutter

variable {c : Cutter} {n : Node} {s : Course} {l : Level}

/-- The level is where the course is, and nothing was planned or built. -/
structure Unplanned (s : Course) (l : Level) : Prop where
  assembly : l.assembly? = none
  mode : l.mode = s.mode
  done : l.done = s.kept
  slides : l.slides = 0
  notOuter : s.mode ≠ .outer

theorem Unplanned.inside (h : Unplanned s l) : Unplanned s.inside l.inside :=
  ⟨rfl, h.mode, rfl, h.slides, h.notOuter⟩

end Cutter
end SlideDeck
