/-!
Skipping: the directives by which an author keeps parts of a document from being cut, and the mode
that they put the walk in.
-/
namespace SlideDeck

/-- A directive in a comment. -/
inductive Directive where
  /-- Cut nothing from here on. -/
  | start
  /-- Cut again. -/
  | stop
  /-- Keep the enclosing node out of all slides. -/
  | outer
  /-- Keep the enclosing node whole. -/
  | inner
  deriving DecidableEq, Repr

/-- The mode of a walk. -/
inductive SkipMode where
  /-- Nothing is skipped. -/
  | stopped
  /-- A region that was started is open. -/
  | start
  /-- The rest of a node that is kept out of all slides. -/
  | outer
  /-- The rest of a node that is kept whole. -/
  | inner
  deriving DecidableEq, Repr

namespace Directive

def word : Directive → String
  | .start => "start"
  | .stop => "stop"
  | .outer => "outer"
  | .inner => "inner"

/-- The directive of a word. -/
def ofWord? (word : String) : Option Directive :=
  if word = "start" then some .start
  else if word = "stop" then some .stop
  else if word = "outer" then some .outer
  else if word = "inner" then some .inner
  else none

/-- The directive takes back what was planned for the enclosing node. -/
def discardsParent : Directive → Bool
  | .outer => true
  | .inner => true
  | _ => false

@[simp] theorem ofWord?_word (d : Directive) : ofWord? d.word = some d := by
  cases d <;> simp [ofWord?, word]

theorem ofWord?_eq_some_iff {w : String} {d : Directive} : ofWord? w = some d ↔ w = d.word := by
  refine ⟨fun h => ?_, fun h => h ▸ ofWord?_word d⟩
  unfold ofWord? at h
  split at h
  · next hw => cases h; exact hw
  split at h
  · next hw => cases h; exact hw
  split at h
  · next hw => cases h; exact hw
  split at h
  · next hw => cases h; exact hw
  · cases h

end Directive

namespace SkipMode

def word : SkipMode → String
  | .stopped => "stopped"
  | .start => "start"
  | .outer => "outer"
  | .inner => "inner"

/-- The mode that a directive leads to, when it fires in this mode. -/
def transition : SkipMode → Directive → Option SkipMode
  | .stopped, .start => some .start
  | .start, .stop => some .stopped
  | .stopped, .outer => some .outer
  | .stopped, .inner => some .inner
  | _, _ => none

/-- The walk goes below no further node. -/
def suppressesDescent : SkipMode → Bool
  | .outer => true
  | .inner => true
  | _ => false

/-- Markers cut. -/
def splits : SkipMode → Bool
  | .stopped => true
  | _ => false

end SkipMode
end SlideDeck
