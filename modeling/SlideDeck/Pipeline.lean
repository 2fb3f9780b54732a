import SlideDeck.Node.Markup
import SlideDeck.Node.Order
import SlideDeck.Node.Outline
import SlideDeck.Plugin

/-!
Pipelines: a document that is handed from step to step, where each step reports what it left or saw.
-/
namespace SlideDeck

inductive Step where
  /-- Applies a plugin. -/
  | apply (plugin : Plugin)
  /-- Applies a plugin if the condition holds. -/
  | applyIf (condition : Bool) (plugin : Plugin)
  /-- Leaves the document as it is. -/
  | identity
  /-- Counts the nodes. -/
  | tap
  /-- Looks at the outline. -/
  | inspect

/-- What a step reports. -/
inductive Report where
  | markup (text : String)
  | count (nodes : Nat)
  | outline (text : String)
  deriving DecidableEq, Repr

namespace Step

/-- The document behind a step. -/
def transform : Step → Node → Node
  | apply plugin, tree => (plugin.apply tree).2
  | applyIf condition plugin, tree => if condition then (plugin.apply tree).2 else tree
  | _, tree => tree

/-- The report of a step on the document behind it. -/
def report (tree : Node) : Step → Report
  | tap => .count tree.nodeCount
  | inspect => .outline tree.outline
  | _ => .markup (tree.markup false)

end Step

/-- Hands a document through the steps. The result is the reports and the document behind the last
step. -/
def Pipeline.run : List Step → Node → List Report × Node
  | [], tree => ([], tree)
  | step :: rest, tree =>
    let after := step.transform tree
    let (reports, last) := Pipeline.run rest after
    (step.report after :: reports, last)

end SlideDeck
