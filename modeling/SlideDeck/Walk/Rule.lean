import SlideDeck.Node.Edit
import SlideDeck.Walk.Trace

/-!
Visitors given by lists of rules. A rule says at which calls it fires and what it does to the node
there. The rules of a list are tried in order, each on the node as the ones before have left it.
-/
namespace SlideDeck

/-- What a rule does to a node. Removing and skipping take effect when the call returns. -/
inductive Action where
  | remove
  | skip
  | replace (node : Node)
  | extend (suffix : String)
  | setProp (name : String) (value : Json.Value)
  | push (child : Node)
  | clear

/-- A rule: where it fires, how often it may still fire, and what it does. A condition that is not
given is not asked for. -/
structure Rule where
  phase : Phase
  kind? : Option Kind := none
  name? : Option String := none
  signature? : Option String := none
  depth? : Option Nat := none
  index? : Option (Option Nat) := none
  shots? : Option Nat := none
  action : Action

namespace Rule

/-- The condition holds, or none is given. -/
def holds {α : Type} [BEq α] (wanted? : Option α) (found : α) : Bool :=
  wanted?.all (· == found)

/-- The rule fires at a call. -/
def fires (r : Rule) (phase : Phase) (site : Site) : Bool :=
  r.phase == phase && holds r.kind? site.node.kind && r.name?.all site.node.hasName &&
    holds r.signature? site.node.signature && holds r.depth? site.depth &&
    holds r.index? site.index? && r.shots? != some 0

/-- The rule after it has fired once more. -/
def spent (r : Rule) : Rule := { r with shots? := r.shots?.map (· - 1) }

end Rule

/-- What an action makes of an answer. -/
def Action.apply {σ : Type} (reply : Reply σ) : Action → Reply σ
  | .remove => { reply with removed := true }
  | .skip => { reply with skipped := true }
  | .replace node => { reply with node := node }
  | .extend suffix => { reply with node := reply.node.extend suffix }
  | .setProp name value => { reply with node := reply.node.setProp name value }
  | .push child => { reply with node := reply.node.push child }
  | .clear => { reply with node := reply.node.clear }

/-- Tries the rules in order. The state of the answer holds the rules as they are afterwards. -/
def Rule.run (phase : Phase) (site : Site) : List Rule → Reply (List Rule) → Reply (List Rule)
  | [], reply => reply
  | r :: rest, reply =>
    if r.fires phase { site with node := reply.node } then
      let reply := r.action.apply reply
      Rule.run phase site rest { reply with state := reply.state ++ [r.spent] }
    else Rule.run phase site rest { reply with state := reply.state ++ [r] }

/-- The visitor that follows the rules in its state. -/
def Visitor.ofRules : Visitor (List Rule) where
  enter rules site := Rule.run .enter site rules ⟨[], site.node, false, false⟩
  leave rules site := Rule.run .leave site rules ⟨[], site.node, false, false⟩

end SlideDeck
