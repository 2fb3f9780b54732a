import SlideDeck.Node.Basic

/-!
Equality of trees as documents. It differs from identity in the values of properties only: members
of objects may stand in any order, and the two zeros are equal.
-/
namespace SlideDeck.Node

mutual

/-- The trees are equal as documents. -/
def same : Node → Node → Bool
  | root as, root bs => sameAll as bs
  | element t p as, element u q bs => t == u && p.same q && sameAll as bs
  | component m p as, component n q bs => m == n && p.same q && sameAll as bs
  | text a, text b => a == b
  | expression a cs, expression b ds => a == b && cs == ds
  | doctype a, doctype b => a == b
  | esm a is, esm b js => a == b && is == js
  | comment a, comment b => a == b
  | raw a, raw b => a == b
  | _, _ => false

def sameAll : List Node → List Node → Bool
  | [], [] => true
  | a :: as, b :: bs => same a b && sameAll as bs
  | _, _ => false

end

end SlideDeck.Node
