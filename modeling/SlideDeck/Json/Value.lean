import SlideDeck.Keyed
import SlideDeck.Number.Double

/-!
JSON values. Whole numbers and numbers with a fraction or an exponent are kept apart, and the
members of an object keep the order in which they came.
-/
namespace SlideDeck.Json

/-- A number: whole, or a finite double. -/
inductive Number where
  | int (value : Int)
  | double (value : Double)
  deriving DecidableEq, Repr

/-- A JSON value. -/
inductive Value where
  | null
  | bool (value : Bool)
  | number (value : Number)
  | string (value : String)
  | array (items : List Value)
  | object (members : List (String × Value))
  deriving Repr, Inhabited

/-- Equality of numbers: a whole number is never equal to a double, and the two zeros are. -/
def Number.same : Number → Number → Bool
  | .int a, .int b => a == b
  | .double a, .double b => a.same b
  | _, _ => false

namespace Value

def text? : Value → Option String
  | .string s => some s
  | _ => none

mutual

/-- Equality of values: items in order, members of objects in any order. -/
def same : Value → Value → Bool
  | .null, .null => true
  | .bool a, .bool b => a == b
  | .number a, .number b => a.same b
  | .string a, .string b => a == b
  | .array as, .array bs => sameItems as bs
  | .object as, .object bs => as.length == bs.length && sameMembers as bs
  | _, _ => false

/-- The items are equal one by one. -/
def sameItems : List Value → List Value → Bool
  | [], [] => true
  | a :: as, b :: bs => same a b && sameItems as bs
  | _, _ => false

/-- Every member has a counterpart of the same name and an equal value. -/
def sameMembers : List (String × Value) → List (String × Value) → Bool
  | [], _ => true
  | (k, v) :: rest, others =>
    (match Keyed.get? k others with
      | some w => same v w
      | none => false) && sameMembers rest others

end

end Value
end SlideDeck.Json
