import SlideDeck.Options.Reader

/-!
Loading options: a text that spells options has to spell usable ones.
-/
namespace SlideDeck.Options

/-- Why options are refused. -/
inductive Refusal where
  /-- The text does not spell options. -/
  | unreadable (fault : Json.Fault)
  /-- An option has a value that makes the options unusable. -/
  | invalid (field : Field) (flaw : Flaw)
  deriving DecidableEq, Repr

def Refusal.message : Refusal → String
  | .unreadable fault => "invalid options json: " ++ fault.message
  | .invalid field flaw => "invalid option `" ++ field.key ++ "`: " ++ flaw.reason

/-- Refuses options that are not usable. -/
def validate (o : Options) : Except Refusal Unit :=
  match o.flaw? with
  | none => .ok ()
  | some (field, flaw) => .error (.invalid field flaw)

/-- The options that a text spells, when they are usable. -/
def ofText (text : String) : Except Refusal Options :=
  match Json.readWhole read text with
  | .error fault => .error (.unreadable fault)
  | .ok o => o.validate.map fun _ => o

theorem validate_eq_ok_iff {o : Options} : o.validate = .ok () ↔ o.Usable := by
  unfold validate Usable
  cases h : o.flaw? <;> simp

end SlideDeck.Options
