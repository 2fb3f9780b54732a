import SlideDeck.Walk.Basic

/-!
Keeping a record of the calls that a walk makes, in their order, and writing each as a line of text.
-/
namespace SlideDeck

inductive Phase where
  | enter
  | leave
  deriving DecidableEq, Repr

/-- One call of a visitor: the state it was in, what it saw, and what it answered. -/
structure Event (σ : Type) where
  phase : Phase
  state : σ
  site : Site
  reply : Reply σ

/-- The visitor with a record of its calls behind its own state. -/
def Visitor.traced {σ : Type} (v : Visitor σ) : Visitor (σ × List (Event σ)) where
  enter s site :=
    let r := v.enter s.1 site
    ⟨(r.state, s.2 ++ [⟨.enter, s.1, site, r⟩]), r.node, r.removed, r.skipped⟩
  leave s site :=
    let r := v.leave s.1 site
    ⟨(r.state, s.2 ++ [⟨.leave, s.1, site, r⟩]), r.node, r.removed, r.skipped⟩

theorem Visitor.traced_nonGrowing {σ : Type} {v : Visitor σ} (h : v.NonGrowing) :
    v.traced.NonGrowing := fun s site => h s.1 site

/-- The text by which a node is told from others of its kind. -/
def Node.label : Node → String
  | .root _ => ""
  | .element tag _ _ => tag
  | .component name? _ _ => name?.getD ""
  | .text v => v
  | .expression v _ => v
  | .doctype n => n
  | .esm v _ => v
  | .comment v => v
  | .raw v => v

def Node.signature (node : Node) : String := node.kind.name ++ ":" ++ node.label

def Phase.sign : Phase → String
  | .enter => "+"
  | .leave => "-"

/-- The position of a site: depth, index and number of siblings, and a mark for the top. -/
def Site.position (site : Site) : String :=
  "@" ++ toString site.depth ++
    match site.place? with
    | some place =>
      "[" ++ toString place.index ++ "/" ++ toString (place.around site.node).length ++ "]"
    | none => "[-]!"

def Event.text {σ : Type} (e : Event σ) : String :=
  e.phase.sign ++ e.site.node.signature ++ e.site.position

end SlideDeck
