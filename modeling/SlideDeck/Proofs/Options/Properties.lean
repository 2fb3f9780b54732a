import SlideDeck.Proofs.Options.RoundTrip
import SlideDeck.Proofs.Slides.Label

/-!
What written options tell about the properties of slides. Under a name that a bag repeats, looking
it up finds the first value, on the bag and on every slide that is given it, and the object in which
the options are written has the last one.
-/
namespace SlideDeck

/-- The member of an object under a name. -/
def Json.Value.member? (name : String) : Json.Value → Option Json.Value
  | .object members => Keyed.get? name members
  | _ => none

/-- The property of an element or component under a name. -/
def Node.prop? (name : String) : Node → Option Json.Value
  | .element _ props _ => props.get? name
  | .component _ props _ => props.get? name
  | _ => none

namespace Options
open Json

theorem Field.key_inj {f g : Field} : f.key = g.key ↔ f = g := by
  refine ⟨fun h => ?_, congrArg Field.key⟩
  have hkeys := congrArg Field.ofKey? h
  rw [Field.ofKey?_key, Field.ofKey?_key] at hkeys
  exact Option.some.inj hkeys

/-- Among the members of fields, each is found under its key. -/
theorem get?_filterMap_member? (o : Options) (fs : List Field) (f : Field) :
    Keyed.get? f.key (fs.filterMap o.member?) = if f ∈ fs then o.value? f else none := by
  induction fs with
  | nil => rfl
  | cons g fs ih =>
    cases hv : o.value? g with
    | none =>
      have hm : o.member? g = none := by rw [member?, hv, Option.map_none]
      rw [List.filterMap_cons_none hm, ih]
      by_cases h : f = g
      · simp [h, hv]
      · simp [h]
    | some v =>
      have hm : o.member? g = some (g.key, v) := by rw [member?, hv, Option.map_some]
      rw [List.filterMap_cons_some hm, Keyed.get?, ih]
      by_cases h : f = g
      · simp [h, hv]
      · have hkey : ¬ g.key = f.key := fun hk => h (Field.key_inj.mp hk).symm
        simp [h, hkey]

theorem member?_toValue (o : Options) (f : Field) : o.toValue.member? f.key = o.value? f := by
  have hall : f ∈ Field.all := by cases f <;> decide
  have hfound := o.get?_filterMap_member? Field.all f
  rwa [if_pos hall] at hfound

/-- The property that the written options tell under a name. -/
def written? (o : Options) (name : String) : Option Value :=
  (o.toValue.member? Field.wrapperProps.key).bind (Value.member? name)

theorem written?_eq (o : Options) (name : String) :
    o.written? name = Keyed.get? name o.props.toMembers := by
  rw [written?, member?_toValue, value?]
  split
  · next hempty =>
    rw [Props.toMembers, List.isEmpty_iff.mp hempty]
    rfl
  · rfl

/-- A plain slide has the properties of the cutter when it is labelled. -/
theorem prop?_label {c : Cutter} {fresh : String} {w : Node}
    (hw : w.isElementNamed fresh = true) (name : String) :
    (c.label fresh w).prop? name = c.props.get? name := by
  cases w with
  | element tag props cs =>
    obtain rfl : tag = fresh := by simpa [Node.isElementNamed] using hw
    rw [Cutter.label, Node.retagged_element_self, Node.prop?]
  | _ => simp [Node.isElementNamed] at hw

/-- Under every name, a bag and the slides that are given it have the first of its values, and the
object that the bag stands for, and with it the written options, have the last one. A name that is
in the one is in the other, and the two agree on it just when its first and last values are the
same, as they are when no name is repeated. -/
theorem written?_eq_iff (o : Options) (wrapper : String) {tree : Node} {fresh : String}
    (hfresh : tree.elementsNamed fresh = []) :
    let c := Cutter.ofKeyword o.marker wrapper o.props o.keyword
    let plain := ((c.plain fresh).cut tree).2
    (c.cut tree).2 = c.label fresh plain ∧
      ∀ name, let values := Keyed.values name o.props.entries
        o.props.get? name = values.head? ∧
        (∀ w ∈ plain.elementsNamed fresh, (c.label fresh w).prop? name = values.head?) ∧
        Keyed.get? name o.props.toMembers = values.getLast? ∧
        o.written? name = values.getLast? ∧
        (o.written? name).isSome = o.props.has name ∧
        (o.written? name = o.props.get? name ↔ values.head? = values.getLast?) ∧
        (Keyed.Distinct o.props.entries → o.written? name = o.props.get? name) := by
  intro c plain
  refine ⟨congrArg Prod.snd (c.cut_of_lacks (Node.lacks_iff.mpr hfresh)), fun name => ?_⟩
  intro values
  have hbag : o.props.get? name = values.head? := Keyed.get?_eq_head? name o.props.entries
  have hobject : Keyed.get? name o.props.toMembers = values.getLast? :=
    Keyed.get?_merge_eq_getLast? name o.props.entries
  have hwritten : o.written? name = values.getLast? := (o.written?_eq name).trans hobject
  refine ⟨hbag, fun w hw => ?_, hobject, hwritten, ?_, ?_, fun distinct => ?_⟩
  · rw [Node.elementsNamed_eq] at hw
    exact (prop?_label (List.mem_filter.mp hw).2 name).trans hbag
  · rw [Props.has_eq_isSome, hwritten, hbag]
    cases values <;> simp
  · rw [hwritten, hbag, eq_comm]
  · rw [written?_eq, Props.toMembers, Keyed.merge_of_distinct distinct, Props.get?]

/-- A name that is there three times with the same value at its ends. -/
theorem written?_eq_iff_thrice :
    let o : Options :=
      { marker := "hr"
        wrapper := "Slide"
        props := ⟨[("a", .null), ("b", .null), ("a", .bool true), ("a", .null)]⟩ }
    let c := Cutter.ofKeyword o.marker "Slide" o.props o.keyword
    let tree : Node := .root [.text "x", .element "hr" ⟨[]⟩ [], .text "y"]
    tree.elementsNamed "new" = [] ∧ (c.cut tree).1.slides = 2 ∧
      (∀ w ∈ ((c.plain "new").cut tree).2.elementsNamed "new",
        (c.label "new" w).prop? "a" = some .null) ∧
      o.written? "a" = o.props.get? "a" := by
  intro o c tree
  have hfresh : tree.elementsNamed "new" = [] := by
    rw [Node.elementsNamed_eq]
    rfl
  obtain ⟨-, hvalues⟩ := o.written?_eq_iff "Slide" hfresh
  obtain ⟨-, hslides, -, -, -, hagree, -⟩ := hvalues "a"
  exact ⟨hfresh, by decide +kernel, hslides, hagree.mpr rfl⟩

/-- The slides have the first of two values, and the written options tell the second. -/
theorem written?_repeated :
    let o : Options :=
      { marker := "hr"
        wrapper := "Slide"
        props := ⟨[("class", .string "a"), ("class", .string "b")]⟩ }
    o.props.get? "class" = some (.string "a") ∧
      Keyed.get? "class" o.props.toMembers = some (.string "b") ∧
      o.written? "class" = some (.string "b") ∧ ¬ o.written? "class" = o.props.get? "class" := by
  intro o
  have hbag : o.props.get? "class" = some (.string "a") := rfl
  have hwritten : o.written? "class" = some (.string "b") := rfl
  refine ⟨hbag, rfl, hwritten, ?_⟩
  rw [hbag, hwritten]
  simp

end Options
end SlideDeck
