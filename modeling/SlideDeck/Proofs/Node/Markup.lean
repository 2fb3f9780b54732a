import SlideDeck.Node.Markup
import SlideDeck.Proofs.Node.Basic
import SlideDeck.Proofs.Text.Delimited

/-!
Trees told apart by their markup. Names of letters and digits, escaped texts and the two ways to end
an element all show where they end, so that elements with texts for properties are found again in
their markup, whatever characters the texts are made of.
-/
namespace SlideDeck
namespace Markup
open Text

theorem escapeTextChar_cases (c : Char) :
    c = '&' ∧ escapeTextChar c = ['&', 'a', 'm', 'p', ';'] ∨
      c = '<' ∧ escapeTextChar c = ['&', 'l', 't', ';'] ∨
      c = '>' ∧ escapeTextChar c = ['&', 'g', 't', ';'] ∨
      c ≠ '&' ∧ c ≠ '<' ∧ escapeTextChar c = [c] := by
  unfold escapeTextChar
  split
  · next h => exact .inl ⟨h, rfl⟩
  · split
    · next h => exact .inr (.inl ⟨h, rfl⟩)
    · split
      · next h => exact .inr (.inr (.inl ⟨h, rfl⟩))
      · exact .inr (.inr (.inr ⟨‹_›, ‹_›, rfl⟩))

theorem escapePropChar_cases (c : Char) :
    c = '"' ∧ escapePropChar c = ['&', 'q', 'u', 'o', 't', ';'] ∨
      c ≠ '"' ∧ escapePropChar c = escapeTextChar c := by
  unfold escapePropChar
  split
  · next h => exact .inl ⟨h, rfl⟩
  · exact .inr ⟨‹_›, rfl⟩

theorem escapeTextChar_append_inj (c d : Char) (xs ys : List Char)
    (h : escapeTextChar c ++ xs = escapeTextChar d ++ ys) : c = d ∧ xs = ys := by
  rcases escapeTextChar_cases c with ⟨rfl, hc⟩ | ⟨rfl, hc⟩ | ⟨rfl, hc⟩ | ⟨hamp, -, hc⟩ <;>
    rcases escapeTextChar_cases d with ⟨rfl, hd⟩ | ⟨rfl, hd⟩ | ⟨rfl, hd⟩ | ⟨hamp', -, hd⟩ <;>
    grind

/-- No character of a text is written as a quote in a property begins. -/
theorem escapeTextChar_append_ne_quot (c : Char) (xs ys : List Char) :
    escapeTextChar c ++ xs ≠ '&' :: 'q' :: ys := by
  rcases escapeTextChar_cases c with ⟨rfl, hc⟩ | ⟨rfl, hc⟩ | ⟨rfl, hc⟩ | ⟨hamp, -, hc⟩ <;> simp_all

theorem escapePropChar_append_inj (c d : Char) (xs ys : List Char)
    (h : escapePropChar c ++ xs = escapePropChar d ++ ys) : c = d ∧ xs = ys := by
  rcases escapePropChar_cases c with ⟨rfl, hc⟩ | ⟨-, hc⟩ <;>
    rcases escapePropChar_cases d with ⟨rfl, hd⟩ | ⟨-, hd⟩
  · exact ⟨rfl, List.append_cancel_left h⟩
  · rw [hc, hd] at h
    exact absurd h.symm (escapeTextChar_append_ne_quot d ys _)
  · rw [hc, hd] at h
    exact absurd h (escapeTextChar_append_ne_quot c xs _)
  · rw [hc, hd] at h
    exact escapeTextChar_append_inj c d xs ys h

theorem escapeTextChar_append_ne_tag (c : Char) (xs ys : List Char) :
    escapeTextChar c ++ xs ≠ '<' :: ys := by
  rcases escapeTextChar_cases c with ⟨rfl, hc⟩ | ⟨rfl, hc⟩ | ⟨rfl, hc⟩ | ⟨-, hlt, hc⟩ <;> simp_all

theorem escapeTextChar_ne_nil (c : Char) : escapeTextChar c ≠ [] := by
  rcases escapeTextChar_cases c with ⟨rfl, hc⟩ | ⟨rfl, hc⟩ | ⟨rfl, hc⟩ | ⟨-, -, hc⟩ <;> simp [hc]

theorem escapePropChar_append_ne_quote (c : Char) (xs ys : List Char) :
    escapePropChar c ++ xs ≠ '"' :: ys := by
  rcases escapePropChar_cases c with ⟨rfl, hc⟩ | ⟨hquote, hc⟩
  · simp [hc]
  · rcases escapeTextChar_cases c with ⟨rfl, hd⟩ | ⟨rfl, hd⟩ | ⟨rfl, hd⟩ | ⟨-, -, hd⟩ <;> simp_all

@[simp] theorem toList_escapeText (s : String) :
    (escapeText s).toList = s.toList.flatMap escapeTextChar := String.toList_ofList

@[simp] theorem toList_escapeProp (s : String) :
    (escapeProp s).toList = s.toList.flatMap escapePropChar := String.toList_ofList

/-- What follows a text is a tag, if anything. -/
def EndsText (rest : List Char) : Prop := ∀ c ∈ rest.head?, c = '<'

/-- A text, and what follows it, are found in what they make up together. -/
theorem escapeText_append_inj {s t : String} {rest rest' : List Char} (hrest : EndsText rest)
    (hrest' : EndsText rest')
    (h : (escapeText s).toList ++ rest = (escapeText t).toList ++ rest') :
    s = t ∧ rest = rest' := by
  have hends {tail : List Char} (htail : EndsText tail) (c : Char) :
      ¬ escapeTextChar c <+: tail := by
    rintro ⟨xs, hxs⟩
    cases tail with
    | nil => exact escapeTextChar_ne_nil c (List.append_eq_nil_iff.mp hxs).1
    | cons d ds =>
      obtain rfl : d = '<' := htail d rfl
      exact escapeTextChar_append_ne_tag c xs ds hxs
  rw [toList_escapeText, toList_escapeText] at h
  obtain ⟨hst, htail⟩ := flatMap_append_inj (fun c _ d _ => escapeTextChar_append_inj c d)
    (fun c _ => hends hrest c) (fun c _ => hends hrest' c) h
  exact ⟨String.toList_inj.mp hst, htail⟩

theorem escapeText_append_ne_tag {s : String} (hs : s ≠ "") (xs ys : List Char) :
    (escapeText s).toList ++ xs ≠ '<' :: ys := by
  have hne : s.toList ≠ [] := fun hnil => hs (String.toList_eq_nil_iff.mp hnil)
  obtain ⟨c, cs, hcs⟩ := List.exists_cons_of_ne_nil hne
  rw [toList_escapeText, hcs, List.flatMap_cons, List.append_assoc]
  exact escapeTextChar_append_ne_tag c _ _

/-- A quoted text, and what follows it, are found in what they make up together. -/
theorem escapeProp_append_inj {s t : String} {xs ys : List Char}
    (h : (escapeProp s).toList ++ '"' :: xs = (escapeProp t).toList ++ '"' :: ys) :
    s = t ∧ xs = ys := by
  rw [toList_escapeProp, toList_escapeProp] at h
  obtain ⟨hst, hends⟩ := flatMap_append_inj (fun c _ d _ => escapePropChar_append_inj c d)
    (fun c _ ⟨tail, htail⟩ => escapePropChar_append_ne_quote c tail xs htail)
    (fun c _ ⟨tail, htail⟩ => escapePropChar_append_ne_quote c tail ys htail) h
  exact ⟨String.toList_inj.mp hst, List.tail_eq_of_cons_eq hends⟩

/-- A name of ASCII letters and digits, which shows its end in markup. -/
def isName (s : String) : Bool := isWord Char.isAlphanum s

/-- A property whose value is a text. -/
def isTextProp : String × Json.Value → Bool
  | (name, .string _) => isName name
  | _ => false

theorem isTextProp_iff {e : String × Json.Value} :
    isTextProp e = true ↔ ∃ name s, e = (name, .string s) ∧ isName name = true := by
  obtain ⟨name, v⟩ := e
  cases v <;> simp [isTextProp]

/-- How a property is written, with the space before it. -/
def spellProp (e : String × Json.Value) : List Char :=
  ' ' :: (e.1.toList ++ '=' :: (propValue e.2).toList)

theorem toList_propList (props : Props) :
    (propList props).toList = props.entries.flatMap spellProp := by
  have hspelled (e : String × Json.Value) :
      (" " ++ e.1 ++ "=" ++ propValue e.2).toList = spellProp e := by simp [spellProp]
  simp only [propList, String.toList_join, List.flatMap_map, hspelled]

theorem spellProp_text (name s : String) :
    spellProp (name, .string s) =
      ' ' :: (name.toList ++ '=' :: '"' :: ((escapeProp s).toList ++ ['"'])) := by
  simp [spellProp, propValue]

/-- A property, and what follows it, are found in what they make up together. -/
theorem spellProp_append_inj {e f : String × Json.Value} (he : isTextProp e = true)
    (hf : isTextProp f = true) (xs ys : List Char) (h : spellProp e ++ xs = spellProp f ++ ys) :
    e = f ∧ xs = ys := by
  obtain ⟨name, s, rfl, hname⟩ := isTextProp_iff.mp he
  obtain ⟨name', s', rfl, hname'⟩ := isTextProp_iff.mp hf
  simp only [spellProp_text, List.cons_append, List.append_assoc, List.nil_append,
    List.cons.injEq, true_and] at h
  obtain ⟨rfl, hvalue⟩ := isWord_append_inj hname hname' (endsWord_cons rfl _)
    (endsWord_cons rfl _) h
  simp only [List.cons.injEq, true_and] at hvalue
  obtain ⟨rfl, htail⟩ := escapeProp_append_inj hvalue
  exact ⟨rfl, htail⟩

/-- What follows the properties of an element: the end of its first tag. -/
def EndsProps (rest : List Char) : Prop := ∃ tail, rest = '>' :: tail ∨ rest = ' ' :: '/' :: tail

theorem endsWord_propList (props : Props) {rest : List Char} (hrest : EndsProps rest) :
    EndsWord Char.isAlphanum ((propList props).toList ++ rest) := by
  rw [toList_propList]
  cases props.entries with
  | nil =>
    obtain ⟨tail, rfl | rfl⟩ := hrest
    · exact endsWord_cons rfl _
    · exact endsWord_cons rfl _
  | cons e es => exact endsWord_cons rfl _

theorem not_prefix_of_endsProps {e : String × Json.Value} (he : isTextProp e = true)
    {rest : List Char} (hrest : EndsProps rest) : ¬ spellProp e <+: rest := by
  obtain ⟨name, s, rfl, hname⟩ := isTextProp_iff.mp he
  rintro ⟨xs, hxs⟩
  rw [spellProp, List.cons_append, List.append_assoc] at hxs
  obtain ⟨tail, rfl | rfl⟩ := hrest
  · exact absurd (List.head_eq_of_cons_eq hxs) (by decide)
  · exact isWord_append_ne hname rfl _ _ (List.tail_eq_of_cons_eq hxs)

/-- Properties, and what follows them, are found in what they make up together. -/
theorem propList_append_inj {es fs : List (String × Json.Value)} (hes : es.all isTextProp = true)
    (hfs : fs.all isTextProp = true) {rest rest' : List Char} (hrest : EndsProps rest)
    (hrest' : EndsProps rest')
    (h : (propList ⟨es⟩).toList ++ rest = (propList ⟨fs⟩).toList ++ rest') :
    es = fs ∧ rest = rest' := by
  rw [List.all_eq_true] at hes hfs
  rw [toList_propList, toList_propList] at h
  exact flatMap_append_inj (fun e he f hf => spellProp_append_inj (hes e he) (hfs f hf))
    (fun f hf => not_prefix_of_endsProps (hfs f hf) hrest)
    (fun e he => not_prefix_of_endsProps (hes e he) hrest') h

end Markup

namespace Node
open Markup Text

def isText (n : Node) : Bool := n.kind == .text

mutual

/-- A text that is not empty, or an element with a name and properties with texts around such nodes,
no two texts among them side by side. -/
def isSimple : Node → Bool
  | element tag props cs => isName tag && props.entries.all isTextProp && areSimple cs
  | text v => v != ""
  | _ => false

def areSimple : List Node → Bool
  | [] => true
  | n :: rest => isSimple n && !(n.isText && rest.head?.any isText) && areSimple rest

end

/-- What follows the properties in the markup of an element. -/
def elementEnd (tag : String) (cs : List Node) : List Char :=
  if cs.isEmpty && voidTags.contains tag then [' ', '/', '>']
  else '>' :: ((markupAll false cs).toList ++ '<' :: '/' :: (tag.toList ++ ['>']))

theorem toList_markup_element (tag : String) (props : Props) (cs : List Node) :
    ((element tag props cs).markup false).toList =
      '<' :: (tag.toList ++ ((propList props).toList ++ elementEnd tag cs)) := by
  rw [markup, elementEnd]
  split
  · simp
  · simp [container]

theorem markup_text (v : String) : (text v).markup false = escapeText v := by
  rw [markup, Bool.false_and, if_neg Bool.false_ne_true]

theorem endsProps_elementEnd (tag : String) (cs : List Node) (rest : List Char) :
    EndsProps (elementEnd tag cs ++ rest) := by
  rw [elementEnd]
  split
  · exact ⟨_, .inr rfl⟩
  · exact ⟨_, .inl rfl⟩

theorem isSimple_iff {n : Node} :
    n.isSimple = true ↔ (∃ v, n = text v ∧ v ≠ "") ∨
      ∃ tag es cs, n = element tag ⟨es⟩ cs ∧ isName tag = true ∧ es.all isTextProp = true ∧
        areSimple cs = true := by
  cases n with
  | element tag props cs =>
    obtain ⟨es⟩ := props
    simp [isSimple, and_assoc]
  | _ => simp [isSimple]

theorem areSimple_cons {n : Node} {rest : List Node} :
    areSimple (n :: rest) = true ↔ n.isSimple = true ∧
      (n.isText = true → rest.head?.any isText = false) ∧ areSimple rest = true := by
  cases h : n.isText <;> simp [areSimple, h, and_assoc]

/-- No simple node is written as a closing tag begins. -/
theorem markup_append_ne_close {n : Node} (h : n.isSimple = true) (xs ys : List Char) :
    (n.markup false).toList ++ xs ≠ '<' :: '/' :: ys := by
  rcases isSimple_iff.mp h with ⟨v, rfl, hv⟩ | ⟨tag, es, cs, rfl, htag, -, -⟩
  · rw [markup_text]
    exact escapeText_append_ne_tag hv xs _
  · rw [toList_markup_element, List.cons_append, List.append_assoc]
    intro heq
    exact isWord_append_ne htag rfl _ _ (List.tail_eq_of_cons_eq heq)

/-- Behind a text among simple nodes there is a tag. -/
theorem endsText_siblings {n : Node} {rest : List Node} (h : areSimple (n :: rest) = true)
    (hn : n.isText = true) (xs : List Char) :
    EndsText ((markupAll false rest).toList ++ '<' :: xs) := by
  obtain ⟨-, hnext, hrest⟩ := areSimple_cons.mp h
  cases rest with
  | nil =>
    rintro c ⟨⟩
    rfl
  | cons m rest =>
    have hm : m.isText = false := hnext hn
    rcases isSimple_iff.mp (areSimple_cons.mp hrest).1 with ⟨v, rfl, -⟩ | ⟨tag, es, cs, rfl, -⟩
    · cases hm
    · rw [markupAll, String.toList_append, toList_markup_element]
      rintro c ⟨⟩
      rfl

/-- The node, and what follows it, are found in what its markup and the rest make up together. -/
def EndsMarked (a : Node) : Prop :=
  ∀ b rest rest', a.isSimple = true → b.isSimple = true → (a.isText = true → EndsText rest) →
    (b.isText = true → EndsText rest') →
    (a.markup false).toList ++ rest = (b.markup false).toList ++ rest' → a = b ∧ rest = rest'

/-- Siblings are found before the closing tag of their parent. -/
theorem markupAll_append_inj {as bs : List Node} {rest rest' : List Char}
    (each : ∀ a ∈ as, a.EndsMarked) (has : areSimple as = true) (hbs : areSimple bs = true)
    (h : (markupAll false as).toList ++ '<' :: '/' :: rest =
      (markupAll false bs).toList ++ '<' :: '/' :: rest') : as = bs ∧ rest = rest' := by
  induction as generalizing bs with
  | nil =>
    cases bs with
    | nil => simpa [markupAll] using h
    | cons b bs =>
      rw [markupAll, markupAll, String.toList_append, List.append_assoc] at h
      exact absurd h.symm (markup_append_ne_close (areSimple_cons.mp hbs).1 _ _)
  | cons a as ih =>
    cases bs with
    | nil =>
      rw [markupAll, markupAll, String.toList_append, List.append_assoc] at h
      exact absurd h (markup_append_ne_close (areSimple_cons.mp has).1 _ _)
    | cons b bs =>
      rw [markupAll, markupAll, String.toList_append, String.toList_append, List.append_assoc,
        List.append_assoc] at h
      obtain ⟨rfl, htail⟩ := each a List.mem_cons_self b _ _ (areSimple_cons.mp has).1
        (areSimple_cons.mp hbs).1 (fun ha => endsText_siblings has ha _)
        (fun hb => endsText_siblings hbs hb _) h
      obtain ⟨rfl, hends⟩ := ih (fun c hc => each c (List.mem_cons_of_mem a hc))
        (areSimple_cons.mp has).2.2 (areSimple_cons.mp hbs).2.2 htail
      exact ⟨rfl, hends⟩

/-- The two ways to end an element are told apart, and in each the children are found. -/
theorem elementEnd_append_inj {tag : String} {as bs : List Node} {rest rest' : List Char}
    (each : ∀ a ∈ as, a.EndsMarked) (has : areSimple as = true) (hbs : areSimple bs = true)
    (h : elementEnd tag as ++ rest = elementEnd tag bs ++ rest') : as = bs ∧ rest = rest' := by
  rw [elementEnd, elementEnd] at h
  split at h
  · next ha =>
    rw [Bool.and_eq_true, List.isEmpty_iff] at ha
    split at h
    · next hb =>
      rw [Bool.and_eq_true, List.isEmpty_iff] at hb
      exact ⟨ha.1.trans hb.1.symm, List.append_cancel_left h⟩
    · simp at h
  · split at h
    · simp at h
    · simp only [List.cons_append, List.append_assoc, List.cons.injEq, true_and] at h
      obtain ⟨rfl, htail⟩ := markupAll_append_inj each has hbs h
      exact ⟨rfl, by simpa using htail⟩

/-- The markup of a simple node shows where it ends: one case for each kind that the two nodes can
be of. -/
theorem endsMarked (a : Node) : a.EndsMarked := by
  induction a using induction_children with
  | step a ih =>
    intro b rest rest' ha hb hrest hrest' h
    rcases isSimple_iff.mp ha with ⟨v, rfl, hv⟩ | ⟨tag, es, cs, rfl, htag, hes, hcs⟩ <;>
      rcases isSimple_iff.mp hb with ⟨w, rfl, hw⟩ | ⟨tag', fs, ds, rfl, htag', hfs, hds⟩
    · rw [markup_text, markup_text] at h
      obtain ⟨rfl, htail⟩ := escapeText_append_inj (hrest rfl) (hrest' rfl) h
      exact ⟨rfl, htail⟩
    · rw [markup_text, toList_markup_element] at h
      exact absurd h (escapeText_append_ne_tag hv _ _)
    · rw [markup_text, toList_markup_element] at h
      exact absurd h.symm (escapeText_append_ne_tag hw _ _)
    · simp only [toList_markup_element, List.cons_append, List.append_assoc, List.cons.injEq,
        true_and] at h
      have hcut := endsProps_elementEnd tag cs rest
      have hcut' := endsProps_elementEnd tag' ds rest'
      obtain ⟨rfl, hprops⟩ := isWord_append_inj htag htag' (endsWord_propList _ hcut)
        (endsWord_propList _ hcut') h
      obtain ⟨rfl, htail⟩ := propList_append_inj hes hfs hcut hcut' hprops
      obtain ⟨rfl, hrests⟩ := elementEnd_append_inj ih hcs hds htail
      exact ⟨rfl, hrests⟩

/-- Markup tells simple trees apart, whatever their texts and properties look like. -/
theorem markup_eq_iff {a b : Node} (ha : a.isSimple = true) (hb : b.isSimple = true) :
    a.markup false = b.markup false ↔ a = b := by
  refine ⟨fun h => ?_, congrArg (markup false)⟩
  have hends : EndsText [] := by
    rintro c ⟨⟩
  have hchars : (a.markup false).toList ++ [] = (b.markup false).toList ++ [] := by rw [h]
  exact (a.endsMarked b [] [] ha hb (fun _ => hends) (fun _ => hends) hchars).1

/-- A text that looks like an element, a property that looks like two, and an element that could be
closed at once and is not. -/
theorem markup_eq_iff_lookalike :
    let a : Node := .element "p" ⟨[("k", .string "1\" m=\"2")]⟩
      [.element "hr" ⟨[]⟩ [], .text "<hr />&lt;"]
    let b : Node := .element "p" ⟨[("k", .string "1"), ("m", .string "2")]⟩
      [.element "hr" ⟨[]⟩ [.text "x"], .element "hr" ⟨[]⟩ [], .text "<"]
    a.isSimple = true ∧ b.isSimple = true ∧ a.markup false ≠ b.markup false := by
  intro a b
  have ha : a.isSimple = true := by decide
  have hb : b.isSimple = true := by decide
  refine ⟨ha, hb, fun h => ?_⟩
  have hab : a = b := (markup_eq_iff ha hb).mp h
  exact absurd (Node.element.inj hab).2.1 (by simp)

end Node
end SlideDeck
