/-!
Texts whose end can be seen. What is written piece by piece, where no piece is written as the
beginning of another, can be told from what follows it as long as that does not begin as one of the
pieces is written.
-/
namespace SlideDeck.Text

variable {rest rest' : List Char}

/-- The pieces, and what follows them, are found in what they make up together. -/
theorem flatMap_append_inj {α : Type} {spell : α → List Char} {as bs : List α}
    (free : ∀ a ∈ as, ∀ b ∈ bs, ∀ xs ys, spell a ++ xs = spell b ++ ys → a = b ∧ xs = ys)
    (hrest : ∀ b ∈ bs, ¬ spell b <+: rest) (hrest' : ∀ a ∈ as, ¬ spell a <+: rest')
    (h : as.flatMap spell ++ rest = bs.flatMap spell ++ rest') : as = bs ∧ rest = rest' := by
  induction as generalizing bs with
  | nil =>
    cases bs with
    | nil => exact ⟨rfl, h⟩
    | cons b bs =>
      rw [List.flatMap_nil, List.nil_append, List.flatMap_cons, List.append_assoc] at h
      exact absurd ⟨_, h.symm⟩ (hrest b List.mem_cons_self)
  | cons a as ih =>
    cases bs with
    | nil =>
      rw [List.flatMap_nil, List.nil_append, List.flatMap_cons, List.append_assoc] at h
      exact absurd ⟨_, h⟩ (hrest' a List.mem_cons_self)
    | cons b bs =>
      rw [List.flatMap_cons, List.flatMap_cons, List.append_assoc, List.append_assoc] at h
      obtain ⟨rfl, htail⟩ := free a List.mem_cons_self b List.mem_cons_self _ _ h
      obtain ⟨rfl, hends⟩ := ih
        (fun c hc d hd => free c (List.mem_cons_of_mem a hc) d (List.mem_cons_of_mem a hd))
        (fun c hc => hrest c (List.mem_cons_of_mem a hc))
        (fun c hc => hrest' c (List.mem_cons_of_mem a hc)) htail
      exact ⟨rfl, hends⟩

/-- Pieces with a separator between them, and what follows them, are found in what they make up
together. Only before what may stand behind a piece, the separator among it, need a piece be told
from another. -/
theorem intercalate_append_inj {α : Type} {spell : α → List Char} {sep : List Char}
    {Behind : List Char → Prop} (hsep : ∀ xs, Behind (sep ++ xs)) {as bs : List α}
    (free : ∀ a ∈ as, ∀ b ∈ bs, ∀ xs ys, Behind xs → Behind ys → spell a ++ xs = spell b ++ ys →
      a = b ∧ xs = ys)
    (has : as ≠ []) (hbs : bs ≠ []) (hrest : Behind rest) (hrest' : Behind rest')
    (hlast : ¬ sep <+: rest) (hlast' : ¬ sep <+: rest')
    (h : sep.intercalate (as.map spell) ++ rest = sep.intercalate (bs.map spell) ++ rest') :
    as = bs ∧ rest = rest' := by
  induction as generalizing bs with
  | nil => exact absurd rfl has
  | cons a as ih =>
    cases bs with
    | nil => exact absurd rfl hbs
    | cons b bs =>
      have hab := free a List.mem_cons_self b List.mem_cons_self
      cases as with
      | nil =>
        cases bs with
        | nil =>
          simp only [List.map_cons, List.map_nil, List.intercalate_singleton] at h
          obtain ⟨rfl, hends⟩ := hab _ _ hrest hrest' h
          exact ⟨rfl, hends⟩
        | cons b' bs =>
          simp only [List.map_cons, List.map_nil, List.intercalate_singleton,
            List.intercalate_cons_cons, List.append_assoc] at h
          obtain ⟨-, hends⟩ := hab _ _ hrest (hsep _) h
          exact absurd ⟨_, hends.symm⟩ hlast
      | cons a' as =>
        cases bs with
        | nil =>
          simp only [List.map_cons, List.map_nil, List.intercalate_singleton,
            List.intercalate_cons_cons, List.append_assoc] at h
          obtain ⟨-, hends⟩ := hab _ _ (hsep _) hrest' h
          exact absurd ⟨_, hends⟩ hlast'
        | cons b' bs =>
          rw [List.map_cons, List.map_cons, List.map_cons, List.map_cons,
            List.intercalate_cons_cons, List.intercalate_cons_cons, List.append_assoc,
            List.append_assoc, List.append_assoc, List.append_assoc] at h
          obtain ⟨rfl, htail⟩ := hab _ _ (hsep _) (hsep _) h
          obtain ⟨htails, hends⟩ := ih
            (fun c hc d hd => free c (List.mem_cons_of_mem a hc) d (List.mem_cons_of_mem a hd))
            (List.cons_ne_nil _ _) (List.cons_ne_nil _ _) (List.append_cancel_left htail)
          exact ⟨congrArg (a :: ·) htails, hends⟩

variable {letter : Char → Bool}

/-- A name made of letters of some kind. -/
def isWord (letter : Char → Bool) (s : String) : Bool := !s.toList.isEmpty && s.toList.all letter

/-- The text does not go on with such a letter. -/
def EndsWord (letter : Char → Bool) (rest : List Char) : Prop :=
  ∀ c ∈ rest.head?, letter c = false

theorem endsWord_cons {c : Char} (hc : letter c = false) (rest : List Char) :
    EndsWord letter (c :: rest) := by
  rintro d ⟨⟩
  exact hc

theorem isWord_iff {s : String} :
    isWord letter s = true ↔ s.toList ≠ [] ∧ ∀ c ∈ s.toList, letter c = true := by
  simp [isWord]

theorem not_prefix_of_endsWord (hrest : EndsWord letter rest) {c : Char} (hc : letter c = true) :
    ¬ [c] <+: rest := by
  rintro ⟨tail, rfl⟩
  rw [hrest c rfl] at hc
  exact Bool.false_ne_true hc

/-- What does not begin with a letter does not begin with a word. -/
theorem isWord_append_ne {s : String} (hs : isWord letter s = true) {c : Char}
    (hc : letter c = false) (xs ys : List Char) : s.toList ++ xs ≠ c :: ys := by
  obtain ⟨hne, hletters⟩ := isWord_iff.mp hs
  obtain ⟨d, ds, hds⟩ := List.exists_cons_of_ne_nil hne
  intro h
  rw [hds, List.cons_append, List.cons.injEq] at h
  have hd := hletters d (hds ▸ List.mem_cons_self)
  rw [h.1, hc] at hd
  exact Bool.false_ne_true hd

/-- A word, and what follows it, are found in what they make up together. -/
theorem isWord_append_inj {v w : String} (hv : isWord letter v = true)
    (hw : isWord letter w = true) (hrest : EndsWord letter rest) (hrest' : EndsWord letter rest')
    (h : v.toList ++ rest = w.toList ++ rest') : v = w ∧ rest = rest' := by
  have hletters (s : String) : s.toList.flatMap (fun c => [c]) = s.toList :=
    List.flatMap_singleton' s.toList
  rw [← hletters v, ← hletters w] at h
  obtain ⟨hvw, hends⟩ := flatMap_append_inj (fun c _ d _ xs ys hcd => List.cons.inj hcd)
    (fun d hd => not_prefix_of_endsWord hrest ((isWord_iff.mp hw).2 d hd))
    (fun c hc => not_prefix_of_endsWord hrest' ((isWord_iff.mp hv).2 c hc)) h
  exact ⟨String.toList_inj.mp hvw, hends⟩

end SlideDeck.Text
