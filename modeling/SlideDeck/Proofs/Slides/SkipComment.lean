import Mathlib.Data.List.Basic
import SlideDeck.Proofs.Text.LowerCase
import SlideDeck.Slides.SkipComment

/-!
The comments that carry directives, by their grammar. Case does not count, neither in the keyword
nor in the word of the directive, and the keyword is lower-cased alike by itself and in a comment.
-/
namespace SlideDeck

namespace Directive

theorem word_ne_nil (d : Directive) : d.word.toList ≠ [] := by
  cases d <;> decide

theorem of_mem_word {d : Directive} {c : Char} (h : c ∈ d.word.toList) :
    Text.isBlank c = false ∧ c.toNat < 128 := by
  have hall : d.word.toList.all (fun c => !Text.isBlank c && decide (c.toNat < 128)) = true := by
    cases d <;> decide
  simpa using List.all_eq_true.mp hall c h

theorem tight_word (d : Directive) : Text.Tight d.word.toList where
  first c rest h := (of_mem_word (d := d) (by rw [h]; exact List.mem_cons_self)).1
  last front c h := (of_mem_word (d := d) (by rw [h]; simp)).1

end Directive

namespace SkipComment
open Text

variable {keyword : String} {skip : SkipComment} {d : Directive} {spelling blanks : List Char}

/-- Behind the keyword, a directive is read off blanks and its word, when no blank follows it. -/
theorem trim_eq_word_iff {c : Char} {rest : List Char}
    (hlast : ∀ front x, c :: rest = front ++ [x] → isBlank x = false) :
    isBlank c = true ∧ trim (c :: rest) = d.word.toList ↔
      ∃ blanks, blanks ≠ [] ∧ (∀ b ∈ blanks, isBlank b = true) ∧
        c :: rest = blanks ++ d.word.toList := by
  constructor
  · rintro ⟨hc, hword⟩
    obtain ⟨blanks, blanks', hblanks, hblanks', hsplit⟩ := trim_split (c :: rest)
    rw [hword] at hsplit
    have hend : blanks' = [] := by
      rcases List.eq_nil_or_concat blanks' with hnil | ⟨front, x, hx⟩
      · exact hnil
      · rw [List.concat_eq_append] at hx
        have hx' := hlast (blanks ++ d.word.toList ++ front) x (by
          rw [hsplit, hx, List.append_assoc _ front])
        have hblank := hblanks' x (by simp [hx])
        rw [hx'] at hblank
        cases hblank
    rw [hend, List.append_nil] at hsplit
    refine ⟨blanks, fun hnil => ?_, hblanks, hsplit⟩
    rw [hnil, List.nil_append] at hsplit
    rw [d.tight_word.first c rest hsplit.symm] at hc
    cases hc
  · rintro ⟨blanks, hne, hblanks, hsplit⟩
    obtain ⟨b, blanks, rfl⟩ := List.exists_cons_of_ne_nil hne
    have hc : c = b := (List.cons.inj hsplit).1
    have htrim : trim (b :: blanks ++ d.word.toList ++ []) = d.word.toList :=
      d.tight_word.trim_between d.word_ne_nil hblanks fun b hb => by cases hb
    rw [List.append_nil] at htrim
    exact ⟨hc ▸ hblanks b List.mem_cons_self, hsplit ▸ htrim⟩

theorem ofWord?_ofList {cs : List Char} :
    Directive.ofWord? (String.ofList cs) = some d ↔ cs = d.word.toList := by
  rw [Directive.ofWord?_eq_some_iff, ← String.toList_inj, String.toList_ofList]

/-- A comment is read as a directive just when it is, trimmed and in lower case, the keyword, blanks
and the word of the directive. -/
theorem parse?_eq_some_iff {comment : String} : skip.parse? comment = some d ↔
    ∃ blanks, blanks ≠ [] ∧ (∀ b ∈ blanks, isBlank b = true) ∧
      lower (trim comment.toList) = skip.keyword ++ blanks ++ d.word.toList := by
  have htight : Tight (lower (trim comment.toList)) := (tight_trim _).lower
  have hread {c : Char} {rest : List Char}
      (h : skip.keyword ++ c :: rest = lower (trim comment.toList)) :
      skip.parse? comment = some d ↔ isBlank c = true ∧ trim (c :: rest) = d.word.toList := by
    rw [parse?, List.isPrefixOf?_eq_some_iff_append_eq.mpr h]
    simp [ofWord?_ofList]
  have hword {c : Char} {rest : List Char}
      (h : skip.keyword ++ c :: rest = lower (trim comment.toList)) :
      isBlank c = true ∧ trim (c :: rest) = d.word.toList ↔ ∃ blanks, blanks ≠ [] ∧
        (∀ b ∈ blanks, isBlank b = true) ∧ c :: rest = blanks ++ d.word.toList := by
    refine trim_eq_word_iff fun front x hx => htight.last (skip.keyword ++ front) x ?_
    rw [← h, hx, List.append_assoc]
  constructor
  · intro hparse
    obtain ⟨c, rest, h⟩ : ∃ c rest,
        skip.keyword ++ c :: rest = lower (trim comment.toList) := by
      rw [parse?] at hparse
      split at hparse
      · next c rest hprefix =>
        exact ⟨c, rest, List.isPrefixOf?_eq_some_iff_append_eq.mp hprefix⟩
      · cases hparse
    obtain ⟨blanks, hne, hblanks, hsplit⟩ := (hword h).mp ((hread h).mp hparse)
    exact ⟨blanks, hne, hblanks, by rw [← h, hsplit, List.append_assoc]⟩
  · rintro ⟨blanks, hne, hblanks, hsplit⟩
    obtain ⟨b, rest, rfl⟩ := List.exists_cons_of_ne_nil hne
    have h : skip.keyword ++ b :: (rest ++ d.word.toList) = lower (trim comment.toList) := by
      rw [hsplit, List.append_assoc, List.cons_append]
    exact (hread h).mpr ((hword h).mpr ⟨b :: rest, hne, hblanks, rfl⟩)

/-- Letters in any case that spell a word are as many and as little blank as its own. -/
theorem of_spelling (h : spelling.map Char.toLower = d.word.toList) :
    ∀ c ∈ spelling, isBlank c = false ∧ c.toNat < 128 := by
  intro c hc
  have hlower : c.toLower ∈ d.word.toList := h ▸ List.mem_map_of_mem hc
  obtain ⟨hblank, hascii⟩ := Directive.of_mem_word hlower
  have hc' : c.toNat < 128 := by
    by_cases hupper : 65 ≤ c.toNat ∧ c.toNat ≤ 90
    · omega
    · rwa [toLower_eq hupper] at hascii
  rw [← lowerChar_ascii hc', isBlank_lowerChar] at hblank
  exact ⟨hblank, hc'⟩

theorem lower_spelling (h : spelling.map Char.toLower = d.word.toList) :
    lower spelling = d.word.toList := by
  rw [lower_ascii fun c hc => (of_spelling h c hc).2, h]

/-- The keyword, blanks and the word of a directive in any case are lower-cased one by one. -/
theorem lower_written (hblanks : ∀ b ∈ blanks, isBlank b = true) (hne : blanks ≠ [])
    (h : spelling.map Char.toLower = d.word.toList) (keyword : List Char) :
    lower (keyword ++ blanks ++ spelling) = lower keyword ++ blanks ++ d.word.toList := by
  rw [lower_between_blanks hblanks hne, lower_spelling h]

theorem tight_written {keyword : List Char} (hkeyword : Tight keyword) (hne : keyword ≠ [])
    (h : spelling.map Char.toLower = d.word.toList) (blanks : List Char) :
    Tight (keyword ++ blanks ++ spelling) where
  first c rest hsplit := by
    obtain ⟨k, keyword, rfl⟩ := List.exists_cons_of_ne_nil hne
    rw [List.cons_append, List.cons_append] at hsplit
    obtain ⟨rfl, -⟩ := List.cons.inj hsplit
    exact hkeyword.first k keyword rfl
  last front x hsplit := by
    have hspelling : spelling ≠ [] := by
      rintro rfl
      exact d.word_ne_nil h.symm
    exact (of_spelling h x (mem_of_last hspelling hsplit)).1

/-- The comments of a keyword are those that are, trimmed and in lower case, the keyword, trimmed and
in lower case too, then blanks and the word of a directive. So a keyword of blanks has none; and any
other is recognised as it is written, with the word in upper or lower case and blanks around it. -/
theorem parse?_iff_written (keyword : String) :
    (∀ comment d, (ofKeyword keyword).parse? comment = some d ↔
      ∃ blanks, blanks ≠ [] ∧ (∀ b ∈ blanks, isBlank b = true) ∧
        lower (trim comment.toList) = lower (trim keyword.toList) ++ blanks ++ d.word.toList) ∧
    (allBlank keyword = true → ∀ comment, (ofKeyword keyword).parse? comment = none) ∧
    (allBlank keyword = false → ∀ (d : Directive) (ahead blanks spelling behind : List Char),
      (∀ b ∈ ahead, isBlank b = true) → (∀ b ∈ blanks, isBlank b = true) → blanks ≠ [] →
      (∀ b ∈ behind, isBlank b = true) → spelling.map Char.toLower = d.word.toList →
      lower (trim keyword.toList ++ blanks ++ spelling) =
          lower (trim keyword.toList) ++ blanks ++ d.word.toList ∧
        (ofKeyword keyword).parse? (String.ofList
          (ahead ++ (trim keyword.toList ++ blanks ++ spelling) ++ behind)) = some d) := by
  refine ⟨fun comment d => parse?_eq_some_iff, fun hblank comment => ?_, ?_⟩
  · refine Option.eq_none_iff_forall_ne_some.mpr fun d hparse => ?_
    obtain ⟨blanks, hne, hblanks, hsplit⟩ := parse?_eq_some_iff.mp hparse
    have hkeyword : (ofKeyword keyword).keyword = [] := by
      rw [ofKeyword, trim_eq_nil_iff.mpr hblank]
      rfl
    obtain ⟨b, rest, rfl⟩ := List.exists_cons_of_ne_nil hne
    rw [hkeyword, List.nil_append, List.cons_append] at hsplit
    have hfirst := (tight_trim comment.toList).lower.first b _ hsplit
    rw [hblanks b List.mem_cons_self] at hfirst
    cases hfirst
  · intro hkeyword d ahead blanks spelling behind hahead hblanks hne hbehind hspelling
    have hlower := lower_written hblanks hne hspelling (trim keyword.toList)
    refine ⟨hlower, parse?_eq_some_iff.mpr ⟨blanks, hne, hblanks, ?_⟩⟩
    have hkeyword' : trim keyword.toList ≠ [] := fun hnil =>
      Bool.false_ne_true (hkeyword.symm.trans (trim_eq_nil_iff.mp hnil))
    have htight := tight_written (tight_trim keyword.toList) hkeyword' hspelling blanks
    rw [String.toList_ofList, htight.trim_between (by simp [hkeyword']) hahead hbehind, hlower]
    rfl

/-- A keyword that ends in a sigma, with the word in both cases and several kinds of blanks. -/
theorem parse?_iff_written_sigma :
    let keyword := " ΛΟΓΟΣ"
    allBlank keyword = false ∧ lower (trim keyword.toList) = "λογος".toList ∧
      (ofKeyword keyword).parse? "\tΛΟΓΟΣ\u00A0 OuTeR\n" = some .outer ∧
      (ofKeyword " ").parse? "outer" = none := by
  intro keyword
  obtain ⟨-, -, hwritten⟩ := parse?_iff_written keyword
  have hparse := (hwritten (by decide) .outer ['\t'] ['\u00A0', ' '] "OuTeR".toList ['\n']
    (List.all_eq_true.mp (by decide)) (List.all_eq_true.mp (by decide)) (List.cons_ne_nil _ _)
    (List.all_eq_true.mp (by decide)) (by decide)).2
  have hcomment : ['\t'] ++ (trim keyword.toList ++ ['\u00A0', ' '] ++ "OuTeR".toList) ++ ['\n'] =
      "\tΛΟΓΟΣ\u00A0 OuTeR\n".toList := by decide
  rw [hcomment, String.ofList_toList] at hparse
  exact ⟨by decide, by decide +kernel, hparse, (parse?_iff_written " ").2.1 (by decide) "outer"⟩

end SkipComment
end SlideDeck
