import SlideDeck.Import
import SlideDeck.Proofs.Text.Delimited

/-!
Import statements tell what they were written from. Read from the left, every clause shows where it
ends, also where a name is one of the words between the clauses; behind them stands the source, in
which anything may be written, up to the last quote.
-/
namespace SlideDeck
open Text

namespace Specifier

/-- The names that the specifier spells. -/
def names : Specifier → List String
  | defaultExport n => [n]
  | namedExport e n => [e, n]
  | allExports n => [n]

/-- An export that is imported by name, with the name that it is bound to. -/
def namedPair? : Specifier → Option (String × String)
  | namedExport e n => some (e, n)
  | _ => none

end Specifier

namespace Import

/-- A character of a name. -/
def isNameChar (c : Char) : Bool := c.isAlphanum || c == '_' || c == '$'

/-- The declaration spells names only, and names its default export and all exports at most once. -/
structure WellNamed (decl : Import) : Prop where
  names : ∀ s ∈ decl.specifiers, ∀ n ∈ s.names, isWord isNameChar n = true
  default_le_one : (decl.specifiers.filterMap Specifier.defaultName?).length ≤ 1
  all_le_one : (decl.specifiers.filterMap Specifier.allName?).length ≤ 1

/-- A clause of an import statement. -/
inductive Clause where
  | default (name : String)
  | all (name : String)
  | named (pairs : List (String × String))

/-- How an export and the name that it is bound to are written in braces. -/
def spellPair (p : String × String) : List Char :=
  if p.1 = p.2 then p.1.toList else p.1.toList ++ ' ' :: 'a' :: 's' :: ' ' :: p.2.toList

namespace Clause

def spell : Clause → List Char
  | default n => n.toList
  | all n => '*' :: ' ' :: 'a' :: 's' :: ' ' :: n.toList
  | named ps => '\x7b' :: ' ' :: ([',', ' '].intercalate (ps.map spellPair) ++ [' ', '\x7d'])

def names : Clause → List String
  | default n => [n]
  | all n => [n]
  | named ps => ps.flatMap fun p => [p.1, p.2]

def pairs : Clause → List (String × String)
  | named ps => ps
  | _ => []

def default? : Clause → Option String
  | default n => some n
  | _ => none

def all? : Clause → Option String
  | all n => some n
  | _ => none

/-- The clause spells names only, and braces hold something. -/
structure WellNamed (k : Clause) : Prop where
  names : ∀ n ∈ k.names, isWord isNameChar n = true
  filled : k ≠ named []

end Clause

/-- What can stand behind a name: no letter, and not the `as` of another name. -/
structure Behind (rest : List Char) : Prop where
  endsWord : EndsWord isNameChar rest
  noAlias : ¬ [' ', 'a'] <+: rest

theorem behind_comma (xs : List Char) : Behind ([',', ' '] ++ xs) :=
  ⟨endsWord_cons rfl _, by simp⟩

variable {rest rest' : List Char}

theorem spellPair_append_inj {p q : String × String}
    (hp : isWord isNameChar p.1 = true ∧ isWord isNameChar p.2 = true)
    (hq : isWord isNameChar q.1 = true ∧ isWord isNameChar q.2 = true) (hrest : Behind rest)
    (hrest' : Behind rest') (h : spellPair p ++ rest = spellPair q ++ rest') :
    p = q ∧ rest = rest' := by
  obtain ⟨e, n⟩ := p
  obtain ⟨e', n'⟩ := q
  have hspace (xs : List Char) : EndsWord isNameChar (' ' :: xs) := endsWord_cons rfl xs
  by_cases hen : e = n <;> by_cases hen' : e' = n' <;>
    simp only [spellPair, hen, hen', if_true, if_false, List.append_assoc, List.cons_append] at h
  · obtain ⟨rfl, hends⟩ := isWord_append_inj hp.2 hq.2 hrest.endsWord hrest'.endsWord h
    exact ⟨by rw [hen, hen'], hends⟩
  · obtain ⟨-, hends⟩ := isWord_append_inj hp.2 hq.1 hrest.endsWord (hspace _) h
    exact absurd ⟨_, hends.symm⟩ hrest.noAlias
  · obtain ⟨-, hends⟩ := isWord_append_inj hp.1 hq.2 (hspace _) hrest'.endsWord h
    exact absurd ⟨_, hends⟩ hrest'.noAlias
  · obtain ⟨rfl, htail⟩ := isWord_append_inj hp.1 hq.1 (hspace _) (hspace _) h
    simp only [List.cons.injEq, true_and] at htail
    obtain ⟨rfl, hends⟩ :=
      isWord_append_inj hp.2 hq.2 hrest.endsWord hrest'.endsWord htail
    exact ⟨rfl, hends⟩

/-- A clause that is no name does not begin as a name does, but with a star or a brace. -/
theorem Clause.isWord_append_ne_spell {name : String} (k : Clause)
    (hname : isWord isNameChar name = true) (hk : k.default? = none) (xs ys : List Char) :
    name.toList ++ xs ≠ k.spell ++ ys := by
  cases k with
  | default n => cases hk
  | all n => exact isWord_append_ne hname rfl _ _
  | named ps => exact isWord_append_ne hname rfl _ _

theorem Clause.WellNamed.pair {ps : List (String × String)} (h : (named ps).WellNamed)
    {p : String × String} (hp : p ∈ ps) :
    isWord isNameChar p.1 = true ∧ isWord isNameChar p.2 = true :=
  ⟨h.names _ (List.mem_flatMap.mpr ⟨p, hp, by simp⟩),
    h.names _ (List.mem_flatMap.mpr ⟨p, hp, by simp⟩)⟩

/-- The pairs in braces are found in what they make up with what follows. -/
theorem Clause.spell_named_append_inj {ps qs : List (String × String)}
    (hp : (named ps).WellNamed) (hq : (named qs).WellNamed)
    (h : (named ps).spell ++ rest = (named qs).spell ++ rest') : ps = qs ∧ rest = rest' := by
  have hne {rs : List (String × String)} (hr : (named rs).WellNamed) : rs ≠ [] := by
    rintro rfl
    exact hr.filled rfl
  have hbrace (xs : List Char) : Behind (' ' :: '\x7d' :: xs) := ⟨endsWord_cons rfl _, by simp⟩
  simp only [spell, List.cons_append, List.append_assoc, List.nil_append, List.cons.injEq,
    true_and] at h
  obtain ⟨rfl, hends⟩ := intercalate_append_inj behind_comma
    (fun p hmem q hmem' xs ys => spellPair_append_inj (hp.pair hmem) (hq.pair hmem')) (hne hp)
    (hne hq) (hbrace _) (hbrace _) (by simp) (by simp) h
  simp only [List.cons.injEq, true_and] at hends
  exact ⟨rfl, hends⟩

/-- A clause, and what follows it, are found in what they make up together. The kind of the clause
is seen first. -/
theorem Clause.spell_append_inj {k l : Clause} (hk : k.WellNamed) (hl : l.WellNamed)
    (hrest : Behind rest) (hrest' : Behind rest') (h : k.spell ++ rest = l.spell ++ rest') :
    k = l ∧ rest = rest' := by
  cases k with
  | default n =>
    have hn := hk.names n (List.mem_singleton_self n)
    cases l with
    | default m =>
      have hm := hl.names m (List.mem_singleton_self m)
      obtain ⟨rfl, hends⟩ := isWord_append_inj hn hm hrest.endsWord hrest'.endsWord h
      exact ⟨rfl, hends⟩
    | all m => exact absurd h ((all m).isWord_append_ne_spell hn rfl _ _)
    | named qs => exact absurd h ((named qs).isWord_append_ne_spell hn rfl _ _)
  | all n =>
    have hn := hk.names n (List.mem_singleton_self n)
    cases l with
    | default m =>
      have hm := hl.names m (List.mem_singleton_self m)
      exact absurd h.symm ((all n).isWord_append_ne_spell hm rfl _ _)
    | all m =>
      have hm := hl.names m (List.mem_singleton_self m)
      simp only [spell, List.cons_append, List.cons.injEq, true_and] at h
      obtain ⟨rfl, hends⟩ := isWord_append_inj hn hm hrest.endsWord hrest'.endsWord h
      exact ⟨rfl, hends⟩
    | named qs => simp [spell] at h
  | named ps =>
    cases l with
    | default m =>
      have hm := hl.names m (List.mem_singleton_self m)
      exact absurd h.symm ((named ps).isWord_append_ne_spell hm rfl _ _)
    | all m => simp [spell] at h
    | named qs =>
      obtain ⟨rfl, hends⟩ := spell_named_append_inj hk hl h
      exact ⟨rfl, hends⟩

def defaultName? (decl : Import) : Option String :=
  (decl.specifiers.filterMap Specifier.defaultName?).getLast?

def allName? (decl : Import) : Option String :=
  (decl.specifiers.filterMap Specifier.allName?).getLast?

def namedPairs (decl : Import) : List (String × String) :=
  decl.specifiers.filterMap Specifier.namedPair?

/-- The clauses of a statement in their order. -/
def parts (decl : Import) : List Clause :=
  decl.defaultName?.toList.map .default ++ decl.allName?.toList.map .all ++
    (if decl.namedPairs.isEmpty then [] else [.named decl.namedPairs])

theorem findSome?_default (decl : Import) :
    decl.parts.findSome? Clause.default? = decl.defaultName? := by
  unfold parts
  cases decl.defaultName? <;> cases decl.allName? <;> cases decl.namedPairs <;> rfl

theorem findSome?_all (decl : Import) : decl.parts.findSome? Clause.all? = decl.allName? := by
  unfold parts
  cases decl.defaultName? <;> cases decl.allName? <;> cases decl.namedPairs <;> rfl

theorem flatMap_pairs (decl : Import) : decl.parts.flatMap Clause.pairs = decl.namedPairs := by
  unfold parts
  cases decl.defaultName? <;> cases decl.allName? <;> cases decl.namedPairs <;>
    simp [Clause.pairs]

theorem filterMap_namedClause? (specifiers : List Specifier) :
    (specifiers.filterMap Specifier.namedClause?).map String.toList =
      (specifiers.filterMap Specifier.namedPair?).map spellPair := by
  rw [List.map_filterMap, List.map_filterMap]
  congr 1
  funext s
  cases s with
  | namedExport e n =>
    by_cases h : e = n <;> simp [Specifier.namedClause?, Specifier.namedPair?, spellPair, h]
  | _ => rfl

theorem map_toList_clauses (decl : Import) :
    decl.clauses.map String.toList = decl.parts.map Clause.spell := by
  have hnamed := filterMap_namedClause? decl.specifiers
  have hempty : (decl.specifiers.filterMap Specifier.namedClause?).isEmpty =
      decl.namedPairs.isEmpty := by
    have := congrArg List.isEmpty hnamed
    rwa [List.isEmpty_map, List.isEmpty_map] at this
  simp only [clauses, parts, defaultName?, allName?, hempty]
  cases (decl.specifiers.filterMap Specifier.defaultName?).getLast? <;>
    cases (decl.specifiers.filterMap Specifier.allName?).getLast? <;>
      cases hp : decl.namedPairs.isEmpty <;> simp [Clause.spell, hnamed, namedPairs]

/-- What a statement begins with. -/
def keyword : List Char := ['i', 'm', 'p', 'o', 'r', 't', ' ']

def origin (source : String) : List Char := '\'' :: (source.toList ++ ['\''])

theorem toList_statement (decl : Import) : decl.statement.toList = keyword ++
    if decl.parts = [] then origin decl.source
    else [',', ' '].intercalate (decl.parts.map Clause.spell) ++
      (' ' :: 'f' :: 'r' :: 'o' :: 'm' :: ' ' :: origin decl.source) := by
  have hclauses := decl.map_toList_clauses
  have hempty : decl.clauses.isEmpty = true ↔ decl.parts = [] := by
    rw [List.isEmpty_iff, ← List.map_eq_nil_iff (f := String.toList), hclauses,
      List.map_eq_nil_iff]
  unfold statement
  by_cases h : decl.parts = []
  · rw [if_pos (hempty.mpr h), if_pos h]
    simp [keyword, origin]
  · rw [if_neg (fun he => h (hempty.mp he)), if_neg h]
    simp [keyword, origin, hclauses]

theorem origin_inj {s t : String} (h : origin s = origin t) : s = t :=
  String.toList_inj.mp (List.append_cancel_right (List.cons.inj h).2)

theorem origin_ne_spell {k : Clause} (hk : k.WellNamed) (source : String) (rest : List Char) :
    origin source ≠ k.spell ++ rest := by
  cases k with
  | default n => exact (isWord_append_ne (hk.names n (List.mem_singleton_self n)) rfl _ _).symm
  | all n => simp [origin, Clause.spell]
  | named ps => simp [origin, Clause.spell]

/-- No clause begins with the quote before a source. -/
theorem origin_ne_clauses {ks : List Clause} (hks : ∀ k ∈ ks, k.WellNamed) (hne : ks ≠ [])
    (source : String) (rest : List Char) :
    origin source ≠ [',', ' '].intercalate (ks.map Clause.spell) ++ rest := by
  cases ks with
  | nil => exact absurd rfl hne
  | cons k ks =>
    have hk := hks k List.mem_cons_self
    cases ks with
    | nil =>
      rw [List.map_cons, List.map_nil, List.intercalate_singleton]
      exact origin_ne_spell hk source rest
    | cons l ks =>
      rw [List.map_cons, List.map_cons, List.intercalate_cons_cons, List.append_assoc,
        List.append_assoc]
      exact origin_ne_spell hk source _

theorem eq_namedExport_of_namedPair? {s : Specifier} {p : String × String}
    (h : s.namedPair? = some p) : s = .namedExport p.1 p.2 := by
  cases s <;> cases h
  rfl

/-- The clauses of a declaration spell the names of its specifiers. -/
theorem WellNamed.parts {decl : Import} (h : decl.WellNamed) {k : Clause} (hk : k ∈ decl.parts) :
    k.WellNamed := by
  have hlast {f : Specifier → Option String} (hf : ∀ s n, f s = some n → n ∈ s.names)
      {n : String} (hn : n ∈ (decl.specifiers.filterMap f).getLast?) :
      isWord isNameChar n = true := by
    obtain ⟨s, hs, hsn⟩ := List.mem_filterMap.mp (List.mem_of_getLast? hn)
    exact h.names s hs n (hf s n hsn)
  simp only [Import.parts, List.mem_append, List.mem_map, Option.mem_toList] at hk
  rcases hk with (⟨n, hn, rfl⟩ | ⟨n, hn, rfl⟩) | hk
  · refine ⟨fun m hm => ?_, by simp⟩
    rw [List.mem_singleton.mp hm]
    exact hlast (fun s n hs => by cases s <;> simp_all [Specifier.defaultName?, Specifier.names]) hn
  · refine ⟨fun m hm => ?_, by simp⟩
    rw [List.mem_singleton.mp hm]
    exact hlast (fun s n hs => by cases s <;> simp_all [Specifier.allName?, Specifier.names]) hn
  · split at hk
    · cases hk
    · next hfilled =>
      obtain rfl := List.mem_singleton.mp hk
      refine ⟨fun m hm => ?_, fun he => ?_⟩
      · obtain ⟨p, hp, hmp⟩ := List.mem_flatMap.mp hm
        obtain ⟨s, hs, hsp⟩ := List.mem_filterMap.mp hp
        obtain rfl := eq_namedExport_of_namedPair? hsp
        exact h.names _ hs m hmp
      · rw [Clause.named.inj he] at hfilled
        exact hfilled rfl

/-- What stands between the keyword and the end of a statement tells its clauses and its source. -/
theorem WellNamed.inj {a b : Import} (ha : a.WellNamed) (hb : b.WellNamed)
    (h : a.statement = b.statement) : a.parts = b.parts ∧ a.source = b.source := by
  have hchars := congrArg String.toList h
  rw [toList_statement, toList_statement] at hchars
  have hbody := List.append_cancel_left hchars
  have hfrom (xs : List Char) : Behind (' ' :: 'f' :: xs) := ⟨endsWord_cons rfl _, by simp⟩
  by_cases hpa : a.parts = [] <;> by_cases hpb : b.parts = [] <;>
    simp only [hpa, hpb, if_true, if_false] at hbody
  · exact ⟨hpa.trans hpb.symm, origin_inj hbody⟩
  · exact absurd hbody (origin_ne_clauses (fun _ => hb.parts) hpb _ _)
  · exact absurd hbody.symm (origin_ne_clauses (fun _ => ha.parts) hpa _ _)
  · obtain ⟨hparts, hsource⟩ := intercalate_append_inj behind_comma
      (fun k hk l hl xs ys => Clause.spell_append_inj (ha.parts hk) (hb.parts hl)) hpa hpb
      (hfrom _) (hfrom _) (by simp) (by simp) hbody
    simp only [List.cons.injEq, true_and] at hsource
    exact ⟨hparts, origin_inj hsource⟩

theorem eq_of_getLast?_eq {xs ys : List String} (hx : xs.length ≤ 1) (hy : ys.length ≤ 1)
    (h : xs.getLast? = ys.getLast?) : xs = ys := by
  have hlast {zs : List String} (hz : zs.length ≤ 1) : zs.getLast?.toList = zs := by
    match zs, hz with
    | [], _ => rfl
    | [z], _ => rfl
  rw [← hlast hx, ← hlast hy, h]

theorem statement_congr {a b : Import} (hparts : a.parts = b.parts)
    (hsource : a.source = b.source) : a.statement = b.statement := by
  rw [← String.toList_inj, toList_statement, toList_statement, hparts, hsource]

/-- The statements of two declarations are the same just when the declarations have the same source,
the same default name, the same name for all exports, and in the same order the same exports by name
with the same names for them. The source may be any text, and the names may be words of the
statement. -/
theorem statement_eq_iff {a b : Import} (ha : a.WellNamed) (hb : b.WellNamed) :
    a.statement = b.statement ↔ a.source = b.source ∧
      a.specifiers.filterMap Specifier.defaultName? =
        b.specifiers.filterMap Specifier.defaultName? ∧
      a.specifiers.filterMap Specifier.allName? = b.specifiers.filterMap Specifier.allName? ∧
      a.specifiers.filterMap Specifier.namedPair? =
        b.specifiers.filterMap Specifier.namedPair? := by
  constructor
  · intro h
    obtain ⟨hparts, hsource⟩ := ha.inj hb h
    have hdefault : a.defaultName? = b.defaultName? := by
      rw [← findSome?_default, hparts, findSome?_default]
    have hall : a.allName? = b.allName? := by rw [← findSome?_all, hparts, findSome?_all]
    have hnamed : a.namedPairs = b.namedPairs := by rw [← flatMap_pairs, hparts, flatMap_pairs]
    exact ⟨hsource, eq_of_getLast?_eq ha.default_le_one hb.default_le_one hdefault,
      eq_of_getLast?_eq ha.all_le_one hb.all_le_one hall, hnamed⟩
  · rintro ⟨hsource, hdefault, hall, hnamed⟩
    have hlast : a.defaultName? = b.defaultName? := congrArg List.getLast? hdefault
    have hlast' : a.allName? = b.allName? := congrArg List.getLast? hall
    have hpairs : a.namedPairs = b.namedPairs := hnamed
    refine statement_congr ?_ hsource
    rw [parts, parts, hlast, hlast', hpairs]

/-- Exports that go by the words between clauses, and a source that looks like the end of a
statement. -/
theorem statement_eq_iff_words :
    let a : Import := ⟨"x' from 'y", [.namedExport "as" "as", .defaultExport "from"]⟩
    let b : Import := ⟨"y", [.defaultExport "from", .namedExport "as" "x"]⟩
    a.WellNamed ∧ b.WellNamed ∧
      a.statement = "import from, \x7b as \x7d from 'x' from 'y'" ∧ a.statement ≠ b.statement := by
  intro a b
  have ha : a.WellNamed := ⟨by decide, by decide, by decide⟩
  have hb : b.WellNamed := ⟨by decide, by decide, by decide⟩
  refine ⟨ha, hb, by decide, fun h => ?_⟩
  have hsource : a.source = b.source := ((statement_eq_iff ha hb).mp h).1
  exact absurd hsource (by decide)

end Import
end SlideDeck
