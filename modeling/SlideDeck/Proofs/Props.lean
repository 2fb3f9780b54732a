import Mathlib.Data.Finmap
import SlideDeck.Proofs.Keyed
import SlideDeck.Props

/-!
Property bags under changes. A bag that starts with different names keeps them different, whatever
is set and removed, and answers as the finite map behind the same changes; its names stand in the
order in which they were set first, a name that was removed and set again at the end.
-/
namespace SlideDeck
namespace Props

/-- A change of a bag. -/
inductive Change where
  | set (name : String) (value : Json.Value)
  | remove (name : String)
  deriving Repr

/-- Values under names, in no order. -/
abbrev Table := Finmap fun _ : String => Json.Value

/-- The table of named values, the first of each name. -/
def tableOf : List (String × Json.Value) → Table
  | [] => ∅
  | (name, value) :: rest => (tableOf rest).insert name value

theorem lookup_tableOf (entries : List (String × Json.Value)) (name : String) :
    (tableOf entries).lookup name = Keyed.get? name entries := by
  induction entries with
  | nil => rfl
  | cons e rest ih =>
    obtain ⟨k, v⟩ := e
    by_cases h : k = name
    · subst h
      simp [tableOf, Keyed.get?]
    · simp [tableOf, Keyed.get?, h, Finmap.lookup_insert_of_ne _ (Ne.symm h), ih]

namespace Change

/-- What the change answers, the old value when it removes one, and the bag behind it. -/
def onBag : Change → Props → Option Json.Value × Props
  | set name value, bag => (none, bag.set name value)
  | remove name, bag => bag.remove name

/-- What the change answers, and the table behind it. -/
def onTable : Change → Table → Option Json.Value × Table
  | set name value, table => (none, table.insert name value)
  | remove name, table => (table.lookup name, table.erase name)

/-- The order of the names behind the change: a known name keeps its place, a new one goes last, and
the others close up behind one that is removed. -/
def onNames (names : List String) : Change → List String
  | set name _ => if name ∈ names then names else names ++ [name]
  | remove name => names.erase name

/-- The answers of changes one after another, and what is behind the last one. -/
def run {σ : Type} (act : Change → σ → Option Json.Value × σ) :
    List Change → σ → List (Option Json.Value) × σ
  | [], s => ([], s)
  | c :: cs, s =>
    let (answer, s) := act c s
    let (answers, s) := run act cs s
    (answer :: answers, s)

end Change

def names (bag : Props) : List String := bag.entries.map Prod.fst

/-- A bag without repeated names that finds what the table finds. -/
structure Mirrors (bag : Props) (table : Table) : Prop where
  distinct : Keyed.Distinct bag.entries
  get? : ∀ name, bag.get? name = table.lookup name

variable {bag : Props} {table : Table}

/-- A change answers alike on a bag and its table, and leaves the one the table of the other. -/
theorem Mirrors.onBag (h : bag.Mirrors table) (c : Change) :
    (c.onBag bag).1 = (c.onTable table).1 ∧ (c.onBag bag).2.Mirrors (c.onTable table).2 := by
  cases c with
  | set name value =>
    refine ⟨rfl, h.distinct.put name value, fun other => ?_⟩
    by_cases ho : other = name
    · subst ho
      exact (Keyed.get?_put_self other value bag.entries).trans (Finmap.lookup_insert table).symm
    · exact (Keyed.get?_put_of_ne ho value bag.entries).trans
        ((h.get? other).trans (Finmap.lookup_insert_of_ne table ho).symm)
  | remove name =>
    refine ⟨h.get? name, h.distinct.erase name, fun other => ?_⟩
    by_cases ho : other = name
    · subst ho
      exact (Keyed.get?_erase_self h.distinct other).trans (Finmap.lookup_erase other table).symm
    · exact (Keyed.get?_erase_of_ne ho bag.entries).trans
        ((h.get? other).trans (Finmap.lookup_erase_ne ho).symm)

theorem Mirrors.run (h : bag.Mirrors table) (cs : List Change) :
    (Change.run Change.onBag cs bag).1 = (Change.run Change.onTable cs table).1 ∧
      (Change.run Change.onBag cs bag).2.Mirrors (Change.run Change.onTable cs table).2 := by
  induction cs generalizing bag table with
  | nil => exact ⟨rfl, h⟩
  | cons c cs ih =>
    obtain ⟨hanswer, hnext⟩ := h.onBag c
    obtain ⟨hanswers, hlast⟩ := ih hnext
    exact ⟨congrArg₂ List.cons hanswer hanswers, hlast⟩

theorem names_onBag (c : Change) (bag : Props) : (c.onBag bag).2.names = c.onNames bag.names := by
  cases c with
  | set name value => exact Keyed.names_put name value bag.entries
  | remove name => exact Keyed.names_erase name bag.entries

theorem names_run (cs : List Change) (bag : Props) :
    (Change.run Change.onBag cs bag).2.names = cs.foldl Change.onNames bag.names := by
  induction cs generalizing bag with
  | nil => rfl
  | cons c cs ih => rw [List.foldl_cons, ← names_onBag, ← ih, Change.run]

theorem Mirrors.has_iff (h : bag.Mirrors table) (name : String) :
    bag.has name = true ↔ name ∈ table := by
  rw [has_eq_isSome, h.get?, Finmap.lookup_isSome]

/-- A bag made of the members of an object mirrors the table of the members. -/
theorem mirrors_ofMembers {members : List (String × Json.Value)}
    (distinct : Keyed.Distinct members) : (ofMembers members).Mirrors (tableOf members) where
  distinct := distinct
  get? name := (lookup_tableOf members name).symm

/-- A bag made of the members of an object, whose names differ, answers every list of changes as the
finite map of the members does, and mirrors it behind them: no name is there twice, and each finds
what it finds in the map. The names stand as the changes put them in order, and the bag comes back
from the object that it stands for. -/
theorem run_mirrors_table {members : List (String × Json.Value)}
    (distinct : Keyed.Distinct members) (cs : List Change) :
    let run := Change.run Change.onBag cs (ofMembers members)
    let bag := run.2
    let table := (Change.run Change.onTable cs (tableOf members)).2
    run.1 = (Change.run Change.onTable cs (tableOf members)).1 ∧ bag.names.Nodup ∧
      (∀ name, bag.get? name = table.lookup name ∧
        bag.getText? name = (table.lookup name).bind Json.Value.text? ∧
        (bag.has name = true ↔ name ∈ table)) ∧
      bag.names = cs.foldl Change.onNames (members.map Prod.fst) ∧
      ofMembers bag.toMembers = bag := by
  obtain ⟨hanswers, hmirrors⟩ := (mirrors_ofMembers distinct).run cs
  refine ⟨hanswers, hmirrors.distinct, fun name => ?_, names_run cs _, ?_⟩
  · refine ⟨hmirrors.get? name, ?_, hmirrors.has_iff name⟩
    rw [getText?, hmirrors.get?]
  · rw [ofMembers, toMembers, Keyed.merge_of_distinct hmirrors.distinct]

/-- A name in the middle is set anew, and the first one is removed, missed and set again. -/
theorem run_mirrors_table_again :
    let members : List (String × Json.Value) := [("a", .null), ("b", .bool true), ("c", .null)]
    let cs : List Change :=
      [.set "b" (.string "x"), .remove "a", .remove "a", .set "a" (.bool true)]
    let run := Change.run Change.onBag cs (ofMembers members)
    let table := (Change.run Change.onTable cs (tableOf members)).2
    Keyed.Distinct members ∧ run.1 = [none, some .null, none, none] ∧
      run.2.entries = [("b", .string "x"), ("c", .null), ("a", .bool true)] ∧
      run.2.getText? "b" = (table.lookup "b").bind Json.Value.text? := by
  intro members cs run table
  have distinct : Keyed.Distinct members := by decide
  obtain ⟨-, -, hfound, -, -⟩ := run_mirrors_table distinct cs
  exact ⟨distinct, rfl, rfl, (hfound "b").2.1⟩

end Props
end SlideDeck
