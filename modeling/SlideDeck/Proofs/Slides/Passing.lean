import SlideDeck.Proofs.Slides.Arrival

/-!
Markers that do not cut. Where a region was started that is still open, a marker stays a child
like any other, unless the walk had passed it over before it came to it: a child that was cut
looks ahead for a marker behind it, and asks for no mode.
-/
namespace SlideDeck

namespace Agrees

variable {c : Cutter} {todo : List Node} {slot : Option Plan} {l : Level}

theorem isSome_eq {before : List Node} {a? : Option Assembly} (h : Agrees c before todo slot a?) :
    slot.isSome = a?.isSome := by
  cases h with
  | neither => rfl
  | both stands => rfl

/-- A plan goes on behind the walk just when a marker was passed over. -/
theorem passed_iff (h : Agrees c l.done todo slot l.assembly?) :
    (∃ plan, slot = some plan ∧ l.done.length < plan.cursor) ↔ l.assembly.ahead = true := by
  rw [Level.assembly]
  generalize l.assembly? = a? at h ⊢
  cases h with
  | neither =>
    constructor
    · rintro ⟨plan, hplan, -⟩
      cases hplan
    · intro hahead
      cases hahead
  | @both plan a stands =>
    cases stands with
    | behind cursor excluded lays =>
      constructor
      · rintro ⟨plan', hplan, hlt⟩
        cases hplan
        exact absurd hlt (Nat.not_lt.mpr cursor)
      · intro hahead
        cases hahead
    | ahead todo_eq blank marker cursor excluded lays =>
      refine ⟨fun _ => rfl, fun _ => ⟨plan, rfl, ?_⟩⟩
      omega

end Agrees

namespace Tracks

variable {c : Cutter} {s : Progress × List (Event Progress)} {outside : List (Option Plan)}
  {before todo : List Node} {l : Level}

theorem passed_iff (h : Tracks c s outside before todo l) :
    (∃ plan, s.1.slots.head? = some (some plan) ∧ before.length < plan.cursor) ↔
      l.assembly.ahead = true := by
  obtain ⟨slot, hslots, hagree⟩ := h.slots
  rw [← h.done] at hagree
  rw [← hagree.passed_iff, hslots, ← h.done, List.head?_cons]
  simp only [Option.some.injEq]

theorem uncut_iff (h : Tracks c s outside before todo l) :
    s.1.slots.head? = some none ↔ l.assembly? = none := by
  obtain ⟨slot, hslots, hagree⟩ := h.slots
  have hsome := hagree.isSome_eq
  rw [hslots, List.head?_cons, Option.some.injEq, ← Option.isNone_iff_eq_none,
    ← Option.isNone_iff_eq_none, ← Option.not_isSome, ← Option.not_isSome, hsome]

theorem planned_iff (h : Tracks c s outside before todo l) :
    (∃ plan, s.1.slots.head? = some (some plan)) ↔ l.assembly?.isSome = true := by
  obtain ⟨slot, hslots, hagree⟩ := h.slots
  rw [← hagree.isSome_eq, hslots, Option.isSome_iff_exists]
  simp only [List.head?_cons, Option.some.injEq]

end Tracks

namespace Cutter

/-- The new children `out` of a node hold a child, bare or in a slide, once and between what is
left of the children before it and of those behind it. -/
def Holds (c : Cutter) (before : List Node) (node : Node) (behind out : List Node) : Prop :=
  ∃ pieces front back, out = pieces.map (Piece.build c.wrap) ∧
    Piece.contents pieces = front ++ node :: back ∧ front.Sublist before ∧ back.Sublist behind

/-- The new children `out` of a node hold nothing between what is left of the children before a
child and of those behind it. -/
def Misses (c : Cutter) (before behind out : List Node) : Prop :=
  ∃ pieces front back, out = pieces.map (Piece.build c.wrap) ∧
    Piece.contents pieces = front ++ back ∧ front.Sublist before ∧ back.Sublist behind

/-- The marker `m` among the children of a node is lost: the plan of the node went on behind it
before the walk came to it, it is left without a plan of its own and is not kept out of slides,
and the plan of the node is carried out. -/
structure Loses (c : Cutter) (s : Progress) (site : Site) (xs : List Node) (m : Node)
    (ys : List Node) : Prop where
  passed : ∃ plan, (Walk.arrival c.visitor c.visitor_nonGrowing s site xs (m :: ys)).1.slots.head? =
      some (some plan) ∧
    (Walk.arrival c.visitor c.visitor_nonGrowing s site xs (m :: ys)).2.length < plan.cursor
  uncut : (Walk.below c.visitor c.visitor_nonGrowing
    (Walk.arrival c.visitor c.visitor_nonGrowing s site xs (m :: ys)).1
    (Walk.childSite c.visitor c.visitor_nonGrowing s site xs m ys)).1.slots.head? = some none
  counted : (Walk.below c.visitor c.visitor_nonGrowing
    (Walk.arrival c.visitor c.visitor_nonGrowing s site xs (m :: ys)).1
    (Walk.childSite c.visitor c.visitor_nonGrowing s site xs m ys)).1.mode ≠ .outer
  planned : ∃ plan, (Walk.below c.visitor c.visitor_nonGrowing s site).1.slots.head? =
    some (some plan)

variable {c : Cutter} {m : Node} {xs ys : List Node} {l : Level} {s : Progress} {site : Site}

theorem level_of_start (hmode : l.mode = .start) (hm : c.isMarker m = true) (after : List Node) :
    c.level m after l = c.ascend m after l (c.levelBelow m l) := by
  rw [level_eq, around, fires?_eq_none_of_isMarker l.mode hm, hmode]
  rfl

theorem contents_ascend_marker (hl : Coherent c l (m :: ys)) (hm : c.isMarker m = true)
    (inner : Level) :
    if l.assembly.ahead = true ∧ inner.assembly? = none ∧ inner.mode ≠ .outer then
      (c.ascend m ys l inner).assembly.contents = l.assembly.contents ∧
        (c.ascend m ys l inner).assembly?.isSome = true
    else (c.ascend m ys l inner).assembly.contents =
      l.assembly.contents ++ [m.withChildren (c.childrenOf inner)] := by
  have hascends := c.ascends_ascend m ys l inner
  generalize c.ascend m ys l inner = r at hascends ⊢
  cases hascends with
  | @cut a assembly =>
    rw [if_neg fun h => by rw [assembly] at h; cases h.2.1]
    exact Assembly.contents_addCut _ _ _
  | outer assembly mode =>
    rw [if_neg fun h => h.2.2 mode, c.childrenOf_of_none assembly]
    exact Assembly.contents_addOuter hl.loose _
  | pass assembly mode =>
    rw [Level.assembly_pass, c.childrenOf_of_none assembly]
    have hblank : (m.withChildren inner.done).isWhitespace = false := by
      rw [Node.isWhitespace_withChildren, Node.isWhitespace_eq_false_of_isMarker hm]
    cases ha : l.assembly.ahead with
    | false =>
      rw [if_neg fun h => by cases h.1]
      rcases Assembly.contents_add hl.loose (m.withChildren inner.done) with ⟨hc, -⟩ | ⟨hahead, -⟩
      · exact hc
      · rw [ha] at hahead
        cases hahead
    | true =>
      have hsome : l.assembly?.isSome = true := by
        cases hassembly : l.assembly? with
        | some a => rfl
        | none => rw [Level.assembly, hassembly] at ha; cases ha
      rw [if_pos ⟨rfl, assembly, mode⟩]
      refine ⟨?_, ?_⟩
      · show (l.assembly.add _).contents = _
        simp [Assembly.add, ha, hblank, Assembly.contents]
      · rw [Level.pass, Option.isSome_map]
        exact hsome

theorem grows_front {nodes todo : List Node} (l : Level)
    (hawake : (c.levelAll nodes todo l.inside).mode.suppressesDescent = false) :
    (c.levelAll nodes todo l.inside).assembly.contents.Sublist
      (c.levelAll nodes todo l.inside).done := by
  obtain ⟨new, hgrows⟩ :=
    grows_levelAll (c := c) (l := l.inside) (coherent_of_none rfl (nodes ++ todo))
  rcases hgrows.contents with hs | ⟨back, hback, hcontents⟩
  · exact absurd (hawake.symm.trans hs) Bool.false_ne_true
  · rw [hcontents, hgrows.done]
    exact hback

theorem contents_behind_marker (hl : Coherent c l (m :: ys)) (hm : c.isMarker m = true)
    (hmode : l.mode = .start) (hfront : l.assembly.contents.Sublist l.done) :
    let inner := c.levelBelow m l
    let m' := m.withChildren (c.childrenOf inner)
    let r := c.levelAll ys [] (c.level m ys l)
    let lost := l.assembly.ahead = true ∧ inner.assembly? = none ∧ inner.mode ≠ .outer ∧
      r.assembly?.isSome = true
    (c.level m ys l).done = l.done ++ [m'] ∧ ∃ new, r.done = l.done ++ m' :: new ∧
      ∃ front back, front.Sublist l.done ∧ back.Sublist new ∧
        (¬ lost → r.assembly.contents = front ++ m' :: back) ∧
        (lost → r.assembly.contents = front ++ back) := by
  intro inner m' r lost
  have hlevel := c.level_of_start hmode hm ys
  have hcoherent : Coherent c (c.level m ys l) (ys ++ []) := by
    rw [List.append_nil]
    exact coherent_level hl
  have hdone : (c.level m ys l).done = l.done ++ [m'] := by
    rw [hlevel, ascend_done]
  obtain ⟨new, hgrows⟩ := grows_levelAll hcoherent
  have hrdone : r.done = l.done ++ m' :: new := by
    rw [hgrows.done, hdone, List.append_assoc]
    rfl
  refine ⟨hdone, new, hrdone, ?_⟩
  cases hs : r.mode.suppressesDescent with
  | true =>
    have hnone : r.assembly? = none := (coherent_levelAll hcoherent).quiet hs
    refine ⟨l.done, new, .refl _, .refl _, fun _ => ?_, fun hlost => ?_⟩
    · rw [Level.assembly, hnone, Option.getD_none, Assembly.contents_ofLoose, hrdone]
    · have hsome := hlost.2.2.2
      rw [hnone] at hsome
      cases hsome
  | false =>
    have hawake (h : r.mode.suppressesDescent = true) : False :=
      Bool.false_ne_true (hs.symm.trans h)
    obtain ⟨back, hback, hcontents⟩ := hgrows.contents.resolve_left hawake
    have hplanned := hgrows.planned.resolve_left hawake
    have hmarker := contents_ascend_marker hl hm inner
    rw [← hlevel] at hmarker
    refine ⟨l.assembly.contents, back, hfront, hback, fun hheld => ?_, fun hlost => ?_⟩
    · rw [if_neg fun h => hheld ⟨h.1, h.2.1, h.2.2, ?_⟩] at hmarker
      · rw [hcontents, hmarker, List.append_assoc]
        rfl
      · rw [if_pos h] at hmarker
        exact hplanned hmarker.2
    · rw [if_pos ⟨hlost.1, hlost.2.1, hlost.2.2.1⟩] at hmarker
      rw [hcontents, hmarker.1]

theorem enter_of_start (hmode : s.mode = .start) (hm : c.isMarker site.node = true) :
    c.enter s site = ⟨s.opened, site.node, false, false⟩ := by
  rw [enter, fires?_eq_none_of_isMarker s.mode hm, hmode]
  rfl

theorem loses_iff {es es' es'' : List (Event Progress)} {out out' out'' : List (Option Plan)}
    {inner r : Level}
    (harrival : Tracks c ((Walk.arrival c.visitor c.visitor_nonGrowing s site xs (m :: ys)).1, es)
      out (Walk.arrival c.visitor c.visitor_nonGrowing s site xs (m :: ys)).2 (m :: ys) l)
    (hbelow : Tracks c ((Walk.below c.visitor c.visitor_nonGrowing
        (Walk.arrival c.visitor c.visitor_nonGrowing s site xs (m :: ys)).1
        (Walk.childSite c.visitor c.visitor_nonGrowing s site xs m ys)).1, es') out'
      (Walk.below c.visitor c.visitor_nonGrowing
        (Walk.arrival c.visitor c.visitor_nonGrowing s site xs (m :: ys)).1
        (Walk.childSite c.visitor c.visitor_nonGrowing s site xs m ys)).2 [] inner)
    (hend : Tracks c ((Walk.below c.visitor c.visitor_nonGrowing s site).1, es'') out''
      (Walk.below c.visitor c.visitor_nonGrowing s site).2 [] r) :
    c.Loses s site xs m ys ↔ l.assembly.ahead = true ∧ inner.assembly? = none ∧
      inner.mode ≠ .outer ∧ r.assembly?.isSome = true := by
  constructor
  · intro h
    exact ⟨harrival.passed_iff.mp h.passed, hbelow.uncut_iff.mp h.uncut,
      fun hm => h.counted (hbelow.mode.trans hm), hend.planned_iff.mp h.planned⟩
  · rintro ⟨hpassed, huncut, hcounted, hplanned⟩
    exact ⟨harrival.passed_iff.mpr hpassed, hbelow.uncut_iff.mpr huncut,
      fun hm => hcounted (hbelow.mode.symm.trans hm), hend.planned_iff.mpr hplanned⟩

/-- A marker that the walk comes to where a region is open stands once in its parent when the
parent is left, bare or in a slide, unless it is lost as one that was passed over; then it is
gone. -/
theorem holds_unless_loses (c : Cutter) {tree : Node} {s : Progress} {site : Site}
    (comes : Walk.Comes c.visitor c.visitor_nonGrowing {} tree s site)
    (kept : (c.enter s site).removed = false) (entered : (c.enter s site).skipped = false)
    (children : site.node.children? = some (xs ++ m :: ys)) (marker : c.isMarker m = true)
    (start : (Walk.arrival c.visitor c.visitor_nonGrowing s site xs (m :: ys)).1.mode = .start) :
    let a := Walk.arrival c.visitor c.visitor_nonGrowing s site xs (m :: ys)
    let below := Walk.below c.visitor c.visitor_nonGrowing s site
    let left := Walk.left c.visitor c.visitor_nonGrowing s site
    ∃ m' behind out,
      (Walk.subtree c.visitor c.visitor_nonGrowing a.1
        (Walk.childSite c.visitor c.visitor_nonGrowing s site xs m ys)).2 = some m' ∧
      (∃ cs, m' = m.withChildren cs) ∧ below.2 = a.2 ++ m' :: behind ∧
      left.node.children? = some out ∧
      (¬ c.Loses s site xs m ys → c.Holds a.2 m' behind out) ∧
      (c.Loses s site xs m ys → c.Misses a.2 behind out) := by
  intro a below left
  have hroot := rootExcluded_of_comes comes
  let l₀ : Level := { mode := s.mode, slides := s.slides }
  let l := c.levelAll xs (m :: ys) l₀.inside
  let place := Walk.childSite c.visitor c.visitor_nonGrowing s site xs m ys
  have henter : c.enter a.1 place = ⟨a.1.opened, m, false, false⟩ := enter_of_start start marker
  have hkeeps : (c.enter a.1 place).removed = false := by rw [henter]
  have henters : (c.enter a.1 place).skipped = false := by rw [henter]
  obtain ⟨es, _, harrival⟩ :=
    tracks_arrival (l := l₀) [] rfl rfl rfl hroot kept entered xs (m :: ys)
  obtain ⟨_, _, hbelow⟩ := tracks_end es harrival.mode harrival.slides harrival.dropped
    harrival.rootExcluded hkeeps henters
  obtain ⟨_, _, hend⟩ := tracks_end (l := l₀) [] rfl rfl rfl hroot kept entered
  have hmode : l.mode = .start := harrival.mode.symm.trans start
  have hl : Coherent c l (m :: ys) := coherent_levelAll (coherent_of_none rfl _)
  have hawake : l.mode.suppressesDescent = false := by
    rw [hmode]
    rfl
  obtain ⟨hdone, new, hrdone, front, back, hfront, hback, hheld, hlost⟩ :=
    contents_behind_marker hl marker hmode (grows_front l₀ hawake)
  have hr : c.levelBelow site.node l₀ = c.levelAll ys [] (c.level m ys l) := by
    rw [levelBelow, children, Option.getD_some, levelAll_append, List.append_nil, levelAll_cons,
      List.append_nil]
  rw [← hr] at hrdone hheld hlost
  have hloses : c.Loses s site xs m ys ↔ l.assembly.ahead = true ∧
      (c.levelBelow m l).assembly? = none ∧ (c.levelBelow m l).mode ≠ .outer ∧
      (c.levelBelow site.node l₀).assembly?.isSome = true := loses_iff harrival hbelow hend
  rw [← hloses] at hheld hlost
  have hbefore : l.done = a.2 := harrival.done
  have hkept := subtree_of_done harrival hdone (site.depth + 1)
  have hcontainer : site.node.isContainer = true := by
    rw [Node.isContainer, children]
    rfl
  have hleft : left.node = site.node.withChildren (c.childrenOf (c.levelBelow site.node l₀)) :=
    left_node rfl rfl rfl hroot kept entered hcontainer
  rw [hbefore] at hrdone hfront
  refine ⟨_, new, c.childrenOf (c.levelBelow site.node l₀), hkept, ⟨_, rfl⟩, ?_, ?_, ?_, ?_⟩
  · exact hend.done.symm.trans hrdone
  · rw [hleft, Node.children?_withChildren_of_isContainer hcontainer]
  · intro hstays
    refine ⟨(c.levelBelow site.node l₀).pieces, front, back, rfl, ?_, hfront, hback⟩
    rw [contents_pieces, hheld hstays]
  · intro hgone
    refine ⟨(c.levelBelow site.node l₀).pieces, front, back, rfl, ?_, hfront, hback⟩
    rw [contents_pieces, hlost hgone]

theorem holds_unless_loses_open :
    let c := Cutter.ofKeyword "hr" "Slide" ⟨[]⟩ "skip"
    let hr : Node := .element "hr" ⟨[]⟩ []
    let start := Node.note "skip start"
    let tree : Node := .root [.text "a", start, hr, .text "b"]
    let a := Walk.arrival c.visitor c.visitor_nonGrowing {} (Site.top tree) [.text "a", start]
      [hr, .text "b"]
    a.1.mode = .start ∧ ∃ m' behind out,
      (Walk.left c.visitor c.visitor_nonGrowing {} (Site.top tree)).node.children? = some out ∧
        c.Holds a.2 m' behind out := by
  intro c hr start tree a
  have htop : Walk.Comes c.visitor c.visitor_nonGrowing {} tree {} (Site.top tree) := .top
  have hchildren : tree.children? = some ([.text "a", start] ++ hr :: [.text "b"]) := rfl
  have hstart : a.1.mode = .start := by decide +kernel
  obtain ⟨m', behind, out, -, -, -, hout, hholds, -⟩ :=
    c.holds_unless_loses htop (by decide +kernel) (by decide +kernel) hchildren rfl hstart
  refine ⟨hstart, m', behind, out, hout, hholds fun h => ?_⟩
  obtain ⟨plan, hplan, -⟩ := h.passed
  have hnone : a.1.slots.head?.join.isSome = false := by decide +kernel
  rw [hplan] at hnone
  cases hnone

/-- A region that was started in a child that is cut, and a marker behind that child. -/
theorem marker_lost_in_start :
    let c := Cutter.ofKeyword "hr" "Slide" ⟨[]⟩ "skip"
    let hr : Node := .element "hr" ⟨[]⟩ []
    let box : Node := .component (some "Box") ⟨[]⟩ [.text "a", hr, .text "b", .note "skip start"]
    let top := Site.top (.root [box, hr])
    c.isMarker hr = true ∧
      (Walk.arrival c.visitor c.visitor_nonGrowing {} top [box] [hr]).1.mode = .start ∧
      ∀ out, (Walk.left c.visitor c.visitor_nonGrowing {} top).node.children? = some out →
        ∀ before behind, ¬ c.Holds before hr behind out := by
  intro c hr box top
  refine ⟨rfl, by decide +kernel, ?_⟩
  have hnames : (Walk.left c.visitor c.visitor_nonGrowing {} top).node.children?.map
      (·.map Node.name?) = some [some "Box"] := by
    decide +kernel
  rintro out hout before behind ⟨pieces, front, back, rfl, hcontents, -, -⟩
  rw [hout, Option.map_some, Option.some.injEq, List.map_map] at hnames
  obtain ⟨p, rfl, hname⟩ := List.map_eq_singleton_iff.mp hnames
  cases p with
  | slide nodes => exact absurd (Option.some.inj hname) (by decide)
  | bare node =>
    have hmem : hr ∈ Piece.contents [.bare node] := by
      rw [hcontents]
      exact List.mem_append_right _ List.mem_cons_self
    rw [← List.mem_singleton.mp hmem] at hname
    exact absurd (Option.some.inj hname) (by decide)

end Cutter
end SlideDeck
