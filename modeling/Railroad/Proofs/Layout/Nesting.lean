/-
# How levels lie inside their nodes

Sizes are found from the inside out and heights from the outside in, by formulas of their own for
each kind of node.  That they fit is said here in exact numbers, of every node at any depth
(`Item.Nests`) and of every row of the page (`Track.OnTrack`):

* the nodes of a row are on one track and lie inside the row;
* the row of a level lies inside the node that owns the level, on the node's own track or on one
  below it;
* the branches of an alternation follow each other with a gap between them, and what a rerun runs
  back over lies below its body.

It holds of every page that is laid out (`Item.Fits.nests`), and so of the page of a compiled
graph, whatever layouts came before (`arranged_nests`).

Each kind of node has its own reason.  For an option and an iteration the heights follow from the
formula of the box; a rerun has two levels and the group height between them; and an alternation is
an induction over its branches, with the sum of the heights so far as what is carried along
(`Stacked`).
-/
import Railroad.Proofs.Layout.Exact
import Railroad.Proofs.Layout.Tiling

namespace Railroad

open Scalar

/-! ## 1. Rows on a track -/

/-- In exact numbers a part begins where the heights of those before it add up to. -/
theorem Exact.offset_eq (heights : List Rat) : ∀ (top : Rat) (k : Nat),
    offset top heights k = top + (heights.take k).sum := by
  induction heights with
  | nil => exact fun top k => by simp [offset]
  | cons height heights ih =>
    intro top k
    cases k with
    | zero => simp [offset]
    | succ k =>
      rw [List.take_succ_cons, List.sum_cons, ← add_assoc, ← ih]
      rfl

namespace Track

/-- The top of the row that a level begins with, if its track is at the height `line`; `gap` is the
width of a component gap. -/
def rowTop (gap line : Rat) (t : Track (Cell Rat)) : Rat := line - (t.measure gap).ascent

/-- The bottom of that row. -/
def rowBottom (gap line : Rat) (t : Track (Cell Rat)) : Rat := line + (t.measure gap).descent

/-- **The row that a level begins with is on a track:** all its nodes share it and lie inside the
row. -/
def OnTrack (gap line : Rat) (t : Track (Cell Rat)) : Prop :=
  ∀ c ∈ t.rowCells,
    c.box.line = line ∧ t.rowTop gap line ≤ c.box.top ∧ c.box.bottom ≤ t.rowBottom gap line

/-- **A level lies on a track as its only row,** somewhere between the heights `above` and `below`.
A level inside a node has no wrap that ends a row, so one row is all it has. -/
structure LiesIn (gap line above below : Rat) (t : Track (Cell Rat)) : Prop where
  owned : t.IsOwned
  onTrack : t.OnTrack gap line
  above_le : above ≤ t.rowTop gap line
  le_below : t.rowBottom gap line ≤ below

end Track

/-- **The levels of a node lie inside it.**  Those of an option, of a rerun's body and of a branch
are on the track of their owner, the others on the same track or below it.

An alternation is as a whole as high as its head says. -/
def Item.Nests (gap : Size Rat) : Item (Cell Rat) → Prop
  | .symbol _ => True
  | .epsilon _ => True
  | .wrap _ => True
  | .optional c body => body.LiesIn gap.width c.box.line c.box.top c.box.bottom
  | .iteration c body =>
    ∃ line, c.box.line ≤ line ∧ body.LiesIn gap.width line c.box.top c.box.bottom
  | .rerun c body between =>
    body.LiesIn gap.width c.box.line c.box.top c.box.bottom ∧
      ∀ back ∈ between.present, ∃ line, c.box.line ≤ line ∧
        back.LiesIn gap.width line (body.rowBottom gap.width c.box.line) c.box.bottom
  | .choice branches =>
    (∀ level ∈ branches.levels,
      level.2.LiesIn gap.width level.1.box.line level.1.box.top level.1.box.bottom ∧
        level.2.LiesIn gap.width level.1.box.line branches.head.box.top branches.head.box.bottom) ∧
      branches.levels.IsChain fun a b => b.2.rowTop gap.width b.1.box.line
        = a.2.rowBottom gap.width a.1.box.line + gap.height

/-! ## 2. Levels that stand -/

namespace Track

variable {gap : Size Rat}

/-- **A level that stands at a height** begins with a row on one track. -/
theorem StandsAt.onTrack {top : Rat} {t : Track (Cell Rat)} (h : t.StandsAt gap top) :
    t.OnTrack gap.width (top + (t.measure gap.width).ascent) := by
  intro c hc
  obtain ⟨hline, htop, hbottom⟩ := Cell.heights_of_onLine (onLine_rowCells t h c hc)
  obtain ⟨hascent, hdescent⟩ := covers_measure gap.width t c hc
  rw [Cell.descent] at hdescent
  refine ⟨hline, ?_, ?_⟩
  · rw [rowTop]
    linarith
  · rw [rowBottom]
    linarith

/-- A level without wraps that stands between two heights. -/
theorem StandsAt.liesIn {top line above below : Rat} {t : Track (Cell Rat)}
    (h : t.StandsAt gap top) (howned : t.IsOwned)
    (hline : line = top + (t.measure gap.width).ascent)
    (habove : above ≤ top) (hbelow : top + (t.measure gap.width).height ≤ below) :
    t.LiesIn gap.width line above below := by
  subst hline
  refine ⟨howned, h.onTrack, ?_, ?_⟩
  · rw [rowTop]
    linarith
  · rw [RowExtent.height] at hbelow
    rw [rowBottom]
    linarith

end Track

/-! ## 3. Branches -/

namespace Ruler

theorem foldl_stacked (gap : Rat) (heights : List Rat) : ∀ sum : Rat,
    heights.foldl (fun sum height => sum + gap + height) sum
      = sum + (heights.map (gap + ·)).sum := by
  induction heights with
  | nil => exact fun sum => (add_zero sum).symm
  | cons height heights ih =>
    intro sum
    rw [List.foldl_cons, ih, List.map_cons, List.sum_cons]
    ring

/-- **Rows below each other** take their heights and the gaps between them. -/
theorem stackedHeight_cons (gap height : Rat) (heights : List Rat) :
    stackedHeight gap (height :: heights) = height + (heights.map (gap + ·)).sum := by
  rw [stackedHeight, foldl_stacked, Exact.zero_eq, zero_add]

end Ruler

namespace Track

/-- **Branches that stand one below the other,** the first of them at the height `top`.  Between two
of them there is a gap of the height of a component gap. -/
def Stacked (gap : Size Rat) : Rat → List (Cell Rat × Track (Cell Rat)) → Prop
  | _, [] => True
  | top, (c, body) :: others =>
    (c.box.top = top ∧ c.box.line = top + c.box.ascent ∧ body.StandsAt gap top) ∧
      Stacked gap (top + (c.box.size.height + gap.height)) others

variable {gap : Size Rat}

/-- The branches below the head of an alternation stand one below the other, and each is as high as
its row. -/
theorem BranchesStandAt.stacked : ∀ {bs : Branches (Cell Rat)} {top : Rat},
    BranchesStandAt gap top bs → Stacked gap top bs.levels ∧
      ∀ level ∈ bs.levels, level.1.box.bottom = level.1.box.top + level.1.box.size.height
  | .last c body, top, h => by
    simp only [BranchesStandAt, placedBranches, Branches.last.injEq] at h
    obtain ⟨hc, hbody⟩ := h
    rw [← hc]
    exact ⟨⟨⟨rfl, rfl, hbody⟩, trivial⟩, List.forall_mem_singleton.mpr rfl⟩
  | .more c body others, top, h => by
    simp only [BranchesStandAt, placedBranches, Branches.more.injEq] at h
    obtain ⟨hc, hbody, hothers⟩ := h
    obtain ⟨hstacked, hbottom⟩ := BranchesStandAt.stacked hothers
    rw [← hc]
    exact ⟨⟨⟨rfl, rfl, hbody⟩, hstacked⟩, List.forall_mem_cons.mpr ⟨rfl, hbottom⟩⟩

/-- Each branch lies within the height of all of them together. -/
theorem Stacked.between (hgap : 0 ≤ gap.height) : ∀ {levels : List (Cell Rat × Track (Cell Rat))}
    {top : Rat}, Stacked gap top levels → (∀ level ∈ levels, 0 ≤ level.1.box.size.height) →
    ∀ level ∈ levels, top ≤ level.1.box.top ∧ level.1.box.top + level.1.box.size.height
      ≤ top + Ruler.stackedHeight gap.height (levels.map (·.1.box.size.height))
  | [], _, _, _ => List.forall_mem_nil _
  | (c, body) :: others, top, ⟨⟨htop, _, _⟩, hothers⟩, hheight => by
    obtain ⟨hc, hrest⟩ := List.forall_mem_cons.mp hheight
    have hsum : 0 ≤ ((others.map (·.1.box.size.height)).map (gap.height + ·)).sum := by
      refine List.sum_nonneg ?_
      simp only [List.forall_mem_map]
      exact fun level hlevel => add_nonneg hgap (hrest level hlevel)
    rw [List.map_cons, Ruler.stackedHeight_cons]
    refine List.forall_mem_cons.mpr ⟨⟨htop.ge, ?_⟩, fun level hlevel => ?_⟩
    · rw [htop]
      linarith
    · obtain ⟨habove, hbelow⟩ := Stacked.between hgap hothers hrest level hlevel
      refine ⟨by linarith, hbelow.trans ?_⟩
      cases others with
      | nil => exact absurd hlevel List.not_mem_nil
      | cons other others =>
        rw [List.map_cons, Ruler.stackedHeight_cons, List.map_cons, List.sum_cons]
        linarith

/-- A branch that is as large as its row. -/
def Fills (gap : Rat) (level : Cell Rat × Track (Cell Rat)) : Prop :=
  level.1.box.size = (level.2.measure gap).size ∧
    level.1.box.ascent = (level.2.measure gap).ascent

theorem Fills.height_eq {level : Cell Rat × Track (Cell Rat)} (h : Fills gap.width level) :
    level.1.box.size.height = (level.2.measure gap.width).height := by
  rw [h.1]
  rfl

/-- **Branches that stand one below the other have a gap between them.** -/
theorem Stacked.isChain : ∀ {levels : List (Cell Rat × Track (Cell Rat))} {top : Rat},
    Stacked gap top levels → (∀ level ∈ levels, Fills gap.width level) →
    levels.IsChain fun a b => b.2.rowTop gap.width b.1.box.line
      = a.2.rowBottom gap.width a.1.box.line + gap.height
  | [], _, _, _ => .nil
  | [_], _, _, _ => .singleton _
  | (c, body) :: (d, below) :: others, top, ⟨⟨_, hline, _⟩, hothers⟩, hfills => by
    obtain ⟨hc, hrest⟩ := List.forall_mem_cons.mp hfills
    obtain ⟨hd, -⟩ := List.forall_mem_cons.mp hrest
    refine List.isChain_cons_cons.mpr ⟨?_, Stacked.isChain hothers hrest⟩
    have hheight : c.box.size.height = (body.measure gap.width).ascent
      + (body.measure gap.width).descent := hc.height_eq
    have hascent : c.box.ascent = (body.measure gap.width).ascent := hc.2
    have hbelow : d.box.ascent = (below.measure gap.width).ascent := hd.2
    have hnext : d.box.line = top + (c.box.size.height + gap.height) + d.box.ascent := hothers.1.2.1
    simp only [rowTop, rowBottom]
    linarith

theorem Stacked.liesIn : ∀ {levels : List (Cell Rat × Track (Cell Rat))} {top : Rat},
    Stacked gap top levels → (∀ level ∈ levels, Fills gap.width level) →
    (∀ level ∈ levels, level.2.IsOwned) → ∀ level ∈ levels, ∀ above below : Rat,
    above ≤ level.1.box.top → level.1.box.top + level.1.box.size.height ≤ below →
    level.2.LiesIn gap.width level.1.box.line above below
  | [], _, _, _, _ => List.forall_mem_nil _
  | (c, body) :: others, top, ⟨⟨htop, hline, hstands⟩, hothers⟩, hfills, howned => by
    obtain ⟨hc, hrest⟩ := List.forall_mem_cons.mp hfills
    obtain ⟨ho, horest⟩ := List.forall_mem_cons.mp howned
    refine List.forall_mem_cons.mpr ⟨fun above below habove hbelow => ?_,
      Stacked.liesIn hothers hrest horest⟩
    have hheight := hc.height_eq
    rw [htop] at habove hbelow
    refine hstands.liesIn ho ?_ habove ?_
    · rw [hline, hc.2]
    · rw [← hheight]
      exact hbelow

end Track

/-! ## 4. Nodes that stand -/

/-- The branches of an alternation that stands are stacked, and lie within its height. -/
theorem Item.Stands.stacked {gap : Size Rat} {line : Rat} {branches : Branches (Cell Rat)}
    (h : (Item.choice branches).Stands gap line) :
    Track.Stacked gap branches.head.box.top branches.levels ∧
      branches.head.onLine line = branches.head ∧
      ∀ level ∈ branches.levels.tail,
        level.1.box.bottom = level.1.box.top + level.1.box.size.height := by
  cases branches with
  | last c body =>
    obtain ⟨hc, hbody⟩ := h
    obtain ⟨hline, htop, -⟩ := Cell.heights_of_onLine hc
    have hascent : c.box.line = c.box.top + c.box.ascent := by linarith
    exact ⟨⟨⟨rfl, hascent, hbody⟩, trivial⟩, hc, List.forall_mem_nil _⟩
  | more c body others =>
    obtain ⟨hc, hbody, hothers⟩ := h
    obtain ⟨hline, htop, -⟩ := Cell.heights_of_onLine hc
    obtain ⟨hstacked, hbottom⟩ := Track.BranchesStandAt.stacked hothers
    have hascent : c.box.line = c.box.top + c.box.ascent := by linarith
    exact ⟨⟨⟨rfl, hascent, hbody⟩, hstacked⟩, hc, hbottom⟩

/-- The branches of an alternation that stands lie inside it, with a gap between them. -/
theorem Item.nests_choice {r : Ruler Rat} {branches : Branches (Cell Rat)} {line : Rat}
    (hproper : (Item.choice branches).Proper (·.node.kind))
    (hsized : (Item.choice branches).Sized r)
    (h : (Item.choice branches).Stands r.settings.componentGap line)
    (hgap : 0 ≤ r.settings.componentGap.height) :
    (Item.choice branches).Nests r.settings.componentGap := by
  obtain ⟨hstacked, hhead, htail⟩ := h.stacked
  obtain ⟨hline, htop, hbottom⟩ := Cell.heights_of_onLine hhead
  have hextent : branches.head.extent = branches.head.box.group := extent_mark hproper
  have hfills : ∀ level ∈ branches.levels, Track.Fills r.settings.componentGap.width level :=
    hsized.2
  have hbetween := hstacked.between hgap fun level hlevel => by
    rw [(hfills level hlevel).height_eq]
    exact level.2.height_nonneg _
  have hgroup : branches.head.box.bottom = branches.head.box.top
      + Ruler.stackedHeight r.settings.componentGap.height
        (branches.levels.map (·.1.box.size.height)) := by
    rw [hbottom, hextent, hsized.1, Ruler.groupSize, Track.marks_eq_levels]
    simp only [List.map_map, Function.comp_def]
  rw [← hgroup] at hbetween
  have hlies := hstacked.liesIn hfills fun level hlevel => (hproper level hlevel).2
  refine ⟨fun level hlevel => ⟨?_, ?_⟩, hstacked.isChain hfills⟩
  · refine hlies level hlevel _ _ (le_refl _) ?_
    -- The head's bottom is that of the whole alternation, the others' their own.
    obtain ⟨body, hlevels⟩ := Track.levels_eq_head_cons branches
    have hmem := hlevel
    rw [hlevels] at hmem
    rcases List.mem_cons.mp hmem with rfl | hmem
    · exact (hbetween _ hlevel).2
    · exact (htail level hmem).ge
  · exact hlies level hlevel _ _ (hbetween level hlevel).1 (hbetween level hlevel).2

/-- **The levels of a node that stands lie inside it.** -/
theorem Item.Fits.nests {r : Ruler Rat} {item : Item (Cell Rat)} (hfits : item.Fits r)
    (hs : r.settings.NonNeg) : item.Nests r.settings.componentGap := by
  obtain ⟨hproper, hsized, line, h⟩ := hfits
  have hgap := hs.gapHeight
  have hextent := extent_mark hproper
  cases item with
  | symbol _ | epsilon _ | wrap _ => trivial
  | optional c body =>
    obtain ⟨hline, htop, hbottom⟩ := Cell.heights_of_onLine h.1
    change c.extent = c.box.size at hextent
    obtain ⟨hsize, hascent⟩ := hsized.optional_box
    rw [hextent, hsize] at hbottom
    refine h.2.liesIn hproper.2 ?_ ?_ ?_
    all_goals simp only [Exact.two_eq] at *; linarith
  | iteration c body =>
    obtain ⟨hline, htop, hbottom⟩ := Cell.heights_of_onLine h.1
    change c.extent = c.box.size at hextent
    obtain ⟨hsize, hascent⟩ := hsized.iteration_box hs
    rw [hextent, hsize] at hbottom
    refine ⟨_, ?_, h.2.liesIn hproper.2 rfl ?_ ?_⟩
    · linarith [body.ascent_nonneg r.settings.componentGap.width]
    · linarith
    · linarith
  | rerun c body between =>
    obtain ⟨hline, htop, hbottom⟩ := Cell.heights_of_onLine h.1
    change c.extent = c.box.size at hextent
    obtain ⟨hgroup, -, hascent, hheight, -⟩ := hsized.rerun_box hs
    have hbody : c.box.group.height = (body.measure r.settings.componentGap.width).height := by
      rw [hgroup]
      rfl
    have hback := between.height_nonneg r.settings.componentGap.width
    rw [hextent] at hbottom
    refine ⟨h.2.1.liesIn hproper.2.1 ?_ (le_refl _) ?_, fun back hmem => ?_⟩
    · linarith
    · linarith
    · obtain ⟨rfl, hpresent⟩ := Track.mem_present.mp hmem
      refine ⟨_, ?_, h.2.2.liesIn ⟨hpresent, hproper.2.2⟩ rfl ?_ ?_⟩
      · rw [RowExtent.height] at hbody
        linarith [back.ascent_nonneg r.settings.componentGap.width,
          body.descent_nonneg r.settings.componentGap.width]
      · rw [RowExtent.height] at hbody
        rw [Track.rowBottom]
        linarith
      · linarith
  | choice branches => exact nests_choice hproper hsized h hgap

/-! ## 5. Compiled graphs -/

/-- **On the page of a compiled graph everything lies inside what it belongs to.**  Whatever layouts
the graph has been through, with settings that pass their check:

* the rows of the page have all its nodes but the wraps; they lie one below the other, from the top
  margin on, and the nodes of each row share its track and lie inside it;
* the levels of every node, at any depth, lie inside the node, on the tracks that are meant for
  them, branches with a gap between them.

Labels may be of any size here, negative sizes included: what lies in what is a matter of how boxes
are put together. -/
theorem arranged_nests {registry : Build.Registry} {collapsing : Bool} {p : Production} {g : Graph}
    (h : (Build.compile registry collapsing p).1 = .ok g) (rulers : List (Ruler Rat))
    {r : Ruler Rat} (hr : r.settings.validate = .ok ()) :
    let gap := r.settings.componentGap
    let page := ((g.afterLayouts rulers).arranged r).1
    page.rowStarts.flatMap Track.rowCells = page.chain.filter (·.node.kind != .wrap) ∧
      (∀ (k : Nat) (start : Track (Cell Rat)), page.rowStarts[k]? = some start →
        ∃ line, start.OnTrack gap.width line ∧ start.rowTop gap.width line
          = r.settings.margin.top + (((page.rows gap.width).take k).map RowExtent.height).sum) ∧
      ∀ item ∈ page.items, item.Nests gap := by
  intro gap page
  have hpage : page.LaidOut r := Build.laidOut_of_compile h rulers r
  have hs := LayoutSettings.nonNeg_of_validate hr
  refine ⟨page.flatMap_rowCells fun item hitem => (hpage.fits item hitem).proper,
    fun k start hk => ?_, fun item hitem => (hpage.fits item hitem).nests hs⟩
  have hstands := Track.standsAt_rowStarts hpage.stands hk
  rw [Exact.offset_eq, ← List.map_take] at hstands
  exact ⟨_, hstands.onTrack, add_sub_cancel_right _ _⟩

/-- The production `p = { "a" | "b" }`. -/
def repeatedChoice : Production where
  name := "p"
  expr := .repetition (.alternation [.literal ⟨"a", {}⟩, .literal ⟨"b", {}⟩])

/-- Its graph. -/
def repeatedChoiceGraph : Graph where
  nodes := #[{ serial := 0, kind := .terminal, symbol := some 0, next := some 4, escapes := true },
    { serial := 1, kind := .alternative, next := some 4, escapes := true, down := some 3,
      sub := some 0 },
    { serial := 2, kind := .terminal, symbol := some 1, next := some 4, escapes := true },
    { serial := 3, kind := .alternative, next := some 4, escapes := true, sub := some 2 },
    { serial := 4, kind := .iteration, sub := some 1 }]
  entry := 4

/-- The labels of its words, with the measures that are in force unless others are set. -/
def repeatedChoiceRuler : Ruler Rat :=
  .ofSymbols .default ⟨[(.terminal, "a"), (.terminal, "b")]⟩

theorem compile_repeatedChoice :
    (Build.compile {} true repeatedChoice).1 = .ok repeatedChoiceGraph := by cbv

theorem validate_repeatedChoiceRuler : repeatedChoiceRuler.settings.validate = .ok () := by
  decide +kernel

/-- The choice lies below the track of the loop around it, and its words below each other. -/
theorem arranged_nests_repeatedChoice :
    (Build.compile {} true repeatedChoice).1 = .ok repeatedChoiceGraph ∧
      repeatedChoiceRuler.settings.validate = .ok () ∧
      ∀ item ∈ (repeatedChoiceGraph.arranged repeatedChoiceRuler).1.items,
        item.Nests repeatedChoiceRuler.settings.componentGap :=
  ⟨compile_repeatedChoice, validate_repeatedChoiceRuler,
    (arranged_nests compile_repeatedChoice [] validate_repeatedChoiceRuler).2.2⟩

end Railroad
