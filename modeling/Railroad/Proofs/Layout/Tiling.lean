/-
# Rows that tile a page

The height of a row is found three times: when the rows are set it is stored on the wrap that ends
the row, it is measured again for the rows of the page, and once more where the next row is placed.
No law of arithmetic makes the three agree; they are the same sums and maxima in the same order, of
the same nodes, and so agree to the last bit in whatever numbers a page is laid out.

`Track.heights_breakers_placed` says so of the wraps, `Track.standsAt_rowStarts` of the places of
the rows, and `Track.rowEnd_of_breakers` that the wraps are the ends of the rows in order.  With
these the rows of a page tile it (`layout_tiles`).

Equality of floating-point numbers is proved here without any theory of rounding.  Two folds over
the same list from the same start are the same fold; all that has to be shown is that they are,
although one of them adds widths on the way and the other does not.
-/
import Railroad.Proofs.Layout.LaidOut

namespace Railroad

open Scalar

variable {α : Type} [Scalar α]

/-! ## 1. Parts one below the other -/

/-- **Where the part of number `k` begins** when parts of some heights are put one below the other,
the first of them at `top`.  It is added up from the top, part by part, in the order in which a
layout does that. -/
def Scalar.offset (top : α) (heights : List α) (k : Nat) : α :=
  (heights.take k).foldl (· + ·) top

theorem Scalar.offset_succ {top height : α} {heights : List α} {k : Nat}
    (h : heights[k]? = some height) :
    offset top heights (k + 1) = offset top heights k + height := by
  rw [offset, offset, List.take_add_one, h, Option.toList_some, List.foldl_append, List.foldl_cons,
    List.foldl_nil]

namespace Track

variable {gap : Size α}

/-- The rows of a level that come after the first one stand one below the other. -/
theorem standsAt_laterRows (t : Track (Cell α)) : ∀ {top : α} {row : RowExtent α},
    t.StandsFrom gap top row → ∀ (k : Nat) (start : Track (Cell α)),
    t.laterRows[k]? = some start → start.StandsAt gap (offset (top + row.height)
      (t.laterRows.map fun s => (s.measure gap.width).height) k) := by
  induction t using row_induction with
  | stop => exact fun _ k _ hk => by simp [laterRows] at hk
  | wrap c rest ih =>
    intro top row h k start hk
    have hrest := standsFrom_wrap h
    rw [laterRows] at hk ⊢
    split at hrest
    case isTrue hh =>
      rw [if_pos hh] at hk ⊢
      cases k with
      | zero =>
        obtain rfl : rest = start := by simpa using hk
        exact hrest
      | succ k => exact ih hrest k start (by simpa using hk)
    case isFalse hh =>
      rw [if_neg hh] at hk ⊢
      exact ih hrest k start hk
  | before item rest hitem _ ih =>
    intro top row h k start hk
    rw [laterRows_before hitem] at hk ⊢
    exact ih ((standsFrom_before hitem).mp h).2 k start hk

/-- **The rows of a level that stands somewhere stand one below the other,** each where the heights
of the rows before it lead. -/
theorem standsAt_rowStarts {top : α} {t : Track (Cell α)} (h : t.StandsAt gap top) {k : Nat}
    {start : Track (Cell α)} (hk : t.rowStarts[k]? = some start) :
    start.StandsAt gap (offset top ((t.rows gap.width).map RowExtent.height) k) := by
  rw [rows_eq, List.map_map, rowStarts]
  cases k with
  | zero =>
    obtain rfl : t = start := by simpa [rowStarts] using hk
    exact h
  | succ k => exact standsAt_laterRows t h k start (by simpa [rowStarts] using hk)

/-! ## 2. Rows and the wraps that end them -/

/-- **The wraps of a level that break their row,** in order. -/
def breakers (t : Track (Cell α)) : List (Cell α) := t.chain.filter Cell.breaks

theorem breaks_mark {item : Item (Cell α)} (hitem : item.isWrap = false)
    (h : item.Proper (·.node.kind)) : item.mark.breaks = false := by
  have hkind := h.kind_mark
  rw [hitem] at hkind
  rw [Cell.breaks, beq_false_of_ne (bne_iff_ne.mp hkind), Bool.false_and]

theorem breakers_before {item : Item (Cell α)} {rest : Track (Cell α)}
    (hitem : item.isWrap = false) (h : item.Proper (·.node.kind)) :
    (item.before rest).breakers = rest.breakers := by
  rw [breakers, chain_before, List.filter_cons_of_neg (by rw [breaks_mark hitem h]; decide)]
  rfl

theorem breakers_wrap {c : Cell α} {rest : Track (Cell α)} (hc : c.node.kind = .wrap) :
    (wrap c rest).breakers = if c.box.hasHeight then c :: rest.breakers else rest.breakers := by
  rw [breakers, chain, List.filter_cons, Cell.breaks, hc]
  rfl

/-- **The wrap of a number ends the row of that number.** -/
theorem rowEnd_of_breakers (t : Track (Cell α)) : (∀ item ∈ t.items, item.Proper (·.node.kind)) →
    ∀ {k : Nat} {w : Cell α}, t.breakers[k]? = some w →
    ∃ start rest, t.rowStarts[k]? = some start ∧ start.rowEnd = .wrap w rest := by
  induction t using row_induction with
  | stop => exact fun _ _ _ hw => by simp [breakers, chain] at hw
  | wrap c rest ih =>
    intro h k w hw
    obtain ⟨hwrap, hrest⟩ := List.forall_mem_cons.mp h
    have hc : c.node.kind = .wrap := hwrap
    rw [breakers_wrap hc] at hw
    rw [rowStarts, laterRows]
    split at hw
    case isTrue hh =>
      rw [if_pos hh]
      cases k with
      | zero =>
        obtain rfl : c = w := by simpa using hw
        exact ⟨_, rest, rfl, by rw [rowEnd, if_pos hh]⟩
      | succ k => exact ih hrest (by simpa using hw)
    case isFalse hh =>
      rw [if_neg hh]
      obtain ⟨start, after, hstart, hend⟩ := ih hrest hw
      cases k with
      | zero =>
        obtain rfl : rest = start := by simpa [rowStarts] using hstart
        exact ⟨_, after, rfl, by rw [rowEnd, if_neg hh, hend]⟩
      | succ k => exact ⟨start, after, by simpa [rowStarts] using hstart, hend⟩
  | before item rest hitem _ ih =>
    intro h k w hw
    obtain ⟨hproper, -, hrest⟩ := forall_items_before.mp h
    rw [breakers_before hitem hproper] at hw
    obtain ⟨start, after, hstart, hend⟩ := ih hrest hw
    rw [rowStarts, laterRows_before hitem]
    cases k with
    | zero =>
      obtain rfl : rest = start := by simpa [rowStarts] using hstart
      exact ⟨_, after, rfl, by rw [rowEnd_before hitem, hend]⟩
    | succ k => exact ⟨start, after, by simpa [rowStarts] using hstart, hend⟩

/-- Where a row ends, the wrap there reaches from its top down by its own height. -/
theorem StandsAt.rowEnd_place (t : Track (Cell α)) : ∀ {top : α} {row : RowExtent α},
    t.StandsFrom gap top row → ∀ {w : Cell α} {rest : Track (Cell α)},
    t.rowEnd = .wrap w rest → w.box.top = top ∧ w.box.bottom = top + w.box.size.height := by
  induction t using row_induction with
  | stop => exact fun _ _ _ hend => by cases hend
  | wrap c rest ih =>
    intro top row h w after hend
    have hrest := standsFrom_wrap h
    rw [StandsFrom, placed_wrap, wrap.injEq] at h
    rw [rowEnd] at hend
    split at hend
    case isTrue hh =>
      obtain ⟨rfl, rfl⟩ := wrap.inj hend
      rw [← h.1]
      exact ⟨rfl, rfl⟩
    case isFalse hh =>
      rw [if_neg hh] at hrest
      exact ih hrest hend
  | before item rest hitem _ ih =>
    intro top row h w after hend
    rw [rowEnd_before hitem] at hend
    exact ih ((standsFrom_before hitem).mp h).2 hend

/-! ## 3. Rows and their nodes -/

/-- **A row reaches as far above and below its track as the nodes of it that reach farthest.** -/
theorem measureFrom_reach (w : α) (t : Track (Cell α)) : ∀ row : RowExtent α,
    (t.measureFrom w row).ascent = (t.rowCells.map (·.box.ascent)).foldl larger row.ascent ∧
      (t.measureFrom w row).descent = (t.rowCells.map Cell.descent).foldl larger row.descent := by
  induction t using row_induction with
  | stop => exact fun _ => ⟨rfl, rfl⟩
  | wrap c rest ih =>
    intro row
    rw [measureFrom, rowCells]
    split
    · exact ⟨rfl, rfl⟩
    · exact ih row
  | before item rest hitem _ ih =>
    intro row
    rw [measureFrom_before hitem, rowCells_before hitem]
    exact ih _

theorem measure_reach (w : α) (t : Track (Cell α)) :
    (t.measure w).ascent = largest (t.rowCells.map (·.box.ascent)) ∧
      (t.measure w).descent = largest (t.rowCells.map Cell.descent) :=
  measureFrom_reach w t _

end Track

/-! ## 4. The heights of wraps -/

/-- A change of the node itself that leaves its kind alone leaves it proper. -/
theorem Item.proper_mapMark {β : Type} {kind : β → NodeKind} {f : β → β}
    (hf : ∀ b, kind (f b) = kind b) {item : Item β} :
    (item.mapMark f).Proper kind ↔ item.Proper kind := by
  cases item with
  | choice branches =>
    cases branches <;>
      simp only [Item.mapMark, Item.Proper, Branches.mapHead, Branches.levels,
        List.forall_mem_cons, hf]
  | _ => simp only [Item.mapMark, Item.Proper, hf]

theorem Item.isWrap_mapMark {β : Type} {f : β → β} {item : Item β} :
    (item.mapMark f).isWrap = item.isWrap := by
  cases item <;> rfl

namespace Track

theorem idle_before {item : Item (Cell α)} {rest : Track (Cell α)} (hitem : item.isWrap = false) :
    (item.before rest).Idle ↔ rest.Idle := by
  cases item with
  | wrap _ => cases hitem
  | _ => exact Iff.rfl

theorem dropLast_rowsFrom (w : α) (t : Track (Cell α)) (height : α) (row : RowExtent α) :
    (height :: (t.rowsFrom w row).map RowExtent.height).dropLast
      = height :: ((t.rowsFrom w row).map RowExtent.height).dropLast := by
  rw [rowsFrom_eq, List.map_cons, List.dropLast_cons_cons]

open frozenFrom in
/-- **When the rows are set, the wraps that break them get their heights.**  A row is measured here
without the widths of its nodes, from the extent `row` on, and later with them, from `row'` on; for
its height that makes no difference. -/
theorem heights_frozenFrom (w : α) (used : NodeId → Bool) (t : Track (Cell α)) :
    ∀ row row' : RowExtent α, row.ascent = row'.ascent → row.descent = row'.descent → t.Idle →
    (∀ item ∈ t.items, item.Proper (·.node.kind)) →
    (t.frozenFrom used row).breakers.map (·.box.size.height)
      = (((t.frozenFrom used row).rowsFrom w row').map RowExtent.height).dropLast := by
  induction t using row_induction with
  | stop => exact fun _ _ _ _ _ _ => rfl
  | wrap c rest ih =>
    intro row row' hascent hdescent hidle h
    obtain ⟨hwrap, hrest⟩ := List.forall_mem_cons.mp h
    have hheight : row.height = row'.height := by
      rw [RowExtent.height, RowExtent.height, hascent, hdescent]
    rw [frozenFrom]
    split
    case isTrue hused =>
      let set : Cell α := (onPage c).mapBox ({ · with size := ⟨0.0, row.height⟩ })
      have hset : set.node.kind = .wrap := hwrap
      have hh : set.box.hasHeight = true := ((Bool.and_eq_true _ _).mp hused).2
      rw [breakers_wrap hset, if_pos hh, rowsFrom, if_pos hh, List.map_cons, List.map_cons,
        dropLast_rowsFrom, ih _ _ rfl rfl hidle.2 hrest, ← hheight]
      rfl
    case isFalse =>
      have hkind : (onPage c).node.kind = .wrap := hwrap
      have hh : ¬(onPage c).box.hasHeight = true := by
        rw [Bool.not_eq_true]
        exact hidle.1
      rw [breakers_wrap hkind, if_neg hh, rowsFrom, if_neg hh]
      exact ih _ _ hascent hdescent hidle.2 hrest
  | before item rest hitem _ ih =>
    intro row row' hascent hdescent hidle h
    obtain ⟨hproper, -, hrest⟩ := forall_items_before.mp h
    have hmark : (item.mapMark onPage).isWrap = false := Item.isWrap_mapMark.trans hitem
    have hplain : (item.mapMark onPage).Proper (·.node.kind) :=
      (Item.proper_mapMark (f := onPage) fun _ => rfl).mpr hproper
    rw [frozenFrom_before hitem, breakers_before hmark hplain, rowsFrom_before hmark,
      Item.mark_mapMark]
    refine ih _ _ ?_ ?_ ((idle_before hitem).mp hidle) hrest
    · exact congrArg (larger · item.mark.box.ascent) hascent
    · exact congrArg (larger · item.mark.descent) hdescent

/-- Placing a level keeps the heights of its wraps. -/
theorem heights_breakers_placed (gap : Size α) (t : Track (Cell α)) (top : α) (row : RowExtent α) :
    (t.placed gap top row).breakers.map (·.box.size.height)
      = t.breakers.map (·.box.size.height) := by
  let seen (c : Cell α) : Bool × α := (c.breaks, c.box.size.height)
  have hchain : ∀ t : Track (Cell α), t.breakers.map (·.box.size.height)
      = ((t.map seen).chain.filter Prod.fst).map Prod.snd := by
    intro t
    rw [chain_map, List.filter_map, List.map_map]
    rfl
  rw [hchain, hchain, map_placed fun _ _ _ _ => rfl]

/-! ## 5. Rows that share nothing -/

/-- **A node that is no wrap is in one row of its level only.** -/
theorem existsUnique_row {t : Track (Cell α)} (h : ∀ item ∈ t.items, item.Proper (·.node.kind))
    (hnodup : t.chain.Nodup) {c : Cell α} (hc : c ∈ t.chain) (hkind : c.node.kind ≠ .wrap) :
    ∃! i : Nat, ∃ start, t.rowStarts[i]? = some start ∧ c ∈ start.rowCells := by
  have hmem : c ∈ t.rowStarts.flatMap rowCells := by
    rw [flatMap_rowCells t h]
    exact List.mem_filter.mpr ⟨hc, bne_iff_ne.mpr hkind⟩
  have hapart : t.rowStarts.Pairwise fun a b => a.rowCells.Disjoint b.rowCells := by
    refine (List.nodup_flatMap.mp ?_).2
    rw [flatMap_rowCells t h]
    exact hnodup.filter _
  obtain ⟨start, hstart, hrow⟩ := List.mem_flatMap.mp hmem
  obtain ⟨i, hi⟩ := List.getElem?_of_mem hstart
  refine ⟨i, ⟨start, hi, hrow⟩, ?_⟩
  rintro j ⟨other, hj, hother⟩
  obtain ⟨hi', rfl⟩ := List.getElem?_eq_some_iff.mp hi
  obtain ⟨hj', rfl⟩ := List.getElem?_eq_some_iff.mp hj
  have hdisjoint := List.pairwise_iff_getElem.mp hapart
  rcases Nat.lt_trichotomy j i with hlt | heq | hgt
  · exact (hdisjoint j i hj' hi' hlt hother hrow).elim
  · exact heq
  · exact (hdisjoint i j hi' hj' hgt hrow hother).elim

end Track

/-! ## 6. Layouts -/

/-- **The rows of a layout tile its page** from the height `top` down. -/
structure Layout.Tiles (top : α) (l : Layout α) : Prop where
  /-- A row ends at each wrap that breaks its row, and one at the end of the level. -/
  count : l.rowHeights.length = l.track.breakers.length + 1
  starts : l.track.rowStarts.length = l.rowHeights.length
  /-- A wrap is as high as the row it ends, and leads from the top of that row to the top of the
  next one. -/
  wrap : ∀ (i : Nat) (w : Cell α), l.track.breakers[i]? = some w →
    l.rowHeights[i]? = some w.box.size.height ∧
      w.box.top = offset top l.rowHeights i ∧ w.box.bottom = offset top l.rowHeights (i + 1) ∧
      ∃ start rest, l.track.rowStarts[i]? = some start ∧ start.rowEnd = .wrap w rest
  /-- Each other node of the level is in one of the rows, and in no other. -/
  row : ∀ c ∈ l.track.chain, c.node.kind ≠ .wrap →
    ∃! i : Nat, ∃ start, l.track.rowStarts[i]? = some start ∧ c ∈ start.rowCells
  /-- The nodes of a row share a track, which is as far below its top as the largest of their
  ascents. -/
  line : ∀ (i : Nat) (start : Track (Cell α)), l.track.rowStarts[i]? = some start →
    (∀ c ∈ start.rowCells, c.box.line
      = offset top l.rowHeights i + largest (start.rowCells.map (·.box.ascent))) ∧
    l.rowHeights[i]? = some (largest (start.rowCells.map (·.box.ascent))
      + largest (start.rowCells.map Cell.descent))

namespace Wrapped

variable {g₀ g : Graph} {t₀ : Track NodeId} {w : NodeId → Option NodeId}

/-- No node is twice on the page of a layout. -/
theorem nodup_arranged (hbare : g₀.Bare t₀) (h : Wrapped g₀ t₀ g w) (r : Ruler α) :
    (g.arranged r).1.toList.Nodup := by
  obtain ⟨w', h'⟩ := h.exists_breakRows hbare r
  have hids := Graph.ids_page (h'.hasTree hbare) (g.spots_arranged r)
  have hnodup : ((g.arranged r).1.toList.map (·.id)).Nodup := by
    rw [hids]
    exact (h'.hasTree hbare).nodup
  exact hnodup.of_map

/-- **The heights on the wraps of a page are those of its rows,** but for the last one. -/
theorem heights_arranged (hbare : g₀.Bare t₀) (h : Wrapped g₀ t₀ g w) (r : Ruler α)
    (hzero : lt (0.0 : α) 0.0 = false) :
    (g.arranged r).1.breakers.map (·.box.size.height)
      = ((g.arranged r).2.map RowExtent.height).dropLast := by
  obtain ⟨w', h'⟩ := h.exists_breakRows hbare r
  have hproper : ∀ item ∈ ((g.breakRows r).1.track.sized r).items, item.Proper (·.node.kind) := by
    have hspots := h'.items_proper hbare
    rw [← Track.spots_sized r (g.breakRows r).1.track, Track.items_map, List.forall_mem_map]
      at hspots
    exact fun item hitem => (Item.proper_map (f := Cell.toSpot) item).mp (hspots item hitem)
  rw [Graph.arranged, Graph.arrange_eq, Track.heights_breakers_placed]
  exact Track.heights_frozenFrom _ _ _ _ _ rfl rfl (Track.idle_sized r hzero _) hproper

end Wrapped

/-- **The rows of a layout tile its page, bit for bit,** for every compiled graph and whatever
layouts it has been through.

Bit for bit means that the running sums are those that the layout computes, with its roundings:
where a row begins is the same number that was added up for it, and not one that is near it.  So no
law of addition can be used, not even that sums may be bracketed in another way. -/
theorem layout_tiles {registry : Build.Registry} {collapsing : Bool} {p : Production} {g : Graph}
    (h : (Build.compile registry collapsing p).1 = .ok g) (rulers : List (Ruler Float32))
    (r : Ruler Float32) {l : Layout Float32} (hl : ((g.afterLayouts rulers).layout r).1 = .ok l) :
    l.Tiles r.settings.margin.top := by
  obtain ⟨t, hbare⟩ := Build.bare_of_compile h
  obtain ⟨w, hw⟩ := (Wrapped.refl g t).afterLayouts hbare rulers
  obtain ⟨htrack, hrows, -⟩ := Graph.layout_ok hl
  have hpage : l.track.LaidOut r := htrack ▸ hw.laidOut hbare r
  have hproper : ∀ item ∈ l.track.items, item.Proper (·.node.kind) := fun item hitem =>
    (hpage.fits item hitem).proper
  have hstarts : l.rowHeights
      = l.track.rowStarts.map fun s => (s.measure r.settings.componentGap.width).height := by
    rw [Layout.rowHeights, hrows, Graph.rows_arranged, ← htrack, Track.rows_eq, List.map_map]
    rfl
  have hheights : l.track.breakers.map (·.box.size.height) = l.rowHeights.dropLast := by
    rw [Layout.rowHeights, htrack, hrows]
    exact hw.heights_arranged hbare r (by decide)
  have hstands (i : Nat) (start : Track (Cell Float32)) (hi : l.track.rowStarts[i]? = some start) :
      start.StandsAt r.settings.componentGap (offset r.settings.margin.top l.rowHeights i) ∧
        l.rowHeights[i]? = some (start.measure r.settings.componentGap.width).height := by
    have hstandsAt := Track.standsAt_rowStarts hpage.stands hi
    rw [Track.rows_eq, List.map_map] at hstandsAt
    rw [hstarts]
    exact ⟨hstandsAt, by rw [List.getElem?_map, hi]; rfl⟩
  constructor
  case count =>
    have hlength := congrArg List.length hheights
    have hpos : 0 < l.rowHeights.length := by
      rw [hstarts]
      exact Nat.succ_pos _
    rw [List.length_map, List.length_dropLast] at hlength
    omega
  case starts => rw [hstarts, List.length_map]
  case wrap =>
    intro i w hi
    obtain ⟨start, rest, hstart, hend⟩ := Track.rowEnd_of_breakers l.track hproper hi
    obtain ⟨hstandsAt, -⟩ := hstands i start hstart
    have hheight : l.rowHeights[i]? = some w.box.size.height := by
      have hmap : l.rowHeights.dropLast[i]? = some w.box.size.height := by
        rw [← hheights, List.getElem?_map, hi]
        rfl
      rw [List.getElem?_dropLast] at hmap
      split at hmap
      · exact hmap
      · cases hmap
    obtain ⟨htop, hbottom⟩ := Track.StandsAt.rowEnd_place start hstandsAt hend
    refine ⟨hheight, htop, ?_, start, rest, hstart, hend⟩
    rw [hbottom, offset_succ hheight]
  case row =>
    intro c hc hkind
    have hnodup : l.track.chain.Nodup := by
      have hall := htrack ▸ hw.nodup_arranged hbare r
      exact ((Track.toList_perm l.track).nodup_iff.mp hall).of_append_left
    exact Track.existsUnique_row hproper hnodup hc hkind
  case line =>
    intro i start hi
    obtain ⟨hstandsAt, hheight⟩ := hstands i start hi
    obtain ⟨hascent, hdescent⟩ := Track.measure_reach r.settings.componentGap.width start
    rw [← hascent, ← hdescent]
    refine ⟨fun c hc => ?_, hheight⟩
    exact (Cell.heights_of_onLine (Track.onLine_rowCells start hstandsAt c hc)).1

/-- Two words on a narrow page make two rows, and the wrap between them leads from the one to the
other. -/
theorem layout_tiles_twoWords : (Build.compile {} true twoWords).1 = .ok twoWordsGraph ∧
    ∃ l, ((twoWordsGraph.afterLayouts ([] : List (Ruler Float32))).layout
        (twoWordsRuler (some 40.0))).1 = .ok l ∧
      l.Tiles 10.0 ∧ l.track.breakers.length = 1 := by
  have hg : (Build.compile {} true twoWords).1 = .ok twoWordsGraph := by cbv
  let r := twoWordsRuler (some 40.0)
  have hbreak : twoWordsGraph.breakRows r = twoWordsGraph.breakAfterAll [0] := by
    rw [Graph.breakRows_eq, rowBreaks_twoWords]
  obtain ⟨l, hl⟩ : ∃ l, (twoWordsGraph.layout r).1 = .ok l := by
    refine Graph.exists_layout_iff.mpr ?_
    rw [Graph.laidOut, Graph.arranged, hbreak]
    decide +kernel
  refine ⟨hg, l, hl, layout_tiles hg [] _ hl, ?_⟩
  rw [(Graph.layout_ok hl).1, Graph.arranged, hbreak]
  decide +kernel

end Railroad
