/-
# Layouts in exact numbers

Over `Rat` nothing is rounded, and the formulas of a layout say what they mean.  The extent of a row
is what it should be: its width is the sum of what its nodes take (`Track.width_before`), and it
reaches as far above and below its track as any of its nodes (`Track.covers_measure`).

Settings that pass their check and labels that have a size make sizes that are not negative
(`Track.width_nonneg`).

What is assumed of settings is what their check lets through (`LayoutSettings.validate`), and of
labels that they are not negative.  Every shaping gives such labels, since a width is the largest of
some and zero, and so nothing is assumed of shapings.
-/
import Mathlib
import Railroad.Proofs.Layout.LaidOut

namespace Railroad

open Scalar

/-! ## 1. Constants and comparisons -/

namespace Exact

@[simp] theorem zero_eq : (0.0 : Rat) = 0 := by norm_num

@[simp] theorem two_eq : (2.0 : Rat) = 2 := by norm_num

@[simp] theorem larger_eq (a b : Rat) : larger a b = max a b := by
  simp only [larger, lt, le]
  grind

@[simp] theorem lt_iff (a b : Rat) : lt a b = true ↔ a < b := decide_eq_true_iff

theorem foldl_max (values : List Rat) : ∀ top : Rat,
    top ≤ values.foldl larger top ∧ ∀ v ∈ values, v ≤ values.foldl larger top := by
  induction values with
  | nil => exact fun top => ⟨le_refl top, List.forall_mem_nil _⟩
  | cons v values ih =>
    intro top
    obtain ⟨htop, hvalues⟩ := ih (larger top v)
    rw [larger_eq] at htop hvalues
    rw [List.foldl_cons, larger_eq]
    exact ⟨(le_max_left top v).trans htop,
      List.forall_mem_cons.mpr ⟨(le_max_right top v).trans htop, hvalues⟩⟩

theorem largest_nonneg (values : List Rat) : 0 ≤ largest values :=
  zero_eq.symm.trans_le (foldl_max values 0.0).1

theorem le_largest {values : List Rat} {v : Rat} (h : v ∈ values) : v ≤ largest values :=
  (foldl_max values 0.0).2 v h

theorem total_nonneg {values : List Rat} (h : ∀ v ∈ values, 0 ≤ v) : 0 ≤ total values := by
  have htotal : total values = values.foldl (· + ·) 0 := congrArg (values.foldl _) zero_eq
  rw [htotal, ← List.sum_eq_foldl]
  exact List.sum_nonneg h

end Exact

/-! ## 2. The extent of a row -/

/-- **A row reaches as far above and below its track as all of some nodes.** -/
def RowExtent.Covers (row : RowExtent Rat) (cells : List (Cell Rat)) : Prop :=
  ∀ c ∈ cells, c.box.ascent ≤ row.ascent ∧ c.descent ≤ row.descent

namespace Track

variable {item : Item (Cell Rat)} {rest : Track (Cell Rat)}

theorem measureFrom_width (gap : Rat) (t : Track (Cell Rat)) : ∀ row : RowExtent Rat,
    (t.measureFrom gap row).width = row.width + (t.measure gap).width := by
  induction t using row_induction with
  | stop => simp [measureFrom, measure, RowExtent.empty]
  | wrap c rest ih =>
    intro row
    rw [measure, measureFrom, measureFrom]
    split
    · simp [RowExtent.empty]
    · exact ih row
  | before item rest hitem _ ih =>
    intro row
    rw [measure, measureFrom_before hitem, measureFrom_before hitem, ih, ih (.add _ _ _)]
    simp only [RowExtent.add, RowExtent.extend, RowExtent.empty, Exact.zero_eq]
    ring

/-- **A row is as wide as its first node with what connects it, and the rest together.** -/
theorem width_before (hitem : item.isWrap = false) (gap : Rat) :
    ((item.before rest).measure gap).width
      = item.mark.extent.width + item.connector gap rest + (rest.measure gap).width := by
  rw [measure, measureFrom_before hitem, measureFrom_width]
  simp [RowExtent.add, RowExtent.extend, RowExtent.empty]

/-- A wrap takes no part in its row; if it has a height, the row ends there. -/
theorem measure_wrap (gap : Rat) (c : Cell Rat) :
    (wrap c rest).measure gap = if c.box.hasHeight then .empty else rest.measure gap := by
  rw [measure, measureFrom]
  rfl

theorem le_add (row : RowExtent Rat) (connector : Rat) (c : Cell Rat) :
    (row.ascent ≤ (row.add connector c).ascent ∧ row.descent ≤ (row.add connector c).descent) ∧
      c.box.ascent ≤ (row.add connector c).ascent ∧ c.descent ≤ (row.add connector c).descent := by
  simp [RowExtent.add, RowExtent.extend]

theorem measureFrom_covers (gap : Rat) (t : Track (Cell Rat)) : ∀ row : RowExtent Rat,
    row.ascent ≤ (t.measureFrom gap row).ascent ∧ row.descent ≤ (t.measureFrom gap row).descent ∧
      (t.measureFrom gap row).Covers t.rowCells := by
  induction t using row_induction with
  | stop => exact fun row => ⟨le_refl _, le_refl _, List.forall_mem_nil _⟩
  | wrap c rest ih =>
    intro row
    rw [measureFrom, rowCells]
    split
    · exact ⟨le_refl _, le_refl _, List.forall_mem_nil _⟩
    · exact ih row
  | before item rest hitem _ ih =>
    intro row
    rw [measureFrom_before hitem, rowCells_before hitem]
    obtain ⟨hascent, hdescent, hcovers⟩ := ih (row.add (item.connector gap rest) item.mark)
    obtain ⟨hrow, hmark⟩ := le_add row (item.connector gap rest) item.mark
    exact ⟨hrow.1.trans hascent, hrow.2.trans hdescent,
      List.forall_mem_cons.mpr ⟨⟨hmark.1.trans hascent, hmark.2.trans hdescent⟩, hcovers⟩⟩

/-- **A row reaches as far as its nodes.** -/
theorem covers_measure (gap : Rat) (t : Track (Cell Rat)) : (t.measure gap).Covers t.rowCells :=
  (measureFrom_covers gap t _).2.2

theorem ascent_nonneg (gap : Rat) (t : Track (Cell Rat)) : 0 ≤ (t.measure gap).ascent :=
  Exact.zero_eq.symm.trans_le (measureFrom_covers gap t .empty).1

theorem descent_nonneg (gap : Rat) (t : Track (Cell Rat)) : 0 ≤ (t.measure gap).descent :=
  Exact.zero_eq.symm.trans_le (measureFrom_covers gap t .empty).2.1

theorem height_nonneg (gap : Rat) (t : Track (Cell Rat)) : 0 ≤ (t.measure gap).height :=
  add_nonneg (ascent_nonneg gap t) (descent_nonneg gap t)

end Track

/-! ## 3. Settings that are not negative -/

/-- **Gaps that are not negative.**  Settings that pass their check have such gaps. -/
structure LayoutSettings.NonNeg (s : LayoutSettings Rat) : Prop where
  symbolWidth : 0 ≤ s.symbolGap.width
  symbolHeight : 0 ≤ s.symbolGap.height
  gapWidth : 0 ≤ s.componentGap.width
  gapHeight : 0 ≤ s.componentGap.height

/-- **Settings that pass their check** are finite and not below zero. -/
theorem LayoutSettings.measures_of_validate {α : Type} [Scalar α] {s : LayoutSettings α}
    (h : s.validate = .ok ()) : ∀ m ∈ s.measures, isFinite m.2 = true ∧ lt m.2 0.0 = false := by
  unfold validate at h
  split at h
  case h_1 => cases h
  case h_2 hnone =>
    intro m hm
    simpa using List.find?_eq_none.mp hnone m hm

theorem LayoutSettings.measures_nonneg {s : LayoutSettings Rat} (h : s.validate = .ok ()) :
    ∀ m ∈ s.measures, 0 ≤ m.2 := by
  intro m hm
  have hlt := (measures_of_validate h m hm).2
  rwa [Exact.zero_eq, ← Bool.not_eq_true, Exact.lt_iff, not_lt] at hlt

/-- **Settings that pass their check are not negative.** -/
theorem LayoutSettings.nonNeg_of_validate {s : LayoutSettings Rat} (h : s.validate = .ok ()) :
    s.NonNeg := by
  have hall := measures_nonneg h
  simp only [measures, List.forall_mem_cons] at hall
  exact ⟨hall.1, hall.2.1, hall.2.2.1, hall.2.2.2.1⟩

namespace Font

theorem pixels_nonneg (font : Font) : 0 ≤ (font.pixels : Rat) := by
  have hsize : (0 : Rat) ≤ ofNat font.size.toNat := Nat.cast_nonneg (α := Rat) _
  have hpixel : (0 : Rat) ≤ 1.33 := by norm_num
  exact mul_nonneg hsize hpixel

theorem lineHeight_nonneg (font : Font) : 0 ≤ (font.lineHeight : Rat) := by
  have hline : (0 : Rat) ≤ 1.15 := by norm_num
  exact mul_nonneg font.pixels_nonneg hline

theorem averageAdvance_nonneg : (0 : Rat) ≤ averageAdvance := by norm_num [averageAdvance]

theorem labelSize_nonneg (font : Font) (label : String) :
    0 ≤ (font.labelSize averageAdvance label : Size Rat).width ∧
      0 ≤ (font.labelSize averageAdvance label : Size Rat).height := by
  have hadvance := averageAdvance_nonneg
  have hnat (n : Nat) : (0 : Rat) ≤ ofNat n := Nat.cast_nonneg (α := Rat) n
  unfold labelSize
  split
  · exact ⟨le_of_eq Exact.zero_eq.symm, le_of_eq Exact.zero_eq.symm⟩
  · exact ⟨mul_nonneg (mul_nonneg (hnat _) font.pixels_nonneg) hadvance,
      mul_nonneg (hnat _) font.lineHeight_nonneg⟩

/-- A label that was shaped has a size, whatever the shaping: it is not narrower than nothing, also
if all its runs end to the left of where they begin. -/
theorem shapedSize_nonneg [Shaping Rat] (font : Font) (label : String) :
    0 ≤ (font.shapedSize label : Size Rat).width ∧
      0 ≤ (font.shapedSize label : Size Rat).height := by
  have hadvance := averageAdvance_nonneg
  have hchars : (0 : Rat) ≤ ofNat label.length := Nat.cast_nonneg (α := Rat) _
  unfold shapedSize
  split
  · exact ⟨le_of_eq Exact.zero_eq.symm, le_of_eq Exact.zero_eq.symm⟩
  · split
    · exact ⟨mul_nonneg (mul_nonneg hchars font.pixels_nonneg) hadvance, font.lineHeight_nonneg⟩
    · refine ⟨Exact.largest_nonneg _, Exact.total_nonneg (List.forall_mem_map.mpr ?_)⟩
      exact fun _ _ => font.lineHeight_nonneg

end Font

/-- **Labels have a size.**  It is all that is asked of a ruler in exact numbers. -/
def Ruler.LabelsNonNeg (r : Ruler Rat) : Prop :=
  ∀ node, 0 ≤ (r.label node).width ∧ 0 ≤ (r.label node).height

/-- **The labels of a grammar have a size,** however they are measured. -/
theorem Ruler.labelsNonNeg_ofSymbols [Shaping Rat] (settings : LayoutSettings Rat)
    (symbols : SymbolTable) : (Ruler.ofSymbols settings symbols).LabelsNonNeg := by
  intro node
  rw [ofSymbols]
  cases settings.textMetrics with
  | font => exact Font.shapedSize_nonneg _ _
  | fixed => exact Font.labelSize_nonneg _ _

/-! ## 4. Widths -/

theorem Cell.extent_of_alternative {c : Cell Rat} (h : c.node.kind = .alternative) :
    c.extent = c.box.group := by
  rw [extent, h]

theorem Cell.extent_of_ne {c : Cell Rat} (h : c.node.kind ≠ .alternative) :
    c.extent = c.box.size := by
  unfold extent
  split
  · exact absurd ‹_› h
  · rfl

namespace Item

/-- The room a node takes. -/
def room : Item (Cell Rat) → Size Rat
  | .choice branches => branches.head.box.group
  | item => item.mark.box.size

variable {r : Ruler Rat} {item : Item (Cell Rat)}

theorem extent_mark (h : item.Proper (·.node.kind)) : item.mark.extent = item.room := by
  cases item with
  | symbol c =>
    refine Cell.extent_of_ne fun hk => ?_
    change c.node.kind = _ at hk
    rw [Proper, hk] at h
    cases h
  | epsilon c | wrap c =>
    refine Cell.extent_of_ne fun hk => ?_
    change c.node.kind = _ at hk
    rw [Proper, hk] at h
    cases h
  | optional c _ | iteration c _ | rerun c _ _ =>
    refine Cell.extent_of_ne fun hk => ?_
    change c.node.kind = _ at hk
    rw [Proper, hk] at h
    cases h.1
  | choice branches =>
    obtain ⟨body, hlevels⟩ := Track.levels_eq_head_cons branches
    have hmem : (branches.head, body) ∈ branches.levels := hlevels ▸ List.mem_cons_self
    exact Cell.extent_of_alternative (h _ hmem).1

end Item

namespace Item.Sized

variable {r : Ruler Rat} {c : Cell Rat} {body between : Track (Cell Rat)}
  {branches : Branches (Cell Rat)}

theorem symbol_box (h : (Item.symbol c).Sized r) (hs : r.settings.NonNeg) (hl : r.LabelsNonNeg) :
    0 ≤ c.box.size.width ∧ r.settings.componentGap.height ≤ c.box.size.height ∧
      c.box.ascent = c.box.size.height / 2 := by
  have hlabel := hl c.node
  have hgaps := hs.symbolWidth
  have hgap := hs.symbolHeight
  rw [h.size, h.ascent]
  simp only [Ruler.symbolBox, Box.ofSize, Exact.two_eq, Exact.larger_eq]
  refine ⟨?_, ?_, trivial⟩
  · split
    · exact le_max_of_le_left (by linarith)
    · linarith
  · linarith

theorem optional_box (h : (Item.optional c body).Sized r) :
    let row := body.measure r.settings.componentGap.width
    c.box.size = ⟨row.width + 2 * r.settings.componentGap.width,
        row.height + r.settings.componentGap.height / 2⟩ ∧
      c.box.ascent = r.settings.componentGap.height / 2 + row.ascent := by
  intro row
  rw [h.size, h.ascent]
  simp only [Ruler.optionalBox, Box.ofSize, Exact.two_eq]
  exact ⟨rfl, rfl⟩

theorem iteration_box (h : (Item.iteration c body).Sized r) (hs : r.settings.NonNeg) :
    let row := body.measure r.settings.componentGap.width
    c.box.size = ⟨row.width + 2 * r.settings.componentGap.width, c.box.ascent + row.height⟩ ∧
      0 ≤ c.box.ascent := by
  intro row
  have hline := r.settings.font.lineHeight_nonneg
  have hgap := hs.gapHeight
  rw [h.size, h.ascent]
  simp only [Ruler.iterationBox, Box.ofSize, Exact.two_eq]
  exact ⟨rfl, by linarith⟩

theorem rerun_box (h : (Item.rerun c body between).Sized r) (hs : r.settings.NonNeg) :
    let row := body.measure r.settings.componentGap.width
    let back := between.measure r.settings.componentGap.width
    c.box.group = row.size ∧ c.box.between.width = back.width ∧ c.box.ascent = row.ascent ∧
      row.height + back.height ≤ c.box.size.height ∧
      row.width + 2 * r.settings.componentGap.width ≤ c.box.size.width ∧
      (0 ≤ row.width → back.width + 2 * r.settings.componentGap.width ≤ c.box.size.width) := by
  intro row back
  have hgap := hs.gapHeight
  rw [h.size, h.group, h.between, h.ascent]
  cases between with
  | stop =>
    have hheight : back.height = 0 := by
      simp [back, Track.measure, Track.measureFrom, RowExtent.empty, RowExtent.height]
    have hwidth : back.width = 0 := Exact.zero_eq
    rw [hheight, hwidth]
    simp only [Track.isStop, if_true, Ruler.rerunBox, Box.ofSize, Box.zero, Size.zero, Exact.two_eq,
      Exact.zero_eq]
    refine ⟨rfl, trivial, rfl, ?_, le_refl _, fun hrow => ?_⟩
    · linarith
    · linarith
  | _ =>
    simp only [Track.isStop, Bool.false_eq_true, if_false, Ruler.rerunBox, Box.ofSize,
      Exact.two_eq, Exact.larger_eq]
    refine ⟨rfl, rfl, rfl, le_refl _, ?_, fun _ => ?_⟩
    · linarith [le_max_left row.width back.width]
    · linarith [le_max_right row.width back.width]

theorem choice_box (h : (Item.choice branches).Sized r) :
    0 + 2 * r.settings.componentGap.width ≤ branches.head.box.group.width ∧
      ∀ level ∈ branches.levels, level.1.box.size.width + 2 * r.settings.componentGap.width
        ≤ branches.head.box.group.width := by
  rw [h.1]
  simp only [Ruler.groupSize, Exact.two_eq]
  refine ⟨by linarith [Exact.largest_nonneg (branches.marks.map (·.box.size) |>.map (·.width))], ?_⟩
  intro level hlevel
  have hmem : level.1.box.size.width ∈ (branches.marks.map (·.box.size)).map (·.width) := by
    rw [Track.marks_eq_levels]
    exact List.mem_map_of_mem (List.mem_map_of_mem (List.mem_map_of_mem hlevel))
  linarith [Exact.le_largest hmem]

end Item.Sized

theorem Item.connector_nonneg {gap : Rat} (hgap : 0 ≤ gap) (item : Item (Cell Rat))
    (rest : Track (Cell Rat)) : 0 ≤ item.connector gap rest := by
  cases item with
  | symbol c =>
    rw [connector, Track.connector]
    split
    · rw [Exact.two_eq]
      linarith
    · exact le_of_eq Exact.zero_eq.symm
  | _ => exact le_of_eq Exact.zero_eq.symm

theorem Item.Fits.width_nonneg {r : Ruler Rat} {item : Item (Cell Rat)} (h : item.Fits r)
    (hs : r.settings.NonNeg) (hl : r.LabelsNonNeg)
    (hlevels : ∀ level ∈ item.levels, 0 ≤ (level.measure r.settings.componentGap.width).width) :
    0 ≤ item.mark.extent.width := by
  have hgap := hs.gapWidth
  have hsized := h.sized
  rw [extent_mark h.proper]
  cases item with
  | symbol c => exact (hsized.symbol_box hs hl).1
  | epsilon c =>
    change 0 ≤ c.box.size.width
    rw [hsized.size]
    exact hgap
  | wrap c =>
    change 0 ≤ c.box.size.width
    rw [show c.box.size.width = 0.0 from hsized, Exact.zero_eq]
  | optional c body =>
    change 0 ≤ c.box.size.width
    rw [hsized.optional_box.1]
    linarith [List.forall_mem_singleton.mp hlevels]
  | iteration c body =>
    change 0 ≤ c.box.size.width
    rw [(hsized.iteration_box hs).1]
    linarith [List.forall_mem_singleton.mp hlevels]
  | rerun c body between =>
    change 0 ≤ c.box.size.width
    have hbody := (List.forall_mem_cons.mp hlevels).1
    linarith [(hsized.rerun_box hs).2.2.2.2.1]
  | choice branches =>
    change 0 ≤ branches.head.box.group.width
    linarith [hsized.choice_box.1]

/-- **No level has a negative width.** -/
theorem Track.width_nonneg {r : Ruler Rat} (hs : r.settings.NonNeg) (hl : r.LabelsNonNeg)
    (t : Track (Cell Rat)) : (∀ item ∈ t.items, item.Fits r) →
    0 ≤ (t.measure r.settings.componentGap.width).width := by
  induction t using row_induction with
  | stop => exact fun _ => le_of_eq Exact.zero_eq.symm
  | wrap c rest ih =>
    intro h
    rw [measure_wrap]
    split
    · exact le_of_eq Exact.zero_eq.symm
    · exact ih (List.forall_mem_cons.mp h).2
  | before item rest hitem inside ih =>
    intro h
    obtain ⟨hfits, hinside, hrest⟩ := forall_items_before.mp h
    have hmark := hfits.width_nonneg hs hl fun level hlevel =>
      inside level hlevel (hinside level hlevel)
    rw [width_before hitem]
    linarith [item.connector_nonneg hs.gapWidth rest, ih hrest]

end Railroad
