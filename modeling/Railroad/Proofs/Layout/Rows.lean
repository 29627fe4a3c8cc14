/-
# The rows of a level

A wrap with a height ends a row.  `Track.rowStarts` cuts a level into its rows, each of them being
what the level is from there on, so that a row is measured where it begins (`Track.rows_eq`), and
`Track.rowCells` are the nodes of the row that a level begins with.

Each pass over a level goes by its nodes in one way, whatever their kind, unless they are wraps
(`measureFrom_before`, `rowCells_before`).

A row is not a list that was cut out of the level but a suffix of the level, up to where it ends.
In this way the passes, which run on to the next row by themselves, can be described row by row
without being split up.
-/
import Railroad.Layout.Box
import Railroad.Proofs.Graph.Items

namespace Railroad

open Scalar

variable {α : Type} [Scalar α]

/-! ## 1. Rows -/

/-- How far a node moves its row on beyond its own width. -/
def Item.connector (gap : α) (rest : Track (Cell α)) : Item (Cell α) → α
  | .symbol _ => rest.connector gap
  | _ => 0.0

namespace Track

/-- The nodes of the row that a level begins with.  Wraps do not count. -/
def rowCells : Track (Cell α) → List (Cell α)
  | .stop => []
  | .wrap c rest => if c.box.hasHeight then [] else rest.rowCells
  | .symbol c rest => c :: rest.rowCells
  | .epsilon c rest => c :: rest.rowCells
  | .optional c _ rest => c :: rest.rowCells
  | .iteration c _ rest => c :: rest.rowCells
  | .rerun c _ _ rest => c :: rest.rowCells
  | .choice branches rest => branches.head :: rest.rowCells

/-- What follows each of the wraps that end a row. -/
def laterRows : Track (Cell α) → List (Track (Cell α))
  | .stop => []
  | .wrap c rest => if c.box.hasHeight then rest :: rest.laterRows else rest.laterRows
  | .symbol _ rest => rest.laterRows
  | .epsilon _ rest => rest.laterRows
  | .optional _ _ rest => rest.laterRows
  | .iteration _ _ rest => rest.laterRows
  | .rerun _ _ _ rest => rest.laterRows
  | .choice _ rest => rest.laterRows

/-- **Where the rows of a level begin:** each of them is what the level is from there on.  The first
of them is the level itself. -/
def rowStarts (t : Track (Cell α)) : List (Track (Cell α)) := t :: t.laterRows

/-- What is left of a level where the row ends that it begins with. -/
def rowEnd : Track (Cell α) → Track (Cell α)
  | .stop => .stop
  | .wrap c rest => if c.box.hasHeight then .wrap c rest else rest.rowEnd
  | .symbol _ rest => rest.rowEnd
  | .epsilon _ rest => rest.rowEnd
  | .optional _ _ rest => rest.rowEnd
  | .iteration _ _ rest => rest.rowEnd
  | .rerun _ _ _ rest => rest.rowEnd
  | .choice _ rest => rest.rowEnd

/-- Something follows every wrap of a level. -/
def Led {β : Type} : Track β → Prop
  | .stop => True
  | .wrap _ rest => rest.isStop = false ∧ rest.Led
  | .symbol _ rest => rest.Led
  | .epsilon _ rest => rest.Led
  | .optional _ _ rest => rest.Led
  | .iteration _ _ rest => rest.Led
  | .rerun _ _ _ rest => rest.Led
  | .choice _ rest => rest.Led

/-! ## 2. A node before the rest of its level -/

variable {item : Item (Cell α)} {rest : Track (Cell α)}

theorem measureFrom_before (hitem : item.isWrap = false) (gap : α) (row : RowExtent α) :
    (item.before rest).measureFrom gap row
      = rest.measureFrom gap (row.add (item.connector gap rest) item.mark) := by
  cases item with
  | wrap _ => cases hitem
  | _ => rfl

theorem rowsFrom_before (hitem : item.isWrap = false) (gap : α) (row : RowExtent α) :
    (item.before rest).rowsFrom gap row
      = rest.rowsFrom gap (row.add (item.connector gap rest) item.mark) := by
  cases item with
  | wrap _ => cases hitem
  | _ => rfl

theorem rowCells_before (hitem : item.isWrap = false) :
    (item.before rest).rowCells = item.mark :: rest.rowCells := by
  cases item with
  | wrap _ => cases hitem
  | _ => rfl

theorem laterRows_before (hitem : item.isWrap = false) :
    (item.before rest).laterRows = rest.laterRows := by
  cases item with
  | wrap _ => cases hitem
  | _ => rfl

theorem rowEnd_before (hitem : item.isWrap = false) :
    (item.before rest).rowEnd = rest.rowEnd := by
  cases item with
  | wrap _ => cases hitem
  | _ => rfl

theorem led_before {β : Type} {item : Item β} {rest : Track β} (hitem : item.isWrap = false) :
    (item.before rest).Led ↔ rest.Led := by
  cases item with
  | wrap _ => cases hitem
  | _ => exact Iff.rfl

theorem rowsFrom_eq (gap : α) (t : Track (Cell α)) : ∀ row : RowExtent α,
    t.rowsFrom gap row = t.measureFrom gap row :: t.laterRows.map (measure gap) := by
  induction t using row_induction with
  | stop => exact fun _ => rfl
  | wrap c rest ih =>
    intro row
    rw [rowsFrom, measureFrom, laterRows]
    split
    · rw [ih]
      rfl
    · exact ih row
  | before item rest hitem _ ih =>
    intro row
    rw [rowsFrom_before hitem, measureFrom_before hitem, laterRows_before hitem, ih]

/-- **Each row of a page is measured where it begins.** -/
theorem rows_eq (gap : α) (t : Track (Cell α)) : t.rows gap = t.rowStarts.map (measure gap) :=
  rowsFrom_eq gap t _

/-- **Each node of a level is in one of its rows,** in the same order, but for the wraps. -/
theorem flatMap_rowCells (t : Track (Cell α)) :
    (∀ item ∈ t.items, item.Proper (·.node.kind)) →
    t.rowStarts.flatMap rowCells = t.chain.filter (·.node.kind != .wrap) := by
  induction t using row_induction with
  | stop => exact fun _ => rfl
  | wrap c rest ih =>
    intro h
    obtain ⟨hwrap, hrest⟩ := List.forall_mem_cons.mp h
    have hrows := ih hrest
    have hkind : c.node.kind = .wrap := hwrap
    rw [rowStarts, List.flatMap_cons] at hrows ⊢
    rw [chain, List.filter_cons, hkind, ← hrows, rowCells, laterRows]
    split
    · rw [List.nil_append, List.flatMap_cons]
      rfl
    · rfl
  | before item rest hitem _ ih =>
    intro h
    obtain ⟨hproper, -, hrest⟩ := forall_items_before.mp h
    have hrows := ih hrest
    rw [rowStarts, List.flatMap_cons] at hrows ⊢
    rw [chain_before, List.filter_cons, hproper.kind_mark, hitem, ← hrows, rowCells_before hitem,
      laterRows_before hitem]
    rfl

/-- The nodes of a row are nodes of the level. -/
theorem items_subset_of_mem_laterRows {start : Track (Cell α)} (t : Track (Cell α)) :
    start ∈ t.laterRows → start.items ⊆ t.items := by
  induction t using row_induction with
  | stop => exact fun h => absurd h List.not_mem_nil
  | wrap c rest ih =>
    intro hstart
    rw [laterRows] at hstart
    refine List.subset_cons_of_subset _ ?_
    split at hstart
    · rcases List.mem_cons.mp hstart with rfl | hstart
      · exact List.Subset.refl _
      · exact ih hstart
    · exact ih hstart
  | before item rest hitem _ ih =>
    intro hstart
    rw [laterRows_before hitem] at hstart
    rw [items_before]
    exact List.subset_cons_of_subset _ (List.subset_append_of_subset_right _ (ih hstart))

/-- A level with one row ends where the row does. -/
theorem rowEnd_of_laterRows (t : Track (Cell α)) : t.laterRows = [] → t.rowEnd = .stop := by
  induction t using row_induction with
  | stop => exact fun _ => rfl
  | wrap c rest ih =>
    intro h
    rw [laterRows] at h
    split at h
    case isTrue => cases h
    case isFalse hh =>
      rw [rowEnd, if_neg hh]
      exact ih h
  | before item rest hitem _ ih =>
    intro h
    rw [laterRows_before hitem] at h
    rw [rowEnd_before hitem]
    exact ih h

/-- A level without wraps is one row. -/
theorem laterRows_of_wrapFree (t : Track (Cell α)) : t.WrapFree → t.laterRows = [] := by
  induction t using item_induction with
  | stop => exact fun _ => rfl
  | before item rest _ ih =>
    intro h
    obtain ⟨hitem, hrest⟩ := wrapFree_before h
    rw [laterRows_before hitem]
    exact ih hrest

end Track

end Railroad
