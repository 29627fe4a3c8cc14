/-
# Marks in a region

A drawing is kept in a region by keeping each of its marks there (`Confined`), and a mark is where
the points are that it is given by (`Primitive.points`).

The rails of a loop, the bypass of an option and the turns of an alternation are drawn with arcs of
one size, whatever the size of the node.  With measures that leave them enough room
(`LayoutSettings.Roomy`) they stay in the box of the node.  Only the arrow head in front of a symbol
reaches out of the box, and no farther than its own length.

Lines and arcs are looked at one by one, each with the two inequalities that keep it in.  These are
linear, with the measures as unknowns, and what the measures have to satisfy for all of them is what
`Roomy` asks.  It is a condition on settings alone and has nothing to do with any graph.
-/
import Mathlib
import Railroad.Proofs.Drawing.Widths
import Railroad.Proofs.Layout.Reach

namespace Railroad

open Scalar

/-! ## 1. Marks in a region -/

/-- **The points that a mark is given by:** the ends of a line, two opposite corners of a box and of
the square around an arc, the corners of an arrow head and the middle of its base, and the centre of
a label.  The outline of a mark may be half a stroke wider than that. -/
def Primitive.points : Primitive Rat → List (Point Rat)
  | .line start stop _ => [start, stop]
  | .arc origin diameter _ _ => [origin, origin.translate diameter diameter]
  | .rect origin size _ _ _ => [origin, origin.translate size.width size.height]
  | .frame origin size _ => [origin, origin.translate size.width size.height]
  | .arrow tip direction size _ =>
    let base := tip.x - direction.sign * size
    [tip, ⟨base, tip.y⟩, ⟨base, tip.y - size / 2.0⟩, ⟨base, tip.y + size / 2.0⟩]
  | .text _ center _ _ => [center]

/-- **Marks that stay in a region:** all their points are `across` it and `upright` in it.  Regions
are given by two properties because rails are bounded in each direction for a reason of its own. -/
def Confined (across upright : Set Rat) (marks : List (Primitive Rat)) : Prop :=
  ∀ mark ∈ marks, ∀ p ∈ mark.points, p.x ∈ across ∧ p.y ∈ upright

namespace Confined

variable {across upright : Set Rat} {marks : List (Primitive Rat)}

theorem nil : Confined across upright [] := List.forall_mem_nil _

theorem append {others : List (Primitive Rat)} (h : Confined across upright marks)
    (h' : Confined across upright others) : Confined across upright (marks ++ others) :=
  List.forall_mem_append.mpr ⟨h, h'⟩

theorem mono {across' upright' : Set Rat} (h : Confined across upright marks)
    (hacross : across ⊆ across') (hupright : upright ⊆ upright') :
    Confined across' upright' marks :=
  fun mark hmark p hp => ⟨hacross (h mark hmark p hp).1, hupright (h mark hmark p hp).2⟩

/-- A line stays where its ends are, and then come the others. -/
theorem line {b : Brush Rat} {x y x' y' : Rat} (hx : x ∈ across) (hy : y ∈ upright)
    (hx' : x' ∈ across) (hy' : y' ∈ upright) (h : Confined across upright marks) :
    Confined across upright (Canvas.line b x y x' y' :: marks) :=
  List.forall_mem_cons.mpr
    ⟨List.forall_mem_cons.mpr ⟨⟨hx, hy⟩, List.forall_mem_singleton.mpr ⟨hx', hy'⟩⟩, h⟩

/-- An arc stays where the square around it does. -/
theorem arc {cv : Canvas Rat} {b : Brush Rat} {x y : Rat} {angle : UInt16}
    (hx : x ∈ across) (hy : y ∈ upright) (hx' : x + cv.settings.arcSize ∈ across)
    (hy' : y + cv.settings.arcSize ∈ upright) (h : Confined across upright marks) :
    Confined across upright (cv.arc b x y angle :: marks) :=
  List.forall_mem_cons.mpr
    ⟨List.forall_mem_cons.mpr ⟨⟨hx, hy⟩, List.forall_mem_singleton.mpr ⟨hx', hy'⟩⟩, h⟩

/-- A box stays where two of its corners do. -/
theorem rect {x y width height radius : Rat} {stroke : Stroke Rat} {fill : Option Color}
    (hx : x ∈ across) (hy : y ∈ upright) (hx' : x + width ∈ across) (hy' : y + height ∈ upright)
    (h : Confined across upright marks) :
    Confined across upright (.rect ⟨x, y⟩ ⟨width, height⟩ radius stroke fill :: marks) :=
  List.forall_mem_cons.mpr
    ⟨List.forall_mem_cons.mpr ⟨⟨hx, hy⟩, List.forall_mem_singleton.mpr ⟨hx', hy'⟩⟩, h⟩

theorem text {content : String} {x y : Rat} {font : Font} {color : Color} (hx : x ∈ across)
    (hy : y ∈ upright) (h : Confined across upright marks) :
    Confined across upright (.text content ⟨x, y⟩ font color :: marks) :=
  List.forall_mem_cons.mpr ⟨List.forall_mem_singleton.mpr ⟨hx, hy⟩, h⟩

/-- An arrow head stays where its tip and the corners of its base do. -/
theorem arrow {cv : Canvas Rat} {b : Brush Rat} {x y : Rat} {d : Direction} (hx : x ∈ across)
    (hbase : x - d.sign * cv.settings.arrowSize ∈ across) (hline : y ∈ upright)
    (hupper : y - cv.settings.arrowSize / 2 ∈ upright)
    (hlower : y + cv.settings.arrowSize / 2 ∈ upright) (h : Confined across upright marks) :
    Confined across upright (cv.arrow b x y d :: marks) := by
  refine List.forall_mem_cons.mpr ⟨?_, h⟩
  simp only [Canvas.arrow, Primitive.points, List.forall_mem_cons, Exact.two_eq]
  exact ⟨⟨hx, hline⟩, ⟨hbase, hline⟩, ⟨hbase, hupper⟩, ⟨hbase, hlower⟩, List.forall_mem_nil _⟩

end Confined

/-! ## 2. Room for arcs and arrow heads -/

/-- **Measures with room for arcs and arrow heads:** everything reaches some way above and below its
track, and arcs and arrow heads fit into that, and into the gaps between components. -/
structure LayoutSettings.Roomy (s : LayoutSettings Rat) (reach : Rat) : Prop
    extends s.LeavesRoom reach where
  arc : 0 ≤ s.arcSize
  arrow : 0 ≤ s.arrowSize
  arc_le_reach : s.arcSize ≤ 2 * reach
  arrow_le_reach : s.arrowSize ≤ 2 * reach
  arc_le_bypass : s.arcSize ≤ s.componentGap.height / 2 + reach
  arc_le_gap : 2 * s.arcSize ≤ s.componentGap.width
  arrow_le_gap : s.arrowSize ≤ s.componentGap.width

namespace Canvas

variable {cv : Canvas Rat} {reach x width top bottom : Rat} {b : Brush Rat} {c : Cell Rat}

/-! ## 3. Marks of single nodes -/

/-- The box of a symbol and its label stay in the box of the node.  The arrow head points to it from
outside. -/
theorem confined_symbol (hs : cv.settings.Roomy reach) (d : Direction)
    (hwidth : 0 ≤ c.box.size.width) (hheight : cv.settings.componentGap.height ≤ c.box.size.height)
    (htop : c.box.top = c.box.line - c.box.size.height / 2)
    (hbottom : c.box.bottom = c.box.line + c.box.size.height / 2)
    (hreach : c.box.top + reach ≤ c.box.line) :
    Confined (Set.Icc (x - cv.settings.arrowSize) (x + c.box.size.width + cv.settings.arrowSize))
      (Set.Icc c.box.top c.box.bottom) (cv.symbol b d x c) := by
  have harrow := hs.arrow
  have hfits := hs.arrow_le_reach
  have hgap := hs.gapHeight
  simp only [symbol, Exact.two_eq]
  refine .rect ?_ ?_ ?_ ?_ <| .text ?_ ?_ <| .arrow ?tip ?base ?_ ?_ ?_ .nil
  case tip | base =>
    cases d <;> simp only [Direction.sign_forward, Direction.sign_reverse] <;>
      constructor <;> linarith
  all_goals constructor <;> linarith

theorem confined_epsilon (hwidth : 0 ≤ c.extent.width)
    (hline : c.box.line ∈ Set.Icc top bottom) :
    Confined (Set.Icc x (x + c.extent.width)) (Set.Icc top bottom) (epsilon b x c) := by
  refine .line ?_ hline ?_ hline .nil
  all_goals constructor <;> linarith

/-- The bypass of an option is below its top, by half a gap, and arcs fit between that and the
track. -/
theorem confined_bypass (hs : cv.settings.Roomy reach)
    (hwidth : 2 * cv.settings.componentGap.width ≤ c.box.size.width)
    (habove : c.box.top + cv.settings.componentGap.height / 2 + reach ≤ c.box.line)
    (hbelow : c.box.line + reach ≤ c.box.bottom) :
    Confined (Set.Icc x (x + c.box.size.width)) (Set.Icc c.box.top c.box.bottom)
      (cv.bypass b x c) := by
  have harc := hs.arc
  have hreach := hs.arc_le_reach
  have hbypass := hs.arc_le_bypass
  have hfits := hs.arc_le_gap
  have hgapHeight := hs.gapHeight
  simp only [bypass, Exact.two_eq]
  refine .line ?_ ?_ ?_ ?_ <| .line ?_ ?_ ?_ ?_ <| .arc ?_ ?_ ?_ ?_ <| .line ?_ ?_ ?_ ?_ <|
    .arc ?_ ?_ ?_ ?_ <| .line ?_ ?_ ?_ ?_ <| .arc ?_ ?_ ?_ ?_ <| .line ?_ ?_ ?_ ?_ <|
    .arc ?_ ?_ ?_ ?_ .nil
  all_goals constructor <;> linarith

/-- The turns of a loop between two tracks that an arc fits between. -/
theorem confined_loopRails (hs : cv.settings.Roomy reach) {line lower : Rat}
    (hwidth : 2 * cv.settings.componentGap.width ≤ width)
    (hline : line ∈ Set.Icc top (bottom - cv.settings.arcSize))
    (hlower : lower ∈ Set.Icc (top + cv.settings.arcSize) bottom) :
    Confined (Set.Icc x (x + width)) (Set.Icc top bottom)
      (cv.loopRails b x width line lower) := by
  have harc := hs.arc
  have hfits := hs.arc_le_gap
  obtain ⟨htop, hturn⟩ := hline
  obtain ⟨hback, hbottom⟩ := hlower
  simp only [loopRails, Exact.two_eq]
  refine .arc ?_ ?_ ?_ ?_ <| .line ?_ ?_ ?_ ?_ <| .arc ?_ ?_ ?_ ?_ <|
    .arc ?_ ?_ ?_ ?_ <| .line ?_ ?_ ?_ ?_ <| .arc ?_ ?_ ?_ ?_ .nil
  all_goals constructor <;> linarith

theorem confined_iterationRails (hs : cv.settings.Roomy reach) {bodyLine : Rat}
    (hwidth : 2 * cv.settings.componentGap.width ≤ c.box.size.width)
    (habove : c.box.top + reach ≤ c.box.line) (hbody : c.box.line + reach ≤ bodyLine)
    (hbelow : bodyLine + reach ≤ c.box.bottom) :
    Confined (Set.Icc x (x + c.box.size.width)) (Set.Icc c.box.top c.box.bottom)
      (cv.iterationRails b x c bodyLine) := by
  have harc := hs.arc
  have hreach := hs.arc_le_reach
  have hfits := hs.arc_le_gap
  simp only [iterationRails]
  refine .line ?_ ?_ ?_ ?_ <| .append (confined_loopRails hs hwidth ?_ ?_) <|
    .line ?_ ?_ ?_ ?_ <| .line ?_ ?_ ?_ ?_ .nil
  all_goals constructor <;> linarith

theorem confined_rerunRails (hs : cv.settings.Roomy reach) {backLine left right : Rat}
    (hwidth : 2 * cv.settings.componentGap.width ≤ c.box.size.width)
    (habove : c.box.top + reach ≤ c.box.line) (hback : c.box.line + reach ≤ backLine)
    (hbelow : backLine + reach ≤ c.box.bottom)
    (hleft : left ∈ Set.Icc x (x + c.box.size.width))
    (hright : right ∈ Set.Icc x (x + c.box.size.width)) :
    Confined (Set.Icc x (x + c.box.size.width)) (Set.Icc c.box.top c.box.bottom)
      (cv.rerunRails b x c backLine left right) := by
  have harc := hs.arc
  have hreach := hs.arc_le_reach
  have hfits := hs.arc_le_gap
  simp only [rerunRails]
  refine .append (confined_loopRails hs hwidth ?_ ?_) <|
    .line ?_ ?_ hleft ?_ <| .line hright ?_ ?_ ?_ .nil
  all_goals constructor <;> linarith

/-- A bare way back is half a gap above the bottom of its rerun. -/
theorem confined_bareRails (hs : cv.settings.Roomy reach)
    (hwidth : 2 * cv.settings.componentGap.width ≤ c.box.size.width)
    (habove : c.box.top + reach ≤ c.box.line)
    (hbelow : c.box.line + reach + cv.settings.componentGap.height / 2 ≤ c.box.bottom) :
    Confined (Set.Icc x (x + c.box.size.width)) (Set.Icc c.box.top c.box.bottom)
      (cv.bareRails b x c) := by
  have harc := hs.arc
  have hreach := hs.arc_le_reach
  have hbypass := hs.arc_le_bypass
  have hfits := hs.arc_le_gap
  have hgapHeight := hs.gapHeight
  simp only [bareRails, Exact.two_eq]
  refine .append (confined_loopRails hs hwidth ?_ ?_) <| .line ?_ ?_ ?_ ?_ .nil
  all_goals constructor <;> linarith

theorem confined_choiceRails (hs : cv.settings.Roomy reach) {branches : Branches (Cell Rat)}
    (hwidth : 2 * cv.settings.componentGap.width ≤ branches.head.extent.width)
    (hline : branches.head.box.line ∈ Set.Icc (top + reach) (bottom - reach))
    (hlower : ∀ level ∈ branches.levels.tail,
      level.1.box.line ∈ Set.Icc (branches.head.box.line + 2 * reach) (bottom - reach)) :
    Confined (Set.Icc x (x + branches.head.extent.width)) (Set.Icc top bottom)
      (cv.choiceRails b x branches) := by
  have harc := hs.arc
  have hreach := hs.arc_le_reach
  have hfits := hs.arc_le_gap
  obtain ⟨habove, hbelow⟩ := hline
  cases branches with
  | last first body =>
    refine .line ?_ ?_ ?_ ?_ <| .line ?_ ?_ ?_ ?_ .nil
    all_goals constructor <;> linarith
  | more first body others =>
    obtain ⟨hfirst, hlast⟩ : others.lastMark.box.line
        ∈ Set.Icc (first.box.line + 2 * reach) (bottom - reach) := by
      have hmem := Track.lastMark_mem_marks others
      rw [Track.marks_eq_levels] at hmem
      obtain ⟨level, hlevel, hmark⟩ := List.mem_map.mp hmem
      exact hmark ▸ hlower level hlevel
    rw [Branches.head] at habove hbelow hwidth ⊢
    simp only [choiceRails, Branches.head, Exact.two_eq]
    refine .append (.line ?_ ?_ ?_ ?_ <| .line ?_ ?_ ?_ ?_ .nil) <|
      .arc ?_ ?_ ?_ ?_ <| .line ?_ ?_ ?_ ?_ <| .arc ?_ ?_ ?_ ?_ <| .line ?_ ?_ ?_ ?_ .nil
    all_goals constructor <;> linarith

theorem confined_branchTurns (hs : cv.settings.Roomy reach)
    (hwidth : 2 * cv.settings.componentGap.width ≤ width)
    (hline : c.box.line ∈ Set.Icc (top + cv.settings.arcSize) bottom) :
    Confined (Set.Icc x (x + width)) (Set.Icc top bottom) (cv.branchTurns b x width c) := by
  have harc := hs.arc
  have hfits := hs.arc_le_gap
  obtain ⟨habove, hbelow⟩ := hline
  simp only [branchTurns, Exact.two_eq]
  refine .arc ?_ ?_ ?_ ?_ <| .arc ?_ ?_ ?_ ?_ .nil
  all_goals constructor <;> linarith

theorem confined_branchTrack (hs : cv.settings.Roomy reach) {left right : Rat}
    (hwidth : 2 * cv.settings.componentGap.width ≤ width)
    (hline : c.box.line ∈ Set.Icc top bottom) (hleft : left ∈ Set.Icc x (x + width))
    (hright : right ∈ Set.Icc x (x + width)) :
    Confined (Set.Icc x (x + width)) (Set.Icc top bottom)
      (cv.branchTrack b x width c left right) := by
  have harc := hs.arc
  have hfits := hs.arc_le_gap
  refine .line ?_ hline hleft hline <| .line hright hline ?_ hline .nil
  all_goals constructor <;> linarith

end Canvas

end Railroad
