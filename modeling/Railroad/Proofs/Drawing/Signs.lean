/-
# The signs of a drawing

Boxes, labels and arrow heads are the marks that a reader of a diagram goes by; lines and arcs lead
from one to the next.  Here a drawing is looked at with nothing but these left, its *signs*.

What signs a level is drawn with does not depend on the brush (`signs_track`).  A node has signs of
its own if it is a symbol, then come those of the walks inside it, then, behind the last node of the
page, an arrow head, and then the signs of what follows (`signs_before`).

With lines and arcs gone, the drawing of a node is one shape for all kinds: own signs, then those of
the walks inside.  So statements about boxes and arrow heads are spared the details of rails and
turns.
-/
import Railroad.Proofs.Drawing.Walks

namespace Railroad

open Scalar

variable {α : Type} [Scalar α]

/-- **A box, a label or an arrow head.** -/
inductive Sign (α : Type) where
  | rect (origin : Point α) (size : Size α)
  | text (content : String)
  | arrow (direction : Direction)

/-- The sign that a mark is, if it is one. -/
def Primitive.sign? : Primitive α → Option (Sign α)
  | .rect origin size _ _ _ => some (.rect origin size)
  | .text content _ _ _ => some (.text content)
  | .arrow _ direction _ _ => some (.arrow direction)
  | .line _ _ _ => none
  | .arc _ _ _ _ => none
  | .frame _ _ _ => none

namespace Canvas

/-- The signs that a level is drawn with. -/
def signs (cv : Canvas α) (d : Direction) (cursor : α) (t : Track (Cell α)) : List (Sign α) :=
  (cv.track cv.brush d cursor t).marks.filterMap Primitive.sign?

/-- The signs of a node itself, with its left end at `left`. -/
def ownSigns (cv : Canvas α) (d : Direction) (left : α) : Item (Cell α) → List (Sign α)
  | .symbol c =>
    let height := c.box.size.height - cv.settings.componentGap.height
    [.rect ⟨left, c.box.line - height / 2.0⟩ ⟨c.box.size.width, height⟩, .text (cv.label c.node),
      .arrow d]
  | _ => []

/-- The signs of the walks inside a node. -/
def insideSigns (cv : Canvas α) (d : Direction) (left : α) (item : Item (Cell α)) : List (Sign α) :=
  (cv.insideWalks d left item).flatMap fun w => cv.signs w.direction w.cursor w.level

/-- The arrow head at the end of the page, if `c` is the last node on it. -/
def closingSigns (c : Cell α) (rest : Track (Cell α)) : List (Sign α) :=
  if rest.isStop && c.box.onPage then [.arrow .forward] else []

variable {cv : Canvas α}

/-- A node adds nothing but the arrow head at the end of the page. -/
theorem signs_node (b : Brush α) (d : Direction) (c : Cell α) (left cursor : α)
    (marks : List (Primitive α)) (connected : Bool) (rest : Track (Cell α)) (draw : α → Drawn α) :
    (cv.node b d c left cursor marks connected rest.isStop draw).marks.filterMap Primitive.sign?
      = marks.filterMap Primitive.sign? ++ closingSigns c rest ++
        (draw (if connected then cursor + d.sign * cv.settings.componentGap.width / 2.0
          else cursor)).marks.filterMap Primitive.sign? := by
  have hframe : (cv.frame c left).filterMap Primitive.sign? = [] := by
    unfold frame
    split <;> rfl
  have hconnector (line stop : α) : (if connected = true then
      [Canvas.line (b.override c.node.style) cursor line stop line] else []).filterMap
        Primitive.sign? = [] := by
    split <;> rfl
  have hclosing (at_ line : α) : (if (rest.isStop && c.box.onPage) = true then
      cv.closing b at_ line else []).filterMap Primitive.sign? = closingSigns c rest := by
    unfold closingSigns
    split <;> rfl
  simp only [node, List.filterMap_append, hframe, hconnector, hclosing, List.nil_append,
    List.append_nil]

theorem signs_branchMarks {d : Direction} {x width : α} : ∀ {bs : Branches (Cell α)}
    {b : Brush α} {first : Bool},
    (∀ level ∈ bs.levels, ∀ (b : Brush α) (d : Direction) (cursor : α),
      (cv.track b d cursor level.2).marks.filterMap Primitive.sign? = cv.signs d cursor level.2) →
    (cv.branchMarks b d x width first bs).filterMap Primitive.sign?
      = bs.levels.flatMap fun (c, body) =>
        cv.signs d (centred d x width c.box.size.width body).cursor body
  | .last c body, b, first, inside => by
    have hturns (b : Brush α) : (if first = true then [] else cv.branchTurns b x width c).filterMap
        Primitive.sign? = [] := by
      split <;> rfl
    simp only [branchMarks, List.filterMap_append, hturns, inside (c, body) List.mem_cons_self]
    simp only [Branches.levels, List.flatMap_singleton]
    rfl
  | .more c body others, b, first, inside => by
    obtain ⟨hbody, hothers⟩ := List.forall_mem_cons.mp inside
    have hturns (b : Brush α) : (if first = true then [] else cv.branchTurns b x width c).filterMap
        Primitive.sign? = [] := by
      split <;> rfl
    simp only [branchMarks, List.filterMap_append, hturns, hbody, signs_branchMarks hothers,
      Branches.levels, List.flatMap_cons]
    rfl

theorem signs_choiceRails (b : Brush α) (x : α) (bs : Branches (Cell α)) :
    (cv.choiceRails b x bs).filterMap Primitive.sign? = [] := by
  cases bs <;> rfl

/-- Inside the frame of a node are its own signs and those of the walks inside it. -/
theorem signs_content {item : Item (Cell α)} {rest : Track (Cell α)}
    (inside : ∀ level ∈ item.levels, ∀ (b : Brush α) (d : Direction) (cursor : α),
      (cv.track b d cursor level).marks.filterMap Primitive.sign? = cv.signs d cursor level)
    (b : Brush α) (d : Direction) (cursor : α) :
    (cv.content b d cursor rest item).filterMap Primitive.sign?
      = cv.ownSigns d (leftEnd d cursor item.mark) item ++
        cv.insideSigns d (leftEnd d cursor item.mark) item := by
  cases item with
  | symbol _ | epsilon _ => rfl
  | wrap c =>
    rw [content]
    split <;> rfl
  | optional c body | iteration c body =>
    rw [content_eq rfl, itemMarks, List.filterMap_append, inside body (List.mem_singleton_self _)]
    simp only [insideSigns, insideWalks, List.flatMap_singleton]
    rfl
  | rerun c body between =>
    obtain ⟨hbody, hback⟩ := List.forall_mem_cons.mp inside
    have hbetween := hback between (List.mem_singleton_self _)
    have hrails (b : Brush α) (x bodyLine left right : α) : (if between.isStop = true then
        cv.bareRails b x c else cv.rerunRails b x c bodyLine left right).filterMap
          Primitive.sign? = [] := by
      split <;> rfl
    rw [content_eq rfl, itemMarks]
    simp only [List.cons_append, List.filterMap_cons, List.filterMap_append, hbody, hbetween,
      hrails, insideSigns, insideWalks, List.flatMap_cons, List.flatMap_nil, List.append_nil]
    rfl
  | choice branches =>
    have hbranches : ∀ level ∈ branches.levels, ∀ (b : Brush α) (d : Direction) (cursor : α),
        (cv.track b d cursor level.2).marks.filterMap Primitive.sign? = cv.signs d cursor level.2 :=
      List.forall_mem_map.mp inside
    rw [content_eq rfl, itemMarks, List.filterMap_append, signs_choiceRails,
      signs_branchMarks hbranches]
    simp only [insideSigns, insideWalks, List.flatMap_map]
    rfl

/-- **The signs of a node, and then those of what follows.** -/
theorem signs_track_before (item : Item (Cell α)) (rest : Track (Cell α))
    (inside : ∀ level ∈ item.levels, ∀ (b : Brush α) (d : Direction) (cursor : α),
      (cv.track b d cursor level).marks.filterMap Primitive.sign? = cv.signs d cursor level)
    (b : Brush α) (d : Direction) (cursor : α) :
    (cv.track b d cursor (item.before rest)).marks.filterMap Primitive.sign?
      = cv.ownSigns d (leftEnd d cursor item.mark) item ++
        cv.insideSigns d (leftEnd d cursor item.mark) item ++ closingSigns item.mark rest ++
        (cv.track b d (cv.onward d cursor rest item) rest).marks.filterMap Primitive.sign? := by
  rw [track_before, signs_node, signs_content inside, onward_eq_past]
  rfl

/-- **The brush does not show in the signs.** -/
theorem signs_track (t : Track (Cell α)) : ∀ (b : Brush α) (d : Direction) (cursor : α),
    (cv.track b d cursor t).marks.filterMap Primitive.sign? = cv.signs d cursor t := by
  induction t using Track.item_induction with
  | stop => exact fun _ _ _ => rfl
  | before item rest inside ih =>
    intro b d cursor
    rw [signs, signs_track_before item rest inside, signs_track_before item rest inside, ih b]
    rfl

theorem signs_before (d : Direction) (cursor : α) (item : Item (Cell α)) (rest : Track (Cell α)) :
    cv.signs d cursor (item.before rest) = cv.ownSigns d (leftEnd d cursor item.mark) item ++
      cv.insideSigns d (leftEnd d cursor item.mark) item ++ closingSigns item.mark rest ++
      cv.signs d (cv.onward d cursor rest item) rest :=
  signs_track_before item rest (fun level _ => signs_track level) _ d cursor

/-- The signs of a page. -/
theorem signs_page (t : Track (Cell α)) : (cv.page t).filterMap Primitive.sign?
    = cv.signs .forward cv.settings.margin.left t := rfl

end Canvas

end Railroad
