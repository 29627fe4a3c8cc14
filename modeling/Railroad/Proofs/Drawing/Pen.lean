/-
# Drawing with one pen

A drawing can be made by one pen that is handed from node to node: whoever draws a node takes the
brush of the pen away, puts in one with what the node overrides, and puts the old one back when the
node and its connector are there.  The branches of an alternation below the first do the same.

Such a pen leaves every level with the brush that it came with, and on the way it makes the marks
that the level is drawn with when each node is given its own brush (`Canvas.draws_level`).

The pen is the way in which `draw_level` and `draw_node` are written: with a style that is entered
and left again.  `Pen.Draws` is a triple about such an act, and the rules for it are one for acts
that follow each other, one for an act between entering and leaving, and one for marks.  The walk
itself is then gone through once more, one case for each kind of node.
-/
import Railroad.Proofs.Drawing.Walks

namespace Railroad

open Scalar

variable {α : Type} [Scalar α]

/-! ## 1. Pens -/

/-- **A pen:** the brush that is in use, and the marks that were made so far. -/
structure Pen (α : Type) where
  brush : Brush α
  marks : List (Primitive α) := []

namespace Pen

/-- Makes marks with the brush in use. -/
def draw (marks : Brush α → List (Primitive α)) : StateM (Pen α) Unit :=
  modify fun pen => { pen with marks := pen.marks ++ marks pen.brush }

/-- Takes what a node overrides into use: the brush to go back to. -/
def enter (style : NodeStyle) : StateM (Pen α) (Brush α) :=
  modifyGet fun pen => (pen.brush, { pen with brush := pen.brush.override style })

/-- Goes back to a brush. -/
def leave (saved : Brush α) : StateM (Pen α) Unit := modify fun pen => { pen with brush := saved }

/-- Draws what belongs to a node that overrides something. -/
def within (style : NodeStyle) (act : StateM (Pen α) Unit) : StateM (Pen α) Unit := do
  let saved ← enter style
  act
  leave saved

end Pen

/-! ## 2. Levels -/

namespace Canvas

/-- Draws a node with what `content` draws inside its frame: the cursor after it. -/
def drawNode (cv : Canvas α) (d : Direction) (c : Cell α) (left cursor : α)
    (connected last : Bool) (content : StateM (Pen α) Unit) : StateM (Pen α) α := do
  let line := c.box.line
  let next := if connected then cursor + d.sign * cv.settings.componentGap.width / 2.0 else cursor
  Pen.within c.node.style do
    Pen.draw fun _ => cv.frame c left
    content
    Pen.draw fun b => if connected then [Canvas.line b cursor line next line] else []
  Pen.draw fun b => if last && c.box.onPage then cv.closing b next line else []
  return next

/-- Draws a branch of an alternation with its left end at `x`; `level` draws along its level.  The
`first` one is drawn with the brush of the alternation. -/
def drawBranch (cv : Canvas α) (x width : α) (first : Bool) (c : Cell α)
    (level : StateM (Pen α) α) : StateM (Pen α) Unit := do
  let left := x + (width - c.box.size.width) / 2.0
  let right := left + c.box.size.width
  if first then
    Pen.draw fun b => cv.branchTrack b x width c left right
    discard level
  else
    Pen.within c.node.style do
      Pen.draw fun b => cv.branchTurns b x width c
      Pen.draw fun b => cv.branchTrack b x width c left right
      discard level

mutual

/-- **Draws a level** from the cursor on: the cursor after it.  This is how drawing goes with a
brush that is changed and put back on the way. -/
def drawLevel (cv : Canvas α) (d : Direction) (cursor : α) : Track (Cell α) → StateM (Pen α) α
  | .stop => return cursor
  | .symbol c rest => do
    let left := leftEnd d cursor c
    let next ← cv.drawNode d c left (behind d left c) (rest.connects Cell.breaks) rest.isStop
      (Pen.draw fun b => cv.symbol b d left c)
    cv.drawLevel d next rest
  | .epsilon c rest => do
    let left := leftEnd d cursor c
    let next ← cv.drawNode d c left (behind d left c) false rest.isStop
      (Pen.draw fun b => epsilon b left c)
    cv.drawLevel d next rest
  | .wrap c rest => do
    let left := leftEnd d cursor c
    let turns := d == .forward && c.box.hasHeight && !rest.isStop
    let next ← cv.drawNode d c left (if turns then cv.settings.margin.left else behind d left c)
      false rest.isStop
      (Pen.draw fun b => if turns then cv.rowTurn b cursor c (rest.lineOr c.box.line) else [])
    cv.drawLevel d next rest
  | .optional c body rest => do
    let left := leftEnd d cursor c
    let gap := cv.settings.componentGap.width
    let next ← cv.drawNode d c left (behind d left c) false rest.isStop do
      Pen.draw fun b => cv.bypass b left c
      discard (cv.drawLevel d (start d (left + gap) (left + c.box.size.width - gap)) body)
    cv.drawLevel d next rest
  | .iteration c body rest => do
    let left := leftEnd d cursor c
    let gap := cv.settings.componentGap.width
    let next ← cv.drawNode d c left (behind d left c) false rest.isStop do
      Pen.draw fun b => cv.iterationRails b left c (body.lineOr c.box.line)
      discard
        (cv.drawLevel d.flip (start d.flip (left + gap) (left + c.box.size.width - gap)) body)
    cv.drawLevel d next rest
  | .rerun c body between rest => do
    let left := leftEnd d cursor c
    let width := c.box.size.width
    let line := c.box.line
    let bodyLeft := left + (width - c.box.group.width) / 2.0
    let bodyRight := bodyLeft + c.box.group.width
    let backLeft := left + (width - c.box.between.width) / 2.0
    let backRight := backLeft + c.box.between.width
    let next ← cv.drawNode d c left (behind d left c) false rest.isStop do
      Pen.draw fun b =>
        [Canvas.line b left line bodyLeft line, Canvas.line b bodyRight line (left + width) line]
      discard (cv.drawLevel d (start d bodyLeft bodyRight) body)
      Pen.draw fun b =>
        if between.isStop then cv.bareRails b left c
        else cv.rerunRails b left c (between.lineOr line) backLeft backRight
      discard (cv.drawLevel d.flip (start d.flip backLeft backRight) between)
    cv.drawLevel d next rest
  | .choice branches rest => do
    let c := branches.head
    let left := leftEnd d cursor c
    let next ← cv.drawNode d c left (behind d left c) false rest.isStop do
      Pen.draw fun b => cv.choiceRails b left branches
      cv.drawBranches d left c.extent.width true branches
    cv.drawLevel d next rest

/-- Draws the branches of an alternation, each in the middle of it. -/
def drawBranches (cv : Canvas α) (d : Direction) (x width : α) (first : Bool) :
    Branches (Cell α) → StateM (Pen α) Unit
  | .last c body => do
    let left := x + (width - c.box.size.width) / 2.0
    cv.drawBranch x width first c
      (cv.drawLevel d (start d left (left + c.box.size.width)) body)
  | .more c body others => do
    let left := x + (width - c.box.size.width) / 2.0
    cv.drawBranch x width first c
      (cv.drawLevel d (start d left (left + c.box.size.width)) body)
    cv.drawBranches d x width false others

end

/-- **Draws a page:** the piece of track that leads in, and the top level. -/
def drawPage (cv : Canvas α) (t : Track (Cell α)) : StateM (Pen α) α := do
  let origin := cv.settings.margin.left
  let line := t.lineOr 0.0
  let leadIn := cv.settings.componentGap.width / 4.0
  Pen.draw fun b => [Canvas.line b (origin - leadIn) line origin line]
  cv.drawLevel .forward origin t

end Canvas

/-! ## 3. What a pen does -/

/-- **Something is drawn** with the brush in use, which is the same afterwards.  The marks are given
for every brush, since a level inside a node is drawn with what the node overrides. -/
def Pen.Draws {β : Type} (act : StateM (Pen α) β) (result : β)
    (marks : Brush α → List (Primitive α)) : Prop :=
  ∀ pen, act.run pen = (result, { pen with marks := pen.marks ++ marks pen.brush })

namespace Pen.Draws

variable {β γ : Type} {act : StateM (Pen α) β} {result : β}
  {marks marks' : Brush α → List (Primitive α)}

omit [Scalar α] in
theorem draw (marks : Brush α → List (Primitive α)) : Draws (Pen.draw marks) () marks :=
  fun _ => rfl

omit [Scalar α] in
theorem pure (result : β) : Draws (Pure.pure result : StateM (Pen α) β) result fun _ => [] := by
  intro pen
  rw [List.append_nil]
  rfl

omit [Scalar α] in
theorem bind {next : β → StateM (Pen α) γ} {result' : γ} (h : Draws act result marks)
    (h' : Draws (next result) result' marks') :
    Draws (act >>= next) result' fun b => marks b ++ marks' b := by
  intro pen
  rw [StateT.run_bind, h pen, ← List.append_assoc]
  exact h' { pen with marks := pen.marks ++ marks pen.brush }

omit [Scalar α] in
/-- One after the other. -/
theorem andThen {act' : StateM (Pen α) γ} {result' : γ} (h : Draws act result marks)
    (h' : Draws act' result' marks') :
    Draws (act >>= fun _ => act') result' fun b => marks b ++ marks' b :=
  h.bind h'

omit [Scalar α] in
theorem congr (h : Draws act result marks) (heq : ∀ b, marks b = marks' b) :
    Draws act result marks' :=
  funext heq ▸ h

omit [Scalar α] in
theorem discard (h : Draws act result marks) : Draws (Functor.discard act) () marks := by
  intro pen
  show ((), (act.run pen).2) = _
  rw [h pen]

omit [Scalar α] in
/-- **The brush is put back** after what is drawn with another one. -/
theorem within {act : StateM (Pen α) Unit} (h : Draws act () marks) (style : NodeStyle) :
    Draws (Pen.within style act) () fun b => marks (b.override style) := by
  intro pen
  show ((), { (act.run { pen with brush := pen.brush.override style }).2 with brush := pen.brush })
    = _
  rw [h]

end Pen.Draws

namespace Canvas

variable {cv : Canvas α}

/-- **A node is drawn with the brush that it makes of the one in use,** and what follows with the
latter. -/
theorem draws_node {d : Direction} {c : Cell α} {left cursor : α} {connected last : Bool}
    {content : StateM (Pen α) Unit} (marks : Brush α → List (Primitive α))
    {rest : α → StateM (Pen α) α} {result : α → α} {draw : Brush α → α → Drawn α}
    (hcontent : Pen.Draws content () marks)
    (hrest : ∀ cursor, Pen.Draws (rest cursor) (result cursor) fun b => (draw b cursor).marks) :
    Pen.Draws (cv.drawNode d c left cursor connected last content >>= rest)
      (result (if connected then cursor + d.sign * cv.settings.componentGap.width / 2.0
        else cursor))
      fun b => (cv.node b d c left cursor (marks (b.override c.node.style)) connected last
        (draw b)).marks := by
  have hown : Pen.Draws (cv.drawNode d c left cursor connected last content) _ _ :=
    (((Pen.Draws.draw _).andThen (hcontent.andThen (.draw _))).within _).andThen
      ((Pen.Draws.draw _).andThen (.pure _))
  refine (hown.bind (hrest _)).congr fun b => ?_
  simp only [node, List.append_nil, List.append_assoc]

/-- A branch is drawn along its level, below the first one with a brush of its own. -/
theorem draws_branch {d : Direction} {x width : α} {c : Cell α} {body : Track (Cell α)}
    {result : α → α} (first : Bool)
    (h : ∀ cursor, Pen.Draws (cv.drawLevel d cursor body) (result cursor)
      fun b => (cv.track b d cursor body).marks) :
    Pen.Draws (cv.drawBranch x width first c
        (cv.drawLevel d (centred d x width c.box.size.width body).cursor body)) ()
      fun b => cv.branchMarks b d x width first (.last c body) := by
  cases first with
  | true =>
    exact ((Pen.Draws.draw _).andThen (h _).discard).congr fun b => rfl
  | false =>
    refine (((Pen.Draws.draw _).andThen ((Pen.Draws.draw _).andThen (h _).discard)).within _).congr
      fun b => ?_
    rw [branchMarks, ← List.append_assoc]
    rfl

theorem draws_branches {d : Direction} {x width : α} : ∀ {bs : Branches (Cell α)} {first : Bool},
    (∀ level ∈ bs.levels, ∀ (d : Direction) (cursor : α), Pen.Draws (cv.drawLevel d cursor level.2)
      (cv.track cv.brush d cursor level.2).cursor fun b => (cv.track b d cursor level.2).marks) →
    Pen.Draws (cv.drawBranches d x width first bs) ()
      fun b => cv.branchMarks b d x width first bs
  | .last c body, first, h => draws_branch first (h (c, body) (List.mem_singleton_self _) d)
  | .more c body others, first, h => by
    obtain ⟨hbody, hothers⟩ := List.forall_mem_cons.mp h
    exact ((draws_branch first (hbody d)).andThen (draws_branches hothers)).congr fun b => by
      simp only [branchMarks]

/-- **A pen draws a level with the brush it comes with, and leaves with it.** -/
theorem draws_level (t : Track (Cell α)) : ∀ (d : Direction) (cursor : α),
    Pen.Draws (cv.drawLevel d cursor t) (cv.track cv.brush d cursor t).cursor
      fun b => (cv.track b d cursor t).marks := by
  induction t using Track.item_induction with
  | stop => exact fun _ _ => .pure _
  | before item rest inside ih =>
    intro d cursor
    rw [cursor_before]
    simp only [track_before]
    cases item with
    | symbol c =>
      exact draws_node (fun b => cv.content b d cursor rest (.symbol c)) (.draw _) (ih d)
    | epsilon c =>
      exact draws_node (fun b => cv.content b d cursor rest (.epsilon c)) (.draw _) (ih d)
    | wrap c => exact draws_node (fun b => cv.content b d cursor rest (.wrap c)) (.draw _) (ih d)
    | optional c body =>
      have hbody := inside body (List.mem_singleton_self _) d
      exact draws_node (fun b => cv.content b d cursor rest (.optional c body))
        ((Pen.Draws.draw _).andThen (hbody _).discard) (ih d)
    | iteration c body =>
      have hbody := inside body (List.mem_singleton_self _) d.flip
      exact draws_node (fun b => cv.content b d cursor rest (.iteration c body))
        ((Pen.Draws.draw _).andThen (hbody _).discard) (ih d)
    | rerun c body between =>
      obtain ⟨hbody, hback⟩ := List.forall_mem_cons.mp inside
      have hbetween := List.forall_mem_singleton.mp hback d.flip
      refine draws_node (fun b => cv.content b d cursor rest (.rerun c body between))
        (((Pen.Draws.draw _).andThen ((hbody d _).discard.andThen
          ((Pen.Draws.draw _).andThen (hbetween _).discard))).congr fun b => ?_) (ih d)
      rw [content_eq rfl, itemMarks]
      simp only [List.cons_append, List.nil_append, List.append_assoc]
      rfl
    | choice branches =>
      have hlevels : ∀ level ∈ branches.levels, ∀ (d : Direction) (cursor : α),
          Pen.Draws (cv.drawLevel d cursor level.2) (cv.track cv.brush d cursor level.2).cursor
            fun b => (cv.track b d cursor level.2).marks := List.forall_mem_map.mp inside
      exact draws_node (fun b => cv.content b d cursor rest (.choice branches))
        ((Pen.Draws.draw _).andThen (draws_branches hlevels)) (ih d)

/-- A page is drawn likewise. -/
theorem draws_page (t : Track (Cell α)) : Pen.Draws (cv.drawPage t)
    (cv.track cv.brush .forward cv.settings.margin.left t).cursor fun b =>
      Canvas.line b (cv.settings.margin.left - cv.settings.componentGap.width / 4.0)
        (t.lineOr 0.0) cv.settings.margin.left (t.lineOr 0.0) ::
        (cv.track b .forward cv.settings.margin.left t).marks :=
  (Pen.Draws.draw _).andThen (draws_level t .forward _)

end Canvas

end Railroad
