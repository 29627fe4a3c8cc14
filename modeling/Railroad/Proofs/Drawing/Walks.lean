/-
# Walks along levels

A drawing walks along levels with a cursor.  Where the walk goes on behind a node is said by
`Canvas.onward`, which places it comes by, by `Canvas.steps`, and which walks it makes inside a
node, by `Canvas.insideWalks`.

From each place that a walk comes by it goes on as a walk that begins there would: what the latter
draws is the end of what the former does, and both end at the same cursor (`track_of_mem_steps`).
What the walks inside a node draw is drawn with the node (`infix_of_mem_insideWalks`).

All that a node is drawn with besides its frame, and besides the box and the label of a symbol, are
pieces of track (`Primitive.IsTrack`).

These are definitions that describe what `Canvas.track` does, and the lemma that they do is
`Canvas.track_before`, one equation for a node of any kind.  Later modules look at a walk through
them: the drawing of a level is that of its first node, and then of the rest from where the walk
goes on.
-/
import Railroad.Drawing.Render
import Railroad.Proofs.Layout.Rows

namespace Railroad

open Scalar

variable {α : Type} [Scalar α]

/-- **A walk along a level:** which way it goes and where it begins.  The level goes with it, so a
walk can be looked at by itself. -/
structure Walk (α : Type) where
  direction : Direction
  cursor : α
  level : Track (Cell α)

namespace Canvas

/-- A walk in the middle of a node with the given left end and width, along a level that takes the
width `own`. -/
def centred (d : Direction) (left width own : α) (level : Track (Cell α)) : Walk α :=
  let left := left + (width - own) / 2.0
  ⟨d, start d left (left + own), level⟩

/-- **The walks inside a node** that is drawn in a direction, with its left end at `left`. -/
def insideWalks (cv : Canvas α) (d : Direction) (left : α) : Item (Cell α) → List (Walk α)
  | .symbol _ => []
  | .epsilon _ => []
  | .wrap _ => []
  | .optional c body =>
    let gap := cv.settings.componentGap.width
    [⟨d, start d (left + gap) (left + c.box.size.width - gap), body⟩]
  | .iteration c body =>
    let gap := cv.settings.componentGap.width
    [⟨d.flip, start d.flip (left + gap) (left + c.box.size.width - gap), body⟩]
  | .rerun c body between =>
    let width := c.box.size.width
    [centred d left width c.box.group.width body,
      centred d.flip left width c.box.between.width between]
  | .choice branches =>
    branches.levels.map fun (c, body) =>
      centred d left branches.head.extent.width c.box.size.width body

/-- **Where a walk goes on behind a node:** at the end of the node, across the connector to the next
symbol, or, from a wrap that ends a row, at the left margin.  Drawing itself does not use it; that
the cursor goes on like this is proved for each kind of node. -/
def onward (cv : Canvas α) (d : Direction) (cursor : α) (rest : Track (Cell α)) :
    Item (Cell α) → α
  | .symbol c =>
    let cursor := behind d (leftEnd d cursor c) c
    if rest.connects Cell.breaks then cursor + d.sign * cv.settings.componentGap.width / 2.0
    else cursor
  | .wrap c =>
    if d == .forward && c.box.hasHeight && !rest.isStop then cv.settings.margin.left
    else behind d (leftEnd d cursor c) c
  | item => behind d (leftEnd d cursor item.mark) item.mark

/-- **What a node is drawn with** besides its frame, with its left end at `left`: its own marks and
those of the walks inside it.  Wraps have none; the turn into the next row depends on that row. -/
def itemMarks (cv : Canvas α) (b : Brush α) (d : Direction) (left : α) :
    Item (Cell α) → List (Primitive α)
  | .symbol c => cv.symbol b d left c
  | .epsilon c => epsilon b left c
  | .wrap _ => []
  | .optional c body =>
    let gap := cv.settings.componentGap.width
    cv.bypass b left c ++
      (cv.track b d (start d (left + gap) (left + c.box.size.width - gap)) body).marks
  | .iteration c body =>
    let gap := cv.settings.componentGap.width
    cv.iterationRails b left c (body.lineOr c.box.line) ++
      (cv.track b d.flip (start d.flip (left + gap) (left + c.box.size.width - gap)) body).marks
  | .rerun c body between =>
    let width := c.box.size.width
    let line := c.box.line
    let bodyLeft := left + (width - c.box.group.width) / 2.0
    let bodyRight := bodyLeft + c.box.group.width
    let backLeft := left + (width - c.box.between.width) / 2.0
    let backRight := backLeft + c.box.between.width
    let rails :=
      if between.isStop then cv.bareRails b left c
      else cv.rerunRails b left c (between.lineOr line) backLeft backRight
    Canvas.line b left line bodyLeft line :: Canvas.line b bodyRight line (left + width) line ::
      (cv.track b d (start d bodyLeft bodyRight) body).marks ++ rails ++
        (cv.track b d.flip (start d.flip backLeft backRight) between).marks
  | .choice branches =>
    cv.choiceRails b left branches ++
      cv.branchMarks b d left branches.head.extent.width true branches

/-- **What is drawn inside the frame of a node** when a walk comes by; a wrap turns into the next
row if it ends one.  Only for a wrap does it depend on what follows. -/
def content (cv : Canvas α) (b : Brush α) (d : Direction) (cursor : α) (rest : Track (Cell α)) :
    Item (Cell α) → List (Primitive α)
  | .wrap c =>
    if d == .forward && c.box.hasHeight && !rest.isStop then
      cv.rowTurn b cursor c (rest.lineOr c.box.line)
    else []
  | item => cv.itemMarks b d (leftEnd d cursor item.mark) item

/-- The cursor at the end of a node, before a connector that may follow it. -/
def exit (cv : Canvas α) (d : Direction) (cursor : α) (rest : Track (Cell α)) : Item (Cell α) → α
  | .wrap c =>
    if d == .forward && c.box.hasHeight && !rest.isStop then cv.settings.margin.left
    else behind d (leftEnd d cursor c) c
  | item => behind d (leftEnd d cursor item.mark) item.mark

/-- A connector follows the node. -/
def connected (rest : Track (Cell α)) : Item (Cell α) → Bool
  | .symbol _ => rest.connects Cell.breaks
  | _ => false

/-- **The places that a walk comes by:** the cursor, and what of the level is ahead. -/
def steps (cv : Canvas α) (d : Direction) (cursor : α) :
    Track (Cell α) → List (α × Track (Cell α))
  | .stop => [(cursor, .stop)]
  | .symbol c rest =>
    (cursor, .symbol c rest) :: steps cv d (cv.onward d cursor rest (.symbol c)) rest
  | .epsilon c rest =>
    (cursor, .epsilon c rest) :: steps cv d (cv.onward d cursor rest (.epsilon c)) rest
  | .wrap c rest =>
    (cursor, .wrap c rest) :: steps cv d (cv.onward d cursor rest (.wrap c)) rest
  | .optional c body rest =>
    (cursor, .optional c body rest) :: steps cv d (cv.onward d cursor rest (.optional c body)) rest
  | .iteration c body rest =>
    (cursor, .iteration c body rest) ::
      steps cv d (cv.onward d cursor rest (.iteration c body)) rest
  | .rerun c body between rest =>
    (cursor, .rerun c body between rest) ::
      steps cv d (cv.onward d cursor rest (.rerun c body between)) rest
  | .choice branches rest =>
    (cursor, .choice branches rest) :: steps cv d (cv.onward d cursor rest (.choice branches)) rest

variable {cv : Canvas α} {b : Brush α} {d : Direction} {cursor : α}

theorem steps_before (item : Item (Cell α)) (rest : Track (Cell α)) :
    cv.steps d cursor (item.before rest)
      = (cursor, item.before rest) :: cv.steps d (cv.onward d cursor rest item) rest := by
  cases item <;> rfl

theorem content_eq {item : Item (Cell α)} (hitem : item.isWrap = false) (rest : Track (Cell α)) :
    cv.content b d cursor rest item = cv.itemMarks b d (leftEnd d cursor item.mark) item := by
  cases item with
  | wrap _ => cases hitem
  | _ => rfl

theorem exit_eq {item : Item (Cell α)} (hitem : item.isWrap = false) (rest : Track (Cell α)) :
    cv.exit d cursor rest item = behind d (leftEnd d cursor item.mark) item.mark := by
  cases item with
  | wrap _ => cases hitem
  | _ => rfl

/-- **A level is drawn node by node,** each with the brush that it makes of the one in use. -/
theorem track_before (item : Item (Cell α)) (rest : Track (Cell α)) :
    cv.track b d cursor (item.before rest)
      = cv.node b d item.mark (leftEnd d cursor item.mark) (cv.exit d cursor rest item)
        (cv.content (b.override item.mark.node.style) d cursor rest item) (connected rest item)
        rest.isStop fun cursor => cv.track b d cursor rest := by
  cases item <;> rfl

theorem cursor_before (item : Item (Cell α)) (rest : Track (Cell α)) :
    (cv.track b d cursor (item.before rest)).cursor
      = (cv.track b d (cv.onward d cursor rest item) rest).cursor := by
  cases item <;> rfl

/-- The cursor behind a node and the connector that may follow it. -/
def past (cv : Canvas α) (d : Direction) (cursor : α) (connected : Bool) : α :=
  if connected then cursor + d.sign * cv.settings.componentGap.width / 2.0 else cursor

/-- A walk goes on behind the connector that may follow a node. -/
theorem onward_eq_past (d : Direction) (cursor : α) (rest : Track (Cell α)) (item : Item (Cell α)) :
    cv.onward d cursor rest item
      = cv.past d (cv.exit d cursor rest item) (connected rest item) := by
  cases item <;> rfl

/-- **The marks of a node:** its frame, its content with the connector, the arrow head if it ends
the page, and then those of what follows. -/
theorem marks_node (b : Brush α) (d : Direction) (c : Cell α) (left cursor : α)
    (marks : List (Primitive α)) (connected last : Bool) (rest : α → Drawn α) :
    (cv.node b d c left cursor marks connected last rest).marks
      = cv.frame c left ++ ((marks ++ if connected then [Canvas.line (b.override c.node.style)
          cursor c.box.line (cv.past d cursor connected) c.box.line] else []) ++
        ((if last && c.box.onPage then cv.closing b (cv.past d cursor connected) c.box.line
          else []) ++ (rest (cv.past d cursor connected)).marks)) := by
  simp only [node, past, List.append_assoc]

/-- The marks of a node itself are among those of its level. -/
theorem infix_node (c : Cell α) (left : α) (marks : List (Primitive α)) (connected last : Bool)
    (rest : α → Drawn α) :
    marks <:+: (cv.node b d c left cursor marks connected last rest).marks := by
  rw [node]
  simp only [List.append_assoc]
  exact List.infix_append' _ _ _

theorem infix_branchMarks {x width : α} : ∀ {bs : Branches (Cell α)} {b : Brush α} {first : Bool},
    ∀ level ∈ bs.levels, ∃ own, (cv.track own d
      (centred d x width level.1.box.size.width level.2).cursor level.2).marks
        <:+: cv.branchMarks b d x width first bs
  | .last c body, b, first => by
    rw [branchMarks]
    exact List.forall_mem_singleton.mpr ⟨_, (List.suffix_append _ _).isInfix⟩
  | .more c body others, b, first => by
    rw [branchMarks]
    refine List.forall_mem_cons.mpr ⟨⟨_, List.infix_append _ _ _⟩, fun level hlevel => ?_⟩
    obtain ⟨own, hothers⟩ := infix_branchMarks level hlevel
    exact ⟨own, hothers.trans (List.suffix_append _ _).isInfix⟩

theorem infix_itemMarks (b : Brush α) (d : Direction) (left : α) (item : Item (Cell α)) :
    ∀ w ∈ cv.insideWalks d left item, ∃ own, (cv.track own w.direction w.cursor w.level).marks
      <:+: cv.itemMarks b d left item := by
  cases item with
  | symbol _ | epsilon _ | wrap _ => exact List.forall_mem_nil _
  | optional c body | iteration c body =>
    exact List.forall_mem_singleton.mpr ⟨b, (List.suffix_append _ _).isInfix⟩
  | rerun c body between =>
    refine List.forall_mem_cons.mpr ⟨⟨b, ?_⟩,
      List.forall_mem_singleton.mpr ⟨b, (List.suffix_append _ _).isInfix⟩⟩
    rw [itemMarks, List.append_assoc]
    exact ⟨[_, _], _, rfl⟩
  | choice branches =>
    refine List.forall_mem_map.mpr fun level hlevel => ?_
    obtain ⟨own, hbranch⟩ := infix_branchMarks level hlevel
    exact ⟨own, hbranch.trans (List.suffix_append _ _).isInfix⟩

/-- **The walks inside a node are drawn with it,** with a brush of their own. -/
theorem infix_of_mem_insideWalks (b : Brush α) (d : Direction) (cursor : α) (item : Item (Cell α))
    (rest : Track (Cell α)) : ∀ w ∈ cv.insideWalks d (leftEnd d cursor item.mark) item,
    ∃ own, (cv.track own w.direction w.cursor w.level).marks
      <:+: (cv.track b d cursor (item.before rest)).marks := by
  intro w hw
  obtain ⟨own, hmarks⟩ := infix_itemMarks (b.override item.mark.node.style) d _ item w hw
  have hitem : item.isWrap = false := by
    cases item with
    | wrap _ => exact absurd hw List.not_mem_nil
    | _ => rfl
  rw [track_before, content_eq hitem]
  exact ⟨own, hmarks.trans (infix_node _ _ _ _ _ _)⟩

/-- What follows a node is drawn after it. -/
theorem marks_suffix_before (item : Item (Cell α)) (rest : Track (Cell α)) :
    (cv.track b d (cv.onward d cursor rest item) rest).marks
      <:+ (cv.track b d cursor (item.before rest)).marks := by
  cases item <;> exact List.suffix_append _ _

/-- **From each place that it comes by a walk goes on** as if it began there. -/
theorem track_of_mem_steps (t : Track (Cell α)) : ∀ {cursor : α},
    ∀ place ∈ cv.steps d cursor t,
      (cv.track b d place.1 place.2).marks <:+ (cv.track b d cursor t).marks ∧
        (cv.track b d place.1 place.2).cursor = (cv.track b d cursor t).cursor := by
  induction t using Track.item_induction with
  | stop => exact List.forall_mem_singleton.mpr ⟨List.suffix_refl _, rfl⟩
  | before item rest _ ih =>
    intro cursor
    rw [steps_before]
    refine List.forall_mem_cons.mpr ⟨⟨List.suffix_refl _, rfl⟩, fun place hplace => ?_⟩
    obtain ⟨hmarks, hcursor⟩ := ih place hplace
    exact ⟨hmarks.trans (marks_suffix_before item rest),
      hcursor.trans (cursor_before item rest).symm⟩

/-- The last place that a walk comes by is its end. -/
theorem mem_steps_end (t : Track (Cell α)) : ∀ cursor : α,
    ((cv.track b d cursor t).cursor, .stop) ∈ cv.steps d cursor t := by
  induction t using Track.item_induction with
  | stop => exact fun _ => List.mem_singleton_self _
  | before item rest _ ih =>
    intro cursor
    rw [steps_before, cursor_before]
    exact List.mem_cons_of_mem _ (ih _)

end Canvas

/-- **A piece of track made with a brush:** a line, an arc or an arrow head. -/
def Primitive.IsTrack (b : Brush α) : Primitive α → Prop
  | .line _ _ stroke => stroke = b.stroke
  | .arc _ _ _ stroke => stroke = b.stroke
  | .arrow _ _ _ color => color = b.stroke.color
  | _ => False

namespace Canvas

variable {cv : Canvas α}

omit [Scalar α] in
@[simp] theorem isTrack_line (b : Brush α) (x y x' y' : α) :
    (Canvas.line b x y x' y').IsTrack b := rfl

omit [Scalar α] in
@[simp] theorem isTrack_arc (b : Brush α) (x y : α) (angle : UInt16) :
    (cv.arc b x y angle).IsTrack b := rfl

omit [Scalar α] in
@[simp] theorem isTrack_arrow (b : Brush α) (x y : α) (d : Direction) :
    (cv.arrow b x y d).IsTrack b := rfl

omit [Scalar α] in
theorem isTrack_connector (b : Brush α) (x y x' y' : α) (connected : Bool) :
    ∀ mark ∈ (if connected then [Canvas.line b x y x' y'] else []), mark.IsTrack b := by
  split <;> simp

theorem isTrack_closing (b : Brush α) (cursor line : α) (ends : Bool) :
    ∀ mark ∈ (if ends then cv.closing b cursor line else []), mark.IsTrack b := by
  split <;> simp [closing]

theorem isTrack_rowTurn (b : Brush α) (cursor : α) (c : Cell α) (nextLine : α) (turns : Bool) :
    ∀ mark ∈ (if turns then cv.rowTurn b cursor c nextLine else []), mark.IsTrack b := by
  split <;> simp [rowTurn]

theorem isTrack_epsilon (b : Brush α) (x : α) (c : Cell α) :
    ∀ mark ∈ Canvas.epsilon b x c, mark.IsTrack b := by
  simp [epsilon]

theorem isTrack_bypass (b : Brush α) (x : α) (c : Cell α) :
    ∀ mark ∈ cv.bypass b x c, mark.IsTrack b := by
  simp [bypass]

theorem isTrack_iterationRails (b : Brush α) (x : α) (c : Cell α) (line : α) :
    ∀ mark ∈ cv.iterationRails b x c line, mark.IsTrack b := by
  simp [iterationRails, loopRails]

theorem isTrack_rerunRails (b : Brush α) (x : α) (c : Cell α) (line left right : α) (bare : Bool) :
    ∀ mark ∈ (if bare then cv.bareRails b x c else cv.rerunRails b x c line left right),
      mark.IsTrack b := by
  split <;> simp [bareRails, rerunRails, loopRails]

theorem isTrack_choiceRails (b : Brush α) (x : α) (bs : Branches (Cell α)) :
    ∀ mark ∈ cv.choiceRails b x bs, mark.IsTrack b := by
  cases bs <;> simp [choiceRails]

theorem isTrack_branchRails (b : Brush α) (x width left right : α) (c : Cell α) (first : Bool) :
    ∀ mark ∈ (if first then [] else cv.branchTurns b x width c) ++
      cv.branchTrack b x width c left right, mark.IsTrack b := by
  cases first <;> simp [branchTurns, branchTrack]

end Canvas

end Railroad
