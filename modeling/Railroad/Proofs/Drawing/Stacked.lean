/-
# Diagrams one below the other

Productions that are drawn into one document are drawn one by one, each below those before it.  If
one of them cannot be drawn, the first such is at fault.  Otherwise the document is that of the
diagrams (`Diagram.stackedDocument`): behind the background there is one group for each layer in use,
and in it are the elements of each diagram on that layer, in turn and in the order in which they are
drawn, moved down by the heights of the diagrams above.

The marks are put together before they are sorted into layers.  That keeps each of them
(`perm_layers`), and within a layer their order, because a layer is filtered out of the whole
(`Layered.on_ofPrimitives`).

Moving a mark down and putting it on its layer can be done in either order, since a mark keeps its
kind when it is moved (`Primitive.layer_lowered`).  The document is described without either
operation of the program: the moved points, the groups and the attributes of the groups are written
out here.
-/
import Railroad.Proofs.Command.Drawings
import Railroad.Proofs.Drawing.Layers
import Railroad.Proofs.Grammar.Independence
import Railroad.Proofs.Layout.Totals
import Railroad.Proofs.Number.Order

namespace Railroad

open Scalar
open Number (plain)

variable {α : Type} [Scalar α]

/-! ## 1. What a stack of diagrams is -/

/-- The layers that marks are on.  The background has none. -/
def Layer.ofMarks : List Layer := [.frame, .track, .shape, .arrow, .text]

/-- **A mark further down:** each point that it is given by has moved down by `top`, and not to
either side, and all else about it is as it was.  It is written out for each kind of mark, with the
coordinates that it ends up with. -/
def Primitive.lowered (top : α) : Primitive α → Primitive α
  | .line start stop stroke =>
    .line ⟨start.x + 0.0, start.y + top⟩ ⟨stop.x + 0.0, stop.y + top⟩ stroke
  | .arc origin diameter angle stroke => .arc ⟨origin.x + 0.0, origin.y + top⟩ diameter angle stroke
  | .rect origin size radius stroke fill =>
    .rect ⟨origin.x + 0.0, origin.y + top⟩ size radius stroke fill
  | .frame origin size stroke => .frame ⟨origin.x + 0.0, origin.y + top⟩ size stroke
  | .arrow tip direction size color => .arrow ⟨tip.x + 0.0, tip.y + top⟩ direction size color
  | .text content center font color => .text content ⟨center.x + 0.0, center.y + top⟩ font color

theorem Primitive.translate_eq_lowered (mark : Primitive α) (top : α) :
    mark.translate 0.0 top = mark.lowered top := by
  cases mark <;> rfl

@[simp] theorem Primitive.layer_lowered (mark : Primitive α) (top : α) :
    (mark.lowered top).layer = mark.layer := by
  cases mark <;> rfl

namespace Diagram

/-- **Where each of some diagrams begins,** one below the other: below the heights of those before. -/
def tops (above : α) (diagrams : List (Diagram α)) : List α :=
  (diagrams.map (·.size.height)).scanl (· + ·) above

/-- The marks of diagrams, one below the other. -/
def stackedMarks (above : α) (diagrams : List (Diagram α)) : List (Primitive α) :=
  (diagrams.zip (tops above diagrams)).flatMap fun (d, top) => d.marks.map (·.lowered top)

/-- **The elements of a layer:** for each diagram in turn, those of its marks on the layer. -/
def stackedOn [Color.Notation] (layer : Layer) (diagrams : List (Diagram Float32)) : List Xml :=
  (diagrams.zip (tops 0.0 diagrams)).flatMap fun (d, top) =>
    (d.marks.filter (·.layer = layer)).map fun mark => (mark.lowered top).toSvg

/-- **The size of diagrams one below the other:** the largest width and the sum of the heights. -/
def stackedSize (diagrams : List (Diagram α)) : Size α :=
  ⟨largest (diagrams.map (·.size.width)), total (diagrams.map (·.size.height))⟩

/-- **The document of diagrams one below the other:** a group for the background, which is one box
as large as the whole, and a group for each layer in use, with the elements of that layer in it.
Everything in it is given by elements and attributes, so nothing of how drawings are collected is
taken for granted. -/
def stackedDocument [Color.Notation] (background : Color) (diagrams : List (Diagram Float32)) : Xml :=
  let width := plain (stackedSize diagrams).width
  let height := plain (stackedSize diagrams).height
  .element "svg" [("viewBox", " ".intercalate ["0", "0", width, height]), ("width", width),
      ("height", height), ("xmlns", "http://www.w3.org/2000/svg")]
    (.element "g" [("data-layer", "background")]
        [.element "rect" [("x", "0"), ("y", "0"), ("width", width), ("height", height),
          ("fill", Color.Notation.text background)] []] ::
      Layer.ofMarks.filterMap fun layer =>
        if stackedOn layer diagrams = [] then none
        else some (.element "g" [("data-layer", layer.name)] (stackedOn layer diagrams)))

end Diagram

/-! ## 2. Layers -/

section Document

variable [Color.Notation]

/-- **What is on a layer** is filtered out of the marks, in their order. -/
theorem Layered.on_ofPrimitives (marks : List (Primitive Float32)) (layer : Layer) :
    (Layered.ofPrimitives marks).on layer = (marks.filter (·.layer = layer)).map (·.toSvg) := by
  induction marks with
  | nil => rfl
  | cons mark marks ih =>
    have hcons : (Layered.ofPrimitives (mark :: marks)).on layer
        = (if mark.layer = layer then [mark.toSvg] else [])
          ++ (Layered.ofPrimitives marks).on layer := by
      by_cases h : mark.layer = layer <;> simp [Layered.ofPrimitives, Layered.on, h]
    rw [hcons, ih]
    by_cases h : mark.layer = layer <;> simp [h]

/-- No mark is on the background. -/
theorem Layered.on_background (marks : List (Primitive Float32)) :
    (Layered.ofPrimitives marks).on .background = [] := by
  rw [Layered.on_ofPrimitives, List.map_eq_nil_iff, List.filter_eq_nil_iff]
  intro mark _
  cases mark <;> simp [Primitive.layer]

omit [Scalar α] [Color.Notation] in
/-- **Sorting marks by their layers keeps each of them.** -/
theorem perm_layers (marks : List (Primitive α)) :
    (Layer.ofMarks.flatMap fun layer => marks.filter (·.layer = layer)).Perm marks := by
  induction marks with
  | nil => exact .nil
  | cons mark marks ih =>
    have hfilter : (fun layer => (mark :: marks).filter (·.layer = layer))
        = fun layer =>
          (if mark.layer = layer then [mark] else []) ++ marks.filter (·.layer = layer) := by
      funext layer
      by_cases h : mark.layer = layer <;> simp [h]
    have hone : Layer.ofMarks.flatMap (fun layer => if mark.layer = layer then [mark] else [])
        = [mark] := by
      cases mark <;> rfl
    rw [hfilter]
    refine (List.flatMap_append_perm _ _ _).symm.trans ?_
    rw [hone]
    exact ih.cons mark

omit [Color.Notation] in
/-- There is a group for each layer in use. -/
theorem Layered.toSvg_eq (l : Layered Xml) : l.toSvg = Layer.all.filterMap fun layer =>
    if l.on layer = [] then none else some (layer.group (l.on layer)) := by
  rw [Layered.toSvg, Layered.groups_eq, List.map_filterMap]
  congr 1
  funext layer
  split <;> rfl

/-- **A document** has a group for the background and one for each layer in use. -/
theorem svgDocument_eq (background : Color) (size : Size Float32)
    (marks : List (Primitive Float32)) : svgDocument background size marks =
    .element "svg" [("viewBox", " ".intercalate ["0", "0", plain size.width, plain size.height]),
      ("width", plain size.width), ("height", plain size.height),
      ("xmlns", "http://www.w3.org/2000/svg")]
    (Layer.background.group [.element "rect" [("x", "0"), ("y", "0"), ("width", plain size.width),
        ("height", plain size.height), ("fill", Color.Notation.text background)] []] ::
      Layer.ofMarks.filterMap fun layer =>
        if (marks.filter (·.layer = layer)).map (·.toSvg) = [] then none
        else some (layer.group ((marks.filter (·.layer = layer)).map (·.toSvg)))) := by
  let backdrop : Xml := .element "rect" [("x", "0"), ("y", "0"), ("width", plain size.width),
    ("height", plain size.height), ("fill", Color.Notation.text background)] []
  let layers := (Layered.ofPrimitives marks).add .background backdrop
  have hbackground : layers.on .background = [backdrop] := by
    rw [Layered.on_add, Layered.on_background, if_pos rfl, List.nil_append]
  have hmarks {layer : Layer} (h : layer ∈ Layer.ofMarks) :
      layers.on layer = (marks.filter (·.layer = layer)).map (·.toSvg) := by
    have hne : ¬ Layer.background = layer := by
      rintro rfl
      exact absurd h (by decide)
    rw [Layered.on_add, if_neg hne, List.append_nil, Layered.on_ofPrimitives]
  have hgroups : layers.toSvg = Layer.background.group [backdrop] ::
      Layer.ofMarks.filterMap fun layer =>
        if layers.on layer = [] then none else some (layer.group (layers.on layer)) := by
    have hall : Layer.all = .background :: Layer.ofMarks := rfl
    rw [Layered.toSvg_eq, hall, List.filterMap_cons]
    simp only [hbackground, List.cons_ne_nil, if_false]
  refine congrArg (Xml.element "svg" _) (hgroups.trans (congrArg (List.cons _) ?_))
  refine List.filterMap_congr fun layer hlayer => ?_
  rw [hmarks hlayer]

namespace Diagram

/-- The elements of a layer are those of all the marks on it. -/
theorem map_filter_stackedMarks (layer : Layer) (diagrams : List (Diagram Float32)) :
    ((stackedMarks 0.0 diagrams).filter (·.layer = layer)).map (·.toSvg)
      = stackedOn layer diagrams := by
  rw [stackedMarks, List.filter_flatMap, List.map_flatMap, stackedOn]
  refine List.flatMap_congr fun (d, top) _ => ?_
  rw [List.filter_map, List.map_map]
  have hlayer : ((fun mark : Primitive Float32 => decide (mark.layer = layer)) ∘
      fun mark : Primitive Float32 => mark.lowered top)
        = fun mark => decide (mark.layer = layer) := by
    funext mark
    rw [Function.comp_apply, Primitive.layer_lowered]
  rw [hlayer]
  rfl

/-- **Marks of diagrams one below the other make the document** of the diagrams. -/
theorem svgDocument_stackedMarks (background : Color) (diagrams : List (Diagram Float32)) :
    svgDocument background (stackedSize diagrams) (stackedMarks 0.0 diagrams)
      = stackedDocument background diagrams := by
  rw [svgDocument_eq]
  simp only [map_filter_stackedMarks]
  rfl

/-- **Each mark of each diagram has its element** on one of the layers. -/
theorem perm_stackedOn (diagrams : List (Diagram Float32)) :
    (Layer.ofMarks.flatMap fun layer => stackedOn layer diagrams).Perm
      ((stackedMarks 0.0 diagrams).map (·.toSvg)) := by
  have hperm := (perm_layers (stackedMarks 0.0 diagrams)).map (·.toSvg)
  rw [List.map_flatMap] at hperm
  simpa only [map_filter_stackedMarks] using hperm

end Diagram

end Document

/-! ## 3. Stacks of diagrams -/

namespace Grammar

section Stacks

variable [Shaping α] [Color.Notation]

/-- **Diagrams are stacked below others:** each is moved down by the heights so far. -/
theorem stackFrom_eq {g : Grammar} {settings : Settings α} {names : List String}
    {diagrams : List (Diagram α)}
    (h : List.Forall₂ (fun name d => g.render settings name = .ok d) names diagrams) :
    ∀ above : Size α, g.stackFrom settings above names = .ok
      (⟨(diagrams.map (·.size.width)).foldl larger above.width,
          (diagrams.map (·.size.height)).foldl (· + ·) above.height⟩,
        Diagram.stackedMarks above.height diagrams) := by
  induction h with
  | nil => exact fun above => rfl
  | @cons name d names diagrams hd _ ih =>
    intro above
    have hmarks : Diagram.stackedMarks above.height (d :: diagrams)
        = d.marks.map (·.lowered above.height)
          ++ Diagram.stackedMarks (above.height + d.size.height) diagrams := by
      rw [Diagram.stackedMarks, Diagram.tops, List.map_cons, List.scanl_cons, List.zip_cons_cons,
        List.flatMap_cons]
      rfl
    rw [stackFrom, hd]
    simp only [bind, Except.bind, Primitive.translate_eq_lowered]
    rw [ih, hmarks]
    rfl

/-- All names can be drawn, or there is a first that cannot. -/
theorem render_cases (g : Grammar) (settings : Settings α) (names : List String) :
    (∃ diagrams, List.Forall₂ (fun name d => g.render settings name = .ok d) names diagrams) ∨
    ∃ before name after failure, names = before ++ name :: after ∧
      (∀ earlier ∈ before, ∃ d, g.render settings earlier = .ok d) ∧
      g.render settings name = .error failure := by
  induction names with
  | nil => exact .inl ⟨[], .nil⟩
  | cons name names ih =>
    cases hname : g.render settings name with
    | error failure =>
      exact .inr ⟨[], name, names, failure, rfl, List.forall_mem_nil _, hname⟩
    | ok d =>
      rcases ih with ⟨diagrams, hall⟩ | ⟨before, other, after, failure, rfl, hbefore, hother⟩
      · exact .inl ⟨d :: diagrams, .cons hname hall⟩
      · exact .inr ⟨name :: before, other, after, failure, rfl,
          List.forall_mem_cons.mpr ⟨⟨d, hname⟩, hbefore⟩, hother⟩

/-- The diagrams are those of the names. -/
theorem exists_render {g : Grammar} {settings : Settings α} {names : List String}
    {diagrams : List (Diagram α)}
    (h : List.Forall₂ (fun name d => g.render settings name = .ok d) names diagrams) :
    (∀ name ∈ names, ∃ d, g.render settings name = .ok d) ∧
      ∀ d ∈ diagrams, ∃ name, g.render settings name = .ok d := by
  induction h with
  | nil => exact ⟨List.forall_mem_nil _, List.forall_mem_nil _⟩
  | cons hd _ ih =>
    exact ⟨List.forall_mem_cons.mpr ⟨⟨_, hd⟩, ih.1⟩, List.forall_mem_cons.mpr ⟨⟨_, hd⟩, ih.2⟩⟩

end Stacks

section Documents

variable [Shaping Float32] [Color.Notation] [Xml.Notation]
variable {g : Grammar} {settings : Settings Float32} {name : String} {names : List String}
  {chart : ChartStyle Float32}

theorem svg_eq (hchart : Grammar.chart settings = .ok chart) (name : String) :
    g.svg settings name = (g.render settings name).map fun d =>
      Xml.Notation.write (svgDocument chart.background d.size d.marks) := by
  rw [svg, hchart]
  show (g.render settings name >>= fun d => _) = _
  cases g.render settings name <;> rfl

theorem stackedSvg_eq (hchart : Grammar.chart settings = .ok chart) (hne : names ≠ []) :
    g.stackedSvg settings names = (g.stackFrom settings Size.zero names).map fun stacked =>
      Xml.Notation.write (svgDocument chart.background stacked.1 stacked.2) := by
  rw [stackedSvg, if_neg (by simpa using hne), hchart]
  show (g.stackFrom settings Size.zero names >>= fun stacked => _) = _
  cases g.stackFrom settings Size.zero names <;> rfl

omit [Xml.Notation] in
/-- The page of a diagram is not less wide than nothing. -/
theorem Reached.width_nonneg (hg : g.Reached) {d : Diagram Float32}
    (h : g.render settings name = .ok d) : le 0.0 d.size.width = true := by
  obtain ⟨chart, graph, hvalid, hgraph, hlayout, -⟩ := render_ok h
  obtain ⟨registry, collapsing, p, hcompile⟩ := hg.isCompiled_of_graph? hgraph
  let r : Ruler Float32 := .ofSymbols settings.layout g.symbols
  have hr : r.settings.validate = .ok () := hvalid
  have hl : ((graph.afterLayouts ([] : List (Ruler Float32))).layout r).1 = .ok d.layout := hlayout
  obtain ⟨htotals, -⟩ := layout_totals hcompile [] hr hl
  have hmem : d.layout.size.width ∈ d.layout.totals := by simp [Layout.totals]
  exact htotals _ hmem

/-- **What comes of drawing productions into one document.** -/
inductive Stacks (g : Grammar) (settings : Settings Float32) (names : List String) :
    Except (Failure Float32) String → Prop where
  /-- The first of them that cannot be drawn is at fault. -/
  | failed {before after : List String} {name : String} {failure : Failure Float32}
    (split : names = before ++ name :: after)
    (before_ok : ∀ earlier ∈ before, (g.svg settings earlier).isOk = true)
    (fails : g.svg settings name = .error failure) : Stacks g settings names (.error failure)
  /-- All of them are drawn, one below the other.  The elements of the layers are those of all the
  marks, and the width is the largest. -/
  | drawn {chart : ChartStyle Float32} {diagrams : List (Diagram Float32)}
    (all_ok : ∀ name ∈ names, (g.svg settings name).isOk = true)
    (style : Grammar.chart settings = .ok chart)
    (rendered : List.Forall₂ (fun name d => g.render settings name = .ok d) names diagrams)
    (complete : (Layer.ofMarks.flatMap fun layer => Diagram.stackedOn layer diagrams).Perm
      ((Diagram.stackedMarks 0.0 diagrams).map (·.toSvg)))
    (widest : (Diagram.stackedSize diagrams).width ∈ diagrams.map (·.size.width) ∧
      ∀ d ∈ diagrams, le d.size.width (Diagram.stackedSize diagrams).width = true) :
    Stacks g settings names
      (.ok (Xml.Notation.write (Diagram.stackedDocument chart.background diagrams)))

/-- **Productions drawn into one document** are drawn one below the other, or the first that cannot
be drawn is at fault: for any shaping of labels, and however colors and documents are written.

The document is spelled out in full: its element with the reported size, one group for each layer
that is drawn on, and in each group the marks of one production after the other, moved down by the
heights above them. -/
theorem stackedSvg_stacks (hg : g.Reached) (settings : Settings Float32) (hne : names ≠ []) :
    Stacks g settings names (g.stackedSvg settings names) := by
  cases hchart : Grammar.chart settings with
  | error failure =>
    -- Without a style nothing can be drawn, so the first name is at fault.
    obtain ⟨name, names, rfl⟩ := List.exists_cons_of_ne_nil hne
    have hsvg : g.svg settings name = .error failure := by
      rw [svg, hchart]
      rfl
    have hstacked : g.stackedSvg settings (name :: names) = .error failure := by
      rw [stackedSvg, hchart]
      rfl
    rw [hstacked]
    exact .failed (List.nil_append _).symm (List.forall_mem_nil _) hsvg
  | ok chart =>
    have hok {name : String} {d : Diagram Float32} (h : g.render settings name = .ok d) :
        (g.svg settings name).isOk = true := by
      rw [svg_eq hchart, h]
      rfl
    rw [stackedSvg_eq hchart hne]
    rcases g.render_cases settings names with
      ⟨diagrams, hall⟩ | ⟨before, name, after, failure, hsplit, hbefore, hfails⟩
    · have hnames : ∀ name ∈ names, (g.svg settings name).isOk = true := by
        intro name hname
        obtain ⟨d, hd⟩ := (exists_render hall).1 name hname
        exact hok hd
      have hwidths : ∀ width ∈ diagrams.map (·.size.width), le 0.0 width = true := by
        intro width hwidth
        obtain ⟨d, hmem, rfl⟩ := List.mem_map.mp hwidth
        obtain ⟨name, hd⟩ := (exists_render hall).2 d hmem
        exact hg.width_nonneg hd
      have hsome : diagrams.map (·.size.width) ≠ [] := by
        rintro hnil
        rw [List.map_eq_nil_iff] at hnil
        rw [hnil] at hall
        cases hall
        exact hne rfl
      obtain ⟨hone, hgreatest⟩ := Binary.largest_isGreatest hsome hwidths
      rw [List.forall_mem_map] at hgreatest
      have hdrawn := Stacks.drawn hnames hchart hall (Diagram.perm_stackedOn diagrams)
        ⟨hone, hgreatest⟩
      rw [← Diagram.svgDocument_stackedMarks] at hdrawn
      rw [stackFrom_eq hall]
      exact hdrawn
    · have hsvg : g.svg settings name = .error failure := by
        rw [svg_eq hchart, hfails]
        rfl
      rw [hsplit, stackFrom_eq_error hbefore hfails]
      refine .failed rfl (fun earlier hearlier => ?_) hsvg
      obtain ⟨d, hd⟩ := hbefore earlier hearlier
      exact hok hd

end Documents

/-- The same production twice, drawn from words. -/
theorem stackedSvg_stacks_wordsOnly : wordsOnly.Reached ∧ ["p", "p"] ≠ [] ∧
    Stacks wordsOnly .fixed ["p", "p"] (wordsOnly.stackedSvg .fixed ["p", "p"]) ∧
    (wordsOnly.stackedSvg .fixed ["p", "p"]).isOk = true := by
  have hreached : wordsOnly.Reached := Reached.empty.add true twoWords
  have hne : ["p", "p"] ≠ [] := by simp
  exact ⟨hreached, hne, stackedSvg_stacks hreached .fixed hne, by decide +kernel⟩

end Grammar

end Railroad
