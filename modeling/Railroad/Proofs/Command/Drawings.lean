/-
# What is drawn of what is asked for

Settings that were accepted make a drawing of anything that can be drawn: a production that is not drawn
is not defined, or its layout has a box that cannot be drawn (`Grammar.svg_eq_error`).

Each request is answered in its turn, by a drawing or by a failure (`Grammar.answered_drawEach`).  A
failure takes no file name, so the drawings are the same without it (`Grammar.drawEach_congr`).  Drawn
one below the other, productions are all drawn or none is, and then the first that cannot be drawn is
at fault (`Grammar.drawStacked_cases`).

The two ways of drawing, each production for itself or all of them below each other, are recursions
over the names that are asked for, and both are compared with what `Grammar.svg` makes of a name
alone.  In the first a failure is noted and the recursion goes on with the namer as it was, since a
name for a file is asked for only when there is something to put into it.  In the second a failure
ends everything.

A list of names may hold a name twice or one that is not defined, and nothing here assumes
otherwise.  Colors and the text of a document are whatever the notations make of them: what is used
of a notation is only that settings which were checked have colors that can be read.
-/
import Railroad.Proofs.Command.FileName
import Railroad.Proofs.Grammar.Reached

namespace Railroad

theorem exists_of_isOk {ε β : Type} {x : Except ε β} (h : x.isOk = true) : ∃ b, x = .ok b := by
  cases x with
  | ok b => exact ⟨b, rfl⟩
  | error _ => cases h

/-! ## 1. Settings that are accepted -/

namespace Settings

variable [Color.Notation] {settings : Settings Float32}

theorem check_eq_ok (h : settings.check = .ok ()) :
    settings.layout.validate = .ok () ∧ ∃ chart, settings.style.resolve = .ok chart := by
  obtain ⟨_, hlayout, h⟩ := Grammar.bind_eq_ok h
  obtain ⟨chart, hstyle, -⟩ := Grammar.bind_eq_ok h
  exact ⟨Grammar.mapError_eq_ok hlayout, chart, Grammar.mapError_eq_ok hstyle⟩

/-- The settings that are in force unless others are given are accepted. -/
theorem check_default : (Settings.default : Settings Float32).check = .ok () := by
  have hlayout : (LayoutSettings.default : LayoutSettings Float32).validate = .ok () := by
    obtain ⟨_, hvalid⟩ := exists_of_isOk
      (show (LayoutSettings.default : LayoutSettings Float32).validate.isOk = true by decide +kernel)
    exact hvalid
  change (LayoutSettings.default : LayoutSettings Float32).validate.mapError .invalid >>= _ = _
  rw [hlayout]
  rfl

/-- Settings that are read are accepted. -/
theorem check_ofText [Data.Notation] {text : String} (h : ofText text = .ok settings) : settings.check = .ok () := by
  unfold ofText at h
  split at h
  case h_1 => cases h
  case h_2 found hread =>
    obtain ⟨_, hcheck, h⟩ := Grammar.bind_eq_ok h
    obtain rfl := Except.ok.inj h
    exact Grammar.mapError_eq_ok hcheck

end Settings

namespace Grammar

variable [Shaping Float32] [Color.Notation] [Xml.Notation]
variable {g : Grammar} {settings : Settings Float32} {name : String} {names : List String}
  {failure : Failure Float32}

/-! ## 2. One production -/

/-- A drawing is the document of a diagram, and drawing it fails only if the diagram does. -/
theorem svg_eq_map (h : settings.check = .ok ()) : ∃ document : Diagram Float32 → String,
    ∀ name, g.svg settings name = (g.render settings name).map document := by
  obtain ⟨chart, hchart⟩ := (Settings.check_eq_ok h).2
  refine ⟨fun diagram =>
    Xml.Notation.write (svgDocument chart.background diagram.size diagram.marks), fun name => ?_⟩
  rw [svg, Grammar.chart, hchart]
  show (g.render settings name >>= fun diagram => _) = _
  cases g.render settings name <;> rfl

/-- **With accepted settings two things can go wrong:** the name is not defined, or its layout makes no
drawing. -/
theorem svg_eq_error (h : settings.check = .ok ()) (herror : g.svg settings name = .error failure) :
    (g.graph? name = none ∧ failure = .lookup name) ∨
      ∃ graph fault, g.graph? name = some graph ∧ failure = .geometry fault := by
  obtain ⟨hlayout, chart, hchart⟩ := Settings.check_eq_ok h
  obtain ⟨document, hsvg⟩ := svg_eq_map (g := g) h
  rw [hsvg, render, hlayout, Grammar.chart, hchart, Grammar.graph] at herror
  simp only [Except.mapError, bind, Except.bind] at herror
  cases hgraph : g.graph? name with
  | none =>
    rw [hgraph] at herror
    exact .inl ⟨rfl, (Except.error.inj herror).symm⟩
  | some graph =>
    rw [hgraph] at herror
    simp only at herror
    cases hresult : (graph.layout (.ofSymbols settings.layout g.symbols)).1 with
    | ok layout => rw [hresult] at herror; cases herror
    | error fault =>
      rw [hresult] at herror
      exact .inr ⟨graph, fault, rfl, (Except.error.inj herror).symm⟩

/-! ## 3. Each into a file of its own -/

/-- **How requests are answered:** in order, each by a drawing or by a failure.  The names of files
are not in it; they depend on the drawings before, and answers do not. -/
inductive Answered (g : Grammar) (settings : Settings Float32) :
    List String → List Drawing → List (String × Failure Float32) → Prop where
  | nil : Answered g settings [] [] []
  | drawn {name : String} {drawing : Drawing} {names : List String} {drawings : List Drawing}
    {failures : List (String × Failure Float32)} (h : g.svg settings name = .ok drawing.svg)
    (rest : Answered g settings names drawings failures) :
    Answered g settings (name :: names) (drawing :: drawings) failures
  | failed {name : String} {failure : Failure Float32} {names : List String}
    {drawings : List Drawing} {failures : List (String × Failure Float32)}
    (h : g.svg settings name = .error failure)
    (rest : Answered g settings names drawings failures) :
    Answered g settings (name :: names) drawings ((name, failure) :: failures)

theorem Answered.svg_eq_error {drawings : List Drawing} {failures : List (String × Failure Float32)}
    (h : Answered g settings names drawings failures) :
    ∀ entry ∈ failures, g.svg settings entry.1 = .error entry.2 := by
  induction h with
  | nil => exact List.forall_mem_nil _
  | drawn _ _ ih => exact ih
  | failed h _ ih => exact List.forall_mem_cons.mpr ⟨h, ih⟩

/-- **Each request is answered.** -/
theorem answered_drawEach (g : Grammar) (settings : Settings Float32) (directory : String) :
    ∀ (namer : FileNamer) (names : List String),
    Answered g settings names (g.drawEach settings directory namer names).1
      (g.drawEach settings directory namer names).2
  | _, [] => .nil
  | namer, name :: names => by
    rw [drawEach]
    cases hsvg : g.svg settings name with
    | ok svg => exact .drawn hsvg (answered_drawEach g settings directory _ names)
    | error failure => exact .failed hsvg (answered_drawEach g settings directory namer names)

/-- **The drawings have different names,** none of which was handed out before. -/
theorem drawEach_stems (g : Grammar) (settings : Settings Float32) (directory : String) :
    ∀ (namer : FileNamer) (names : List String), ∃ stems : List String,
    (g.drawEach settings directory namer names).1.map Drawing.path
      = stems.map (Drawing.pathIn directory) ∧
    stems.Nodup ∧ ∀ stem ∈ stems, stem ∉ namer.used ∧ FileNamer.Safe stem.toList
  | _, [] => ⟨[], rfl, List.nodup_nil, List.forall_mem_nil _⟩
  | namer, name :: names => by
    rw [drawEach]
    cases g.svg settings name with
    | error failure => exact drawEach_stems g settings directory namer names
    | ok svg =>
      obtain ⟨stems, hpaths, hnodup, hstems⟩ :=
        drawEach_stems g settings directory (namer.next name).2 names
      refine ⟨namer.choose name :: stems, congrArg (_ :: ·) hpaths, ?_, ?_⟩
      · refine List.nodup_cons.mpr ⟨fun hmem => (hstems _ hmem).1 List.mem_cons_self, hnodup⟩
      · refine List.forall_mem_cons.mpr ⟨⟨namer.choose_not_mem name, namer.safe_choose name⟩, ?_⟩
        exact fun stem hstem =>
          ⟨fun hused => (hstems stem hstem).1 (List.mem_cons_of_mem _ hused), (hstems stem hstem).2⟩

/-- The requests that do not fail. -/
def drawable (g : Grammar) (settings : Settings Float32) (names : List String) : List String :=
  names.filter fun name => (g.svg settings name).isOk

theorem drawEach_drawable (g : Grammar) (settings : Settings Float32) (directory : String) :
    ∀ (namer : FileNamer) (names : List String),
    (g.drawEach settings directory namer (g.drawable settings names)).1
      = (g.drawEach settings directory namer names).1
  | _, [] => rfl
  | namer, name :: names => by
    rw [drawable, List.filter_cons]
    cases hsvg : g.svg settings name with
    | error failure =>
      rw [if_neg (by simp [Except.isOk, Except.toBool]), drawEach, hsvg]
      exact drawEach_drawable g settings directory namer names
    | ok svg =>
      rw [if_pos (by rfl), drawEach, drawEach, hsvg]
      exact congrArg (_ :: ·) (drawEach_drawable g settings directory _ names)

/-- **Requests that fail make no difference to the drawings.** -/
theorem drawEach_congr (g : Grammar) (settings : Settings Float32) (directory : String)
    {names names' : List String} (h : g.drawable settings names = g.drawable settings names') :
    (g.drawEach settings directory {} names).1 = (g.drawEach settings directory {} names').1 := by
  rw [← g.drawEach_drawable settings directory {} names, h, drawEach_drawable]

/-! ## 4. All into one file -/

theorem render_eq_ok {svg : String} (h : settings.check = .ok ())
    (hsvg : g.svg settings name = .ok svg) : ∃ diagram, g.render settings name = .ok diagram := by
  obtain ⟨document, hmap⟩ := svg_eq_map (g := g) h
  rw [hmap] at hsvg
  cases hrender : g.render settings name with
  | ok diagram => exact ⟨diagram, rfl⟩
  | error failure => rw [hrender] at hsvg; cases hsvg

theorem render_eq_error (h : settings.check = .ok ())
    (hsvg : g.svg settings name = .error failure) : g.render settings name = .error failure := by
  obtain ⟨document, hmap⟩ := svg_eq_map (g := g) h
  rw [hmap] at hsvg
  cases hrender : g.render settings name with
  | ok diagram => rw [hrender] at hsvg; cases hsvg
  | error failure => rw [hrender] at hsvg; rw [Except.error.inj hsvg]

omit [Xml.Notation] in
/-- Productions are drawn below others if each of them can be drawn. -/
theorem stackFrom_eq_ok (h : ∀ name ∈ names, ∃ diagram, g.render settings name = .ok diagram)
    (above : Size Float32) : ∃ stacked, g.stackFrom settings above names = .ok stacked := by
  induction names generalizing above with
  | nil => exact ⟨_, rfl⟩
  | cons name names ih =>
    obtain ⟨⟨diagram, hdiagram⟩, hrest⟩ := List.forall_mem_cons.mp h
    obtain ⟨⟨total, marks⟩, hstacked⟩ := ih hrest
      ⟨Scalar.larger above.width diagram.size.width, above.height + diagram.size.height⟩
    refine ⟨(total, diagram.marks.map (·.translate 0.0 above.height) ++ marks), ?_⟩
    rw [stackFrom, hdiagram]
    simp only [bind, Except.bind]
    rw [hstacked]
    rfl

omit [Xml.Notation] in
/-- The first of them that cannot be drawn is at fault. -/
theorem stackFrom_eq_error {before after : List String}
    (h : ∀ name ∈ before, ∃ diagram, g.render settings name = .ok diagram)
    (hname : g.render settings name = .error failure) (above : Size Float32) :
    g.stackFrom settings above (before ++ name :: after) = .error failure := by
  induction before generalizing above with
  | nil =>
    rw [List.nil_append, stackFrom, hname]
    rfl
  | cons first before ih =>
    obtain ⟨⟨diagram, hdiagram⟩, hrest⟩ := List.forall_mem_cons.mp h
    rw [List.cons_append, stackFrom, hdiagram]
    simp only [bind, Except.bind]
    rw [ih hrest]

theorem stackedSvg_eq_map (h : settings.check = .ok ()) (hne : names ≠ []) :
    ∃ document : Size Float32 × List (Primitive Float32) → String,
      g.stackedSvg settings names = (g.stackFrom settings Size.zero names).map document := by
  obtain ⟨chart, hchart⟩ := (Settings.check_eq_ok h).2
  refine ⟨fun stacked => Xml.Notation.write (svgDocument chart.background stacked.1 stacked.2), ?_⟩
  rw [stackedSvg, if_neg (by simpa using hne), Grammar.chart, hchart]
  show (g.stackFrom settings Size.zero names >>= fun stacked => _) = _
  cases g.stackFrom settings Size.zero names <;> rfl

theorem drawStacked_eq_map (settings : Settings Float32) (directory input : String)
    (hne : names ≠ []) : ∃ path, g.drawStacked settings directory input names
      = (g.stackedSvg settings names).map fun svg => [⟨path, svg⟩] := by
  refine ⟨Drawing.pathIn directory (FileNamer.choose {} ((Path.stem? input).getD "")), ?_⟩
  rw [drawStacked, if_neg (by simpa using hne)]
  show (g.stackedSvg settings names >>= fun svg => _) = _
  cases g.stackedSvg settings names <;> rfl

/-- **All requests are drawn or none is.**  If none is, the first that cannot be drawn is at fault, and
there is nothing to draw if nothing is asked for. -/
theorem drawStacked_cases (h : settings.check = .ok ()) (directory input : String)
    (names : List String) :
    (names = [] ∧ g.drawStacked settings directory input names = .ok []) ∨
    (∃ drawing, names ≠ [] ∧ (∀ name ∈ names, (g.svg settings name).isOk = true) ∧
      g.stackedSvg settings names = .ok drawing.svg ∧
      g.drawStacked settings directory input names = .ok [drawing]) ∨
    ∃ before name after failure, names = before ++ name :: after ∧
      (∀ earlier ∈ before, (g.svg settings earlier).isOk = true) ∧
      g.svg settings name = .error failure ∧
      g.drawStacked settings directory input names = .error failure := by
  by_cases hne : names = []
  · subst hne
    exact .inl ⟨rfl, rfl⟩
  obtain ⟨document, hstacked⟩ := stackedSvg_eq_map (g := g) h hne
  obtain ⟨path, hdrawn⟩ := drawStacked_eq_map (g := g) settings directory input hne
  have hrender : ∀ {names : List String}, (∀ name ∈ names, (g.svg settings name).isOk = true) →
      ∀ name ∈ names, ∃ diagram, g.render settings name = .ok diagram := fun hall name hname =>
    have ⟨_, hsvg⟩ := exists_of_isOk (hall name hname)
    render_eq_ok h hsvg
  cases hfirst : names.find? fun name => !(g.svg settings name).isOk with
  | none =>
    have hall : ∀ name ∈ names, (g.svg settings name).isOk = true := by
      simpa using List.find?_eq_none.mp hfirst
    obtain ⟨stacked, hok⟩ := stackFrom_eq_ok (hrender hall) Size.zero
    rw [hok] at hstacked
    exact .inr (.inl ⟨⟨path, document stacked⟩, hne, hall, hstacked, by rw [hdrawn, hstacked]; rfl⟩)
  | some name =>
    obtain ⟨hname, before, after, rfl, hbefore⟩ := List.find?_eq_some_iff_append.mp hfirst
    have hbefore' : ∀ earlier ∈ before, (g.svg settings earlier).isOk = true := by
      simpa using hbefore
    cases hsvg : g.svg settings name with
    | ok svg => rw [hsvg] at hname; cases hname
    | error failure =>
      rw [stackFrom_eq_error (hrender hbefore') (render_eq_error h hsvg)] at hstacked
      exact .inr (.inr ⟨before, name, after, failure, rfl, hbefore', hsvg,
        by rw [hdrawn, hstacked]; rfl⟩)

end Grammar

end Railroad
