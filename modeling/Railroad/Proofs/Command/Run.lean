/-
# What comes of a run

A run that reads its settings and its grammar, and whose files can be written, comes to an end that
depends on what is asked for alone.

Each production into a file of its own: every request is answered by a file or by a failure, in order,
and a request that fails makes no difference to the files of the others (`Delivery`).  The files do not
get into each other's way because their paths end in different names; so what was written for one request
is not written over for another (`holds_writeAll`).

All productions into one file: either that file is written or nothing is, and then the run fails as
the first of them does (`Stacking`).

A run is a program over the accesses that it makes to a disk, and `onDisk` lets it run on one.  Its
laws are at the start (`onDisk_bind`, `onDisk_read`, `onDisk_write`), and nothing after them opens
the definition.  What reads and does not write leaves the disk as it is (`Reads`), which settles
loading settings and input; what writes is a list of drawings one after the other.

Files are held on the disk that results, not merely reported as written.  That needs the paths to be
apart: two drawings whose paths ended in the same name might be one file.  The namer sees to it that
their names differ (`pairwise_apart_drawEach`), and the last name on a path is all that counts,
wherever the directory of the drawings may be.  How the text of settings and the text of a document
are written is left to notations that the theorems take as they are.
-/
import Railroad.Proofs.Command.Drawings
import Railroad.Proofs.Files.Disk
import Railroad.Proofs.Grammar.Source

namespace Railroad

namespace Command

variable {β γ : Type}

/-! ## 1. Runs on a disk -/

/-- What is done with the files of a disk. -/
abbrev OnDisk (β : Type) := ExceptT (Failure Float32) (StateM Disk) β

/-- **What comes of it,** and the disk afterwards.  The program does not know that its files are a
tree: it has them as any `FileAccess`. -/
def onDisk (x : OnDisk β) (d : Disk) : Except (Failure Float32) β × Disk := x.run.run d

theorem onDisk_bind (x : OnDisk β) (f : β → OnDisk γ) (d : Disk) :
    onDisk (x >>= f) d = match onDisk x d with
      | (.ok b, d) => onDisk (f b) d
      | (.error e, d) => (.error e, d) := by
  show (ExceptT.bindCont f (onDisk x d).1) (onDisk x d).2 = _
  cases onDisk x d with
  | mk result d => cases result <;> rfl

theorem onDisk_lift (x : StateM Disk β) (d : Disk) :
    onDisk (liftM x : OnDisk β) d = (.ok (x d).1, (x d).2) := rfl

/-- An access that is not answered is a failure of the files. -/
theorem onDisk_access (answer : StateM Disk (Except String β)) (d : Disk) :
    onDisk (access answer : OnDisk β) d = ((answer d).1.mapError .io, (answer d).2) := by
  rw [access, onDisk_bind, onDisk_lift]
  dsimp only
  cases (answer d).1 <;> rfl

theorem onDisk_read (path : String) (d : Disk) :
    onDisk (access (FileAccess.read path) : OnDisk String) d = match d.read? path with
      | some text => (.ok text, d)
      | none => (.error (.io ("cannot read " ++ path)), d) := by
  have hanswer : (FileAccess.read path : StateM Disk (Except String String)) d
      = match d.read? path with
        | some text => (.ok text, d)
        | none => (.error ("cannot read " ++ path), d) := by
    show (match d.read? path with | some text => _ | none => _ : StateM Disk _) d = _
    cases d.read? path <;> rfl
  rw [onDisk_access, hanswer]
  cases d.read? path <;> rfl

theorem onDisk_makeDirectory (path : String) (d : Disk) :
    onDisk (access (FileAccess.makeDirectory path) : OnDisk Unit) d =
      if (d.makeDirectory path).1 then (.ok (), (d.makeDirectory path).2)
      else (.error (.io ("cannot make the directory " ++ path)), (d.makeDirectory path).2) := by
  have hanswer : (FileAccess.makeDirectory path : StateM Disk (Except String Unit)) d
      = (if (d.makeDirectory path).1 then .ok () else .error ("cannot make the directory " ++ path),
        (d.makeDirectory path).2) := rfl
  rw [onDisk_access, hanswer]
  cases (d.makeDirectory path).1 <;> rfl

theorem onDisk_write (path text : String) (d : Disk) :
    onDisk (access (FileAccess.write path text) : OnDisk Unit) d = match d.write path text with
      | .ok d' => (.ok (), d')
      | .error _ => (.error (.io ("cannot write " ++ path)), d) := by
  have hanswer : (FileAccess.write path text : StateM Disk (Except String Unit)) d
      = match d.write path text with
        | .ok d' => (.ok (), d')
        | .error _ => (.error ("cannot write " ++ path), d) := by
    show (match d.write path text with | .ok d' => _ | .error _ => _ : StateM Disk _) d = _
    cases d.write path text <;> rfl
  rw [onDisk_access, hanswer]
  cases d.write path text <;> rfl

/-! ## 2. Reading settings -/

/-- **It leaves the disk as it is,** and what it answers has a property.  It is closed under going
on with what was answered, so a program is taken apart access by access. -/
def Reads (x : OnDisk β) (P : β → Prop) : Prop :=
  ∀ d, (onDisk x d).2 = d ∧ ∀ b, (onDisk x d).1 = .ok b → P b

namespace Reads

variable {P : β → Prop} {Q : γ → Prop} {x : OnDisk β} {f : β → OnDisk γ}

theorem pure {b : β} (h : P b) : Reads (pure b) P :=
  fun _ => ⟨rfl, fun _ hb => Except.ok.inj hb ▸ h⟩

theorem throw (failure : Failure Float32) : Reads (throw failure : OnDisk β) P :=
  fun _ => ⟨rfl, fun _ hb => nomatch hb⟩

theorem bind (hx : Reads x P) (hf : ∀ b, P b → Reads (f b) Q) : Reads (x >>= f) Q := by
  intro d
  obtain ⟨hdisk, hanswer⟩ := hx d
  rw [onDisk_bind]
  cases hx : onDisk x d with
  | mk result after =>
    rw [hx] at hdisk hanswer
    obtain rfl : after = d := hdisk
    cases result with
    | error e => exact ⟨rfl, fun _ hb => nomatch hb⟩
    | ok b => exact hf b (hanswer b rfl) _

theorem has (path : String) :
    Reads (liftM (FileAccess.has path : StateM Disk Bool) : OnDisk Bool) fun _ => True :=
  fun _ => ⟨rfl, fun _ _ => trivial⟩

theorem read (path : String) :
    Reads (access (FileAccess.read path) : OnDisk String) fun _ => True := by
  intro d
  rw [onDisk_read]
  cases d.read? path <;> exact ⟨rfl, fun _ _ => trivial⟩

/-- Settings that are read are accepted. -/
theorem readSettings [Color.Notation] [Data.Notation] (path : String) :
    Reads (readSettings path : OnDisk (Settings Float32)) fun s => s.check = .ok () := by
  refine (has path).bind fun there _ => ?_
  cases there with
  | false => exact Reads.throw _
  | true =>
    refine (read path).bind fun text _ => ?_
    split
    case h_1 settings hsettings => exact .pure (Settings.check_ofText hsettings)
    case h_2 => exact .throw _

/-- **Looking for settings changes nothing, and the settings that are found are accepted.** -/
theorem loadSettings [Color.Notation] [Data.Notation] (asked user : Option String) :
    Reads (loadSettings asked user : OnDisk (Settings Float32)) fun s => s.check = .ok () := by
  have hdefault : Reads (Pure.pure Settings.default : OnDisk (Settings Float32))
      fun s => s.check = .ok () := .pure Settings.check_default
  unfold Command.loadSettings
  split
  case h_1 path => exact readSettings path
  case h_2 =>
    refine (has localConfig).bind fun here _ => ?_
    split
    case isTrue => exact readSettings localConfig
    case isFalse =>
      split
      case h_2 => exact hdefault
      case h_1 path =>
        refine (has path).bind fun there _ => ?_
        split
        case isTrue => exact readSettings path
        case isFalse => exact hdefault

end Reads

/-! ## 3. Writing drawings -/

variable {d d' : Disk} {path text : String} {drawing : Drawing} {drawings : List Drawing}

theorem onDisk_writeAll_cons (drawing : Drawing) (drawings : List Drawing) (d : Disk) :
    onDisk (writeAll (drawing :: drawings)) d = match d.write drawing.path drawing.svg with
      | .ok d' => onDisk (writeAll drawings) d'
      | .error _ => (.error (.io ("cannot write " ++ drawing.path)), d) := by
  rw [writeAll, onDisk_bind, onDisk_write]
  cases d.write drawing.path drawing.svg <;> rfl

/-- Writing fails only if a file cannot be written. -/
theorem onDisk_writeAll_cases (drawings : List Drawing) (d : Disk) :
    (∃ d', onDisk (writeAll drawings) d = (.ok (), d')) ∨
      ∃ reason d', onDisk (writeAll drawings) d = (.error (.io reason), d') := by
  induction drawings generalizing d with
  | nil => exact .inl ⟨d, rfl⟩
  | cons drawing drawings ih =>
    rw [onDisk_writeAll_cons]
    cases d.write drawing.path drawing.svg with
    | ok d' => exact ih d'
    | error _ => exact .inr ⟨_, d, rfl⟩

/-- **Paths that end in different names.**  Such paths lead to two places on every disk. -/
def Apart (path other : String) : Prop :=
  (Path.steps path).getLast? ≠ (Path.steps other).getLast?

/-- What is held elsewhere stays when drawings are written. -/
theorem holds_of_writeAll (h : onDisk (writeAll drawings) d = (.ok (), d')) (hheld : d.Holds path text)
    (hapart : ∀ drawing ∈ drawings, Apart path drawing.path) : d'.Holds path text := by
  induction drawings generalizing d with
  | nil =>
    obtain rfl : d = d' := congrArg Prod.snd h
    exact hheld
  | cons drawing drawings ih =>
    obtain ⟨hfirst, hrest⟩ := List.forall_mem_cons.mp hapart
    rw [onDisk_writeAll_cons] at h
    cases hwrite : d.write drawing.path drawing.svg with
    | error _ => rw [hwrite] at h; cases h
    | ok between =>
      rw [hwrite] at h
      exact ih h (hheld.write hwrite hfirst) hrest

/-- **All drawings are held in the end** if no two of their paths end in the same name. -/
theorem holds_writeAll (h : onDisk (writeAll drawings) d = (.ok (), d'))
    (hapart : (drawings.map Drawing.path).Pairwise Apart) :
    ∀ drawing ∈ drawings, d'.Holds drawing.path drawing.svg := by
  induction drawings generalizing d with
  | nil => exact List.forall_mem_nil _
  | cons drawing drawings ih =>
    obtain ⟨hfirst, hrest⟩ := List.pairwise_cons.mp hapart
    rw [onDisk_writeAll_cons] at h
    cases hwrite : d.write drawing.path drawing.svg with
    | error _ => rw [hwrite] at h; cases h
    | ok between =>
      rw [hwrite] at h
      refine List.forall_mem_cons.mpr ⟨?_, ih h hrest⟩
      exact holds_of_writeAll h (Disk.holds_write hwrite)
        fun other hother => hfirst _ (List.mem_map_of_mem hother)

/-- The drawings of a run lie apart. -/
theorem pairwise_apart_drawEach [Shaping Float32] [Color.Notation] [Xml.Notation] (g : Grammar)
    (settings : Settings Float32) (directory : String) (names : List String) :
    ((g.drawEach settings directory {} names).1.map Drawing.path).Pairwise Apart := by
  obtain ⟨stems, hpaths, hnodup, hstems⟩ := g.drawEach_stems settings directory {} names
  rw [hpaths]
  refine List.pairwise_map.mpr (hnodup.imp_of_mem fun {a b} ha hb hne heq => ?_)
  rw [Drawing.last_step directory (hstems a ha).2, Drawing.last_step directory (hstems b hb).2] at heq
  simp only [Option.some.injEq, Path.Step.into.injEq, String.append_left_inj] at heq
  exact hne heq

/-! ## 4. Runs that can read their input -/

/-- **The productions that are asked for:** all of the grammar if none is named. -/
def requested (args : Arguments) (g : Grammar) : List String :=
  if args.symbols.isEmpty then g.names else args.symbols

section Runs

variable [Color.Notation] [Data.Notation]
variable {user : Option String} {args : Arguments} {settings : Settings Float32} {source : String}
  {g : Grammar} {ps : List Production} {failures : List (String × Failure Float32)}

/-- **What a run reads** from a disk: the settings that it finds, and the grammar of its input.
None of it needs that anything can be drawn. -/
structure Prepared (user : Option String) (args : Arguments) (d : Disk)
    (settings : Settings Float32) (source : String) (g : Grammar) : Prop where
  load : (onDisk (loadSettings args.config user) d).1 = .ok settings
  read : d.read? args.input = some source
  grammar : Grammar.ofSource (α := Float32) settings.collapsing source = .ok g

/-- What is read does not depend on what is asked for. -/
theorem Prepared.withSymbols (h : Prepared user args d settings source g) (symbols : List String) :
    Prepared user { args with symbols } d settings source g :=
  ⟨h.load, h.read, h.grammar⟩

theorem Prepared.check (h : Prepared user args d settings source g) : settings.check = .ok () :=
  (Reads.loadSettings args.config user d).2 settings h.load

variable [Shaping Float32] [Xml.Notation]

/-- **A run that has a grammar** makes the directory, draws, and writes what was drawn. -/
theorem onDisk_run (h : Prepared user args d settings source g) :
    onDisk (run user args) d =
      if (d.makeDirectory args.output).1 then
        match g.draw settings args with
        | .error failure => (.error failure, (d.makeDirectory args.output).2)
        | .ok (drawings, failures) =>
          match onDisk (writeAll drawings) (d.makeDirectory args.output).2 with
          | (.ok _, d') => (.ok ⟨drawings.map Drawing.path, failures⟩, d')
          | (.error failure, d') => (.error failure, d')
      else (.error (.io ("cannot make the directory " ++ args.output)),
        (d.makeDirectory args.output).2) := by
  have hload : onDisk (loadSettings args.config user) d = (.ok settings, d) :=
    Prod.ext h.load (Reads.loadSettings args.config user d).1
  rw [run, onDisk_bind, hload]
  show onDisk (access (FileAccess.read args.input) >>= _) d = _
  rw [onDisk_bind, onDisk_read, h.read]
  show onDisk (liftM (Grammar.ofSource settings.collapsing source) >>= _) d = _
  rw [onDisk_bind, h.grammar]
  show onDisk (access (FileAccess.makeDirectory args.output) >>= _) d = _
  rw [onDisk_bind, onDisk_makeDirectory]
  cases (d.makeDirectory args.output).1 with
  | false => rfl
  | true =>
    show onDisk (liftM (g.draw settings args) >>= _) (d.makeDirectory args.output).2 = _
    rw [onDisk_bind]
    cases g.draw settings args with
    | error failure => rfl
    | ok drawn =>
      obtain ⟨drawings, failures⟩ := drawn
      show onDisk (writeAll drawings >>= _) _ = _
      rw [onDisk_bind]
      dsimp only
      cases onDisk (writeAll drawings) (d.makeDirectory args.output).2 with
      | mk result d' => cases result <;> rfl

theorem onDisk_run_of_writeAll (h : Prepared user args d settings source g)
    (hmade : (d.makeDirectory args.output).1 = true)
    (hdraw : g.draw settings args = .ok (drawings, failures))
    (hwritten : onDisk (writeAll drawings) (d.makeDirectory args.output).2 = (.ok (), d')) :
    onDisk (run user args) d = (.ok ⟨drawings.map Drawing.path, failures⟩, d') := by
  rw [onDisk_run h, if_pos hmade, hdraw]
  dsimp only
  rw [hwritten]

/-- **A run whose files can all be written** fails as drawing does, or writes what was drawn. -/
theorem onDisk_run_cases (h : Prepared user args d settings source g)
    (hfiles : ∀ reason, (onDisk (run user args) d).1 ≠ .error (.io reason)) :
    (d.makeDirectory args.output).1 = true ∧
    ((∃ failure, g.draw settings args = .error failure ∧
        onDisk (run user args) d = (.error failure, (d.makeDirectory args.output).2)) ∨
      ∃ drawings failures d', g.draw settings args = .ok (drawings, failures) ∧
        onDisk (writeAll drawings) (d.makeDirectory args.output).2 = (.ok (), d')) := by
  have hrun := onDisk_run h
  cases hmade : (d.makeDirectory args.output).1 with
  | false =>
    rw [hmade, if_neg Bool.false_ne_true] at hrun
    exact absurd (congrArg Prod.fst hrun) (hfiles _)
  | true =>
    refine ⟨rfl, ?_⟩
    rw [hmade, if_pos rfl] at hrun
    cases hdraw : g.draw settings args with
    | error failure =>
      rw [hdraw] at hrun
      exact .inl ⟨failure, rfl, hrun⟩
    | ok drawn =>
      obtain ⟨drawings, failures⟩ := drawn
      refine .inr ⟨drawings, failures, ?_⟩
      obtain ⟨d', hwritten⟩ | ⟨reason, d', hfailed⟩ :=
        onDisk_writeAll_cases drawings (d.makeDirectory args.output).2
      · exact ⟨d', rfl, hwritten⟩
      · rw [hdraw] at hrun
        dsimp only at hrun
        rw [hfailed] at hrun
        exact absurd (congrArg Prod.fst hrun) (hfiles reason)

/-! ## 5. What comes of a run -/

/-- **Each request has a file or a failure.** -/
structure Delivery (g : Grammar) (settings : Settings Float32) (ps : List Production)
    (names : List String) (outcome : Outcome) (d : Disk) : Prop where
  /-- The requests are answered in order, and what was drawn is in the files. -/
  answered : ∃ drawings, g.Answered settings names drawings outcome.failures ∧
    outcome.written = drawings.map Drawing.path ∧
    ∀ drawing ∈ drawings, d.read? drawing.path = some drawing.svg
  distinct : outcome.written.Nodup
  /-- What fails is not defined, or its layout has a box that cannot be drawn. -/
  failures : ∀ entry ∈ outcome.failures,
    (entry.2 = .lookup entry.1 ∧ ∀ p ∈ ps, p.name ≠ entry.1) ∨
      (∃ fault, entry.2 = .geometry fault) ∧ ∃ p ∈ ps, p.name = entry.1

/-- **All requests have one file or there is none:** how a run ends that starts to write on the disk
`made`. -/
inductive Stacking (g : Grammar) (settings : Settings Float32) (names : List String) (made : Disk) :
    Except (Failure Float32) Outcome → Disk → Prop where
  | nothing (h : names = []) : Stacking g settings names made (.ok {}) made
  | drawn {drawing : Drawing} {d : Disk} (hne : names ≠ [])
    (h : ∀ name ∈ names, (g.svg settings name).isOk = true)
    (hsvg : g.stackedSvg settings names = .ok drawing.svg)
    (hwrite : made.write drawing.path drawing.svg = .ok d)
    (hread : d.read? drawing.path = some drawing.svg) :
    Stacking g settings names made (.ok { written := [drawing.path] }) d
  /-- The failure is that of the first that cannot be drawn. -/
  | failed {before after : List String} {name : String} {failure : Failure Float32}
    (h : names = before ++ name :: after)
    (hbefore : ∀ earlier ∈ before, (g.svg settings earlier).isOk = true)
    (hname : g.svg settings name = .error failure) :
    Stacking g settings names made (.error failure) made

omit [Data.Notation] in
theorem draw_separate (g : Grammar) (settings : Settings Float32) (hstacked : args.stacked = false) :
    g.draw settings args
      = .ok (g.drawEach settings args.output {} (requested args g)) := by
  rw [Grammar.draw, hstacked]
  rfl

omit [Data.Notation] in
theorem draw_stacked (g : Grammar) (settings : Settings Float32) (hstacked : args.stacked = true) :
    g.draw settings args
      = (g.drawStacked settings args.output args.input (requested args g)).map (·, []) := by
  rw [Grammar.draw, hstacked]
  show (g.drawStacked settings args.output args.input (requested args g) >>= _) = _
  cases g.drawStacked settings args.output args.input (requested args g) <;> rfl

omit [Data.Notation] in
/-- What is drawn, each into a file of its own, is delivered. -/
theorem delivery (hcheck : settings.check = .ok ()) (hparse : Ebnf.parse source = .ok ps)
    (hgrammar : Grammar.ofSource (α := Float32) settings.collapsing source = .ok g)
    {directory : String} {names : List String}
    (hdrawn : g.drawEach settings directory {} names = (drawings, failures))
    (hwritten : onDisk (writeAll drawings) d = (.ok (), d')) :
    Delivery g settings ps names ⟨drawings.map Drawing.path, failures⟩ d' := by
  have hanswered := g.answered_drawEach settings directory {} names
  have hapart := pairwise_apart_drawEach g settings directory names
  rw [hdrawn] at hanswered hapart
  refine ⟨⟨drawings, hanswered, rfl, fun drawing hdrawing => ?_⟩, ?_, fun entry hentry => ?_⟩
  · exact (holds_writeAll hwritten hapart drawing hdrawing).read?
  · exact hapart.imp fun hne heq => hne (by rw [heq])
  · have hgraph := Grammar.graph?_eq_none_iff hparse hgrammar entry.1
    obtain ⟨hnone, hlookup⟩ | ⟨graph, fault, hsome, hgeometry⟩ :=
      Grammar.svg_eq_error hcheck (hanswered.svg_eq_error entry hentry)
    · exact .inl ⟨hlookup, hgraph.mp hnone⟩
    · refine .inr ⟨⟨fault, hgeometry⟩, ?_⟩
      by_contra hundefined
      push Not at hundefined
      rw [hgraph.mpr hundefined] at hsome
      cases hsome

omit [Data.Notation] in
/-- What is drawn into one file is there, or nothing is. -/
theorem stacking (hcheck : settings.check = .ok ()) (hstacked : args.stacked = true)
    {made : Disk} (hdrawn : g.draw settings args = .ok (drawings, failures))
    (hwritten : onDisk (writeAll drawings) made = (.ok (), d')) :
    Stacking g settings (requested args g) made (.ok ⟨drawings.map Drawing.path, failures⟩) d' := by
  rw [draw_stacked g settings hstacked] at hdrawn
  obtain ⟨hnone, hdraw⟩ | ⟨drawing, hne, hall, hsvg, hdraw⟩ | ⟨_, _, _, _, -, -, -, hdraw⟩ :=
    g.drawStacked_cases hcheck args.output args.input (requested args g) <;> rw [hdraw] at hdrawn <;>
    cases hdrawn
  · obtain rfl : made = d' := congrArg Prod.snd hwritten
    exact .nothing hnone
  · rw [onDisk_writeAll_cons] at hwritten
    cases hwrite : made.write drawing.path drawing.svg with
    | error _ => rw [hwrite] at hwritten; cases hwritten
    | ok written =>
      rw [hwrite] at hwritten
      obtain rfl : written = d' := congrArg Prod.snd hwritten
      exact .drawn hne hall hsvg hwrite (Disk.holds_write hwrite).read?

omit [Data.Notation] in
theorem stacking_failed (hcheck : settings.check = .ok ()) (hstacked : args.stacked = true)
    {failure : Failure Float32} (hdrawn : g.draw settings args = .error failure) (made : Disk) :
    Stacking g settings (requested args g) made (.error failure) made := by
  rw [draw_stacked g settings hstacked] at hdrawn
  obtain ⟨-, hdraw⟩ | ⟨_, -, -, -, hdraw⟩ | ⟨before, name, after, _, hnames, hbefore, hsvg, hdraw⟩ :=
    g.drawStacked_cases hcheck args.output args.input (requested args g) <;> rw [hdraw] at hdrawn <;>
    cases hdrawn
  exact .failed hnames hbefore hsvg

/-- **A production that cannot be drawn does not keep the others from being drawn.**  A run that has
settings and a grammar, and whose files can be written, answers each request by a file or by a failure.
What is drawn does not depend on the requests that fail: without them, or with others, the same texts go
into the same files, and a run that asks for that leaves the same disk.  Drawn into one file, the
productions are all there, or there is no file and the run fails as the first of them does.

The grammar is one that productions were added to, so what is shown of the drawings of such grammars
holds of what is in the files.  How settings, colors and documents are written and labels shaped is
left open. -/
theorem run_isolates_failures
    (hsettings : (onDisk (loadSettings args.config user) d).1 = .ok settings)
    (hsource : d.read? args.input = some source) (hparse : Ebnf.parse source = .ok ps)
    (hfiles : ∀ reason, (onDisk (run user args) d).1 ≠ .error (.io reason)) :
    ∃ g, Grammar.ofSource (α := Float32) settings.collapsing source = .ok g ∧ g.Reached ∧
      (args.stacked = false → ∃ outcome d', onDisk (run user args) d = (.ok outcome, d') ∧
        Delivery g settings ps (requested args g) outcome d' ∧
        (∀ names, g.drawable settings names = g.drawable settings (requested args g) →
          (g.drawEach settings args.output {} names).1
            = (g.drawEach settings args.output {} (requested args g)).1) ∧
        ∀ symbols, g.drawable settings (requested { args with symbols } g)
            = g.drawable settings (requested args g) →
          ∃ failures, onDisk (run user { args with symbols }) d
            = (.ok { outcome with failures }, d')) ∧
      (args.stacked = true → ∃ result d', onDisk (run user args) d = (result, d') ∧
        Stacking g settings (requested args g) (d.makeDirectory args.output).2 result d') := by
  obtain ⟨g, hgrammar⟩ : ∃ g, Grammar.ofSource (α := Float32) settings.collapsing source = .ok g :=
    ⟨_, Grammar.ofSource_eq_ok settings.collapsing hparse⟩
  have hprepared : Prepared user args d settings source g := ⟨hsettings, hsource, hgrammar⟩
  have hcheck := hprepared.check
  obtain ⟨hmade, hcases⟩ := onDisk_run_cases hprepared hfiles
  refine ⟨g, hgrammar, Grammar.reached_ofSource hgrammar, fun hstacked => ?_, fun hstacked => ?_⟩
  · rw [draw_separate g settings hstacked] at hcases
    obtain ⟨failure, hfailed, -⟩ | ⟨drawings, failures, d', hdrawn, hwritten⟩ := hcases
    · cases hfailed
    refine ⟨_, d', onDisk_run_of_writeAll hprepared hmade
      ((draw_separate g settings hstacked).trans hdrawn) hwritten,
      delivery hcheck hparse hgrammar (Except.ok.inj hdrawn) hwritten,
      fun names hsame => g.drawEach_congr settings args.output hsame, fun symbols hsame => ?_⟩
    obtain rfl : (g.drawEach settings args.output {} (requested { args with symbols } g)).1
        = drawings := by rw [g.drawEach_congr settings args.output hsame, Except.ok.inj hdrawn]
    exact ⟨_, onDisk_run_of_writeAll (hprepared.withSymbols symbols) hmade
      (draw_separate g settings hstacked) hwritten⟩
  · obtain ⟨failure, hfailed, hrun⟩ | ⟨drawings, failures, d', hdrawn, hwritten⟩ := hcases
    · exact ⟨_, _, hrun, stacking_failed hcheck hstacked hfailed _⟩
    · exact ⟨_, _, onDisk_run_of_writeAll hprepared hmade hdrawn hwritten,
        stacking hcheck hstacked hdrawn hwritten⟩

end Runs

/-- A disk with a grammar of one production in a file, and settings that measure labels without
fonts. -/
def oneRule : Disk where
  root := .directory
    [("g.ebnf", .file "p = \"a\" .".toUTF8),
      ("trestle", .directory [("config.toml", .file "layout.text_metrics = \"fixed\"".toUTF8)])]

/-- A production is asked for that is not in the grammar, and then the one that is. -/
def unknownFirst : Arguments := { input := "g.ebnf", output := "", symbols := ["q", "p"] }

theorem run_isolates_failures_unknownFirst : ∃ settings ps,
    (onDisk (loadSettings unknownFirst.config none) oneRule).1 = .ok settings ∧
    settings.layout.textMetrics = .fixed ∧
    oneRule.read? unknownFirst.input = some "p = \"a\" ." ∧
    Ebnf.parse "p = \"a\" ." = .ok ps ∧
    (∀ reason, (onDisk (run none unknownFirst) oneRule).1 ≠ .error (.io reason)) ∧
    ∃ g outcome d', onDisk (run none unknownFirst) oneRule = (.ok outcome, d') ∧
      outcome.written = ["p.svg"] ∧ Delivery g settings ps ["q", "p"] outcome d' := by
  have hfixed : (onDisk (loadSettings unknownFirst.config none) oneRule).1.toOption.map
      (·.layout.textMetrics) = some .fixed := by decide +kernel
  obtain ⟨settings, hsettings⟩ := exists_of_isOk (show
    (onDisk (loadSettings unknownFirst.config none) oneRule).1.isOk = true by decide +kernel)
  rw [hsettings] at hfixed
  obtain ⟨ps, hparse⟩ := exists_of_isOk (show (Ebnf.parse "p = \"a\" .").isOk = true by
    decide +kernel)
  have hsource : oneRule.read? unknownFirst.input = some "p = \"a\" ." := by decide +kernel
  have hwritten : (onDisk (run none unknownFirst) oneRule).1.toOption.map (·.written)
      = some ["p.svg"] := by decide +kernel
  have hfiles : ∀ reason, (onDisk (run none unknownFirst) oneRule).1 ≠ .error (.io reason) := by
    intro reason hfailed
    rw [hfailed] at hwritten
    cases hwritten
  obtain ⟨g, -, -, hseparate, -⟩ := run_isolates_failures hsettings hsource hparse hfiles
  obtain ⟨outcome, d', hrun, hdelivery, -⟩ := hseparate rfl
  rw [hrun] at hwritten
  exact ⟨settings, ps, hsettings, Option.some.inj hfixed, hsource, hparse, hfiles, g, outcome, d', hrun,
    Option.some.inj hwritten, hdelivery⟩

end Command

end Railroad
