/-
# What a write does to a disk

A text that is written is there when it is read again (`Disk.holds_write`), and what is held elsewhere
stays (`Disk.Holds.write`).  Both are said of the place that a path leads to, its destination, since a
path may lead elsewhere on another disk.  It does not on a disk that is only written to: a write takes
no directory and no file away (`Disk.Keeps`), so a path that could be followed before leads to the
same place afterwards.

A path is a list of steps from a start, and a step may go up, stay, or go down.  Its destination is
the list of names from the root that this comes to, so two paths that look different may have one
destination, and the theorems about keeping what was written are about destinations that differ.
The last name on the path is the last name of the destination (`destination_eq_ok`), which is all
that a caller has to look at to tell two destinations apart.
-/
import Railroad.Files.Disk
import Railroad.Proofs.Files.Tree

namespace Railroad

namespace Disk

variable {d d' : Disk} {path other text content : String} {names names' : List String}

/-! ## 1. Where paths lead -/

/-- **Where a text goes** that is written to a path.  It is defined for paths that lead to nothing
yet, as long as the directory is there. -/
def destination (d : Disk) (path : String) : Except Obstacle (List String) := do
  d.target (← d.start path) (Path.steps path)

/-- The last step to a destination has its name. -/
theorem destination_eq_ok (h : d.destination path = .ok names) :
    ∃ start dir name, d.start path = .ok start ∧
      d.follow start (Path.steps path).dropLast = .ok dir ∧ d.root.hasDirectory dir.reverse = true ∧
      (Path.steps path).getLast? = some (.into name) ∧ checkName name = .ok () ∧
      names = dir.reverse ++ [name] := by
  unfold destination target checkDirectory at h
  cases hstart : d.start path with
  | error => rw [hstart] at h; cases h
  | ok start =>
    simp only [hstart, bind, Except.bind] at h
    cases hfollow : d.follow start (Path.steps path).dropLast with
    | error => rw [hfollow] at h; cases h
    | ok dir =>
      simp only [hfollow] at h
      by_cases hdir : d.root.hasDirectory dir.reverse = true
      · rw [if_pos hdir] at h
        simp only at h
        split at h
        case h_2 => cases h
        case h_1 name hlast =>
          cases hname : checkName name with
          | error => rw [hname] at h; cases h
          | ok _ =>
            rw [hname] at h
            refine ⟨start, dir, name, rfl, hfollow, hdir, hlast, hname, ?_⟩
            rw [← Except.ok.inj h, List.reverse_cons]
      · rw [if_neg hdir] at h
        cases h

theorem destination_of_steps {start dir : List String} {name : String}
    (hstart : d.start path = .ok start)
    (hfollow : d.follow start (Path.steps path).dropLast = .ok dir)
    (hdir : d.root.hasDirectory dir.reverse = true)
    (hlast : (Path.steps path).getLast? = some (.into name)) (hname : checkName name = .ok ()) :
    d.destination path = .ok (dir.reverse ++ [name]) := by
  simp only [destination, target, checkDirectory, hstart, hfollow, hdir, hlast, hname, bind,
    Except.bind, if_true]
  rw [List.reverse_cons]
  rfl

/-- Paths that end in different names have different destinations. -/
theorem destination_ne (hlast : (Path.steps path).getLast? ≠ (Path.steps other).getLast?)
    (h : d.destination path = .ok names) (h' : d.destination other = .ok names') :
    names ≠ names' := by
  obtain ⟨_, _, name, -, -, -, hname, -, rfl⟩ := destination_eq_ok h
  obtain ⟨_, _, name', -, -, -, hname', -, rfl⟩ := destination_eq_ok h'
  intro heq
  rw [hname, hname', (List.append_inj' heq rfl).2 |> List.singleton_inj.mp] at hlast
  exact hlast rfl

/-- Steps are followed one by one. -/
theorem follow_cons (place : List String) (step : Path.Step) (steps : List Path.Step) :
    d.follow place (step :: steps)
      = d.follow place [step] >>= fun place => d.follow place steps := by
  cases step <;> simp only [follow, bind, Except.bind]
  case into name =>
    cases d.checkDirectory place with
    | error => rfl
    | ok _ =>
      cases checkName name with
      | error => rfl
      | ok _ => cases (d.root.get? (name :: place).reverse).isNone <;> rfl
  all_goals cases d.checkDirectory place <;> rfl

/-- **A step that can be followed** starts at a directory and leads to something. -/
theorem follow_step_eq_ok {place dir : List String} {step : Path.Step} :
    d.follow place [step] = .ok dir ↔ d.root.hasDirectory place.reverse = true ∧
      match step with
      | .stay => dir = place
      | .up => dir = place.tail
      | .into name => checkName name = .ok () ∧ dir = name :: place ∧
          ∃ t, d.root.get? (name :: place).reverse = some t := by
  by_cases hdir : d.root.hasDirectory place.reverse = true
  · have hcheck : d.checkDirectory place = .ok () := if_pos hdir
    cases step with
    | stay => simp [follow, hcheck, hdir, bind, Except.bind, eq_comm]
    | up => simp [follow, hcheck, hdir, bind, Except.bind, eq_comm]
    | into name =>
      simp only [follow, hcheck, hdir, bind, Except.bind, true_and]
      cases checkName name with
      | error => simp
      | ok _ =>
        cases d.root.get? (name :: place).reverse <;>
          simp [throw, throwThe, MonadExceptOf.throw, eq_comm]
  · have hcheck : d.checkDirectory place = .error .blocked := if_neg hdir
    cases step <;> simp [follow, hcheck, hdir, bind, Except.bind]

theorem follow_append (place : List String) (steps more : List Path.Step) :
    d.follow place (steps ++ more)
      = d.follow place steps >>= fun place => d.follow place more := by
  induction steps generalizing place with
  | nil => rfl
  | cons step steps ih =>
    rw [List.cons_append, follow_cons, follow_cons place step steps, bind_assoc]
    simp only [ih]

/-- What stands at the destination of a path is what the path leads to. -/
theorem at?_of_destination (h : d.destination path = .ok names) :
    d.at? path = d.root.get? names := by
  obtain ⟨start, dir, name, hstart, hfollow, hdir, hlast, hname, rfl⟩ := destination_eq_ok h
  have hsteps : Path.steps path = (Path.steps path).dropLast ++ [.into name] :=
    (List.dropLast_append_getLast? _ hlast).symm
  unfold at? locate
  rw [hstart]
  simp only [bind, Except.bind]
  rw [hsteps, follow_append, hfollow]
  simp only [bind, Except.bind]
  cases hget : d.root.get? (dir.reverse ++ [name]) with
  | some t =>
    have hstep : d.follow dir [.into name] = .ok (name :: dir) :=
      follow_step_eq_ok.mpr ⟨hdir, hname, rfl, t, by rwa [List.reverse_cons]⟩
    rw [hstep]
    simpa [pure, Except.pure, Except.toOption] using hget
  | none =>
    cases hstep : d.follow dir [.into name] with
    | error => rfl
    | ok place =>
      obtain ⟨-, -, -, t, ht⟩ := follow_step_eq_ok.mp hstep
      rw [List.reverse_cons, hget] at ht
      cases ht

/-! ## 2. Writing -/

/-- **A disk that was only written to:** nothing is gone, and one is in the same directory. -/
structure Keeps (d d' : Disk) : Prop where
  here : d'.here = d.here
  root : d.root.Keeps d'.root

theorem Keeps.start (h : d.Keeps d') (path : String) : d'.start path = d.start path := by
  rw [Disk.start, Disk.start, h.here]

theorem Keeps.follow (h : d.Keeps d') : ∀ {steps : List Path.Step} {place dir : List String},
    d.follow place steps = .ok dir → d'.follow place steps = .ok dir
  | [], _, _, hfollow => hfollow
  | step :: steps, place, dir, hfollow => by
    rw [follow_cons] at hfollow ⊢
    cases hstep : d.follow place [step] with
    | error => rw [hstep] at hfollow; cases hfollow
    | ok next =>
      rw [hstep] at hfollow
      obtain ⟨hdir, hnext⟩ := follow_step_eq_ok.mp hstep
      have hstep' : d'.follow place [step] = .ok next := by
        refine follow_step_eq_ok.mpr ⟨h.root.hasDirectory hdir, ?_⟩
        cases step with
        | stay => exact hnext
        | up => exact hnext
        | into name =>
          obtain ⟨hname, hplace, t, ht⟩ := hnext
          obtain ⟨t', ht', -⟩ := h.root _ t ht
          exact ⟨hname, hplace, t', ht'⟩
      rw [hstep']
      exact h.follow hfollow

/-- A path goes on leading to the same place. -/
theorem Keeps.destination (h : d.Keeps d') (hpath : d.destination path = .ok names) :
    d'.destination path = .ok names := by
  obtain ⟨start, dir, name, hstart, hfollow, hdir, hlast, hname, rfl⟩ := destination_eq_ok hpath
  exact destination_of_steps ((h.start path).trans hstart) (h.follow hfollow)
    (h.root.hasDirectory hdir) hlast hname

theorem write_eq_ok (h : d.write path text = .ok d') : ∃ names, d.destination path = .ok names ∧
    d.root.hasDirectory names = false ∧
    d' = { d with root := d.root.put names (.file text.toUTF8) } := by
  have hwrite : d.write path text = d.destination path >>= fun names => do
      if d.root.hasDirectory names then throw .blocked
      return { d with root := d.root.put names (.file text.toUTF8) } := by
    rw [write, destination, bind_assoc]
  rw [hwrite] at h
  cases hpath : d.destination path with
  | error => rw [hpath] at h; cases h
  | ok names =>
    rw [hpath] at h
    cases hfree : d.root.hasDirectory names with
    | true =>
      simp only [bind, Except.bind, hfree] at h
      cases h
    | false =>
      simp only [bind, Except.bind, hfree] at h
      exact ⟨names, rfl, hfree, (Except.ok.inj h).symm⟩

/-- **A write takes nothing away.** -/
theorem keeps_write (h : d.write path text = .ok d') : d.Keeps d' := by
  obtain ⟨names, hpath, hfree, rfl⟩ := write_eq_ok h
  obtain ⟨_, dir, name, -, -, hdir, -, -, rfl⟩ := destination_eq_ok hpath
  exact ⟨rfl, FileTree.keeps_put hdir hfree⟩

/-! ## 3. Texts -/

/-- **A text is held** in the file that a path leads to.  Other paths may lead to the same file, and
read the same text. -/
def Holds (d : Disk) (path text : String) : Prop :=
  ∃ names, d.destination path = .ok names ∧ d.root.get? names = some (.file text.toUTF8)

/-- A text that is held can be read. -/
theorem Holds.read? (h : d.Holds path text) : d.read? path = some text := by
  obtain ⟨names, hpath, hget⟩ := h
  rw [Disk.read?, at?_of_destination hpath, hget]
  simp only [String.fromUTF8?, String.toUTF8_eq_toByteArray, text.isValidUTF8, dif_pos]
  rfl

/-- **What is written is held.** -/
theorem holds_write (h : d.write path text = .ok d') : d'.Holds path text := by
  have hkeeps := keeps_write h
  obtain ⟨names, hpath, -, rfl⟩ := write_eq_ok h
  refine ⟨names, hkeeps.destination hpath, ?_⟩
  obtain ⟨_, dir, name, -, -, hdir, -, -, rfl⟩ := destination_eq_ok hpath
  exact FileTree.get?_put_self hdir

/-- **What is held elsewhere stays.** -/
theorem Holds.write (hother : d.Holds other content) (h : d.write path text = .ok d')
    (hlast : (Path.steps other).getLast? ≠ (Path.steps path).getLast?) : d'.Holds other content := by
  obtain ⟨names', hpath', hget⟩ := hother
  refine ⟨names', (keeps_write h).destination hpath', ?_⟩
  obtain ⟨names, hpath, hfree, rfl⟩ := write_eq_ok h
  have hne := destination_ne hlast hpath' hpath
  obtain ⟨_, dir, name, -, -, hdir, -, -, rfl⟩ := destination_eq_ok hpath
  have hfile := FileTree.hasDirectory_of_get?_file hget
  rw [FileTree.get?_put_of_apart, hget]
  · -- nothing stands below what is no directory
    rintro ⟨more, rfl⟩
    have hmore : more ≠ [] := fun h => hne (by rw [h, List.append_nil])
    rw [FileTree.hasDirectory_of_get? hget hmore] at hfree
    cases hfree
  · -- a file does not stand above the directory that is written to
    intro habove
    obtain ⟨more, hbelow⟩ := (List.prefix_concat_iff.mp habove).resolve_left hne
    rw [← hbelow] at hdir
    by_cases hmore : more = []
    · rw [hmore, List.append_nil, hfile] at hdir
      cases hdir
    · obtain ⟨entries, hentries⟩ := FileTree.hasDirectory_iff.mp hdir
      rw [FileTree.hasDirectory_of_get? hentries hmore] at hfile
      cases hfile

end Disk

end Railroad
