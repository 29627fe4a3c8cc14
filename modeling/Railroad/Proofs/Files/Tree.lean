/-
# What is put into a tree of files

What is put somewhere is found there (`get?_put_self`), and what stands neither below nor above that
place is not changed (`get?_put_of_apart`).  A file that is put into a directory takes nothing away: a
directory goes on being one, and a file may at most be another file (`keeps_put`).

All three go by induction along the names of the place, with one level of the tree opened for each
name.  `FileTree.put` makes the directories that are missing on its way, but a file on the way stops
it, and then the tree stays as it is.  The hypotheses about directories say that neither happens, as
when a file is written on a disk, where the directory has to be there.
-/
import Mathlib.Data.List.Infix
import Railroad.Files.Tree

namespace Railroad

namespace FileTree

/-! ## 1. What stands where -/

@[simp] theorem get?_nil (t : FileTree) : t.get? [] = some t := by
  cases t <;> rfl

theorem get?_append (t : FileTree) (names more : List String) :
    t.get? (names ++ more) = (t.get? names).bind (·.get? more) := by
  induction names generalizing t with
  | nil => rw [List.nil_append, get?_nil, Option.bind_some]
  | cons name names ih =>
    cases t with
    | file content => rfl
    | directory entries =>
      simp only [List.cons_append, get?, Option.bind_eq_bind]
      cases entries.lookup name with
      | none => rfl
      | some inner => exact ih inner

theorem hasDirectory_iff {t : FileTree} {names : List String} :
    t.hasDirectory names = true ↔ ∃ entries, t.get? names = some (.directory entries) := by
  unfold hasDirectory
  split
  case h_1 entries h => simp [h]
  case h_2 h => simpa using h

/-- What something stands below is a directory. -/
theorem hasDirectory_of_get? {t u : FileTree} {names more : List String}
    (h : t.get? (names ++ more) = some u) (hmore : more ≠ []) : t.hasDirectory names = true := by
  rw [get?_append] at h
  obtain ⟨v, hv, hbelow⟩ := Option.bind_eq_some_iff.mp h
  cases v with
  | directory entries => exact hasDirectory_iff.mpr ⟨entries, hv⟩
  | file content =>
    cases more with
    | nil => exact absurd rfl hmore
    | cons _ _ => cases hbelow

theorem hasDirectory_of_get?_file {t : FileTree} {names : List String} {content : ByteArray}
    (h : t.get? names = some (.file content)) : t.hasDirectory names = false := by
  rw [hasDirectory, h]

/-! ## 2. What is put somewhere -/

theorem lookup_putEntry (name other : String) (t : FileTree) :
    ∀ entries : List (String × FileTree), (putEntry name t entries).lookup other
      = if other = name then some t else entries.lookup other
  | [] => by
    rw [putEntry, List.lookup_cons]
    by_cases h : other = name
    · simp [h]
    · simp [h, beq_false_of_ne h]
  | (first, old) :: entries => by
    rw [putEntry]
    by_cases hfirst : first = name
    · rw [if_pos (beq_iff_eq.mpr hfirst), List.lookup_cons, List.lookup_cons, hfirst]
      by_cases h : other = name
      · simp [h]
      · simp [h, beq_false_of_ne h]
    · rw [if_neg fun h => hfirst (beq_iff_eq.mp h), List.lookup_cons, List.lookup_cons,
        lookup_putEntry name other t entries]
      by_cases h : other = first
      · subst h
        simp [hfirst]
      · simp [beq_false_of_ne h]

/-- What is put somewhere is found there. -/
theorem get?_put_self {name : String} {new : FileTree} : ∀ {dir : List String} {t : FileTree},
    t.hasDirectory dir = true → (t.put (dir ++ [name]) new).get? (dir ++ [name]) = some new
  | [], .directory entries, _ => by simp [put, get?, lookup_putEntry]
  | outer :: dir, .directory entries, h => by
    obtain ⟨inner, hinner⟩ := hasDirectory_iff.mp h
    obtain ⟨t, hentry, hget⟩ := Option.bind_eq_some_iff.mp hinner
    have hput : (t.put (dir ++ [name]) new).get? (dir ++ [name]) = some new :=
      get?_put_self (hasDirectory_iff.mpr ⟨inner, hget⟩)
    simpa [put, get?, lookup_putEntry, hentry] using hput
  | [], .file _, h => absurd h (by simp [hasDirectory])
  | _ :: _, .file _, h => absurd h (by simp [hasDirectory, get?])

/-- What stands neither below nor above a place is not changed by what is put there. -/
theorem get?_put_of_apart {new : FileTree} : ∀ {names other : List String} {t : FileTree},
    ¬ names <+: other → ¬ other <+: names → (t.put names new).get? other = t.get? other
  | [], _, _, h, _ => absurd List.nil_prefix h
  | _ :: _, [], _, _, h => absurd List.nil_prefix h
  | _ :: _, _ :: _, .file _, _, _ => rfl
  | name :: names, first :: other, .directory entries, h, h' => by
    rw [put, get?, get?, lookup_putEntry]
    by_cases hname : first = name
    · subst hname
      rw [List.prefix_cons_inj] at h h'
      rw [if_pos rfl]
      show ((entries.lookup first).getD empty |>.put names new).get? other = _
      rw [get?_put_of_apart h h']
      cases entries.lookup first with
      | some inner => rfl
      | none =>
        cases other with
        | nil => exact absurd List.nil_prefix h'
        | cons _ _ => rfl
    · rw [if_neg hname]

/-! ## 3. Nothing is taken away -/

/-- **What stands somewhere goes on standing there,** as a file or as a directory.  A file may have
got other content. -/
def Keeps (t t' : FileTree) : Prop :=
  ∀ names u, t.get? names = some u → ∃ u', t'.get? names = some u' ∧ u'.isDirectory = u.isDirectory

theorem Keeps.hasDirectory {t t' : FileTree} (h : t.Keeps t') {names : List String}
    (hdir : t.hasDirectory names = true) : t'.hasDirectory names = true := by
  obtain ⟨entries, hentries⟩ := hasDirectory_iff.mp hdir
  obtain ⟨u, hu, hkind⟩ := h names _ hentries
  cases u with
  | file content => cases hkind
  | directory entries' => exact hasDirectory_iff.mpr ⟨entries', hu⟩

theorem keeps_putEntry {name : String} {new : FileTree} {entries : List (String × FileTree)}
    (h : ∀ old, entries.lookup name = some old → old.Keeps new) :
    (directory entries).Keeps (.directory (putEntry name new entries))
  | [], _, hget => by
    obtain rfl := Option.some.inj hget
    exact ⟨_, rfl, rfl⟩
  | first :: names, u, hget => by
    obtain ⟨old, hold, hold'⟩ := Option.bind_eq_some_iff.mp hget
    rw [get?, lookup_putEntry]
    by_cases hname : first = name
    · subst hname
      rw [if_pos rfl]
      exact h old hold names u hold'
    · rw [if_neg hname, hold]
      exact ⟨u, hold', rfl⟩

/-- A file that is put into a directory takes nothing away, unless there is a directory of its
name. -/
theorem keeps_put {name : String} {content : ByteArray} : ∀ {dir : List String} {t : FileTree},
    t.hasDirectory dir = true → t.hasDirectory (dir ++ [name]) = false →
    t.Keeps (t.put (dir ++ [name]) (.file content))
  | [], .directory entries, _, hfree => by
    rw [List.nil_append, put]
    refine keeps_putEntry fun old hold => ?_
    cases old with
    | directory inner =>
      rw [List.nil_append, FileTree.hasDirectory, get?, hold] at hfree
      exact absurd hfree (by simp)
    | file old =>
      intro names u hu
      cases names with
      | nil => exact ⟨_, rfl, by rw [← Option.some.inj hu]; rfl⟩
      | cons _ _ => cases hu
  | outer :: dir, .directory entries, h, hfree => by
    obtain ⟨inner, hinner⟩ := hasDirectory_iff.mp h
    obtain ⟨t, hentry, hget⟩ := Option.bind_eq_some_iff.mp hinner
    have hfree' : t.hasDirectory (dir ++ [name]) = false := by
      rwa [List.cons_append, FileTree.hasDirectory, get?, hentry] at hfree
    rw [List.cons_append, put, hentry]
    refine keeps_putEntry fun old hold => ?_
    rw [hentry] at hold
    obtain rfl := Option.some.inj hold
    exact keeps_put (hasDirectory_iff.mpr ⟨inner, hget⟩) hfree'
  | [], .file _, h, _ => absurd h (by simp [FileTree.hasDirectory])
  | _ :: _, .file _, h, _ => absurd h (by simp [FileTree.hasDirectory, get?])

end FileTree

end Railroad
