/-
# File names differ

No name is handed out twice (`FileNamer.choose_not_mem`).  The search for a number that is free ends
because numbers with equally many digits leave equally much of the name: their candidates differ, and
before a hundred times as many numbers as there are names, one more than there are names has the same
number of digits.

A name that is handed out can stand in a path (`FileNamer.safe_choose`): it has no slash, so the drawings
of two names lie at two paths and end in two names (`Drawing.last_step`).

The search in `FileNamer.choose` is bounded so that it can be defined; that the bound is never met
is what has to be shown (`exists_numbered_not_mem`).  The argument counts: among the numbers with
equally many digits no two give the same candidate (`numbered_inj`), so if all of them were taken
there would be more names in use than there are.  No assumption is made about the names in use,
which may be in any order, hold one another as beginnings, or look like candidates themselves.
-/
import Mathlib.Algebra.Group.Nat.Defs
import Mathlib.Data.List.Nodup
import Mathlib.Data.List.Perm.Subperm
import Mathlib.Data.Nat.Log
import Railroad.Command.Run

namespace Railroad

namespace FileNamer

variable {used : List String} {candidate : Nat → String} {limit : Nat} {base : List Char}

/-! ## 1. Free candidates -/

/-- **The search takes a candidate when all before it are taken,** and no other. -/
theorem exists_firstFree (used : List String) (candidate : Nat → String) :
    ∀ fuel n, ∃ i, firstFree used candidate fuel n = candidate (n + i) ∧
      ∀ j < i, candidate (n + j) ∈ used
  | 0, n => ⟨0, rfl, fun j hj => absurd hj (Nat.not_lt_zero j)⟩
  | fuel + 1, n => by
    rw [firstFree]
    split
    case isTrue htaken =>
      obtain ⟨i, hi, hbefore⟩ := exists_firstFree used candidate fuel (n + 1)
      refine ⟨i + 1, by rw [hi, Nat.add_assoc, Nat.add_comm 1], fun j hj => ?_⟩
      cases j with
      | zero => simpa using htaken
      | succ j =>
        have hmem := hbefore j (by omega)
        rwa [Nat.add_assoc, Nat.add_comm 1] at hmem
    case isFalse => exact ⟨0, rfl, fun j hj => absurd hj (Nat.not_lt_zero j)⟩

/-- If the search finds nothing, every candidate that it looked at is taken. -/
theorem mem_of_firstFree_mem : ∀ {fuel n : Nat}, firstFree used candidate fuel n ∈ used →
    ∀ i ≤ fuel, candidate (n + i) ∈ used
  | 0, n, h, i, hi => by
    obtain rfl : i = 0 := by omega
    exact h
  | fuel + 1, n, h, i, hi => by
    rw [firstFree] at h
    split at h
    case isTrue htaken =>
      cases i with
      | zero => simpa using htaken
      | succ i =>
        have hrest := mem_of_firstFree_mem h i (by omega)
        rwa [Nat.add_assoc, Nat.add_comm 1 i] at hrest
    case isFalse hfree => exact absurd h (by simpa using hfree)

theorem length_repr_le_iff {n k : Nat} (hk : 0 < k) :
    (Nat.repr n).toList.length ≤ k ↔ n < 10 ^ k := by
  rw [Nat.toList_repr]
  exact Nat.length_toDigits_le_iff (by omega) hk

theorem length_repr {n k : Nat} (hlow : 10 ^ k ≤ n) (hhigh : n < 10 ^ (k + 1)) :
    (Nat.repr n).toList.length = k + 1 := by
  have hle := (length_repr_le_iff k.succ_pos).mpr hhigh
  cases k with
  | zero =>
    have hpos : 0 < (Nat.repr n).toList.length := by
      rw [Nat.toList_repr]
      exact Nat.length_toDigits_pos
    omega
  | succ k =>
    have hlt := mt (length_repr_le_iff k.succ_pos).mp (Nat.not_lt.mpr hlow)
    omega

/-- **Numbers with equally many digits give different names.** -/
theorem numbered_inj {m n : Nat}
    (hlen : (Nat.repr m).toList.length = (Nat.repr n).toList.length)
    (h : numbered limit base m = numbered limit base n) : m = n := by
  have hchars := String.ofList_injective h
  have hdigits := (List.append_inj' hchars hlen).2
  have hvalue := congrArg (fun digits => Nat.ofDigitChars 10 digits 0) hdigits
  simpa only [Nat.toList_repr, Nat.ofDigitChars_ten_toDigits] using hvalue

/-- **Numbers with equally many digits take up as many names** as there are of them. -/
theorem le_length_of_taken {k first count : Nat} (hlow : 10 ^ k ≤ first)
    (hhigh : first + count ≤ 10 ^ (k + 1))
    (h : ∀ j < count, numbered limit base (first + j) ∈ used) : count ≤ used.length := by
  let names := (List.range count).map fun j => numbered limit base (first + j)
  have hnodup : names.Nodup := by
    refine List.Nodup.map_on (fun i hi j hj heq => ?_) List.nodup_range
    rw [List.mem_range] at hi hj
    have hi' := length_repr (n := first + i) (k := k) (by omega) (by omega)
    have hj' := length_repr (n := first + j) (k := k) (by omega) (by omega)
    have hsame := numbered_inj (hi'.trans hj'.symm) heq
    omega
  have hsub : names ⊆ used := by
    intro name hname
    obtain ⟨j, hj, rfl⟩ := List.mem_map.mp hname
    exact h j (List.mem_range.mp hj)
  have hlen := (hnodup.subperm hsub).length_le
  simpa only [names, List.length_map, List.length_range] using hlen

/-- Some number is free before a hundred times as many as there are names. -/
theorem exists_numbered_not_mem (limit : Nat) (base : List Char) (hused : used ≠ []) :
    ∃ i ≤ 100 * used.length, numbered limit base i ∉ used := by
  by_contra hall
  push Not at hall
  -- the numbers from the first power of ten on that is above the number of names
  obtain ⟨k, hlow, hhigh⟩ : ∃ k, used.length < 10 ^ (k + 1) ∧ 10 ^ (k + 1) ≤ 10 * used.length := by
    refine ⟨Nat.log 10 used.length, Nat.lt_pow_succ_log_self (by omega) _, ?_⟩
    have hlog := Nat.pow_log_le_self 10 (x := used.length) (by simpa using hused)
    rw [Nat.pow_succ]
    omega
  have hpow : 10 ^ (k + 2) = 10 * 10 ^ (k + 1) := by rw [Nat.pow_succ 10 (k + 1), Nat.mul_comm]
  have hlen : used.length + 1 ≤ used.length :=
    le_length_of_taken (Nat.le_refl (10 ^ (k + 1))) (by rw [hpow]; omega)
      fun j hj => hall _ (by omega)
  omega

/-! ## 2. The name that is chosen -/

/-- The name itself, as much of it as there is room for. -/
def plain (limit : Nat) (name : String) : String := String.ofList ((sanitize name).take limit)

theorem choose_of_free {namer : FileNamer} {name : String} (h : plain namer.limit name ∉ namer.used) :
    namer.choose name = plain namer.limit name := by
  rw [choose, if_neg (by simpa [plain] using h)]
  rfl

theorem choose_of_taken {namer : FileNamer} {name : String} (h : plain namer.limit name ∈ namer.used) :
    namer.choose name = firstFree namer.used
      (numbered namer.limit ((sanitize name).take namer.limit)) (100 * namer.used.length) 0 := by
  rw [choose, if_pos (by simpa [plain] using h)]

/-- **A name is chosen** if it is free, and else the first number is that makes a free name. -/
theorem choose_cases (namer : FileNamer) (name : String) :
    (plain namer.limit name ∉ namer.used ∧ namer.choose name = plain namer.limit name) ∨
    (plain namer.limit name ∈ namer.used ∧ ∃ n,
      namer.choose name = numbered namer.limit ((sanitize name).take namer.limit) n ∧
      ∀ i < n, numbered namer.limit ((sanitize name).take namer.limit) i ∈ namer.used) := by
  by_cases h : plain namer.limit name ∈ namer.used
  · obtain ⟨n, hn, hbefore⟩ := exists_firstFree namer.used
      (numbered namer.limit ((sanitize name).take namer.limit)) (100 * namer.used.length) 0
    simp only [Nat.zero_add] at hn hbefore
    exact .inr ⟨h, n, (choose_of_taken h).trans hn, hbefore⟩
  · exact .inl ⟨h, choose_of_free h⟩

/-- **A name that is handed out is new.** -/
theorem choose_not_mem (namer : FileNamer) (name : String) : namer.choose name ∉ namer.used := by
  by_cases h : plain namer.limit name ∈ namer.used
  · rw [choose_of_taken h]
    intro hmem
    obtain ⟨i, hi, hfree⟩ := exists_numbered_not_mem namer.limit
      ((sanitize name).take namer.limit) (List.ne_nil_of_mem h)
    have hall := mem_of_firstFree_mem hmem i hi
    rw [Nat.zero_add] at hall
    exact hfree hall
  · rwa [choose_of_free h]

/-! ## 3. Safe characters -/

/-- Everything in a name may stand in a file name. -/
def Safe (chars : List Char) : Prop := ∀ c ∈ chars, isSafe c = true

theorem safe_sanitize (name : String) : Safe (sanitize name) := by
  rw [sanitize]
  split
  · exact List.all_eq_true.mp (by decide)
  · intro c hc
    obtain ⟨d, -, rfl⟩ := List.mem_map.mp hc
    split
    case isTrue h => exact h
    case isFalse => decide

theorem safe_numbered (h : Safe base) (n : Nat) : Safe (numbered limit base n).toList := by
  intro c hc
  rw [numbered, String.toList_ofList] at hc
  rcases List.mem_append.mp hc with hc | hc
  · exact h c (List.mem_of_mem_take hc)
  · rw [Nat.toList_repr] at hc
    have hdigit := Nat.isDigit_of_mem_toDigits (by omega) (by omega) hc
    simp [isSafe, Char.isAlphanum, hdigit]

/-- **A name that is handed out can stand in a file name.** -/
theorem safe_choose (namer : FileNamer) (name : String) : Safe (namer.choose name).toList := by
  have hbase : Safe ((sanitize name).take namer.limit) :=
    fun c hc => safe_sanitize name c (List.mem_of_mem_take hc)
  rcases namer.choose_cases name with ⟨-, hchoose⟩ | ⟨-, n, hchoose, -⟩
  · rwa [hchoose, plain, String.toList_ofList]
  · rw [hchoose]
    exact safe_numbered hbase n

end FileNamer

/-! ## 4. Paths of drawings -/

namespace Path

theorem pieces_of_not_mem {name : String} (h : '/' ∉ name.toList) : pieces name = [name] := by
  rw [pieces, List.splitOn_eq_singleton h]
  simp

/-- **The last piece of a path is the name that was joined to it.** -/
theorem getLast?_pieces_join (directory : String) {name : String} (h : '/' ∉ name.toList) :
    (pieces (join directory name)).getLast? = some name := by
  have hbehind : ∀ before : List Char, (pieces (String.ofList (before ++ ['/']) ++ name)).getLast?
      = some name := by
    intro before
    have hchars : (String.ofList (before ++ ['/']) ++ name).toList
        = before ++ '/' :: name.toList := by simp
    rw [pieces, hchars, List.splitOn_append_cons_self, List.splitOn_eq_singleton h]
    simp
  rw [join]
  split
  case isTrue hjoin =>
    rcases Bool.or_eq_true_iff.mp hjoin with hempty | hends
    · rw [String.isEmpty_iff.mp hempty, String.empty_append, pieces_of_not_mem h]
      rfl
    · rw [String.endsWith_eq_endsWith_toSlice, String.Slice.endsWith_string_iff,
        String.copy_toSlice] at hends
      obtain ⟨before, hbefore⟩ := hends
      have hdirectory : directory = String.ofList (before ++ ['/']) := by
        rw [← String.ofList_toList (s := directory), ← hbefore]
        rfl
      rw [hdirectory]
      exact hbehind before
  case isFalse =>
    have hdirectory : directory ++ "/" = String.ofList (directory.toList ++ ['/']) := by
      rw [String.ofList_append, String.ofList_toList]
    rw [hdirectory]
    exact hbehind directory.toList

end Path

/-- **The path of a drawing ends in its own name.** -/
theorem Drawing.last_step (directory : String) {stem : String} (h : FileNamer.Safe stem.toList) :
    (Path.steps (Drawing.pathIn directory stem)).getLast? = some (.into (stem ++ ".svg")) := by
  have hchars : (stem ++ ".svg").toList = stem.toList ++ ['.', 's', 'v', 'g'] := by
    rw [String.toList_append]
    rfl
  have hslash : '/' ∉ (stem ++ ".svg").toList := by
    rw [hchars]
    intro hmem
    rcases List.mem_append.mp hmem with hmem | hmem
    · exact absurd (h _ hmem) (by decide)
    · exact absurd hmem (by decide)
  have hlong : 4 ≤ (stem ++ ".svg").toList.length := by simp [hchars]
  have hinto : Path.step (stem ++ ".svg") = .into (stem ++ ".svg") := by
    unfold Path.step
    split
    case h_4 => rfl
    all_goals
      rename_i heq
      rw [heq] at hlong
      exact absurd hlong (by decide)
  rw [Path.steps, List.getLast?_map, pathIn, Path.getLast?_pieces_join directory hslash,
    Option.map_some, hinto]

end Railroad
