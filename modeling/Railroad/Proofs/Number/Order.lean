/-
# The order of floats that are not negative

Floats that are not negative have a place in a linear order (`Binary.rank`): the zeros first, then the
numbers by exponent and mantissa, then the infinity.  The comparisons of such floats are those of
their places, so the largest of a list is what its name says (`Binary.largest_isGreatest`).

With this a maximum that is found by comparing floats is a maximum in a linear order, and the lemmas
about lists and their largest elements that are known of such orders can be used of it.
-/
import Mathlib
import Railroad.Proofs.Number.Overflow

namespace Railroad.Binary

open Scalar
open Float.Model (UnpackedFloat)
open Float.Model.UnpackedFloat

/-- **The place in the order** of a float that is not negative.  Floats compare as their places do,
and infinity is the last. -/
def rank : UnpackedFloat → Nat ×ₗ Int ×ₗ Nat
  | .zero _ => toLex (0, toLex (0, 0))
  | .finite _ mantissa exponent _ => toLex (1, toLex (exponent, mantissa))
  | _ => toLex (2, toLex (0, 0))

/-- Numbers are compared by their exponents, and those with the same exponent by their mantissas. -/
theorem compare_then (e f : Int) (m n : Nat) : (compare e f).then (compare m n)
    = compare (toLex (1, toLex (e, m)) : Nat ×ₗ Int ×ₗ Nat) (toLex (1, toLex (f, n))) := by
  have hlt (e f : Int) (m n : Nat) (h : e < f ∨ e = f ∧ m < n) :
      (toLex (1, toLex (e, m)) : Nat ×ₗ Int ×ₗ Nat) < toLex (1, toLex (f, n)) := by
    simpa [Prod.Lex.toLex_lt_toLex] using h
  rcases lt_trichotomy e f with hexp | rfl | hexp
  · rw [compare_lt_iff_lt.mpr hexp, compare_lt_iff_lt.mpr (hlt e f m n (.inl hexp))]
    rfl
  · rw [compare_eq_iff_eq.mpr rfl, Ordering.eq_then]
    rcases lt_trichotomy m n with hman | rfl | hman
    · rw [compare_lt_iff_lt.mpr hman, compare_lt_iff_lt.mpr (hlt e e m n (.inr ⟨rfl, hman⟩))]
    · rw [compare_eq_iff_eq.mpr rfl, compare_eq_iff_eq.mpr rfl]
    · rw [compare_gt_iff_gt.mpr hman, compare_gt_iff_gt.mpr (hlt e e n m (.inr ⟨rfl, hman⟩))]
  · rw [compare_gt_iff_gt.mpr hexp, compare_gt_iff_gt.mpr (hlt f e n m (.inl hexp))]
    rfl

theorem compare_eq {a b : UnpackedFloat} (ha : NonNeg a) (hb : NonNeg b) :
    a.compare b = some (compare (rank a) (rank b)) := by
  rcases nonNeg_cases ha with rfl | ⟨_, rfl⟩ | ⟨m, e, hm, rfl⟩
  · rcases nonNeg_cases hb with rfl | ⟨_, rfl⟩ | ⟨_, _, _, rfl⟩ <;> rfl
  · rcases nonNeg_cases hb with rfl | ⟨_, rfl⟩ | ⟨_, _, _, rfl⟩ <;> rfl
  · rcases nonNeg_cases hb with rfl | ⟨_, rfl⟩ | ⟨n, f, hn, rfl⟩
    · rfl
    · rfl
    · exact congrArg some (compare_then e f m n)

theorem le_iff_rank {a b : Float32} (ha : le 0.0 a = true) (hb : le 0.0 b = true) :
    le a b = true ↔ rank a.toModel.unpack ≤ rank b.toModel.unpack := by
  rw [le_zero_iff] at ha hb
  rw [le_unpack, UnpackedFloat.le, compare_eq ha hb, Option.any_some, Ordering.isLE_iff_ne_gt]
  exact compare_le_iff_le

theorem lt_iff_rank {a b : Float32} (ha : le 0.0 a = true) (hb : le 0.0 b = true) :
    lt a b = true ↔ rank a.toModel.unpack < rank b.toModel.unpack := by
  rw [le_zero_iff] at ha hb
  rw [lt_unpack, UnpackedFloat.lt, compare_eq ha hb, beq_iff_eq, Option.some_inj]
  exact compare_lt_iff_lt

/-- **The larger of two floats** is one of them, and neither exceeds it. -/
theorem larger_spec {a b : Float32} (ha : le 0.0 a = true) (hb : le 0.0 b = true) :
    (larger a b = a ∨ larger a b = b) ∧ le a (larger a b) = true ∧ le b (larger a b) = true := by
  have hself : le b b = true := (le_iff_rank hb hb).mpr le_rfl
  rw [larger, if_pos hself]
  split
  case isTrue hlt =>
    have hlt := (lt_iff_rank hb ha).mp hlt
    exact ⟨.inl rfl, (le_iff_rank ha ha).mpr le_rfl, (le_iff_rank hb ha).mpr hlt.le⟩
  case isFalse hlt =>
    have hle := not_lt.mp (mt (lt_iff_rank hb ha).mpr hlt)
    exact ⟨.inr rfl, (le_iff_rank ha hb).mpr hle, hself⟩

/-- A running maximum is one of the values so far, and none of them exceeds it. -/
theorem foldl_larger_spec (values : List Float32) : ∀ {top : Float32}, le 0.0 top = true →
    (∀ value ∈ values, le 0.0 value = true) →
    values.foldl larger top ∈ top :: values ∧
      ∀ value ∈ top :: values, le value (values.foldl larger top) = true := by
  induction values with
  | nil =>
    intro top htop _
    have hself := (le_iff_rank htop htop).mpr le_rfl
    exact ⟨List.mem_singleton_self _, List.forall_mem_singleton.mpr hself⟩
  | cons value values ih =>
    intro top htop h
    obtain ⟨hvalue, hvalues⟩ := List.forall_mem_cons.mp h
    obtain ⟨hone, hleTop, hleValue⟩ := larger_spec htop hvalue
    have hlarger := larger_nonneg value htop
    obtain ⟨hmem, hall⟩ := ih hlarger hvalues
    obtain ⟨hfirst, hrest⟩ := List.forall_mem_cons.mp hall
    rw [List.foldl_cons]
    have hlast := foldl_larger_nonneg values hlarger
    have htrans {a : Float32} (ha : le 0.0 a = true) (hle : le a (larger top value) = true) :
        le a (values.foldl larger (larger top value)) = true :=
      (le_iff_rank ha hlast).mpr
        (((le_iff_rank ha hlarger).mp hle).trans ((le_iff_rank hlarger hlast).mp hfirst))
    refine ⟨?_, List.forall_mem_cons.mpr ⟨htrans htop hleTop,
      List.forall_mem_cons.mpr ⟨htrans hvalue hleValue, hrest⟩⟩⟩
    rcases List.mem_cons.mp hmem with heq | hmem
    · rw [heq]
      rcases hone with hone | hone <;> rw [hone] <;> simp
    · exact List.mem_cons_of_mem _ (List.mem_cons_of_mem _ hmem)

/-- **The largest of some floats** that are not negative is one of them, and none exceeds it. -/
theorem largest_isGreatest {values : List Float32} (hne : values ≠ [])
    (h : ∀ value ∈ values, le 0.0 value = true) :
    largest values ∈ values ∧ ∀ value ∈ values, le value (largest values) = true := by
  obtain ⟨value, values, rfl⟩ := List.exists_cons_of_ne_nil hne
  obtain ⟨hvalue, hvalues⟩ := List.forall_mem_cons.mp h
  -- Zero, with which the maximum begins, gives way to the first value.
  have hfirst : larger 0.0 value = value := by
    have hself : le value value = true := (le_iff_rank hvalue hvalue).mpr le_rfl
    have hlt : ¬ lt value 0.0 = true := by
      rw [lt_iff_rank hvalue (by decide), not_lt, ← le_iff_rank (by decide) hvalue]
      exact hvalue
    rw [larger, if_neg hlt, if_pos hself]
  rw [largest, List.foldl_cons, hfirst]
  exact foldl_larger_spec values hvalue hvalues

end Railroad.Binary
