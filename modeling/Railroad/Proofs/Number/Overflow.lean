/-
# Sums that overflow

What a sum of floats is worth depends on every rounding, but its sign and whether it is finite do
not.  Numbers that are not negative have a sum that is not negative (`Binary.add_nonneg`), and if
the sum is finite, then so is each of them (`Binary.finite_of_add`).  So it is enough to look at a
running sum when it is complete (`Binary.foldl_add`).

A float is a pattern of bits.  It is unpacked, computed with and packed again; in packing it may
become infinite, or zero, but its sign stays (`Binary.nonNeg_repack`).

That a sum of finite numbers is finite does not hold, and nothing here says so.  The lemmas go from
the sum to its parts, never from the parts to the sum.
-/
import Mathlib
import Railroad.Scalar

namespace Railroad.Binary

open Scalar
open Float.Model (Format UnpackedFloat)
open Float.Model.UnpackedFloat

/-! ## 1. Unpacked floats -/

/-- **Not below zero:** an infinity, a zero or a number with the right sign.  Both zeros count. -/
def NonNeg : UnpackedFloat → Prop
  | .infinity .positive => True
  | .zero _ => True
  | .finite .positive _ _ _ => True
  | _ => False

theorem nonNeg_round (mantissa : Nat) (exponent : Int) (accuracy : Accuracy) :
    NonNeg (roundWithAccuracy Format.binary32 .positive mantissa exponent accuracy) := by
  unfold roundWithAccuracy
  simp only
  split <;> trivial

theorem nonNeg_normalize (mantissa : Nat) (exponent : Int) :
    NonNeg (UnpackedFloat.normalize Format.binary32 mantissa exponent .positive) := by
  unfold UnpackedFloat.normalize
  split
  case h_1 hlt => exact absurd (Int.compare_eq_lt.mp hlt) (by omega)
  case h_2 => trivial
  case h_3 => exact nonNeg_round _ _ _

theorem nonNeg_cases {a : UnpackedFloat} (h : NonNeg a) : a = .infinity .positive ∨
    (∃ sign, a = .zero sign) ∨ ∃ mantissa exponent pos, a = .finite .positive mantissa exponent pos := by
  cases a with
  | notANumber => exact h.elim
  | zero sign => exact .inr (.inl ⟨sign, rfl⟩)
  | infinity sign =>
    cases sign with
    | negative => exact h.elim
    | positive => exact .inl rfl
  | finite sign mantissa exponent pos =>
    cases sign with
    | negative => exact h.elim
    | positive => exact .inr (.inr ⟨mantissa, exponent, pos, rfl⟩)

theorem nonNeg_add {a b : UnpackedFloat} (ha : NonNeg a) (hb : NonNeg b) :
    NonNeg (UnpackedFloat.add Format.binary32 a b) := by
  rcases nonNeg_cases ha with rfl | ⟨s, rfl⟩ | ⟨m, e, hm, rfl⟩
  · rcases nonNeg_cases hb with rfl | ⟨_, rfl⟩ | ⟨_, _, _, rfl⟩ <;> trivial
  · rcases nonNeg_cases hb with rfl | ⟨t, rfl⟩ | ⟨_, _, _, rfl⟩
    · trivial
    · cases s <;> cases t <;> trivial
    · trivial
  · rcases nonNeg_cases hb with rfl | ⟨_, rfl⟩ | ⟨_, _, _, rfl⟩
    · trivial
    · trivial
    · exact nonNeg_normalize _ _

/-- What is infinite stays so if more is added. -/
theorem isFinite_of_add {a b : UnpackedFloat} (ha : NonNeg a) (hb : NonNeg b)
    (h : (UnpackedFloat.add Format.binary32 a b).isFinite = true) :
    a.isFinite = true ∧ b.isFinite = true := by
  rcases nonNeg_cases ha with rfl | ⟨_, rfl⟩ | ⟨_, _, _, rfl⟩
  · rcases nonNeg_cases hb with rfl | ⟨_, rfl⟩ | ⟨_, _, _, rfl⟩ <;> cases h
  · rcases nonNeg_cases hb with rfl | ⟨_, rfl⟩ | ⟨_, _, _, rfl⟩
    · cases h
    · exact ⟨rfl, rfl⟩
    · exact ⟨rfl, rfl⟩
  · rcases nonNeg_cases hb with rfl | ⟨_, rfl⟩ | ⟨_, _, _, rfl⟩
    · cases h
    · exact ⟨rfl, rfl⟩
    · exact ⟨rfl, rfl⟩

theorem nonNeg_div {a b : UnpackedFloat} (ha : NonNeg a) {mantissa : Nat} {exponent : Int}
    {pos : 0 < mantissa} (hb : b = .finite .positive mantissa exponent pos) :
    NonNeg (UnpackedFloat.div Format.binary32 a b) := by
  subst hb
  rcases nonNeg_cases ha with rfl | ⟨_, rfl⟩ | ⟨_, _, _, rfl⟩
  · trivial
  · trivial
  · exact nonNeg_round _ _ _

/-- What comes after a number in the order is no less than zero if the number is not. -/
theorem nonNeg_of_not_lt {a b : UnpackedFloat} (ha : NonNeg a) (hlt : b.lt a = false)
    (hle : b.le b = true) : NonNeg b := by
  cases b with
  | notANumber => cases hle
  | zero _ => trivial
  | infinity sign =>
    cases sign with
    | positive => trivial
    | negative => rcases nonNeg_cases ha with rfl | ⟨_, rfl⟩ | ⟨_, _, _, rfl⟩ <;> cases hlt
  | finite sign _ _ _ =>
    cases sign with
    | positive => trivial
    | negative => rcases nonNeg_cases ha with rfl | ⟨_, rfl⟩ | ⟨_, _, _, rfl⟩ <;> cases hlt

/-! ## 2. Packing -/

theorem unpackSign_packComponents (sign : Sign) (exponent : BitVec 8) (mantissa : BitVec 23) :
    Sign.ofBitVec (unpackSign (packComponents Format.binary32 sign exponent mantissa)) = sign := by
  have hsign : unpackSign (packComponents Format.binary32 sign exponent mantissa)
      = sign.toBitVec := by
    change (sign.toBitVec ++ exponent ++ mantissa).extractLsb' 31 1 = sign.toBitVec
    rw [BitVec.extractLsb'_append_eq_of_le (by decide),
      BitVec.extractLsb'_append_eq_of_le (by decide)]
    cases sign <;> rfl
  rw [hsign]
  cases sign <;> rfl

/-- A positive pattern that is not of the largest exponent is a number. -/
theorem nonNeg_components {exponent : BitVec 8} (h : exponent ≠ -1#8) (mantissa : BitVec 23) :
    NonNeg (unpack Format.binary32
      (packComponents Format.binary32 .positive exponent mantissa)) := by
  unfold unpack
  simp only [unpackMantissa_packComponents, unpackExponent_packComponents,
    unpackSign_packComponents]
  rw [if_neg h]
  split
  · split <;> trivial
  · trivial

theorem unpack_infinity :
    unpack Format.binary32 (packedInfinity Format.binary32 .positive) = .infinity .positive := by
  rfl

theorem unpack_zero (sign : Sign) :
    unpack Format.binary32 (packedZero Format.binary32 sign) = .zero sign := by
  cases sign <;> rfl

/-- **Packing keeps the sign.** -/
theorem nonNeg_repack {a : UnpackedFloat} (h : NonNeg a) :
    NonNeg (unpack Format.binary32 (pack Format.binary32 a)) := by
  rcases nonNeg_cases h with rfl | ⟨sign, rfl⟩ | ⟨m, e, hm, rfl⟩
  · rw [pack, unpack_infinity]
    trivial
  · rw [pack, unpack_zero]
    trivial
  · rw [pack]
    split
    · rw [unpack_infinity]
      trivial
    case isFalse hsmall =>
      split
      · refine nonNeg_components (fun hlargest => hsmall ?_) _
        have hmod := congrArg BitVec.toNat hlargest
        rw [BitVec.toNat_ofNat] at hmod
        exact Nat.succ_le_succ (Nat.le_trans (Nat.le_of_eq hmod.symm) (Nat.mod_le _ _))
      · exact nonNeg_components (by decide) _

/-- What is infinite is packed as such. -/
theorem isFinite_of_repack {a : UnpackedFloat} (ha : NonNeg a)
    (h : (unpack Format.binary32 (pack Format.binary32 a)).isFinite = true) :
    a.isFinite = true := by
  rcases nonNeg_cases ha with rfl | ⟨_, rfl⟩ | ⟨_, _, _, rfl⟩
  · cases h
  · rfl
  · rfl

/-! ## 3. Floats -/

theorem le_unpack (a b : Float32) : le a b = a.toModel.unpack.le b.toModel.unpack :=
  Bool.decide_coe _

theorem lt_unpack (a b : Float32) : lt a b = a.toModel.unpack.lt b.toModel.unpack :=
  Bool.decide_coe _

theorem le_zero_iff {a : Float32} : le 0.0 a = true ↔ NonNeg a.toModel.unpack := by
  have hzero : (0.0 : Float32).toModel.unpack = .zero .positive := rfl
  rw [le_unpack, hzero]
  cases a.toModel.unpack with
  | infinity sign | finite sign _ _ _ =>
    cases sign <;> simp [NonNeg, UnpackedFloat.le, UnpackedFloat.compare]
  | _ => simp [NonNeg, UnpackedFloat.le, UnpackedFloat.compare]

theorem unpack_add (a b : Float32) : (a + b).toModel.unpack = unpack Format.binary32
    (pack Format.binary32 (UnpackedFloat.add Format.binary32 a.toModel.unpack b.toModel.unpack)) :=
  rfl

/-- **Numbers that are not negative have a sum that is not.** -/
theorem add_nonneg {a b : Float32} (ha : le 0.0 a = true) (hb : le 0.0 b = true) :
    le 0.0 (a + b) = true := by
  rw [le_zero_iff] at ha hb ⊢
  rw [unpack_add]
  exact nonNeg_repack (nonNeg_add ha hb)

/-- **If a sum of numbers that are not negative is finite, so is each of them.** -/
theorem finite_of_add {a b : Float32} (ha : le 0.0 a = true) (hb : le 0.0 b = true)
    (h : isFinite (a + b) = true) : isFinite a = true ∧ isFinite b = true := by
  rw [le_zero_iff] at ha hb
  exact isFinite_of_add ha hb (isFinite_of_repack (nonNeg_add ha hb) h)

theorem div_nonneg {a b : Float32} (ha : le 0.0 a = true) {mantissa : Nat} {exponent : Int}
    {pos : 0 < mantissa} (hb : b.toModel.unpack = .finite .positive mantissa exponent pos) :
    le 0.0 (a / b) = true := by
  rw [le_zero_iff] at ha ⊢
  exact nonNeg_repack (nonNeg_div ha hb)

/-- A number that passes the check of a setting. -/
theorem nonneg_of_finite {a : Float32} (hfinite : isFinite a = true) (hlt : lt a 0.0 = false) :
    le 0.0 a = true := by
  have hzero : (0.0 : Float32).toModel.unpack = .zero .positive := rfl
  have hfinite : a.toModel.unpack.isFinite = true := hfinite
  rw [lt_unpack, hzero] at hlt
  rw [le_zero_iff]
  generalize a.toModel.unpack = value at *
  cases value with
  | notANumber | infinity _ => cases hfinite
  | zero _ => trivial
  | finite sign _ _ _ =>
    cases sign with
    | negative => cases hlt
    | positive => trivial

/-- The larger of two numbers is not negative if the first is not. -/
theorem larger_nonneg {a : Float32} (b : Float32) (ha : le 0.0 a = true) :
    le 0.0 (larger a b) = true := by
  unfold larger
  split
  · exact ha
  case isFalse hlt =>
    split
    case isTrue hle =>
      rw [Bool.not_eq_true, lt_unpack] at hlt
      rw [le_unpack] at hle
      rw [le_zero_iff] at ha ⊢
      exact nonNeg_of_not_lt ha hlt hle
    · exact ha

theorem foldl_larger_nonneg (values : List Float32) : ∀ {top : Float32}, le 0.0 top = true →
    le 0.0 (values.foldl larger top) = true := by
  induction values with
  | nil => exact fun h => h
  | cons value values ih => exact fun h => ih (larger_nonneg value h)

/-- **The largest of some numbers and zero** is not negative. -/
theorem largest_nonneg (values : List Float32) : le 0.0 (largest values) = true :=
  foldl_larger_nonneg values (by decide)

/-- **A running sum of numbers that are not negative** is not negative, and if it is finite, so is
each of them. -/
theorem foldl_add (values : List Float32) : ∀ {top : Float32}, le 0.0 top = true →
    (∀ value ∈ values, le 0.0 value = true) → le 0.0 (values.foldl (· + ·) top) = true ∧
      (isFinite (values.foldl (· + ·) top) = true →
        isFinite top = true ∧ ∀ value ∈ values, isFinite value = true) := by
  induction values with
  | nil => exact fun h _ => ⟨h, fun hfinite => ⟨hfinite, fun _ hvalue => nomatch hvalue⟩⟩
  | cons value values ih =>
    intro top htop h
    have hvalue := h value List.mem_cons_self
    obtain ⟨hsum, hfinite⟩ := ih (add_nonneg htop hvalue)
      fun v hv => h v (List.mem_cons_of_mem _ hv)
    refine ⟨hsum, fun hall => ?_⟩
    obtain ⟨hfirst, hrest⟩ := hfinite hall
    obtain ⟨htop', hvalue'⟩ := finite_of_add htop hvalue hfirst
    refine ⟨htop', fun v hv => ?_⟩
    rcases List.mem_cons.mp hv with rfl | hv
    · exact hvalue'
    · exact hrest v hv

end Railroad.Binary
