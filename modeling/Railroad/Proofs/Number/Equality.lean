/-
# When floats are equal

Two floats are equal as numbers when they are the same float, or zeros of either sign; what is not a
number equals nothing (`Binary.beq_iff`).  So equality is that of the floats without the signs of
zeros (`Binary.beq_iff_dropSign`).

The first half of this is that a float is known by its value: to unpack it loses nothing
(`Binary.eq_of_unpack_eq`).  The rest of the file is about where no other values come from.  Numbers
that are read from digits, scaled by a factor that is neither zero nor infinite and carried over from
64 bits to 32 are numbers, or infinite.

Floats are given by a model that unpacks bits into a sign, an exponent and a mantissa, computes with
these and packs them again.  What is proved here is proved of that model and by arithmetic on it;
nothing is found by trying all floats.
-/
import Mathlib
import Railroad.Number.Reader
import Railroad.Number.Text
import Railroad.Proofs.Number.Overflow

namespace Railroad.Binary

open Float.Model (Format UnpackedFloat)
open Float.Model.UnpackedFloat
open Number (twoTo)

/-! ## 1. The parts of a pattern -/

section Parts

variable {spec : Format}

theorem toNat_unpackMantissa (b : BitVec spec.numBits) :
    (unpackMantissa b).toNat = b.toNat % 2 ^ spec.mantissaBitsWithoutImplicit := by
  have := spec.hm
  rw [unpackMantissa, BitVec.toNat_cast, BitVec.extractLsb_toNat, Nat.shiftRight_zero]
  congr 2
  omega

theorem toNat_unpackExponent (b : BitVec spec.numBits) :
    (unpackExponent b).toNat
      = b.toNat / 2 ^ spec.mantissaBitsWithoutImplicit % 2 ^ spec.exponentBits := by
  have := spec.he
  rw [unpackExponent, BitVec.toNat_cast, BitVec.extractLsb_toNat, Nat.shiftRight_eq_div_pow]
  congr 2
  omega

theorem toNat_unpackSign (b : BitVec spec.numBits) :
    (unpackSign b).toNat
      = b.toNat / 2 ^ (spec.mantissaBitsWithoutImplicit + spec.exponentBits) % 2 := by
  rw [unpackSign, BitVec.toNat_cast, BitVec.extractLsb_toNat, Nat.shiftRight_eq_div_pow,
    Nat.sub_self]

theorem ofBitVec_inj {s s' : BitVec 1} (h : Sign.ofBitVec s = Sign.ofBitVec s') : s = s' := by
  unfold Sign.ofBitVec at h
  have := s.isLt
  have := s'.isLt
  split at h <;> split at h
  · simp_all
  · cases h
  · cases h
  · bv_omega

end Parts

/-- A pattern of 32 bits is its sign, its exponent and its mantissa. -/
theorem eq_of_parts {b b' : BitVec Format.binary32.numBits}
    (hsign : unpackSign b = unpackSign b') (hexponent : unpackExponent b = unpackExponent b')
    (hmantissa : unpackMantissa b = unpackMantissa b') : b = b' := by
  have hlt := b.isLt
  have hlt' := b'.isLt
  have hsign := congrArg BitVec.toNat hsign
  have hexponent := congrArg BitVec.toNat hexponent
  have hmantissa := congrArg BitVec.toNat hmantissa
  rw [toNat_unpackSign, toNat_unpackSign] at hsign
  rw [toNat_unpackExponent, toNat_unpackExponent] at hexponent
  rw [toNat_unpackMantissa, toNat_unpackMantissa] at hmantissa
  apply BitVec.eq_of_toNat_eq
  simp only [Format.numBits] at *
  omega

/-- A pattern is made of its three parts. -/
theorem packComponents_unpack (b : BitVec Format.binary32.numBits) :
    packComponents Format.binary32 (Sign.ofBitVec (unpackSign b)) (unpackExponent b)
      (unpackMantissa b) = b :=
  eq_of_parts (ofBitVec_inj (unpackSign_packComponents _ _ _)) unpackExponent_packComponents
    unpackMantissa_packComponents

/-- **Packing takes back what unpacking did.** -/
theorem pack_unpack {b : BitVec Format.binary32.numBits} (h : Format.binary32.Valid b) :
    pack Format.binary32 (unpack Format.binary32 b) = b := by
  have hparts := packComponents_unpack b
  have hexponent := (unpackExponent b).isLt
  have hmantissa := (unpackMantissa b).isLt
  unfold unpack
  simp only
  split
  case isTrue hlargest =>
    rw [hlargest] at hparts
    split
    case isTrue hzero =>
      rw [hzero] at hparts
      exact hparts
    case isFalse hzero => exact (h.eq_packedNaN hlargest hzero).symm
  case isFalse hlargest =>
    split
    case isTrue hleast =>
      rw [hleast] at hparts
      split
      case isTrue hzero =>
        rw [hzero] at hparts
        exact hparts
      case isFalse hzero =>
        have hne : (unpackMantissa b).toNat ≠ 0 := fun h0 => hzero (BitVec.eq_of_toNat_eq h0)
        have hlog := (Nat.log2_lt hne).mpr hmantissa
        rw [pack, if_neg, if_neg, BitVec.ofNat_toNat, BitVec.setWidth_eq]
        · exact hparts
        · change _ < 23 at hlog
          change ¬ _ + 1 = 24
          omega
        · rw [hleast]
          decide
    case isFalse hleast =>
      have hne : (unpackExponent b).toNat ≠ 255 := fun h255 => hlargest (BitVec.eq_of_toNat_eq h255)
      have hvalue : (1#1 ++ unpackMantissa b).toNat = 2 ^ 23 + (unpackMantissa b).toNat := by
        rw [BitVec.toNat_append, ← Nat.shiftLeft_add_eq_or_of_lt hmantissa]
        rfl
      change _ < 2 ^ 23 at hmantissa
      change _ < 2 ^ 8 at hexponent
      have hbiased : (((unpackExponent b).toNat : Int)
          - (Format.binary32.exponentBias + Format.binary32.mantissaBitsWithoutImplicit)
          + Format.binary32.exponentBias + Format.binary32.mantissaBitsWithoutImplicit).toNat
          = (unpackExponent b).toNat := by omega
      rw [pack, hbiased, if_neg, if_pos]
      · refine Eq.trans ?_ hparts
        rw [hvalue, BitVec.ofNat_toNat, BitVec.setWidth_eq]
        congr 1
        apply BitVec.eq_of_toNat_eq
        rw [BitVec.toNat_ofNat]
        change (2 ^ 23 + _) % 2 ^ 23 = _
        omega
      · rw [hvalue]
        have hlog : (2 ^ 23 + (unpackMantissa b).toNat).log2 = 23 :=
          (Nat.log2_eq_iff (by omega)).mpr (by omega)
        change _ + 1 = 24
        omega
      · change ¬ 2 ^ 8 ≤ _ + 1
        omega

theorem eq_of_unpack_eq {x y : Float32} (h : x.toModel.unpack = y.toModel.unpack) : x = y := by
  have hbits : x.toModel.toBits = y.toModel.toBits := by
    apply UInt32.toBitVec_inj.mp
    rw [← pack_unpack x.toModel.valid, ← pack_unpack y.toModel.valid]
    exact congrArg (pack Format.binary32) h
  obtain ⟨⟨_, _⟩⟩ := x
  obtain ⟨⟨_, _⟩⟩ := y
  cases hbits
  rfl

/-! ## 2. Equality -/

theorem beq_unpack (x y : Float32) : (x == y) = x.toModel.unpack.beq y.toModel.unpack := rfl

/-- **Unpacked floats compare as equal** when they are the same, or both zero. -/
theorem unpacked_beq_iff {a b : UnpackedFloat} (ha : a.isNaN = false) :
    a.beq b = true ↔ a = b ∨ (∃ s, a = .zero s) ∧ ∃ s, b = .zero s := by
  have hthen (e f : Int) (m n : Nat) :
      (compare e f).then (compare m n) = .eq ↔ e = f ∧ m = n := by
    rw [Ordering.then_eq_eq, compare_eq_iff_eq, compare_eq_iff_eq]
  cases a with
  | notANumber => cases ha
  | infinity s => cases s <;> cases b with
    | infinity t => cases t <;> simp [UnpackedFloat.beq, UnpackedFloat.compare, compare]
    | _ => simp [UnpackedFloat.beq, UnpackedFloat.compare]
  | zero s => cases b with
    | infinity t | finite t _ _ _ => cases t <;> simp [UnpackedFloat.beq, UnpackedFloat.compare]
    | _ => simp [UnpackedFloat.beq, UnpackedFloat.compare]
  | finite s m e _ => cases s <;> cases b with
    | infinity t => cases t <;> simp [UnpackedFloat.beq, UnpackedFloat.compare]
    | finite t n f _ =>
      cases t <;> simp [UnpackedFloat.beq, UnpackedFloat.compare, hthen, and_comm]
    | _ => simp [UnpackedFloat.beq, UnpackedFloat.compare]

theorem beq_zero_iff {x : Float32} : (x == 0.0) = true ↔ ∃ s, x.toModel.unpack = .zero s := by
  have hzero : (0.0 : Float32).toModel.unpack = .zero .positive := rfl
  rw [beq_unpack, hzero]
  by_cases hx : x.toModel.unpack.isNaN = false
  · rw [unpacked_beq_iff hx]
    constructor
    · rintro (h | ⟨h, -⟩)
      · exact ⟨_, h⟩
      · exact h
    · exact fun h => .inr ⟨h, _, rfl⟩
  · generalize x.toModel.unpack = a at hx ⊢
    cases a with
    | notANumber => simp [UnpackedFloat.beq, UnpackedFloat.compare]
    | _ => exact absurd rfl hx

/-- **Equal floats are the same, or zeros of different signs.** -/
theorem beq_cases {x y : Float32} (hx : x.isNaN = false) (h : (x == y) = true) :
    x = y ∨ (x = 0.0 ∧ y = -0.0) ∨ (x = -0.0 ∧ y = 0.0) := by
  have hpositive : (0.0 : Float32).toModel.unpack = .zero .positive := rfl
  have hnegative : (-0.0 : Float32).toModel.unpack = .zero .negative := rfl
  rw [beq_unpack, unpacked_beq_iff hx] at h
  rcases h with h | ⟨⟨s, hs⟩, t, ht⟩
  · exact .inl (eq_of_unpack_eq h)
  · cases s <;> cases t
    · exact .inl (eq_of_unpack_eq (hs.trans ht.symm))
    · exact .inr (.inr ⟨eq_of_unpack_eq (hs.trans hnegative.symm),
        eq_of_unpack_eq (ht.trans hpositive.symm)⟩)
    · exact .inr (.inl ⟨eq_of_unpack_eq (hs.trans hpositive.symm),
        eq_of_unpack_eq (ht.trans hnegative.symm)⟩)
    · exact .inl (eq_of_unpack_eq (hs.trans ht.symm))

/-- What is no number equals nothing, and everything else itself. -/
theorem beq_self_iff {x : Float32} : (x == x) = true ↔ x.isNaN = false := by
  constructor
  · intro h
    have hself : x.toModel.unpack.beq x.toModel.unpack = true := h
    change x.toModel.unpack.isNaN = false
    generalize x.toModel.unpack = a at hself ⊢
    cases a with
    | notANumber => exact nomatch hself
    | _ => rfl
  · exact fun h => (unpacked_beq_iff h).mpr (.inl rfl)

/-- A float, with a zero of either sign made the positive one. -/
def dropSign (x : Float32) : Float32 := if x == 0.0 then 0.0 else x

/-- **Equality is that of the floats without the signs of zeros.** -/
theorem beq_iff_dropSign {x y : Float32} (hx : x.isNaN = false) :
    (x == y) = true ↔ dropSign x = dropSign y := by
  have hzero : ((0.0 : Float32) == 0.0) = true := beq_zero_iff.mpr ⟨_, rfl⟩
  constructor
  · intro h
    rcases beq_cases hx h with rfl | ⟨rfl, rfl⟩ | ⟨rfl, rfl⟩
    · rfl
    · rfl
    · rfl
  · intro h
    unfold dropSign at h
    split at h
    case isTrue hx0 =>
      split at h
      case isTrue hy0 =>
        rw [beq_unpack, unpacked_beq_iff hx]
        exact .inr ⟨beq_zero_iff.mp hx0, beq_zero_iff.mp hy0⟩
      case isFalse hy0 => exact absurd (h ▸ hzero) hy0
    case isFalse hx0 =>
      split at h
      case isTrue hy0 => exact absurd (h ▸ hzero) hx0
      case isFalse hy0 => exact h ▸ beq_self_iff.mpr hx

/-! ## 3. Operations that give numbers -/

section Operations

variable {spec : Format} {a b : UnpackedFloat}

/-- It is finite and not zero. -/
def isFactor : UnpackedFloat → Bool
  | .finite _ _ _ _ => true
  | _ => false

theorem isNaN_round (sign : Sign) (mantissa : Nat) (exponent : Int) (accuracy : Accuracy) :
    (roundWithAccuracy spec sign mantissa exponent accuracy).isNaN = false := by
  unfold roundWithAccuracy
  simp only
  split <;> rfl

theorem isNaN_normalize (mantissa : Int) (exponent : Int) (sign : Sign) :
    (UnpackedFloat.normalize spec mantissa exponent sign).isNaN = false := by
  unfold UnpackedFloat.normalize
  split
  · exact isNaN_round ..
  · rfl
  · exact isNaN_round ..

theorem isNaN_mul (ha : a.isNaN = false) (hb : isFactor b = true) :
    (UnpackedFloat.mul spec a b).isNaN = false := by
  cases b with
  | finite _ _ _ _ =>
    cases a with
    | notANumber => exact nomatch ha
    | finite _ _ _ _ => exact isNaN_round ..
    | _ => rfl
  | _ => exact nomatch hb

theorem isNaN_div (ha : a.isNaN = false) (hb : isFactor b = true) :
    (UnpackedFloat.div spec a b).isNaN = false := by
  cases b with
  | finite _ _ _ _ =>
    cases a with
    | notANumber => exact nomatch ha
    | finite _ _ _ _ => exact isNaN_round ..
    | _ => rfl
  | _ => exact nomatch hb

theorem isNaN_ofScientific (m : Nat) (e : Int) :
    (UnpackedFloat.ofScientific spec m e).isNaN = false := by
  unfold UnpackedFloat.ofScientific
  split
  · rfl
  · split
    · rfl
    · split
      · rfl
      · split
        · exact isNaN_mul rfl rfl
        · exact isNaN_div rfl rfl

theorem isNaN_unpack_iff {b : BitVec spec.numBits} : (unpack spec b).isNaN = false ↔
    (unpackExponent b = -1#_ → unpackMantissa b = 0#_) := by
  unfold unpack
  simp only
  split
  case isTrue h =>
    split
    case isTrue h' => simp [UnpackedFloat.isNaN, h']
    case isFalse h' => simp [UnpackedFloat.isNaN, h, h']
  case isFalse h =>
    simp only [h, false_imp_iff, iff_true]
    split
    · split <;> rfl
    · rfl

/-- A number that is packed stays one. -/
theorem isNaN_repack (h : a.isNaN = false) : (unpack spec (pack spec a)).isNaN = false := by
  rw [isNaN_unpack_iff]
  have hlargest := Nat.pow_le_pow_right (Nat.succ_pos 1) spec.he
  fun_cases pack with
  | case1 => exact nomatch h
  | case2 s => simp [packedInfinity]
  | case3 s => simp [packedZero]
  | case4 s m e hm biased hlarge => simp [packedInfinity]
  | case5 s m e hm bits biased hsmall hnormal =>
    intro hexponent
    rw [unpackExponent_packComponents] at hexponent
    have hnat := congrArg BitVec.toNat hexponent
    rw [BitVec.toNat_ofNat, BitVec.neg_one_eq_allOnes, BitVec.toNat_allOnes,
      Nat.mod_eq_of_lt (by omega)] at hnat
    omega
  | case6 s m e hm bits biased hsmall hnormal =>
    intro hexponent
    rw [unpackExponent_packComponents] at hexponent
    have hnat := congrArg BitVec.toNat hexponent
    rw [BitVec.neg_one_eq_allOnes, BitVec.toNat_allOnes, BitVec.toNat_zero] at hnat
    omega

end Operations

/-! ## 4. Numbers of 64 bits -/

section Wide

variable {x y : Float}

theorem isNaN_neg64 (hx : x.isNaN = false) : (-x).isNaN = false := by
  have hneg : x.toModel.unpack.neg.isNaN = false := by
    have hx : x.toModel.unpack.isNaN = false := hx
    generalize x.toModel.unpack = a at hx ⊢
    cases a with
    | notANumber => exact nomatch hx
    | _ => rfl
  exact isNaN_repack hneg

theorem isNaN_mul64 (hx : x.isNaN = false) (hy : isFactor y.toModel.unpack = true) :
    (x * y).isNaN = false :=
  isNaN_repack (isNaN_mul hx hy)

theorem isNaN_div64 (hx : x.isNaN = false) (hy : isFactor y.toModel.unpack = true) :
    (x / y).isNaN = false :=
  isNaN_repack (isNaN_div hx hy)

theorem isNaN_ofScientific64 (m : Nat) (s : Bool) (e : Nat) :
    (Float.ofScientific m s e).isNaN = false := by
  have hpowers : ∀ x ∈ Float.exactlyRepresentablePowersOfTen, isFactor x.toModel.unpack = true := by
    decide +kernel
  have hwhole : m.toUInt64.toFloat.isNaN = false := isNaN_repack (isNaN_normalize ..)
  unfold Float.ofScientific
  split
  · simp only
    split
    · exact isNaN_div64 hwhole (hpowers _ (Array.getElem_mem _))
    · exact isNaN_mul64 hwhole (hpowers _ (Array.getElem_mem _))
  · exact isNaN_repack (isNaN_ofScientific ..)

/-- **What is read from digits is a number,** or infinite. -/
theorem isNaN_toFloat (d : Number.Decimal) : d.toFloat.isNaN = false := by
  unfold Number.Decimal.toFloat
  simp only
  split
  · decide +kernel
  · split
    · decide +kernel
    · exact isNaN_ofScientific64 ..

end Wide

/-! ## 5. Numbers of 32 bits -/

section Narrow

variable {x y : Float32}

theorem isNaN_mul32 (hx : x.isNaN = false) (hy : isFactor y.toModel.unpack = true) :
    (x * y).isNaN = false :=
  isNaN_repack (isNaN_mul hx hy)

theorem isNaN_ofNat32 (n : Nat) : (Float32.ofNat n).isNaN = false := by
  have hpowers : ∀ x ∈ Float32.exactlyRepresentablePowersOfTen,
      isFactor x.toModel.unpack = true := by
    decide +kernel
  have hwhole : n.toUInt64.toFloat32.isNaN = false := isNaN_repack (isNaN_normalize ..)
  change (Float32.ofScientific n false 0).isNaN = false
  unfold Float32.ofScientific
  split
  · exact isNaN_mul32 hwhole (hpowers _ (Array.getElem_mem _))
  · exact isNaN_repack (isNaN_ofScientific ..)

/-- The bits of a magnitude are those of infinity at most. -/
theorem magnitudeBits32_le (mantissa : Nat) (exponent : Int) :
    Number.Binary.magnitudeBits32 mantissa exponent ≤ 255 * 2 ^ 23 := by
  unfold Number.Binary.magnitudeBits32
  split
  · exact Nat.zero_le _
  · exact Nat.min_le_right _ _

/-- The bits of a number say that it is one. -/
theorem ofFloat64_ne_nan {x : Float} (hx : x.isNaN = false) : Number.Binary.ofFloat64 x ≠ .nan := by
  have hunpack : (unpack Format.binary64 x.toModel.toBits.toBitVec).isNaN = false := hx
  have hparts := isNaN_unpack_iff.mp hunpack
  have hbits : x.toBits.toNat = x.toModel.toBits.toBitVec.toNat := rfl
  unfold Number.Binary.ofFloat64 Number.Binary.ofBits
  rw [hbits]
  simp only
  split
  case isTrue hlargest =>
    split
    case isTrue => nofun
    case isFalse hfraction =>
      have hexponent : @unpackExponent Format.binary64 x.toModel.toBits.toBitVec = -1#_ := by
        apply BitVec.eq_of_toNat_eq
        rw [toNat_unpackExponent, BitVec.neg_one_eq_allOnes, BitVec.toNat_allOnes]
        exact eq_of_beq hlargest
      have hmantissa := congrArg BitVec.toNat (hparts hexponent)
      rw [toNat_unpackMantissa] at hmantissa
      exact absurd (beq_iff_eq.mpr hmantissa) hfraction
  case isFalse => split <;> nofun

/-- A pattern of no larger magnitude than infinity is a number, or infinite. -/
theorem isNaN_ofBits {n : Nat} (h : n % 2 ^ 31 ≤ 255 * 2 ^ 23) :
    (Float32.ofBits (UInt32.ofNat n)).isNaN = false := by
  refine isNaN_repack (isNaN_unpack_iff.mpr fun hexponent => ?_)
  have hbits : (UInt32.ofNat n).toBitVec.toNat = n % 2 ^ 32 := UInt32.toNat_ofNat'
  have hnat := congrArg BitVec.toNat hexponent
  rw [toNat_unpackExponent, hbits, BitVec.neg_one_eq_allOnes, BitVec.toNat_allOnes] at hnat
  apply BitVec.eq_of_toNat_eq
  rw [toNat_unpackMantissa, hbits, BitVec.toNat_zero]
  simp only at hnat ⊢
  omega

/-- **A number that is carried over from 64 bits stays one.** -/
theorem isNaN_narrow {x : Float} (hx : x.isNaN = false) : (Number.narrow x).isNaN = false := by
  have hne := ofFloat64_ne_nan hx
  unfold Number.narrow
  cases hvalue : Number.Binary.ofFloat64 x with
  | nan => exact absurd hvalue hne
  | infinite negative => cases negative <;> decide +kernel
  | finite negative mantissa exponent atPower =>
    have hle := magnitudeBits32_le mantissa exponent
    have hmod : (if negative = true then twoTo 31 + Number.Binary.magnitudeBits32 mantissa exponent
        else Number.Binary.magnitudeBits32 mantissa exponent) % 2 ^ 31 ≤ 255 * 2 ^ 23 := by
      have htop : twoTo 31 = 2 ^ 31 := rfl
      rw [htop]
      split <;> omega
    exact isNaN_ofBits hmod

end Narrow

end Railroad.Binary
