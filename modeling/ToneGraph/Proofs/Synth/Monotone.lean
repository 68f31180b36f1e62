import ToneGraph.Proofs.Synth.Value
import ToneGraph.Synth.Delay
/-!
# Products in order

Of two samples that are multiplied by the same positive sample, the greater one has the greater
product, also after rounding.  It does not follow from `Rounded`, which only compares results with
floats: between two neighbouring floats it matters that rounding goes to the nearer one, and to the
even one from the middle.

Shifting a bit out of a mantissa keeps the order of mantissas, with the bits that say what was
shifted out as its last digits, and so does rounding in the end.  Mantissas of different floats are
brought to a common exponent first, or they have different powers of two and a power lies between
them.  A product that is too large for the format is infinite, and that is no less than any other.

## Main definitions

* `weight`: a mantissa with the bits behind it as one number.
* `RoundsTo`: the mantissa and the exponent to which a number is rounded.

## Main statements

* `roundOff_mono`, `RoundsTo.mono`: rounding keeps the order of numbers.
* `mul_le_mul_or_infinite`: a product grows with its factor.
* `toCountUp_eq`, `toCountUp_mono`: counts that are rounded up.
* `DelayLine.lengthFor_mono`: a line for a greater time is no shorter.
-/

namespace ToneGraph.Synth

open Float.Model (Format totalExponent)
open Float.Model.UnpackedFloat

/-! ## One shift -/

/-- The mantissa and the two bits behind it, of which the last one only says whether anything
follows. -/
def weight (em : ExtendedMantissa) : Nat :=
  4 * em.mantissa + 2 * em.roundBit.toNat + em.stickyBit.toNat

theorem weight_shiftRightOne {a b : ExtendedMantissa} (h : weight a ≤ weight b) :
    weight a.shiftRightOne ≤ weight b.shiftRightOne := by
  have hbit : ∀ m : Nat, (m % 2 != 0).toNat = m % 2 := by
    intro m
    rcases Nat.mod_two_eq_zero_or_one m with hm | hm <;> rw [hm] <;> rfl
  obtain ⟨m, round, sticky⟩ := a
  obtain ⟨n, round', sticky'⟩ := b
  simp only [weight, ExtendedMantissa.shiftRightOne, hbit] at h ⊢
  cases round <;> cases sticky <;> cases round' <;> cases sticky' <;>
    simp only [Bool.toNat_false, Bool.toNat_true, Bool.or_false, Bool.or_true] at h ⊢ <;> omega

theorem weight_shiftRight {a b : ExtendedMantissa} (h : weight a ≤ weight b) (k : Nat) :
    weight (a >>> k) ≤ weight (b >>> k) := by
  induction k with
  | zero => exact h
  | succ k ih => exact weight_shiftRightOne ih

theorem roundedMantissa_mono {a b : ExtendedMantissa} (h : weight a ≤ weight b) :
    a.roundedMantissa ≤ b.roundedMantissa := by
  obtain ⟨m, round, sticky⟩ := a
  obtain ⟨n, round', sticky'⟩ := b
  simp only [weight] at h
  cases round <;> cases sticky <;> cases round' <;> cases sticky' <;>
    simp only [ExtendedMantissa.roundedMantissa, ExtendedMantissa.accuracy,
      Accuracy.roundToNearestEven, Bool.toNat_false, Bool.toNat_true] at h ⊢ <;> omega

theorem roundOff_mono {n m : Nat} (h : n ≤ m) (k : Nat) : roundOff n k ≤ roundOff m k := by
  refine roundedMantissa_mono (weight_shiftRight ?_ k)
  simp only [weight]
  omega

/-! ## Two exponents -/

theorem shiftRight_add (em : ExtendedMantissa) (j k : Nat) : em >>> (j + k) = (em >>> j) >>> k := by
  induction k with
  | zero => rfl
  | succ k ih => rw [← Nat.add_assoc, shiftRight_succ, shiftRight_succ, ih]

/-- Zeros behind a mantissa do not matter to what is rounded. -/
theorem roundOff_mul_pow (n j k : Nat) : roundOff (n * 2 ^ j) (j + k) = roundOff n k := by
  rw [roundOff, shiftRight_add, shiftRight_mul_pow, roundOff]

/-- Rounding at the same place keeps the order. -/
theorem roundOff_le_roundOff {n m k l : Nat} {e d : Int} (hplace : e + k = d + l)
    (h : (n : ℚ) * 2 ^ e ≤ m * 2 ^ d) : roundOff n k ≤ roundOff m l := by
  rcases Int.le_total e d with hle | hle
  · obtain ⟨j, rfl⟩ : ∃ j : Nat, d = e + j := ⟨(d - e).toNat, by omega⟩
    obtain rfl : k = j + l := by omega
    rw [← roundOff_mul_pow m j l]
    exact roundOff_mono (mul_zpow_le_iff.1 h) _
  · obtain ⟨j, rfl⟩ : ∃ j : Nat, e = d + j := ⟨(e - d).toNat, by omega⟩
    obtain rfl : l = j + k := by omega
    rw [← roundOff_mul_pow n j k]
    exact roundOff_mono (zpow_mul_le_iff.1 h) _

/-- A number that is not zero is rounded to `r` at the exponent `t`, which leaves it the bits of the
format, or is the least exponent. -/
def RoundsTo (spec : Format) (q : ℚ) (r : Nat) (t : Int) : Prop :=
  ∃ (n k : Nat) (e : Int), 0 < n ∧ t = spec.targetExponent (totalExponent n e) ∧ t = e + k ∧
    q = n * 2 ^ e ∧ r = roundOff n k

namespace RoundsTo

variable {spec : Format} {p q : ℚ} {r c : Nat} {t u : Int}

theorem minExponent_le (h : RoundsTo spec q r t) : spec.minExponent ≤ t := by
  obtain ⟨n, k, e, -, ht, -⟩ := h
  rw [targetExponent_eq] at ht
  omega

theorem le_two_pow (h : RoundsTo spec q r t) : r ≤ 2 ^ spec.mantissaBits := by
  obtain ⟨n, k, e, -, ht, hk, -, rfl⟩ := h
  exact (roundWithAccuracy_eq spec .positive ht hk).1

theorem full (h : RoundsTo spec q r t) :
    2 ^ spec.mantissaBitsWithoutImplicit ≤ r ∨ t = spec.minExponent := by
  obtain ⟨n, k, e, hn, ht, hk, -, rfl⟩ := h
  exact roundOff_full spec hn ht hk

/-- Of two numbers, the greater one has the greater exponent. -/
theorem exponent_mono (h : RoundsTo spec p r t) (h' : RoundsTo spec q c u) (hle : p ≤ q) :
    t ≤ u := by
  obtain ⟨n, k, e, hn, ht, -, rfl, -⟩ := h
  obtain ⟨m, l, d, hm, hu, -, rfl, -⟩ := h'
  have hlog : e + n.log2 ≤ d + m.log2 := by
    by_contra hgreater
    have hbits : d + (m.log2 + 1 : Nat) ≤ e + n.log2 := by
      push_cast
      omega
    have hbelow := mul_zpow_lt Nat.lt_log2_self hbits
    have habove := zpow_le_mul (Nat.log2_self_le (by omega)) (le_refl (e + n.log2 : Int))
    linarith
  rw [targetExponent_eq] at ht hu
  omega

/-- Rounding keeps the order of numbers. -/
theorem mono (h : RoundsTo spec p r t) (h' : RoundsTo spec q c u) (hle : p ≤ q) :
    (r : ℚ) * 2 ^ t ≤ c * 2 ^ u := by
  rcases Int.lt_or_eq_of_le (h.exponent_mono h' hle) with hlt | rfl
  · -- The power of two with all bits at the greater exponent lies between the results.
    have hlow := h.minExponent_le
    have hfull := h'.full.resolve_right (by omega)
    have hone : spec.mantissaBits = 1 + spec.mantissaBitsWithoutImplicit := rfl
    calc (r : ℚ) * 2 ^ t ≤ (2 ^ spec.mantissaBits : Nat) * 2 ^ t :=
          mul_le_mul_of_nonneg_right (by exact_mod_cast h.le_two_pow) (by positivity)
      _ = 2 ^ (t + spec.mantissaBits : Int) := by
          rw [zpow_add₀ (by norm_num), zpow_natCast, mul_comm, Nat.cast_pow, Nat.cast_ofNat]
      _ ≤ 2 ^ (u + spec.mantissaBitsWithoutImplicit : Int) :=
          zpow_le_zpow_right₀ (by norm_num) (by omega)
      _ ≤ c * 2 ^ u := zpow_le_mul hfull le_rfl
  · obtain ⟨n, k, e, -, -, hk, rfl, rfl⟩ := h
    obtain ⟨m, l, d, -, -, hl, rfl, rfl⟩ := h'
    have hround := roundOff_le_roundOff (hk.symm.trans hl) hle
    exact mul_le_mul_of_nonneg_right (by exact_mod_cast hround) (by positivity)

end RoundsTo

/-! ## Too large for the format -/

theorem pack_of_maxExponent_lt {spec : Format} {m : Nat} {e : Int} (s : Sign) (hm : 0 < m)
    (he : maxExponent spec < e) : pack spec (.finite s m e hm) = packedInfinity spec s := by
  have hmax := maxExponent_eq spec
  have hbits := two_pow_exponentBits spec
  refine if_pos ?_
  omega

/-- A rounded number that the format cannot hold is packed as infinity. -/
theorem RoundsTo.unpack_pack {spec : Format} {q : ℚ} {r : Nat} {t : Int} (h : RoundsTo spec q r t)
    (s : Sign) (hlarge : ¬ Encoded spec (ofRounded spec s r t)) :
    unpack spec (pack spec (ofRounded spec s r t)) = .infinity s := by
  have hdouble := two_pow_mantissaBits spec
  have hpos := Nat.two_pow_pos spec.mantissaBitsWithoutImplicit
  suffices hinfinity : pack spec (ofRounded spec s r t) = packedInfinity spec s by
    rw [hinfinity, unpack_packedInfinity]
  unfold ofRounded at hlarge ⊢
  split at hlarge
  · next hlt =>
      rw [if_pos hlt]
      have hzero : r ≠ 0 := by
        rintro rfl
        exact hlarge trivial
      rw [ofMantissa, dif_neg hzero] at hlarge ⊢
      refine pack_of_maxExponent_lt s _ (Int.lt_of_not_ge fun hle => hlarge ?_)
      exact ⟨hlt, h.full, h.minExponent_le, hle⟩
  · next hcarry =>
      rw [if_neg hcarry]
      have hzero : 2 ^ spec.mantissaBitsWithoutImplicit ≠ 0 := by omega
      rw [ofMantissa, dif_neg hzero] at hlarge ⊢
      refine pack_of_maxExponent_lt s _ (Int.lt_of_not_ge fun hle => hlarge ?_)
      have hlow := h.minExponent_le
      exact ⟨by omega, .inl (Nat.le_refl _), by omega, hle⟩

/-! ## Products -/

variable {x y r : Float}

theorem exists_positive (hx : x.isFinite = true) (hpos : 0 < value x) :
    ∃ m e hm, x.toModel.unpack = .finite .positive m e hm ∧ value x = m * 2 ^ e := by
  have hx : x.toModel.unpack.isFinite = true := hx
  cases hu : x.toModel.unpack with
  | notANumber | infinity => rw [hu] at hx; contradiction
  | zero s =>
      have hvalue : value x = 0 := congrArg valueOf hu
      linarith
  | finite s m e hm =>
      have hvalue : value x = valueOf (.finite s m e hm) := congrArg valueOf hu
      cases s with
      | positive => exact ⟨m, e, hm, rfl, hvalue.trans (valueOf_positive m e hm)⟩
      | negative =>
          have hnonneg : (0 : ℚ) ≤ m * 2 ^ e := by positivity
          rw [hvalue, valueOf_negative] at hpos
          linarith

/-- A product of positive samples is rounded and packed. -/
theorem exists_roundsTo_mul (hx : x.isFinite = true) (hxpos : 0 < value x) (hr : r.isFinite = true)
    (hrpos : 0 < value r) :
    ∃ c t, RoundsTo Format.binary64 (value x * value r) c t ∧
      (x * r).toModel.unpack =
        unpack Format.binary64
          (pack Format.binary64 (ofRounded Format.binary64 .positive c t)) := by
  obtain ⟨m, e, hm, hxu, hxv⟩ := exists_positive hx hxpos
  obtain ⟨n, d, hn, hru, hrv⟩ := exists_positive hr hrpos
  have hxe : Encoded Format.binary64 x.toModel.unpack :=
    encoded_unpack Format.binary64 (by decide) _
  have hre : Encoded Format.binary64 r.toModel.unpack :=
    encoded_unpack Format.binary64 (by decide) _
  rw [hxu] at hxe
  rw [hru] at hre
  have hplace := mul_le_targetExponent hxe hre
  obtain ⟨t, ht⟩ : ∃ t, t = Format.binary64.targetExponent (totalExponent (m * n) (e + d)) :=
    ⟨_, rfl⟩
  obtain ⟨k, hk⟩ : ∃ k : Nat, t = e + d + k := ⟨(t - (e + d)).toNat, by omega⟩
  refine ⟨_, t, ⟨m * n, k, e + d, Nat.mul_pos hm hn, ht, hk, ?_, rfl⟩, ?_⟩
  · rw [hxv, hrv, zpow_add₀ (by norm_num)]
    push_cast
    ring
  · show unpack _ (pack _ (mul _ x.toModel.unpack r.toModel.unpack)) = _
    rw [hxu, hru]
    exact congrArg (fun f => unpack _ (pack _ f)) (roundWithAccuracy_eq _ _ ht hk).2

/-- A product grows with its factor, also where it becomes infinite. -/
theorem mul_le_mul_or_infinite (hx : x.isFinite = true) (hxpos : 0 < value x)
    (hy : y.isFinite = true) (hle : value x ≤ value y) (hr : r.isFinite = true)
    (hrpos : 0 < value r) :
    (y * r).toModel.unpack = .infinity .positive ∨
      (x * r).isFinite = true ∧ (y * r).isFinite = true ∧ 0 ≤ value (x * r) ∧
        value (x * r) ≤ value (y * r) := by
  obtain ⟨a, t, hat, hxr⟩ := exists_roundsTo_mul hx hxpos hr hrpos
  obtain ⟨b, u, hbu, hyr⟩ := exists_roundsTo_mul hy (hxpos.trans_le hle) hr hrpos
  have hrounded := hat.mono hbu (mul_le_mul_of_nonneg_right hle hrpos.le)
  have hleft := valueOf_ofRounded .positive t hat.le_two_pow
  have hright := valueOf_ofRounded .positive u hbu.le_two_pow
  by_cases hfits : Encoded Format.binary64 (ofRounded Format.binary64 .positive b u)
  · right
    have hgreatest : Representable Format.binary64 (b * 2 ^ u) := by
      have hrepresentable := representable_valueOf hfits (by decide)
      rwa [hright, abs_apply_mul] at hrepresentable
    have hfits' := encoded_ofRounded .positive hat.full hat.minExponent_le hgreatest hrounded
    rw [unpack_pack _ hfits'] at hxr
    rw [unpack_pack _ hfits] at hyr
    refine ⟨?_, ?_, ?_, ?_⟩
    · show (x * r).toModel.unpack.isFinite = true
      rw [hxr, isFinite_ofRounded]
    · show (y * r).toModel.unpack.isFinite = true
      rw [hyr, isFinite_ofRounded]
    · rw [value, hxr, hleft]
      show (0 : ℚ) ≤ a * 2 ^ t
      positivity
    · rw [value, value, hxr, hyr, hleft, hright]
      exact hrounded
  · left
    rw [hyr, hbu.unpack_pack .positive hfits]

/-- Nothing but infinity is no less than a finite sample without being finite. -/
theorem infinite_of_le (hx : x.isFinite = true) (hle : x ≤ y) (hy : ¬ y.isFinite = true) :
    y.toModel.unpack = .infinity .positive := by
  have hnumber : y.toModel.unpack.isNaN = false := (number_of_le hle).2
  have hy : ¬ y.toModel.unpack.isFinite = true := hy
  cases hu : y.toModel.unpack with
  | notANumber => rw [hu] at hnumber; contradiction
  | zero | finite => rw [hu] at hy; exact absurd rfl hy
  | infinity s =>
      cases s with
      | positive => rfl
      | negative =>
          obtain ⟨hxnumber, hynumber⟩ := number_of_le hle
          exact absurd (infinity_lt hx hu) ((not_lt_iff_le hynumber hxnumber).2 hle)

theorem infinity_mul (hx : x.toModel.unpack = .infinity .positive) (hy : y.isFinite = true)
    (hpos : 0 < value y) : (x * y).toModel.unpack = .infinity .positive := by
  obtain ⟨m, e, hm, hu, -⟩ := exists_positive hy hpos
  show unpack Format.binary64 (pack Format.binary64 (mul _ x.toModel.unpack y.toModel.unpack)) = _
  rw [hx, hu]
  exact unpack_packedInfinity Format.binary64 .positive

/-! ## Counts -/

theorem toCountUp_le (x : Float) : toCountUp x ≤ 2 ^ 64 - 1 := by
  have hcount : toCount x < 2 ^ 64 := UInt64.toNat_lt _
  have hsize : UInt64.size = 2 ^ 64 := rfl
  unfold toCountUp
  dsimp only
  split <;> omega

theorem toCountUp_of_infinity (hx : x.toModel.unpack = .infinity .positive) :
    toCountUp x = 2 ^ 64 - 1 := by
  have hclamp : toCount x = min (x.toModel.unpack.toInt 0 (UInt64.size - 1)).toNat (2 ^ 64 - 1) :=
    toNat_ofNatClamp _
  have hcount : toCount x = 2 ^ 64 - 1 := by
    rw [hclamp, hx]
    decide
  have hlt : Float.ofNat (2 ^ 64 - 1) < x := lt_infinity (by decide) hx
  rw [toCountUp, hcount, if_pos hlt]
  decide

/-- A count is rounded up from a sample that is not negative, unless it is the greatest count. -/
theorem toCountUp_eq (hx : x.isFinite = true) (hzero : 0 ≤ value x) :
    toCountUp x = min ⌈value x⌉₊ (2 ^ 64 - 1) := by
  obtain ⟨n, hrepresentable, hwhole, hnext, hcount⟩ := toCount_spec hx hzero
  rcases Nat.lt_or_ge n (2 ^ 64) with hlt | hge
  · have hround := rounded_ofNat n hrepresentable le_rfl
    have hvalue : value (Float.ofNat n) = n :=
      hround.valueOf_eq (by rwa [abs_of_nonneg (Nat.cast_nonneg _)])
    rw [toCountUp, hcount, Nat.min_eq_left (by omega)]
    by_cases hmore : (n : ℚ) < value x
    · have hceil : ⌈value x⌉₊ = n + 1 := by
        rw [Nat.ceil_eq_iff (Nat.succ_ne_zero n)]
        exact ⟨hmore, by exact_mod_cast hnext.le⟩
      rw [if_pos ((lt_iff_value_lt hround.isFinite hx).2 (hvalue ▸ hmore)), hceil]
      rfl
    · have hceil : ⌈value x⌉₊ = n := by
        rw [le_antisymm (le_of_not_gt hmore) hwhole, Nat.ceil_natCast]
      rw [if_neg fun h => hmore (hvalue ▸ (lt_iff_value_lt hround.isFinite hx).1 h), hceil,
        Nat.min_eq_left (by omega)]
  · -- The greatest count, whether or not the sample is greater than it once more.
    have hceil : n ≤ ⌈value x⌉₊ := by exact_mod_cast hwhole.trans (Nat.le_ceil _)
    have hgreatest : min ⌈value x⌉₊ (2 ^ 64 - 1) = 2 ^ 64 - 1 := Nat.min_eq_right (by omega)
    rw [toCountUp, hcount.trans (Nat.min_eq_right (by omega)), hgreatest]
    split <;> decide

theorem toCountUp_mono (hx : x.isFinite = true) (hzero : 0 ≤ value x) (hy : y.isFinite = true)
    (hle : value x ≤ value y) : toCountUp x ≤ toCountUp y := by
  rw [toCountUp_eq hx hzero, toCountUp_eq hy (hzero.trans hle)]
  exact min_le_min_right _ (Nat.ceil_mono hle)

/-! ## Lines -/

/-- A line for no time has no length. -/
theorem DelayLine.lengthFor_of_value {seconds rate : Float} (hseconds : seconds.isFinite = true)
    (hzero : value seconds = 0) (hrate : rate.isFinite = true) : lengthFor seconds rate = 0 := by
  have hnone : |value seconds * value rate| ≤ (0 : Nat) := by
    rw [hzero, zero_mul, abs_zero, Nat.cast_zero]
  obtain ⟨hfinite, hvalue⟩ := (rounded_value_mul hseconds hrate (representable_natCast (by decide))
    hnone).within (representable_natCast (by decide)) hnone
  have hvalue : value (seconds * rate) = 0 := by
    rw [Nat.cast_zero] at hvalue
    exact abs_nonpos_iff.1 hvalue
  rw [lengthFor, toCountUp_eq hfinite hvalue.ge, hvalue, Nat.ceil_zero]
  decide

/-- A line for a time is no longer than one for a greater time. -/
theorem DelayLine.lengthFor_mono {seconds limit rate : Float} (hseconds : seconds.isFinite = true)
    (hzero : 0.0 ≤ seconds) (hle : seconds ≤ limit) (hrate : rate.isFinite = true)
    (hpos : 0.0 < rate) : lengthFor seconds rate ≤ lengthFor limit rate := by
  have hnonneg : 0 ≤ value seconds := (le_iff_value_le (by decide) hseconds).1 hzero
  have hratepos : 0 < value rate := (lt_iff_value_lt (by decide) hrate).1 hpos
  rcases hnonneg.eq_or_lt with hnone | hsome
  · rw [lengthFor_of_value hseconds hnone.symm hrate]
    exact Nat.zero_le _
  · by_cases hlimit : limit.isFinite
    · have hvalue := (le_iff_value_le hseconds hlimit).1 hle
      rcases mul_le_mul_or_infinite hseconds hsome hlimit hvalue hrate hratepos with
        hinfinite | ⟨hleft, hright, hleast, hproducts⟩
      · rw [lengthFor, lengthFor, toCountUp_of_infinity hinfinite]
        exact toCountUp_le _
      · exact toCountUp_mono hleft hleast hright hproducts
    · have hinfinite := infinity_mul (infinite_of_le hseconds hle hlimit) hrate hratepos
      rw [lengthFor, lengthFor, toCountUp_of_infinity hinfinite]
      exact toCountUp_le _

end ToneGraph.Synth
