import Mathlib
/-!
# Encodings of floats

A finite float is a mantissa times a power of two.  The bits of a format give it one mantissa and
one exponent: the mantissa has all its bits, or the exponent is the least.

This module is about any format.  What a format lets a mantissa and an exponent be is all that the
proofs about arithmetic need to know of bits.

## Main definitions

* `Encoded`: a float is written as the bits of a format write it.

## Main statements

* `encoded_unpack`, `unpack_pack`: bits and encoded floats are the same thing.
-/

namespace ToneGraph.Synth

open Float.Model (Format)
open Float.Model.UnpackedFloat

/-! ## Exponents -/

/-- The greatest exponent of a finite float. -/
def maxExponent (spec : Format) : Int :=
  2 ^ (spec.exponentBits - 1) - spec.mantissaBits

theorem two_pow_mantissaBits (spec : Format) :
    2 ^ spec.mantissaBits = 2 * 2 ^ spec.mantissaBitsWithoutImplicit := by
  rw [Format.mantissaBits, Nat.pow_add, Nat.pow_one]

theorem two_pow_exponentBits (spec : Format) :
    2 ^ spec.exponentBits = 2 * spec.exponentBias + 2 := by
  have hbits : spec.exponentBits = spec.exponentBits - 1 + 1 := by
    have := spec.he
    omega
  have hpos := Nat.two_pow_pos (spec.exponentBits - 1)
  conv_lhs => rw [hbits, Nat.pow_succ]
  unfold Format.exponentBias
  omega

theorem minExponent_eq (spec : Format) :
    spec.minExponent = 1 - spec.exponentBias - spec.mantissaBitsWithoutImplicit := by
  have hpos := Nat.two_pow_pos (spec.exponentBits - 1)
  have hcast : ((2 : Int) ^ (spec.exponentBits - 1)) = (2 ^ (spec.exponentBits - 1) : Nat) := by
    norm_cast
  unfold Format.minExponent Format.exponentBias Format.mantissaBits
  rw [hcast]
  omega

theorem maxExponent_eq (spec : Format) :
    maxExponent spec = spec.exponentBias - spec.mantissaBitsWithoutImplicit := by
  have hpos := Nat.two_pow_pos (spec.exponentBits - 1)
  have hcast : ((2 : Int) ^ (spec.exponentBits - 1)) = (2 ^ (spec.exponentBits - 1) : Nat) := by
    norm_cast
  unfold maxExponent Format.exponentBias Format.mantissaBits
  rw [hcast]
  omega

/-! ## Bits -/

/-- Whether a float has the one mantissa and exponent with which a format writes it. -/
def Encoded (spec : Format) : Float.Model.UnpackedFloat → Prop
  | .finite _ m e _ =>
    m < 2 ^ spec.mantissaBits ∧
      (2 ^ spec.mantissaBitsWithoutImplicit ≤ m ∨ e = spec.minExponent) ∧
      spec.minExponent ≤ e ∧ e ≤ maxExponent spec
  | _ => True

private theorem toNat_implicit {n : Nat} (m : BitVec n) : (1#1 ++ m).toNat = 2 ^ n + m.toNat := by
  rw [BitVec.toNat_append, ← Nat.shiftLeft_add_eq_or_of_lt m.isLt, Nat.shiftLeft_eq]
  exact congrArg (· + m.toNat) (Nat.one_mul _)

private theorem toNat_neg_one (n : Nat) : (-1#n).toNat = 2 ^ n - 1 := by
  rw [BitVec.neg_one_eq_allOnes, BitVec.toNat_allOnes]

private theorem zero_ne_neg_one (spec : Format) : BitVec.ofNat spec.exponentBits 0 ≠ -1#_ := by
  intro h
  have hnat := congrArg BitVec.toNat h
  have hbits := two_pow_exponentBits spec
  rw [toNat_neg_one, BitVec.toNat_zero] at hnat
  omega

/-- Bits are read as encoded floats. -/
theorem encoded_unpack (spec : Format) (hspec : 2 ≤ spec.exponentBits)
    (b : BitVec spec.numBits) : Encoded spec (unpack spec b) := by
  have hbias : 0 < spec.exponentBias := by
    have hpow : 2 ^ 1 ≤ 2 ^ (spec.exponentBits - 1) :=
      Nat.pow_le_pow_right (by decide) (by omega)
    unfold Format.exponentBias
    omega
  have hm := (unpackMantissa b).isLt
  have he := (unpackExponent b).isLt
  have hmin := minExponent_eq spec
  have hmax := maxExponent_eq spec
  have hbits := two_pow_exponentBits spec
  have hdouble := two_pow_mantissaBits spec
  unfold unpack
  dsimp only
  split
  · split <;> trivial
  · next hinf =>
      have hinf : (unpackExponent b).toNat ≠ 2 ^ spec.exponentBits - 1 := fun h =>
        hinf (BitVec.eq_of_toNat_eq (h.trans (toNat_neg_one _).symm))
      split
      · next hzero =>
          have hzero : (unpackExponent b).toNat = 0 := by rw [hzero]; rfl
          split
          · trivial
          · simp only [Encoded, hzero]
            omega
      · next hzero =>
          have hzero : (unpackExponent b).toNat ≠ 0 := fun h =>
            hzero (BitVec.eq_of_toNat_eq (h.trans rfl))
          simp only [Encoded, toNat_implicit]
          omega

private theorem finite_congr {s : Sign} {m n : Nat} {e d : Int} {hm : 0 < m} {hn : 0 < n}
    (hmant : m = n) (hexp : e = d) :
    Float.Model.UnpackedFloat.finite s m e hm = .finite s n d hn := by
  subst hmant hexp
  rfl

private theorem unpack_normal (spec : Format) (s : Sign) {x : BitVec spec.exponentBits}
    (m : BitVec spec.mantissaBitsWithoutImplicit) (hinf : x ≠ -1#_) (hzero : x ≠ 0#_) :
    unpack spec (packComponents spec s x m) =
      .finite s (2 ^ spec.mantissaBitsWithoutImplicit + m.toNat)
        (x.toNat - (spec.exponentBias + spec.mantissaBitsWithoutImplicit))
        (Nat.add_pos_left (Nat.two_pow_pos _) _) := by
  unfold unpack
  simp only [unpackMantissa_packComponents, unpackExponent_packComponents,
    unpackSign_packComponents, Sign.ofBitVec_toBitVec, if_neg hinf, if_neg hzero, toNat_implicit]

private theorem unpack_subnormal (spec : Format) (s : Sign)
    {m : BitVec spec.mantissaBitsWithoutImplicit} (hzero : m ≠ 0#_) (hpos : 0 < m.toNat) :
    unpack spec (packComponents spec s 0#_ m) = .finite s m.toNat spec.minExponent hpos := by
  have hinf := zero_ne_neg_one spec
  unfold unpack
  simp only [unpackMantissa_packComponents, unpackExponent_packComponents,
    unpackSign_packComponents, Sign.ofBitVec_toBitVec, if_neg hinf, dif_neg hzero, if_true]
  refine finite_congr rfl ?_
  rw [minExponent_eq, BitVec.toNat_zero]
  omega

theorem unpack_packedInfinity (spec : Format) (s : Sign) :
    unpack spec (packedInfinity spec s) = .infinity s := by
  unfold unpack packedInfinity
  simp

/-- What is packed as it is encoded is unpacked to itself. -/
theorem unpack_pack (spec : Format) {f : Float.Model.UnpackedFloat} (hf : Encoded spec f) :
    unpack spec (pack spec f) = f := by
  cases f with
  | notANumber => exact unpack_packedNaN
  | zero s => exact unpack_packedZero
  | infinity s => exact unpack_packedInfinity spec s
  | finite s m e hpos =>
      obtain ⟨hm, hnormal, hlow, hhigh⟩ := hf
      have hmin := minExponent_eq spec
      have hmax := maxExponent_eq spec
      have hbits := two_pow_exponentBits spec
      have hdouble := two_pow_mantissaBits spec
      obtain ⟨x, hx⟩ : ∃ x : Nat, x =
          (e + spec.exponentBias + spec.mantissaBitsWithoutImplicit).toNat := ⟨_, rfl⟩
      have hfits : ¬ 2 ^ spec.exponentBits ≤ x + 1 := by omega
      have hpack : pack spec (.finite s m e hpos) =
          if m.log2 + 1 = spec.mantissaBits then packComponents spec s
            (BitVec.ofNat _ x) (BitVec.ofNat _ m)
          else packComponents spec s 0#_ (BitVec.ofNat _ m) := by
        rw [hx] at hfits ⊢
        exact if_neg hfits
      have hlog : m.log2 + 1 = spec.mantissaBits ↔ 2 ^ spec.mantissaBitsWithoutImplicit ≤ m := by
        have hle := Nat.le_log2 (n := m) (k := spec.mantissaBitsWithoutImplicit) (by omega)
        have hlt := (Nat.log2_lt (n := m) (by omega)).2 hm
        unfold Format.mantissaBits at hlt ⊢
        omega
      rw [hpack]
      split
      · next hfull =>
          have hfull := hlog.1 hfull
          have hexp : (BitVec.ofNat spec.exponentBits x).toNat = x := by
            rw [BitVec.toNat_ofNat]
            exact Nat.mod_eq_of_lt (by omega)
          have hmant : (BitVec.ofNat spec.mantissaBitsWithoutImplicit m).toNat =
              m - 2 ^ spec.mantissaBitsWithoutImplicit := by
            rw [BitVec.toNat_ofNat, Nat.mod_eq_sub_mod hfull]
            exact Nat.mod_eq_of_lt (by omega)
          rw [unpack_normal]
          · exact finite_congr (by omega) (by omega)
          · intro h
            have hnat := congrArg BitVec.toNat h
            rw [hexp, toNat_neg_one] at hnat
            omega
          · intro h
            have hnat := congrArg BitVec.toNat h
            rw [hexp, BitVec.toNat_zero] at hnat
            omega
      · next hfull =>
          have hshort : m < 2 ^ spec.mantissaBitsWithoutImplicit := by omega
          have hmant : (BitVec.ofNat spec.mantissaBitsWithoutImplicit m).toNat = m := by
            rw [BitVec.toNat_ofNat]
            exact Nat.mod_eq_of_lt hshort
          rw [unpack_subnormal spec s _ (by omega)]
          · exact finite_congr hmant (by omega)
          · intro h
            have hnat := congrArg BitVec.toNat h
            rw [hmant, BitVec.toNat_zero] at hnat
            omega

/-- What is packed, encoded or not, stays a number if it is one. -/
theorem isNaN_unpack_pack (spec : Format) {f : Float.Model.UnpackedFloat} (hf : f.isNaN = false) :
    (unpack spec (pack spec f)).isNaN = false := by
  have hcomponents : ∀ (s : Sign) (x : BitVec spec.exponentBits)
      (m : BitVec spec.mantissaBitsWithoutImplicit), x ≠ -1#_ →
      (unpack spec (packComponents spec s x m)).isNaN = false := by
    intro s x m hx
    unfold unpack
    simp only [unpackMantissa_packComponents, unpackExponent_packComponents,
      unpackSign_packComponents, Sign.ofBitVec_toBitVec, if_neg hx]
    split
    · split <;> rfl
    · rfl
  cases f with
  | notANumber => contradiction
  | zero s => rw [unpack_pack spec (f := .zero s) trivial]; rfl
  | infinity s => rw [unpack_pack spec (f := .infinity s) trivial]; rfl
  | finite s m e hpos =>
      have hbits := two_pow_exponentBits spec
      unfold pack
      dsimp only
      split
      · rw [unpack_packedInfinity]; rfl
      · next hfits =>
          split
          · refine hcomponents s _ _ fun h => ?_
            have hnat := congrArg BitVec.toNat h
            rw [toNat_neg_one, BitVec.toNat_ofNat, Nat.mod_eq_of_lt (by omega)] at hnat
            omega
          · exact hcomponents s _ _ (zero_ne_neg_one spec)

end ToneGraph.Synth
