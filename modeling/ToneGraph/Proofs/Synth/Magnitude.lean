import ToneGraph.Proofs.Synth.Rounding
import ToneGraph.Synth.Limiter
/-!
# Magnitudes of 32-bit floats

A float that is a number is known by its rank, an integer: the exponent, then the mantissa, with the
sign of the float.  Ranks are ordered as the floats are, so that comparisons of floats become linear
arithmetic.

A product is rounded, so that it is no more than the first factor when the second is at most one is
not the same fact of real numbers.  It holds because the first factor is a float itself: the exact
product is at most that float, and what is at most a float is not rounded to more.

## Main statements

* `canonical_iff`: what the bits of a 32-bit float are read as.
* `lt_iff_rank_lt`, `le_iff_rank_le`: floats that are numbers are ordered by rank.
* `abs_mul_le`: a volume between zero and one makes no float larger.
* `isNaN_mul`: what is no number makes no number.
-/

namespace ToneGraph.Synth

open Float.Model (Format)
open Float.Model.UnpackedFloat

/-! ## Canonical floats -/

/-- Whether a float has the one mantissa and exponent with which it is written. -/
def Canonical : Float.Model.UnpackedFloat → Prop
  | .finite _ m e _ =>
    m < 2 ^ 24 ∧ (2 ^ 23 ≤ m ∨ e = -149) ∧ -149 ≤ e ∧ e ≤ 104
  | _ => True

theorem canonical_iff {f : Float.Model.UnpackedFloat} :
    Canonical f ↔ Encoded Format.binary32 f := by
  cases f <;> exact Iff.rfl

/-! ## Ranks -/

/-- The place of a float among all floats.  It is negative for a negative float, and zero for both
zeros. -/
def rankOf : Float.Model.UnpackedFloat → Int
  | .notANumber => 0
  | .infinity s => s.apply (254 * 2 ^ 24)
  | .zero _ => 0
  | .finite s m e _ => s.apply ((e + 149) * 2 ^ 24 + m)

/-- The exponents decide, then the mantissas. -/
private theorem compare_then_compare {m n : Nat} (e d : Int) (hm : m < 2 ^ 24) (hn : n < 2 ^ 24) :
    (compare e d).then (compare m n) =
      compare ((e + 149) * 2 ^ 24 + (m : Int)) ((d + 149) * 2 ^ 24 + n) := by
  rcases Int.lt_trichotomy e d with h | h | h
  · rw [Int.compare_eq_lt.2 h, Int.compare_eq_lt.2 (by omega), Ordering.lt_then]
  · rw [Int.compare_eq_eq.2 h, Ordering.eq_then]
    rcases Nat.lt_trichotomy m n with h | h | h
    · rw [Nat.compare_eq_lt.2 h, Int.compare_eq_lt.2 (by omega)]
    · rw [Nat.compare_eq_eq.2 h, Int.compare_eq_eq.2 (by omega)]
    · rw [Nat.compare_eq_gt.2 h, Int.compare_eq_gt.2 (by omega)]
  · rw [Int.compare_eq_gt.2 h, Int.compare_eq_gt.2 (by omega), Ordering.gt_then]

private theorem swap_compare_neg (a b : Int) : (compare a b).swap = compare (-a) (-b) := by
  rcases Int.lt_trichotomy a b with h | h | h
  · rw [Int.compare_eq_lt.2 h, Int.compare_eq_gt.2 (by omega), Ordering.swap_lt]
  · rw [Int.compare_eq_eq.2 h, Int.compare_eq_eq.2 (by omega), Ordering.swap_eq]
  · rw [Int.compare_eq_gt.2 h, Int.compare_eq_lt.2 (by omega), Ordering.swap_gt]

private theorem some_lt {a b : Int} (h : a < b) : some Ordering.lt = some (compare a b) := by
  rw [Int.compare_eq_lt.2 h]

private theorem some_gt {a b : Int} (h : b < a) : some Ordering.gt = some (compare a b) := by
  rw [Int.compare_eq_gt.2 h]

private theorem rank_bounds {s : Sign} {m : Nat} {e : Int} {hm : 0 < m}
    (h : Canonical (.finite s m e hm)) :
    0 < (e + 149) * 2 ^ 24 + (m : Int) ∧ (e + 149) * 2 ^ 24 + (m : Int) < 254 * 2 ^ 24 := by
  obtain ⟨hlt, -, hlow, hhigh⟩ := h
  omega

/-- Floats that are numbers are compared as their ranks are. -/
theorem compare_eq_compare_rankOf {a b : Float.Model.UnpackedFloat} (ha : Canonical a)
    (hb : Canonical b) (hna : a.isNaN = false) (hnb : b.isNaN = false) :
    a.compare b = some (compare (rankOf a) (rankOf b)) := by
  cases a with
  | notANumber => contradiction
  | infinity s =>
      cases b with
      | notANumber => contradiction
      | infinity r => cases s <;> cases r <;> decide
      | zero r => cases s <;> rfl
      | finite r n d hn =>
          have hbounds := rank_bounds hb
          cases s <;> cases r
          · exact some_lt (by simp only [rankOf, Sign.apply]; omega)
          · exact some_lt (by simp only [rankOf, Sign.apply]; omega)
          · exact some_gt (by simp only [rankOf, Sign.apply]; omega)
          · exact some_gt (by simp only [rankOf, Sign.apply]; omega)
  | zero s =>
      cases b with
      | notANumber => contradiction
      | infinity r => cases r <;> rfl
      | zero r => rfl
      | finite r n d hn =>
          have hbounds := rank_bounds hb
          cases r
          · exact some_gt (by simp only [rankOf, Sign.apply]; omega)
          · exact some_lt (by simp only [rankOf, Sign.apply]; omega)
  | finite s m e hm =>
      have hbounds := rank_bounds ha
      cases b with
      | notANumber => contradiction
      | infinity r =>
          cases s <;> cases r
          · exact some_gt (by simp only [rankOf, Sign.apply]; omega)
          · exact some_lt (by simp only [rankOf, Sign.apply]; omega)
          · exact some_gt (by simp only [rankOf, Sign.apply]; omega)
          · exact some_lt (by simp only [rankOf, Sign.apply]; omega)
      | zero r =>
          cases s
          · exact some_lt (by simp only [rankOf, Sign.apply]; omega)
          · exact some_gt (by simp only [rankOf, Sign.apply]; omega)
      | finite r n d hn =>
          have hbounds' := rank_bounds hb
          cases s <;> cases r
          · refine congrArg some ?_
            rw [compare_then_compare e d ha.1 hb.1, swap_compare_neg]
            rfl
          · exact some_lt (by simp only [rankOf, Sign.apply]; omega)
          · exact some_gt (by simp only [rankOf, Sign.apply]; omega)
          · exact congrArg some (compare_then_compare e d ha.1 hb.1)

/-! ## 32-bit floats -/

/-- The place of a 32-bit float among all floats that are numbers. -/
def rank (x : Float32) : Int :=
  rankOf x.toModel.unpack

private theorem canonical (x : Float32) : Canonical x.toModel.unpack :=
  canonical_iff.2 (encoded_unpack Format.binary32 (by decide) _)

theorem lt_iff_rank_lt {x y : Float32} (hx : x.isNaN = false) (hy : y.isNaN = false) :
    x < y ↔ rank x < rank y := by
  have hcompare := compare_eq_compare_rankOf (canonical x) (canonical y) hx hy
  have hlt : x < y ↔ x.toModel.unpack.compare y.toModel.unpack = some .lt := by
    show (decide ((x.toModel.unpack.compare y.toModel.unpack == some .lt) = true)) = true ↔ _
    rw [decide_eq_true_iff, beq_iff_eq]
  rw [hlt, hcompare, Option.some.injEq, Int.compare_eq_lt]
  rfl

theorem le_iff_rank_le {x y : Float32} (hx : x.isNaN = false) (hy : y.isNaN = false) :
    x ≤ y ↔ rank x ≤ rank y := by
  have hcompare := compare_eq_compare_rankOf (canonical x) (canonical y) hx hy
  have hle : x ≤ y ↔ (x.toModel.unpack.compare y.toModel.unpack).any (·.isLE) = true := by
    show (decide ((x.toModel.unpack.compare y.toModel.unpack).any (·.isLE) = true)) = true ↔ _
    rw [decide_eq_true_iff]
  rw [hle, hcompare, Option.any_some, Int.isLE_compare]
  rfl

/-- What is less than something is a number, and so is what it is less than. -/
theorem isNaN_eq_false_of_lt {x y : Float32} (h : x < y) : x.isNaN = false ∧ y.isNaN = false := by
  have hlt : decide ((x.toModel.unpack.compare y.toModel.unpack == some .lt) = true) = true := h
  exact isNaN_of_compare_eq (beq_iff_eq.1 (of_decide_eq_true hlt))

private theorem unpack_neg (x : Float32) : (-x).toModel.unpack = x.toModel.unpack.neg := by
  have hx := canonical x
  refine unpack_pack Format.binary32 (canonical_iff.1 ?_)
  cases h : x.toModel.unpack <;> rw [h] at hx <;> exact hx

private theorem unpack_abs (x : Float32) : x.abs.toModel.unpack = x.toModel.unpack.abs := by
  have hx := canonical x
  refine unpack_pack Format.binary32 (canonical_iff.1 ?_)
  cases h : x.toModel.unpack <;> rw [h] at hx <;> exact hx

@[simp] theorem isNaN_neg (x : Float32) : (-x).isNaN = x.isNaN := by
  show (-x).toModel.unpack.isNaN = x.toModel.unpack.isNaN
  rw [unpack_neg]
  cases x.toModel.unpack <;> rfl

@[simp] theorem isNaN_abs (x : Float32) : x.abs.isNaN = x.isNaN := by
  show x.abs.toModel.unpack.isNaN = x.toModel.unpack.isNaN
  rw [unpack_abs]
  cases x.toModel.unpack <;> rfl

@[simp] theorem rank_neg (x : Float32) : rank (-x) = -rank x := by
  rw [rank, rank, unpack_neg]
  cases x.toModel.unpack with
  | notANumber => rfl
  | infinity s => cases s <;> rfl
  | zero s => rfl
  | finite s m e hm =>
      cases s
      · exact (Int.neg_neg _).symm
      · rfl

/-- The magnitude of a float is the rank of its absolute value. -/
@[simp] theorem rank_abs (x : Float32) : rank x.abs = (rank x).natAbs := by
  have hx := canonical x
  rw [rank, rank, unpack_abs]
  cases h : x.toModel.unpack with
  | notANumber => rfl
  | infinity s => cases s <;> rfl
  | zero s => rfl
  | finite s m e hm =>
      rw [h] at hx
      have hbounds := rank_bounds hx
      cases s <;> simp only [Float.Model.UnpackedFloat.abs, rankOf, Sign.apply] <;> omega

/-! ## Products -/

/-- Floats that are no larger have no larger ranks. -/
theorem natAbs_rankOf_le {f g : Float.Model.UnpackedFloat} (hf : Canonical f) (hg : Canonical g)
    (hfinite : f.isFinite = true) (hfinite' : g.isFinite = true)
    (h : |valueOf f| ≤ |valueOf g|) : (rankOf f).natAbs ≤ (rankOf g).natAbs := by
  cases f with
  | notANumber => contradiction
  | infinity s => contradiction
  | zero s => exact Nat.zero_le _
  | finite s m e hm =>
      have hpos : 0 < |valueOf (.finite s m e hm)| := by
        rw [valueOf, abs_apply_mul]
        positivity
      cases g with
      | notANumber => contradiction
      | infinity r => contradiction
      | zero r =>
          rw [valueOf_zero, abs_zero] at h
          linarith
      | finite r n d hn =>
          have hbf := rank_bounds hf
          have hbg := rank_bounds hg
          rw [valueOf, valueOf, abs_apply_mul, abs_apply_mul] at h
          have hsize : (e + 149) * 2 ^ 24 + (m : Int) ≤ (d + 149) * 2 ^ 24 + n := by
            obtain ⟨hlt, hnormal, -, -⟩ := hf
            obtain ⟨hlt', -, hlow, -⟩ := hg
            rcases Int.lt_trichotomy e d with hexp | rfl | hexp
            · omega
            · have hle := (mul_zpow_le_iff (k := 0) (e := e)).1 (by simpa using h)
              omega
            · have hbelow := mul_zpow_lt hlt' (show d + (24 : Nat) ≤ e + (23 : Nat) by omega)
              have habove := zpow_le_mul (hnormal.resolve_right (by omega))
                (le_refl (e + (23 : Nat) : Int))
              linarith
          cases s <;> cases r <;> simp only [rankOf, Sign.apply] <;> omega

/-- A rank from zero to that of one is the rank of a number from zero to one. -/
theorem abs_valueOf_le_one {r : Sign} {n : Nat} {d : Int} {hn : 0 < n}
    (hg : Canonical (.finite r n d hn)) (hzero : 0 ≤ rankOf (.finite r n d hn))
    (hone : rankOf (.finite r n d hn) ≤ 126 * 2 ^ 24 + 2 ^ 23) :
    |valueOf (.finite r n d hn)| ≤ 1 := by
  have hbounds := rank_bounds hg
  obtain ⟨hlt, -, -, -⟩ := hg
  have hsmall : (d + 149) * 2 ^ 24 + (n : Int) ≤ 126 * 2 ^ 24 + 2 ^ 23 := by
    cases r <;> simp only [rankOf, Sign.apply] at hzero hone <;> omega
  rw [valueOf, abs_apply_mul]
  rcases Int.lt_or_le d (-23) with hless | hmore
  · have hbelow := mul_zpow_lt hlt (show d + (24 : Nat) ≤ 0 by omega)
    rw [zpow_zero] at hbelow
    exact hbelow.le
  · obtain rfl : d = -23 := by omega
    have hle : (n : ℚ) ≤ 2 ^ 23 := by exact_mod_cast (show n ≤ 2 ^ 23 by omega)
    rw [zpow_neg, ← div_eq_mul_inv, div_le_one (by positivity)]
    exact_mod_cast hle

/-- A factor between zero and one makes nothing larger. -/
theorem mul_unpacked_le {a b : Float.Model.UnpackedFloat} (ha : Canonical a) (hb : Canonical b)
    (hna : a.isNaN = false) (hnb : b.isNaN = false) (hfinite : (rankOf a).natAbs < 254 * 2 ^ 24)
    (hzero : 0 ≤ rankOf b) (hone : rankOf b ≤ 126 * 2 ^ 24 + 2 ^ 23) :
    let f := mul Format.binary32 a b
    Canonical f ∧ f.isNaN = false ∧ (rankOf f).natAbs ≤ (rankOf a).natAbs := by
  cases a with
  | notANumber => contradiction
  | infinity s => cases s <;> contradiction
  | zero s =>
      cases b with
      | notANumber => contradiction
      | infinity r => cases r <;> contradiction
      | zero r => exact ⟨trivial, rfl, Nat.le_refl _⟩
      | finite r n d hn => exact ⟨trivial, rfl, Nat.le_refl _⟩
  | finite s m e hm =>
      cases b with
      | notANumber => contradiction
      | infinity r => cases r <;> contradiction
      | zero r => exact ⟨trivial, rfl, Nat.zero_le _⟩
      | finite r n d hn =>
          intro f
          have hround : Rounded Format.binary32 _ f :=
            rounded_mul rfl rfl (canonical_iff.1 ha) (canonical_iff.1 hb)
          have hbound : |valueOf (.finite s m e hm) * valueOf (.finite r n d hn)| ≤
              |valueOf (.finite s m e hm)| := by
            rw [abs_mul]
            exact mul_le_of_le_one_right (abs_nonneg _) (abs_valueOf_le_one hb hzero hone)
          have hrepresentable := representable_valueOf (canonical_iff.1 ha) (by decide)
          have hcanonical := canonical_iff.2 (hround.encoded hrepresentable hbound)
          exact ⟨hcanonical, isNaN_of_isFinite hround.isFinite,
            natAbs_rankOf_le hcanonical ha hround.isFinite rfl
              (hround.abs_le hrepresentable hbound)⟩

theorem rank_zero : rank 0.0 = 0 := by decide

theorem rank_one : rank 1.0 = 126 * 2 ^ 24 + 2 ^ 23 := by decide

/-- A volume between zero and one makes no float larger. -/
theorem abs_mul_le {x v : Float32} (hx : x.isNaN = false) (hfinite : rank x.abs ≤ rank 1.0)
    (hv : v.isNaN = false) (hzero : 0 ≤ rank v) (hone : rank v ≤ rank 1.0) :
    (x * v).isNaN = false ∧ rank (x * v).abs ≤ rank x.abs := by
  rw [rank_one] at hfinite hone
  rw [rank_abs] at hfinite
  rw [rank_abs, rank_abs]
  obtain ⟨hcanonical, hnumber, hrank⟩ := mul_unpacked_le (canonical x) (canonical v) hx hv
    (show (rank x).natAbs < _ by omega) hzero hone
  have hunpack : (x * v).toModel.unpack =
      mul Format.binary32 x.toModel.unpack v.toModel.unpack :=
    unpack_pack Format.binary32 (canonical_iff.1 hcanonical)
  refine ⟨?_, ?_⟩
  · show (x * v).toModel.unpack.isNaN = false
    rw [hunpack]
    exact hnumber
  · unfold rank
    rw [hunpack]
    exact Int.ofNat_le.2 hrank

/-- A volume that is no number makes every float no number. -/
theorem isNaN_mul (x : Float32) {v : Float32} (hv : v.isNaN = true) : (x * v).isNaN = true := by
  have hnan : v.toModel.unpack = .notANumber := by
    have hunpacked : v.toModel.unpack.isNaN = true := hv
    cases h : v.toModel.unpack with
    | notANumber => rfl
    | infinity | zero | finite =>
        rw [h] at hunpacked
        contradiction
  have hmul : mul Format.binary32 x.toModel.unpack v.toModel.unpack = .notANumber := by
    rw [hnan]
    cases x.toModel.unpack <;> rfl
  have hunpack : (x * v).toModel.unpack =
      mul Format.binary32 x.toModel.unpack v.toModel.unpack :=
    unpack_pack Format.binary32 (hmul ▸ trivial)
  show (x * v).toModel.unpack.isNaN = true
  rw [hunpack, hmul]
  rfl

end ToneGraph.Synth
