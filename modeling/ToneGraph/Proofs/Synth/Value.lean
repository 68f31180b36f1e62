import ToneGraph.Proofs.Synth.Rounding
import ToneGraph.Synth.Sample
/-!
# Values of samples

A finite sample stands for a rational number.  The operations on samples round the exact result, so
that a bound that is a float itself is kept by every operation whose exact result keeps it.
`Within` is such a bound, and what a unit remembers is bounded by composing it along the unit's
arithmetic.

A result that is finite has finite operands, whatever the operation: that is why memories that feed
themselves never recover.

## Main definitions

* `value`: the number that a sample stands for.
* `Within`: a sample is finite and no further from zero than some number.

## Main statements

* `Within.add`, `Within.sub`, `Within.mul`: bounds of results.
* `Within.add_absorbed`: a power of two bounds its sum with what is negligible beside it.
* `lt_iff_value_lt`, `le_iff_value_le`: finite samples are ordered by value.
* `not_lt_iff_le`: of two numbers one is no greater than the other.
* `isFinite_of_add`, `isFinite_of_sub`, `isFinite_of_mul`: a finite result has finite operands.
* `clamp_spec`, `toCount_spec`, `fraction_spec`: what it takes to read a ring at a fractional age.
-/

namespace ToneGraph.Synth

open Float.Model (Format)
open Float.Model.UnpackedFloat

/-- The number that a sample stands for.  What is not finite counts as zero. -/
def value (x : Float) : ℚ :=
  valueOf x.toModel.unpack

private theorem encoded (x : Float) : Encoded Format.binary64 x.toModel.unpack :=
  encoded_unpack Format.binary64 (by decide) _

theorem representable_value (x : Float) : Representable Format.binary64 |value x| :=
  representable_valueOf (encoded x) (by decide)

/-! ## Rounding -/

/-- A sample is packed without loss unless it is too large. -/
private theorem Rounded.packed {q c : ℚ} {f : Float.Model.UnpackedFloat}
    (h : Rounded Format.binary64 q f) (hc : Representable Format.binary64 c) (hle : |q| ≤ c) :
    Rounded Format.binary64 q (unpack Format.binary64 (pack Format.binary64 f)) := by
  rwa [unpack_pack _ (h.encoded hc hle)]

variable {x y : Float} {a b c : ℚ}

/-- The sum of finite samples is rounded soundly unless it is too large. -/
theorem rounded_value_add (hx : x.isFinite = true) (hy : y.isFinite = true)
    (hc : Representable Format.binary64 c) (h : |value x + value y| ≤ c) :
    Rounded Format.binary64 (value x + value y) (x + y).toModel.unpack :=
  (rounded_add hx hy (encoded x) (encoded y)).packed hc h

theorem rounded_value_sub (hx : x.isFinite = true) (hy : y.isFinite = true)
    (hc : Representable Format.binary64 c) (h : |value x - value y| ≤ c) :
    Rounded Format.binary64 (value x - value y) (x - y).toModel.unpack :=
  (rounded_sub hx hy (encoded x) (encoded y)).packed hc h

theorem rounded_value_mul (hx : x.isFinite = true) (hy : y.isFinite = true)
    (hc : Representable Format.binary64 c) (h : |value x * value y| ≤ c) :
    Rounded Format.binary64 (value x * value y) (x * y).toModel.unpack :=
  (rounded_mul hx hy (encoded x) (encoded y)).packed hc h

/-! ## Bounds -/

/-- A sample that is finite and no further from zero than some bound. -/
structure Within (c : ℚ) (x : Float) : Prop where
  isFinite : x.isFinite = true
  abs_le : |value x| ≤ c

theorem Rounded.within {q : ℚ} (h : Rounded Format.binary64 q x.toModel.unpack)
    (hc : Representable Format.binary64 c) (hle : |q| ≤ c) : Within c x :=
  ⟨h.isFinite, h.abs_le hc hle⟩

theorem Within.mono (h : Within a x) (hle : a ≤ c) : Within c x :=
  ⟨h.isFinite, h.abs_le.trans hle⟩

/-- A sum within the sum of two bounds is within every float that is no less. -/
theorem Within.add (hx : Within a x) (hy : Within b y) (hc : Representable Format.binary64 c)
    (h : a + b ≤ c) : Within c (x + y) := by
  have hle : |value x + value y| ≤ c :=
    (abs_add_le _ _).trans ((add_le_add hx.abs_le hy.abs_le).trans h)
  exact (rounded_value_add hx.isFinite hy.isFinite hc hle).within hc hle

theorem Within.sub (hx : Within a x) (hy : Within b y) (hc : Representable Format.binary64 c)
    (h : a + b ≤ c) : Within c (x - y) := by
  have hle : |value x - value y| ≤ c :=
    (abs_sub _ _).trans ((add_le_add hx.abs_le hy.abs_le).trans h)
  exact (rounded_value_sub hx.isFinite hy.isFinite hc hle).within hc hle

theorem Within.mul (hx : Within a x) (hy : Within b y) (hc : Representable Format.binary64 c)
    (h : a * b ≤ c) : Within c (x * y) := by
  have hle : |value x * value y| ≤ c := by
    rw [abs_mul]
    exact (mul_le_mul hx.abs_le hy.abs_le (abs_nonneg _) ((abs_nonneg _).trans hx.abs_le)).trans h
  exact (rounded_value_mul hx.isFinite hy.isFinite hc hle).within hc hle

/-- A power of two with all bits of a mantissa. -/
theorem two_pow_eq_mul (n : Nat) : (2 : ℚ) ^ n = (2 ^ 52 : Nat) * 2 ^ (n - 52 : Int) := by
  rw [zpow_sub₀ (by norm_num), zpow_natCast]
  push_cast
  exact (mul_div_cancel₀ _ (by norm_num)).symm

theorem representable_two_pow {n : Nat} (h : n ≤ 1023) :
    Representable Format.binary64 (2 ^ n) := by
  refine ⟨2 ^ 52, n - 52, by decide, ?_, ?_, two_pow_eq_mul n⟩
  · show (-1074 : Int) ≤ n - 52
    omega
  · show (n : Int) - 52 ≤ 971
    omega

/-- A result that exceeds a power of two by less than half of the step to the next float does not
exceed it after rounding. -/
theorem Within.of_absorbed {q : ℚ} {n : Nat} (hn : n ≤ 1022)
    (h : |q| < 2 ^ n + 2 ^ (n - 53 : Int))
    (hround : ∀ {c}, Representable Format.binary64 c → |q| ≤ c →
      Rounded Format.binary64 q x.toModel.unpack) : Within (2 ^ n) x := by
  have hdouble : |q| ≤ 2 ^ (n + 1) := by
    have hstep : (2 : ℚ) ^ (n - 53 : Int) ≤ 2 ^ (n : Int) :=
      zpow_le_zpow_right₀ (by norm_num) (by omega)
    rw [zpow_natCast] at hstep
    rw [pow_succ]
    linarith
  have hround := hround (representable_two_pow (by omega)) hdouble
  refine ⟨hround.isFinite, ?_⟩
  rw [← zpow_natCast] at h ⊢
  exact hround.absorbed (show (-1074 : Int) + 53 ≤ n by omega) h

/-- A power of two bounds its sum with what is negligible beside it. -/
theorem Within.add_absorbed {n : Nat} (hx : Within a x) (hy : Within b y) (hn : n ≤ 1022)
    (h : a + b < 2 ^ n + 2 ^ (n - 53 : Int)) : Within (2 ^ n) (x + y) :=
  .of_absorbed hn (((abs_add_le _ _).trans (add_le_add hx.abs_le hy.abs_le)).trans_lt h)
    (rounded_value_add hx.isFinite hy.isFinite)

theorem Within.sub_absorbed {n : Nat} (hx : Within a x) (hy : Within b y) (hn : n ≤ 1022)
    (h : a + b < 2 ^ n + 2 ^ (n - 53 : Int)) : Within (2 ^ n) (x - y) :=
  .of_absorbed hn (((abs_sub _ _).trans (add_le_add hx.abs_le hy.abs_le)).trans_lt h)
    (rounded_value_sub hx.isFinite hy.isFinite)

/-! ## Order -/

private theorem lt_iff_compare :
    x < y ↔ x.toModel.unpack.compare y.toModel.unpack = some .lt := by
  show (decide ((x.toModel.unpack.compare y.toModel.unpack == some .lt) = true)) = true ↔ _
  rw [decide_eq_true_iff, beq_iff_eq]

theorem lt_iff_value_lt (hx : x.isFinite = true) (hy : y.isFinite = true) :
    x < y ↔ value x < value y := by
  have hcompare := compare_eq_cmp hx hy (encoded x) (encoded y)
  rw [lt_iff_compare, hcompare, Option.some.injEq, cmp_eq_lt_iff]
  rfl

/-- Infinity is beyond every finite sample. -/
theorem lt_infinity (hx : x.isFinite = true) (hy : y.toModel.unpack = .infinity .positive) :
    x < y := by
  have hx : x.toModel.unpack.isFinite = true := hx
  rw [lt_iff_compare, hy]
  cases ha : x.toModel.unpack with
  | notANumber | infinity => rw [ha] at hx; contradiction
  | zero | finite => rfl

theorem not_infinity_lt (hx : x.isFinite = true) (hy : y.toModel.unpack = .infinity .positive) :
    ¬ y < x := by
  have hx : x.toModel.unpack.isFinite = true := hx
  rw [lt_iff_compare, hy]
  cases ha : x.toModel.unpack with
  | notANumber | infinity => rw [ha] at hx; contradiction
  | zero | finite => nofun

theorem infinity_lt (hx : x.isFinite = true) (hy : y.toModel.unpack = .infinity .negative) :
    y < x := by
  have hx : x.toModel.unpack.isFinite = true := hx
  rw [lt_iff_compare, hy]
  cases ha : x.toModel.unpack with
  | notANumber | infinity => rw [ha] at hx; contradiction
  | zero | finite => rfl

private theorem le_iff_compare :
    x ≤ y ↔ (x.toModel.unpack.compare y.toModel.unpack).any (·.isLE) = true := by
  show (decide ((x.toModel.unpack.compare y.toModel.unpack).any (·.isLE) = true)) = true ↔ _
  rw [decide_eq_true_iff]

theorem le_iff_value_le (hx : x.isFinite = true) (hy : y.isFinite = true) :
    x ≤ y ↔ value x ≤ value y := by
  have hcompare := compare_eq_cmp hx hy (encoded x) (encoded y)
  rw [le_iff_compare, hcompare, Option.any_some]
  show _ ↔ valueOf _ ≤ valueOf _
  rcases lt_trichotomy (valueOf x.toModel.unpack) (valueOf y.toModel.unpack) with h | h | h
  · rw [h.cmp_eq_lt]; simp [h.le]
  · rw [h, cmp_self_eq_eq]; simp
  · rw [h.cmp_eq_gt]; simp [h]

theorem number_of_lt (h : x < y) : x.isNaN = false ∧ y.isNaN = false :=
  isNaN_of_compare_eq (lt_iff_compare.1 h)

theorem number_of_le (h : x ≤ y) : x.isNaN = false ∧ y.isNaN = false := by
  obtain ⟨o, ho, -⟩ := (Option.any_eq_true _ _).1 (le_iff_compare.1 h)
  exact isNaN_of_compare_eq ho

/-- Of two numbers, finite or not, one is no greater than the other. -/
theorem not_lt_iff_le (hx : x.isNaN = false) (hy : y.isNaN = false) : ¬ x < y ↔ y ≤ x := by
  obtain ⟨o, ho⟩ := exists_compare_eq hx hy
  rw [lt_iff_compare, le_iff_compare, compare_swap x.toModel.unpack, ho]
  cases o <;> decide

theorem number_le_self (hx : x.isNaN = false) : x ≤ x := by
  obtain ⟨o, ho⟩ := exists_compare_eq hx hx
  have hswap := compare_swap x.toModel.unpack x.toModel.unpack
  rw [le_iff_compare]
  rw [ho] at hswap ⊢
  cases o with
  | lt | gt => contradiction
  | eq => rfl

private theorem unpack_sample_abs (x : Float) : x.abs.toModel.unpack = x.toModel.unpack.abs := by
  have hx := encoded x
  refine unpack_pack Format.binary64 ?_
  cases h : x.toModel.unpack <;> rw [h] at hx <;> exact hx

theorem value_abs (x : Float) : value x.abs = |value x| := by
  rw [value, value, unpack_sample_abs]
  cases x.toModel.unpack with
  | finite s m e hm =>
      rw [valueOf, abs_apply_mul]
      rfl
  | _ => exact abs_zero.symm

theorem isFinite_abs (x : Float) : x.abs.isFinite = x.isFinite := by
  show x.abs.toModel.unpack.isFinite = x.toModel.unpack.isFinite
  rw [unpack_sample_abs]
  cases x.toModel.unpack <;> rfl

/-! ## What is not finite -/

private theorem isFinite_of_pack {f : Float.Model.UnpackedFloat}
    (h : (unpack Format.binary64 (pack Format.binary64 f)).isFinite = true) :
    f.isFinite = true := by
  cases f with
  | notANumber => contradiction
  | infinity s => cases s <;> contradiction
  | zero s => rfl
  | finite s m e hm => rfl

private theorem not_isFinite_ite (p : Prop) [Decidable p] (s : Sign) :
    (if p then Float.Model.UnpackedFloat.infinity s else .notANumber).isFinite ≠ true := by
  split <;> nofun

private theorem isFinite_of_add_unpacked {f g : Float.Model.UnpackedFloat}
    (h : (add Format.binary64 f g).isFinite = true) : f.isFinite = true ∧ g.isFinite = true := by
  cases f with
  | notANumber => contradiction
  | infinity s =>
      cases g with
      | infinity r => exact absurd h (not_isFinite_ite _ s)
      | notANumber | zero | finite => contradiction
  | zero | finite =>
      cases g with
      | notANumber | infinity => contradiction
      | zero | finite => exact ⟨rfl, rfl⟩

/-- A sum is finite only if both terms are. -/
theorem isFinite_of_add (h : (x + y).isFinite = true) :
    x.isFinite = true ∧ y.isFinite = true :=
  isFinite_of_add_unpacked (isFinite_of_pack h)

/-- A difference is finite only if both terms are. -/
theorem isFinite_of_sub (h : (x - y).isFinite = true) :
    x.isFinite = true ∧ y.isFinite = true := by
  have hdifference : (sub Format.binary64 x.toModel.unpack y.toModel.unpack).isFinite = true :=
    isFinite_of_pack h
  rw [sub_eq_add] at hdifference
  obtain ⟨hx, hy⟩ := isFinite_of_add_unpacked hdifference
  rw [isFinite_neg] at hy
  exact ⟨hx, hy⟩

/-- A product is finite only if both factors are, for zero times infinity is no number. -/
theorem isFinite_of_mul (h : (x * y).isFinite = true) :
    x.isFinite = true ∧ y.isFinite = true := by
  have hproduct : (mul Format.binary64 x.toModel.unpack y.toModel.unpack).isFinite = true :=
    isFinite_of_pack h
  show x.toModel.unpack.isFinite = true ∧ y.toModel.unpack.isFinite = true
  cases hx : x.toModel.unpack with
  | notANumber => rw [hx] at hproduct; contradiction
  | infinity s =>
      rw [hx] at hproduct
      cases hy : y.toModel.unpack with
      | _ => rw [hy] at hproduct; contradiction
  | _ =>
      rw [hx] at hproduct
      cases hy : y.toModel.unpack with
      | notANumber | infinity => rw [hy] at hproduct; contradiction
      | _ => exact ⟨rfl, rfl⟩

/-- A sum of a finite sample and a number is a number. -/
theorem isNaN_add (hx : x.isFinite = true) (hy : y.isNaN = false) : (x + y).isNaN = false := by
  refine isNaN_unpack_pack Format.binary64 ?_
  have hx : x.toModel.unpack.isFinite = true := hx
  have hy : y.toModel.unpack.isNaN = false := hy
  cases hb : y.toModel.unpack with
  | notANumber => rw [hb] at hy; contradiction
  | infinity r => cases ha : x.toModel.unpack <;> rw [ha] at hx <;> first | rfl | contradiction
  | _ =>
      have hround := rounded_add hx (show y.toModel.unpack.isFinite = true by rw [hb]; rfl)
        (encoded x) (encoded y)
      rw [← hb]
      exact isNaN_of_isFinite hround.isFinite

/-- A product of a finite sample other than zero and a number is a number. -/
theorem isNaN_mul_of_ne (hx : x.isFinite = true) (hzero : value x ≠ 0) (hy : y.isNaN = false) :
    (x * y).isNaN = false := by
  refine isNaN_unpack_pack Format.binary64 ?_
  have hx : x.toModel.unpack.isFinite = true := hx
  have hy : y.toModel.unpack.isNaN = false := hy
  cases ha : x.toModel.unpack with
  | notANumber => rw [ha] at hx; contradiction
  | infinity s => rw [ha] at hx; contradiction
  | zero s => exact absurd (congrArg valueOf ha) hzero
  | finite s m e hm =>
      cases hb : y.toModel.unpack with
      | notANumber => rw [hb] at hy; contradiction
      | infinity r => rfl
      | zero r => rfl
      | finite r n d hn =>
          have hround := rounded_mul (a := .finite s m e hm) (b := .finite r n d hn) rfl rfl
            (ha ▸ encoded x) (hb ▸ encoded y)
          exact isNaN_of_isFinite hround.isFinite

theorem float_mul_comm (x y : Float) : x * y = y * x := by
  have hunpacked : mul Format.binary64 x.toModel.unpack y.toModel.unpack =
      mul Format.binary64 y.toModel.unpack x.toModel.unpack := by
    cases x.toModel.unpack with
    | notANumber => cases y.toModel.unpack <;> rfl
    | infinity s => cases y.toModel.unpack with
      | infinity r => cases s <;> cases r <;> rfl
      | finite r n d hn => cases s <;> cases r <;> rfl
      | _ => rfl
    | zero s => cases y.toModel.unpack with
      | zero r => cases s <;> cases r <;> rfl
      | finite r n d hn => cases s <;> cases r <;> rfl
      | _ => rfl
    | finite s m e hm => cases y.toModel.unpack with
      | notANumber => rfl
      | infinity r => cases s <;> cases r <;> rfl
      | zero r => cases s <;> cases r <;> rfl
      | finite r n d hn =>
          show roundWithAccuracy _ (s * r) (m * n) (e + d) .exact =
            roundWithAccuracy _ (r * s) (n * m) (d + e) .exact
          rw [Nat.mul_comm, Int.add_comm]
          cases s <;> cases r <;> rfl
  exact congrArg (fun f => Float.ofModel (Float.Model.pack f)) hunpacked

/-! ## Clamps -/

/-- A number is forced between two finite bounds. -/
theorem clamp_spec {low high : Float} (hlow : low.isFinite = true) (hhigh : high.isFinite = true)
    (hle : value low ≤ value high) (hx : x.isNaN = false) :
    (clamp low high x).isFinite = true ∧ value low ≤ value (clamp low high x) ∧
      value (clamp low high x) ≤ value high := by
  have hnot : ¬ high < low := by
    rw [lt_iff_value_lt hhigh hlow]
    exact not_lt.2 hle
  by_cases hbelow : x < low
  · have hresult : clamp low high x = low := by
      unfold clamp
      rw [if_pos hbelow]
      exact if_neg hnot
    rw [hresult]
    exact ⟨hlow, le_refl _, hle⟩
  · by_cases habove : high < x
    · have hresult : clamp low high x = high := by
        unfold clamp
        rw [if_neg hbelow]
        exact if_pos habove
      rw [hresult]
      exact ⟨hhigh, hle, le_refl _⟩
    · have hresult : clamp low high x = x := by
        unfold clamp
        rw [if_neg hbelow]
        exact if_neg habove
      have hfinite : x.isFinite = true := by
        have hx : x.toModel.unpack.isNaN = false := hx
        show x.toModel.unpack.isFinite = true
        cases ha : x.toModel.unpack with
        | notANumber => rw [ha] at hx; contradiction
        | zero | finite => rfl
        | infinity s =>
            cases s with
            | negative => exact absurd (infinity_lt hlow ha) hbelow
            | positive => exact absurd (lt_infinity hhigh ha) habove
      rw [lt_iff_value_lt hfinite hlow, not_lt] at hbelow
      rw [lt_iff_value_lt hhigh hfinite, not_lt] at habove
      rw [hresult]
      exact ⟨hfinite, hbelow, habove⟩

/-- What is no number is not less than anything, nor is anything less than it. -/
theorem clamp_of_isNaN {low high : Float} (hx : x.isNaN = true) : clamp low high x = x := by
  have hnumber : x.isNaN ≠ false := by rw [hx]; decide
  unfold clamp
  rw [if_neg fun h => hnumber (number_of_lt h).1]
  exact if_neg fun h => hnumber (number_of_lt h).2

/-- A number is forced above the lower bound, also if the upper bound is infinite. -/
theorem le_clamp {low high : Float} (hle : low ≤ high) (hx : x.isNaN = false) :
    low ≤ clamp low high x := by
  obtain ⟨hlow, hhigh⟩ := number_of_le hle
  unfold clamp
  dsimp only
  by_cases hbelow : x < low
  · rw [if_pos hbelow, if_neg ((not_lt_iff_le hhigh hlow).2 hle)]
    exact number_le_self hlow
  · rw [if_neg hbelow]
    split
    · exact hle
    · exact (not_lt_iff_le hx hlow).1 hbelow

/-- The larger of two finite samples has the larger value. -/
theorem value_larger (hx : x.isFinite = true) (hy : y.isFinite = true) :
    (larger x y).isFinite = true ∧ value (larger x y) = max (value x) (value y) := by
  have hnumber : x.isNaN = false := isNaN_of_isFinite hx
  unfold larger
  rw [hnumber, if_neg Bool.false_ne_true]
  split
  · next hless =>
      rw [lt_iff_value_lt hx hy] at hless
      exact ⟨hy, (max_eq_right hless.le).symm⟩
  · next hnot =>
      rw [lt_iff_value_lt hx hy, not_lt] at hnot
      exact ⟨hx, (max_eq_left hnot).symm⟩

/-- The larger of a sample and a number is no less than that number. -/
theorem le_larger (x : Float) {y : Float} (hy : y.isNaN = false) : y ≤ larger x y := by
  unfold larger
  by_cases hx : x.isNaN = true
  · rw [if_pos hx]
    exact number_le_self hy
  · rw [if_neg hx]
    split
    · exact number_le_self hy
    · next hbelow => exact (not_lt_iff_le (Bool.not_eq_true _ ▸ hx) hy).1 hbelow

/-! ## Counts -/

/-- What is no number is cut to nothing. -/
theorem toCount_of_isNaN (hx : x.isNaN = true) : toCount x = 0 := by
  rw [Float.isNaN_eq_decide_eq_nan, decide_eq_true_iff] at hx
  subst hx
  rfl

theorem representable_natCast {n : Nat} (h : n < 2 ^ 53) : Representable Format.binary64 n :=
  ⟨n, 0, h, by decide, by decide, by rw [zpow_zero, mul_one]⟩

/-- A count becomes the sample nearest to it. -/
theorem rounded_ofNat (n : Nat) (hc : Representable Format.binary64 c) (h : (n : ℚ) ≤ c) :
    Rounded Format.binary64 n (Float.ofNat n).toModel.unpack := by
  have habs : |(n : ℚ)| ≤ c := by rwa [abs_of_nonneg n.cast_nonneg]
  by_cases hsmall : n < 2 ^ 53
  · -- Small counts are multiplied by one, which changes nothing.
    have hnat : (n.toUInt64).toNat = n := by
      show n % 2 ^ 64 = n
      omega
    have hself : Representable Format.binary64 |(n : ℚ)| := by
      rw [abs_of_nonneg n.cast_nonneg]
      exact representable_natCast hsmall
    have hround : Rounded Format.binary64 n n.toUInt64.toFloat.toModel.unpack := by
      have hnormalize := rounded_normalize Format.binary64 n 0
      rw [zpow_zero, mul_one, Int.cast_natCast] at hnormalize
      have hpack := hnormalize.packed hself le_rfl
      show Rounded Format.binary64 n (unpack Format.binary64 (pack Format.binary64
        (ofNat Format.binary64 n.toUInt64.toNat)))
      rw [hnat]
      exact hpack
    have hone : value (Float.ofBits 4607182418800017408) = 1 := by
      show ((Sign.apply .positive (2 ^ 52 : Nat) : Int) : ℚ) * 2 ^ (-52 : Int) = 1
      norm_num [Sign.apply]
    have hvalue : value n.toUInt64.toFloat = n := hround.valueOf_eq hself
    have hofNat : Float.ofNat n = n.toUInt64.toFloat * Float.ofBits 4607182418800017408 :=
      dif_pos ⟨hsmall, by decide⟩
    rw [hofNat]
    have hproduct : value n.toUInt64.toFloat * value (Float.ofBits 4607182418800017408) = n := by
      rw [hvalue, hone, mul_one]
    rw [← hproduct] at habs
    have hmul := rounded_value_mul hround.isFinite
      (show (Float.ofBits 4607182418800017408).isFinite = true by decide) hc habs
    rwa [hproduct] at hmul
  · have hofNat : Float.ofNat n = Float.ofModel (Float.Model.ofScientific n 0) :=
      dif_neg fun h => hsmall h.1
    rw [hofNat]
    refine Rounded.packed ?_ hc habs
    have hscientific : ofScientific Format.binary64 n 0 =
        roundWithAccuracy Format.binary64 .positive (n * 2 ^ 53) (-53) .exact := by
      have hlow : ¬ (0 : Int) < -((2 ^ Format.binary64.exponentBits : Int) + n.log2) := by
        show ¬ (0 : Int) < -((2 ^ 11 : Int) + n.log2)
        omega
      rw [ofScientific, dif_neg (by omega), if_neg (by decide), if_neg hlow, if_pos (by decide)]
      show roundWithAccuracy Format.binary64 .positive (n <<< 53 * 1) (-53) .exact = _
      rw [Nat.mul_one, Nat.shiftLeft_eq]
    have hvalue : ((Sign.positive.apply (n * 2 ^ 53 : Nat) : Int) : ℚ) * 2 ^ (-53 : Int) = n := by
      have hscale := apply_mul_zpow_sub .positive n 53 0
      rw [zpow_zero, mul_one] at hscale
      exact hscale
    rw [hscientific, ← hvalue]
    refine rounded_roundWithAccuracy Format.binary64 .positive (by omega) ?_
    have hlog := log2_mul_two_pow (show 0 < n by omega) 53
    rw [targetExponent_eq, hlog]
    show (-53 : Int) ≤ max (((n.log2 + 53 : Nat) : Int) + 1 + -53 - 53) (-1074)
    omega

/-- A positive finite float is cut to the whole part of its value. -/
private theorem roundToInt_eq (m : Nat) (e : Int) :
    roundToInt .positive m e = (m * 2 ^ e.toNat / 2 ^ (-e).toNat : Nat) := by
  have hshift : (0 - (e - (e - 0).toNat)).toNat = (-e).toNat := by omega
  rw [roundToInt, decreaseExponent]
  dsimp only
  rw [shiftToExponent, hshift, Int.sub_zero, Nat.shiftLeft_eq]
  exact congrArg Nat.cast (mantissa_shiftRight ⟨m * 2 ^ e.toNat, false, false⟩ (-e).toNat)

/-- The whole part of an encoded float has no more bits than its mantissa. -/
private theorem whole_spec {m : Nat} {e : Int} {hm : 0 < m}
    (hx : Encoded Format.binary64 (.finite .positive m e hm)) :
    let n := m * 2 ^ e.toNat / 2 ^ (-e).toNat
    Representable Format.binary64 n ∧ (n : ℚ) ≤ m * 2 ^ e ∧ (m : ℚ) * 2 ^ e < n + 1 := by
  obtain ⟨hlt, -, -, hhigh⟩ := hx
  rcases Int.lt_or_le e 0 with hneg | hpos
  · obtain ⟨k, rfl⟩ : ∃ k : Nat, e = -(k : Int) := ⟨(-e).toNat, by omega⟩
    have hzero : (-(k : Int)).toNat = 0 := by omega
    rw [hzero, Int.neg_neg, Int.toNat_natCast, Nat.pow_zero, Nat.mul_one, zpow_neg, zpow_natCast,
      ← div_eq_mul_inv]
    have hpow : (0 : ℚ) < 2 ^ k := by positivity
    refine ⟨representable_natCast (Nat.lt_of_le_of_lt (Nat.div_le_self m _) hlt), ?_, ?_⟩
    · rw [le_div_iff₀ hpow]
      exact_mod_cast Nat.div_mul_le_self m (2 ^ k)
    · rw [div_lt_iff₀ hpow]
      have hrest := Nat.lt_div_mul_add (a := m) (Nat.two_pow_pos k)
      have hcast : (m : ℚ) < (m / 2 ^ k : Nat) * 2 ^ k + 2 ^ k := by exact_mod_cast hrest
      linarith
  · obtain ⟨k, rfl⟩ : ∃ k : Nat, e = k := ⟨e.toNat, by omega⟩
    have hzero : (-(k : Int)).toNat = 0 := by omega
    rw [hzero, Int.toNat_natCast, Nat.pow_zero, Nat.div_one, zpow_natCast]
    push_cast
    have hlow : Format.binary64.minExponent ≤ k :=
      Int.le_trans (show Format.binary64.minExponent ≤ 0 by decide) (Int.natCast_nonneg k)
    exact ⟨⟨m, k, hlt, hlow, hhigh, by rw [zpow_natCast]⟩, le_refl _, by linarith⟩

theorem toNat_ofNatClamp (n : Nat) :
    (UInt64.ofNatClamp n).toNat = min n (2 ^ 64 - 1) := by
  have hsize : UInt64.size = 2 ^ 64 := rfl
  by_cases h : n < UInt64.size
  · rw [UInt64.toNat_ofNatClamp_of_lt h, Nat.min_eq_left (by omega)]
  · have hclamp : UInt64.ofNatClamp n = UInt64.ofNatLT (UInt64.size - 1) (by decide) := dif_neg h
    rw [hclamp, Nat.min_eq_right (by omega)]
    rfl

/-- A count is the whole part of a sample that is not negative, or the greatest count. -/
theorem toCount_spec (hx : x.isFinite = true) (hzero : 0 ≤ value x) :
    ∃ n : Nat, Representable Format.binary64 n ∧ (n : ℚ) ≤ value x ∧ value x < n + 1 ∧
      toCount x = min n (2 ^ 64 - 1) := by
  have hencoded : Encoded Format.binary64 x.toModel.unpack :=
    encoded_unpack Format.binary64 (by decide) _
  have hcount : toCount x = min (x.toModel.unpack.toInt 0 (UInt64.size - 1)).toNat (2 ^ 64 - 1) :=
    toNat_ofNatClamp _
  have hx : x.toModel.unpack.isFinite = true := hx
  cases hu : x.toModel.unpack with
  | notANumber | infinity => rw [hu] at hx; contradiction
  | zero s =>
      have hvalue : value x = 0 := congrArg valueOf hu
      rw [hu] at hcount
      exact ⟨0, representable_natCast (by decide), by rw [hvalue]; norm_num,
        by rw [hvalue]; norm_num, hcount⟩
  | finite s m e hm =>
      have hvalue : value x = valueOf (.finite s m e hm) := congrArg valueOf hu
      have hpos : (0 : ℚ) < m * 2 ^ e := by positivity
      rw [hu] at hencoded hcount
      cases s with
      | negative =>
          rw [hvalue, valueOf_negative] at hzero
          linarith
      | positive =>
          have hint : (Float.Model.UnpackedFloat.finite .positive m e hm).toInt 0
              (UInt64.size - 1) = (m * 2 ^ e.toNat / 2 ^ (-e).toNat : Nat) := roundToInt_eq m e
          obtain ⟨hrepresentable, hle, hnext⟩ := whole_spec hencoded
          rw [hint, Int.toNat_natCast] at hcount
          rw [hvalue]
          exact ⟨_, hrepresentable, hle, hnext, hcount⟩

/-- The whole part of a sample is a sample, also where counts end, for the greatest count is rounded
up. -/
theorem value_ofNat_toCount (hx : x.isFinite = true) (hzero : 0 ≤ value x)
    (hle : value x ≤ 2 ^ 64) :
    (Float.ofNat (toCount x)).isFinite = true ∧ value (Float.ofNat (toCount x)) ≤ value x ∧
      value x < value (Float.ofNat (toCount x)) + 1 := by
  obtain ⟨n, hrepresentable, hwhole, hnext, hcount⟩ := toCount_spec hx hzero
  have hbound : n ≤ 2 ^ 64 := by exact_mod_cast hwhole.trans hle
  rcases Nat.lt_or_eq_of_le hbound with hlt | rfl
  · rw [hcount, Nat.min_eq_left (by omega)]
    have hround := rounded_ofNat n hrepresentable le_rfl
    have hvalue : value (Float.ofNat n) = n :=
      hround.valueOf_eq (by rwa [abs_of_nonneg (Nat.cast_nonneg _)])
    rw [hvalue]
    exact ⟨hround.isFinite, hwhole, hnext⟩
  · have hgreatest : Float.ofNat (2 ^ 64 - 1) = Float.ofBits 0x43F0000000000000 := rfl
    have hvalue : value (Float.ofBits 0x43F0000000000000) = (2 ^ 64 : Nat) := by
      show (((2 ^ 52 : Nat) : Int) : ℚ) * 2 ^ (12 : Int) = _
      norm_num
    rw [hcount, Nat.min_eq_right (by decide), hgreatest, hvalue]
    exact ⟨by decide, hwhole, hnext⟩

/-- What a sample has beyond its whole part is a share of one. -/
theorem fraction_spec (hx : x.isFinite = true) (hzero : 0 ≤ value x) (hle : value x ≤ 2 ^ 64) :
    (x - Float.ofNat (toCount x)).isFinite = true ∧
      0 ≤ value (x - Float.ofNat (toCount x)) ∧ value (x - Float.ofNat (toCount x)) ≤ 1 := by
  have hone : Representable Format.binary64 1 := by
    have hcast := representable_natCast (n := 1) (by decide)
    rwa [Nat.cast_one] at hcast
  obtain ⟨hfinite, hwhole, hnext⟩ := value_ofNat_toCount hx hzero hle
  have hnonneg : 0 ≤ value x - value (Float.ofNat (toCount x)) := by linarith
  have habs : |value x - value (Float.ofNat (toCount x))| ≤ 1 := by
    rw [abs_of_nonneg hnonneg]
    linarith
  have hsub := rounded_value_sub hx hfinite hone habs
  exact ⟨hsub.isFinite, hsub.nonneg hnonneg, (le_abs_self _).trans (hsub.abs_le hone habs)⟩

end ToneGraph.Synth
