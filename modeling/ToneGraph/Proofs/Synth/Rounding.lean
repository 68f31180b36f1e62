import ToneGraph.Proofs.Synth.Encoding
/-!
# Rounding

Arithmetic on floats is done on mantissas and exponents.  The exact result is cut to the bits of the
format by shifting to the right, and what is shifted out decides whether the rest is rounded up.

What the proofs about units need of a result is little: that it is on the same side of every float
as the exact result, and that it does not exceed a power of two for a trifle.  `Rounded` says so of
a float and of the number that was rounded to it, and there is one lemma for each operation.

The sum, the difference and the product are not cut to what the format can hold.  A result that is
as large as some float at most is encoded, so that packing it loses nothing.

## Main definitions

* `valueOf`: the number that a finite float stands for.
* `Representable`: the magnitudes of finite floats.
* `Rounded`: what is known of the float to which a number is rounded.

## Main statements

* `rounded_add`, `rounded_sub`, `rounded_mul`: the operations round the exact result.
* `compare_eq_cmp`: finite floats are ordered as the numbers that they stand for.
-/

namespace ToneGraph.Synth

open Float.Model (Format totalExponent)
open Float.Model.UnpackedFloat

/-! ## Shifts -/

theorem shiftRight_succ (em : ExtendedMantissa) (k : Nat) :
    em >>> (k + 1) = (em >>> k).shiftRightOne := rfl

theorem mantissa_shiftRight (em : ExtendedMantissa) (k : Nat) :
    (em >>> k).mantissa = em.mantissa / 2 ^ k := by
  induction k with
  | zero => exact (Nat.div_one _).symm
  | succ k ih =>
      rw [shiftRight_succ, Nat.pow_succ, ← Nat.div_div_eq_div_mul, ← ih]
      rfl

/-- Shifting out zeros loses nothing. -/
theorem shiftRight_mul_pow (c k : Nat) :
    (⟨c * 2 ^ k, false, false⟩ : ExtendedMantissa) >>> k = ⟨c, false, false⟩ := by
  induction k generalizing c with
  | zero => rw [Nat.pow_zero, Nat.mul_one]; rfl
  | succ k ih =>
      have hdouble : c * 2 ^ (k + 1) = c * 2 * 2 ^ k := by
        rw [Nat.pow_succ, Nat.mul_comm (2 ^ k), Nat.mul_assoc]
      rw [shiftRight_succ, hdouble, ih, ExtendedMantissa.shiftRightOne]
      simp

theorem le_roundedMantissa (em : ExtendedMantissa) :
    em.mantissa ≤ em.roundedMantissa ∧ em.roundedMantissa ≤ em.mantissa + 1 := by
  obtain ⟨m, round, sticky⟩ := em
  cases round <;> cases sticky <;>
    simp only [ExtendedMantissa.roundedMantissa, ExtendedMantissa.accuracy,
      Accuracy.roundToNearestEven] <;> omega

theorem roundedMantissa_of_roundBit {em : ExtendedMantissa} (h : em.roundBit = false) :
    em.roundedMantissa = em.mantissa := by
  obtain ⟨m, round, sticky⟩ := em
  cases h
  cases sticky <;> rfl

/-- A mantissa without its last `k` bits, rounded to nearest. -/
def roundOff (n k : Nat) : Nat :=
  ((⟨n, false, false⟩ : ExtendedMantissa) >>> k).roundedMantissa

/-- Rounding does not pass a number that needs no rounding. -/
theorem roundOff_le {n c k : Nat} (h : n ≤ c * 2 ^ k) : roundOff n k ≤ c := by
  rcases Nat.eq_or_lt_of_le h with rfl | hlt
  · rw [roundOff, shiftRight_mul_pow]
    exact Nat.le_refl c
  · have hround := (le_roundedMantissa ((⟨n, false, false⟩ : ExtendedMantissa) >>> k)).2
    have hquotient : n / 2 ^ k < c := (Nat.div_lt_iff_lt_mul (Nat.two_pow_pos k)).2 hlt
    rw [mantissa_shiftRight] at hround
    exact Nat.le_trans hround hquotient

theorem le_roundOff {n c k : Nat} (h : c * 2 ^ k ≤ n) : c ≤ roundOff n k := by
  refine Nat.le_trans ?_ (le_roundedMantissa _).1
  rw [mantissa_shiftRight]
  exact (Nat.le_div_iff_mul_le (Nat.two_pow_pos k)).2 h

/-- A quotient is not rounded up by less than half of its divisor. -/
theorem roundOff_le_of_lt {n c k : Nat} (h : n < c * 2 ^ (k + 1) + 2 ^ k) :
    roundOff n (k + 1) ≤ c := by
  obtain ⟨em, hem⟩ : ∃ em, em = (⟨n, false, false⟩ : ExtendedMantissa) >>> k := ⟨_, rfl⟩
  have hround : roundOff n (k + 1) = em.shiftRightOne.roundedMantissa := by
    rw [roundOff, shiftRight_succ, hem]
  have hmantissa : em.mantissa ≤ 2 * c := by
    have hsum : c * 2 ^ (k + 1) + 2 ^ k = (2 * c + 1) * 2 ^ k := by ring
    rw [hsum, ← Nat.div_lt_iff_lt_mul (Nat.two_pow_pos k)] at h
    rw [hem, mantissa_shiftRight]
    exact Nat.le_of_lt_succ h
  rw [hround]
  rcases Nat.eq_or_lt_of_le hmantissa with heq | hlt
  · have hexact : em.shiftRightOne.roundBit = false := by
      show (em.mantissa % 2 != 0) = false
      rw [heq, Nat.mul_mod_right]
      rfl
    rw [roundedMantissa_of_roundBit hexact]
    show em.mantissa / 2 ≤ c
    omega
  · refine Nat.le_trans (le_roundedMantissa _).2 ?_
    show em.mantissa / 2 + 1 ≤ c
    omega

/-! ## Two shifts -/

/-- The float of a mantissa that may be zero. -/
def ofMantissa (s : Sign) (m : Nat) (e : Int) : Float.Model.UnpackedFloat :=
  if h : m = 0 then .zero s else .finite s m e (Nat.pos_of_ne_zero h)

/-- The exponent at which a mantissa is rounded leaves it the bits of the format, or is the least
exponent. -/
theorem targetExponent_eq (spec : Format) (m : Nat) (e : Int) :
    spec.targetExponent (totalExponent m e) =
      max ((m.log2 : Int) + 1 + e - spec.mantissaBits) spec.minExponent := rfl

private theorem shift_of_lt {spec : Format} {m : Nat} {e : Int} (hm : m < 2 ^ spec.mantissaBits)
    (he : spec.minExponent ≤ e) :
    shiftToTargetExponent spec m e .exact = (⟨m, false, false⟩, e) := by
  have hlog : m.log2 < spec.mantissaBits := by
    rcases Nat.eq_zero_or_pos m with rfl | hpos
    · exact Nat.add_pos_left Nat.one_pos _
    · exact (Nat.log2_lt (by omega)).2 hm
  have hk : (spec.targetExponent (totalExponent m e) - e).toNat = 0 := by
    rw [targetExponent_eq]
    omega
  rw [shiftToTargetExponent, shiftToExponent, hk]
  exact congrArg (Prod.mk _) (Int.add_zero e)

private theorem shift_carry {spec : Format} {e : Int} (he : spec.minExponent ≤ e) :
    shiftToTargetExponent spec (2 ^ spec.mantissaBits) e .exact =
      (⟨2 ^ spec.mantissaBitsWithoutImplicit, false, false⟩, e + 1) := by
  have hk : (spec.targetExponent (totalExponent (2 ^ spec.mantissaBits) e) - e).toNat = 1 := by
    rw [targetExponent_eq, Nat.log2_two_pow]
    omega
  have hshift := shiftRight_mul_pow (2 ^ spec.mantissaBitsWithoutImplicit) 1
  rw [Nat.pow_one, Nat.mul_comm, ← two_pow_mantissaBits] at hshift
  rw [shiftToTargetExponent, shiftToExponent, hk]
  exact congrArg (Prod.mk · (e + 1)) hshift

/-- The float of a rounded mantissa, which may have one bit too many. -/
def ofRounded (spec : Format) (s : Sign) (r : Nat) (t : Int) : Float.Model.UnpackedFloat :=
  if r < 2 ^ spec.mantissaBits then ofMantissa s r t
  else ofMantissa s (2 ^ spec.mantissaBitsWithoutImplicit) (t + 1)

/-- A number is rounded at the exponent that leaves it the bits of the format, or at the least
exponent. -/
theorem roundWithAccuracy_eq (spec : Format) (s : Sign) {n k : Nat} {e t : Int}
    (ht : t = spec.targetExponent (totalExponent n e)) (hk : t = e + k) :
    roundOff n k ≤ 2 ^ spec.mantissaBits ∧
      roundWithAccuracy spec s n e .exact = ofRounded spec s (roundOff n k) t := by
  have hfirst : shiftToTargetExponent spec n e .exact =
      ((⟨n, false, false⟩ : ExtendedMantissa) >>> k, t) := by
    have hshift : (t - e).toNat = k := by omega
    rw [shiftToTargetExponent, shiftToExponent, ← ht, hshift, ← hk]
    rfl
  have htarget := ht.trans (targetExponent_eq spec n e)
  have hlow : spec.minExponent ≤ t := by omega
  have hbits : roundOff n k ≤ 2 ^ spec.mantissaBits := by
    refine roundOff_le (Nat.le_of_lt ?_)
    rw [← Nat.pow_add]
    exact Nat.lt_of_lt_of_le Nat.lt_log2_self (Nat.pow_le_pow_right (by decide) (by omega))
  have hround : roundWithAccuracy spec s n e .exact =
      let second := shiftToTargetExponent spec (roundOff n k) t .exact
      ofMantissa s second.1.mantissa second.2 := by
    rw [roundWithAccuracy, hfirst]
    rfl
  refine ⟨hbits, hround.trans ?_⟩
  unfold ofRounded
  split
  · next hr => rw [shift_of_lt hr hlow]
  · next hr => rw [Nat.le_antisymm hbits (Nat.le_of_not_lt hr), shift_carry hlow]

/-- Only at the least exponent can a rounded mantissa miss bits. -/
theorem roundOff_full (spec : Format) {n k : Nat} {e t : Int} (hn : 0 < n)
    (ht : t = spec.targetExponent (totalExponent n e)) (hk : t = e + k) :
    2 ^ spec.mantissaBitsWithoutImplicit ≤ roundOff n k ∨ t = spec.minExponent := by
  have htarget := ht.trans (targetExponent_eq spec n e)
  rcases Int.lt_or_eq_of_le (show spec.minExponent ≤ t by omega) with hlt | heq
  · left
    have hbits : spec.mantissaBitsWithoutImplicit + k = n.log2 := by
      have hone : spec.mantissaBits = 1 + spec.mantissaBitsWithoutImplicit := rfl
      omega
    refine le_roundOff ?_
    rw [← Nat.pow_add, hbits]
    exact Nat.log2_self_le (by omega)
  · exact .inr heq.symm

/-! ## Values -/

/-- The number that a finite float stands for.  All other floats count as zero. -/
def valueOf : Float.Model.UnpackedFloat → ℚ
  | .finite s m e _ => s.apply m * 2 ^ e
  | _ => 0

/-- The magnitudes of finite floats. -/
def Representable (spec : Format) (q : ℚ) : Prop :=
  ∃ (c : Nat) (v : Int), c < 2 ^ spec.mantissaBits ∧ spec.minExponent ≤ v ∧
    v ≤ maxExponent spec ∧ q = c * 2 ^ v

private theorem two_zpow_pos (e : Int) : (0 : ℚ) < 2 ^ e :=
  zpow_pos (by norm_num) e

private theorem zpow_add_nat (e : Int) (k : Nat) : (2 : ℚ) ^ (e + k) = 2 ^ e * 2 ^ k := by
  rw [zpow_add₀ (by norm_num), zpow_natCast]

/-- Numbers with the same power of two are compared as their mantissas are. -/
theorem mul_zpow_le_iff {m n k : Nat} {e : Int} :
    (m : ℚ) * 2 ^ e ≤ n * 2 ^ (e + k) ↔ m ≤ n * 2 ^ k := by
  have hscale : (n : ℚ) * 2 ^ (e + k) = (n * 2 ^ k : Nat) * 2 ^ e := by
    rw [zpow_add_nat]
    push_cast
    ring
  rw [hscale, mul_le_mul_iff_of_pos_right (two_zpow_pos e), Nat.cast_le]

theorem zpow_mul_le_iff {m n k : Nat} {e : Int} :
    (m : ℚ) * 2 ^ (e + k) ≤ n * 2 ^ e ↔ m * 2 ^ k ≤ n := by
  have hscale : (m : ℚ) * 2 ^ (e + k) = (m * 2 ^ k : Nat) * 2 ^ e := by
    rw [zpow_add_nat]
    push_cast
    ring
  rw [hscale, mul_le_mul_iff_of_pos_right (two_zpow_pos e), Nat.cast_le]

/-- A mantissa with `p` bits or less is below a power of two by so many bits. -/
theorem mul_zpow_lt {c p : Nat} {v t : Int} (hc : c < 2 ^ p) (hv : v + p ≤ t) :
    (c : ℚ) * 2 ^ v < 2 ^ t := by
  have hpow : (c : ℚ) < 2 ^ p := by exact_mod_cast hc
  calc (c : ℚ) * 2 ^ v < 2 ^ p * 2 ^ v := mul_lt_mul_of_pos_right hpow (two_zpow_pos v)
    _ = 2 ^ (v + p) := by rw [zpow_add_nat, mul_comm]
    _ ≤ 2 ^ t := zpow_le_zpow_right₀ (by norm_num) hv

theorem zpow_le_mul {m p : Nat} {e t : Int} (hm : 2 ^ p ≤ m) (ht : t ≤ e + p) :
    (2 : ℚ) ^ t ≤ m * 2 ^ e := by
  have hpow : (2 : ℚ) ^ p ≤ m := by exact_mod_cast hm
  calc (2 : ℚ) ^ t ≤ 2 ^ (e + p) := zpow_le_zpow_right₀ (by norm_num) ht
    _ = 2 ^ p * 2 ^ e := by rw [zpow_add_nat, mul_comm]
    _ ≤ m * 2 ^ e := mul_le_mul_of_nonneg_right hpow (two_zpow_pos e).le

/-! ## Rounding -/

/-- What is known of a float to which a number is rounded: it passes no float, so that it keeps all
bounds that are floats themselves, what exceeds a power of two by little is rounded to that power,
and the sign is kept. -/
structure Rounded (spec : Format) (q : ℚ) (f : Float.Model.UnpackedFloat) : Prop where
  isFinite : f.isFinite = true
  encoded {c : ℚ} : Representable spec c → |q| ≤ c → Encoded spec f
  abs_le {c : ℚ} : Representable spec c → |q| ≤ c → |valueOf f| ≤ c
  le_abs {c : ℚ} : Representable spec c → c ≤ |q| → c ≤ |valueOf f|
  absorbed {t : Int} : spec.minExponent + spec.mantissaBits ≤ t →
    |q| < 2 ^ t + 2 ^ (t - spec.mantissaBits) → |valueOf f| ≤ 2 ^ t
  nonneg : 0 ≤ q → 0 ≤ valueOf f
  nonpos : q ≤ 0 → valueOf f ≤ 0

/-- What is representable is not changed by rounding. -/
theorem Rounded.valueOf_eq {spec : Format} {q : ℚ} {f : Float.Model.UnpackedFloat}
    (h : Rounded spec q f) (hq : Representable spec |q|) : valueOf f = q := by
  have habs : |valueOf f| = |q| := le_antisymm (h.abs_le hq le_rfl) (h.le_abs hq le_rfl)
  rcases le_total 0 q with hsign | hsign
  · rwa [abs_of_nonneg (h.nonneg hsign), abs_of_nonneg hsign] at habs
  · rwa [abs_of_nonpos (h.nonpos hsign), abs_of_nonpos hsign, neg_inj] at habs

theorem isNaN_of_isFinite {f : Float.Model.UnpackedFloat} (h : f.isFinite = true) :
    f.isNaN = false := by
  cases f with
  | notANumber => contradiction
  | _ => rfl

theorem valueOf_ofMantissa (s : Sign) (m : Nat) (e : Int) :
    valueOf (ofMantissa s m e) = s.apply m * 2 ^ e := by
  unfold ofMantissa
  split
  · next hzero => cases s <;> simp [valueOf, hzero, Sign.apply]
  · rfl

theorem isFinite_ofMantissa (s : Sign) (m : Nat) (e : Int) :
    (ofMantissa s m e).isFinite = true := by
  unfold ofMantissa
  split <;> rfl

theorem encoded_ofMantissa {spec : Format} (s : Sign) {m : Nat} {e : Int}
    (hm : m < 2 ^ spec.mantissaBits)
    (hnormal : 2 ^ spec.mantissaBitsWithoutImplicit ≤ m ∨ e = spec.minExponent)
    (hlow : spec.minExponent ≤ e) (hhigh : e ≤ maxExponent spec) :
    Encoded spec (ofMantissa s m e) := by
  unfold ofMantissa
  split
  · trivial
  · exact ⟨hm, hnormal, hlow, hhigh⟩

theorem abs_apply_mul (s : Sign) (m : Nat) (e : Int) :
    |((s.apply m : Int) : ℚ) * 2 ^ e| = m * 2 ^ e := by
  rw [abs_mul, abs_of_pos (two_zpow_pos e)]
  cases s <;> simp [Sign.apply]

/-- Finite floats are representable. -/
theorem representable_valueOf {spec : Format} {f : Float.Model.UnpackedFloat}
    (hf : Encoded spec f) (hspec : spec.minExponent ≤ maxExponent spec) :
    Representable spec |valueOf f| := by
  cases f with
  | finite s m e hm =>
      obtain ⟨hlt, -, hlow, hhigh⟩ := hf
      exact ⟨m, e, hlt, hlow, hhigh, abs_apply_mul s m e⟩
  | _ => exact ⟨0, spec.minExponent, Nat.two_pow_pos _, le_refl _, hspec, by simp [valueOf]⟩

/-- A sign says on which side of zero a number is, whatever its mantissa and exponent. -/
theorem apply_mul_nonneg (s : Sign) {m : Nat} {e : Int} (hm : 0 < m)
    (h : 0 ≤ ((s.apply m : Int) : ℚ) * 2 ^ e) (n : Nat) (t : Int) :
    0 ≤ ((s.apply n : Int) : ℚ) * 2 ^ t := by
  have hpos : (0 : ℚ) < m * 2 ^ e := mul_pos (Nat.cast_pos.2 hm) (two_zpow_pos e)
  cases s with
  | negative =>
      simp only [Sign.apply, Int.cast_neg, Int.cast_natCast, neg_mul] at h
      linarith
  | positive =>
      simp only [Sign.apply, Int.cast_natCast]
      positivity

theorem apply_mul_nonpos (s : Sign) {m : Nat} {e : Int} (hm : 0 < m)
    (h : ((s.apply m : Int) : ℚ) * 2 ^ e ≤ 0) (n : Nat) (t : Int) :
    ((s.apply n : Int) : ℚ) * 2 ^ t ≤ 0 := by
  have hpos : (0 : ℚ) < m * 2 ^ e := mul_pos (Nat.cast_pos.2 hm) (two_zpow_pos e)
  cases s with
  | negative =>
      simp only [Sign.apply, Int.cast_neg, Int.cast_natCast, neg_mul, Left.neg_nonpos_iff]
      positivity
  | positive =>
      simp only [Sign.apply, Int.cast_natCast] at h
      linarith

theorem isFinite_ofRounded (spec : Format) (s : Sign) (r : Nat) (t : Int) :
    (ofRounded spec s r t).isFinite = true := by
  unfold ofRounded
  split <;> exact isFinite_ofMantissa s _ _

theorem valueOf_ofRounded {spec : Format} (s : Sign) {r : Nat} (t : Int)
    (hr : r ≤ 2 ^ spec.mantissaBits) :
    valueOf (ofRounded spec s r t) = s.apply r * 2 ^ t := by
  unfold ofRounded
  split
  · exact valueOf_ofMantissa s r t
  · next hcarry =>
      rw [Nat.le_antisymm hr (Nat.le_of_not_lt hcarry), valueOf_ofMantissa,
        two_pow_mantissaBits, zpow_add₀ (by norm_num)]
      cases s <;> simp only [Sign.apply] <;> push_cast <;> ring

/-- What stays below a float is not too large for the format. -/
theorem encoded_ofRounded {spec : Format} (s : Sign) {r : Nat} {t : Int}
    (hfull : 2 ^ spec.mantissaBitsWithoutImplicit ≤ r ∨ t = spec.minExponent)
    (hlow : spec.minExponent ≤ t) {c : ℚ} (hc : Representable spec c)
    (hle : (r : ℚ) * 2 ^ t ≤ c) : Encoded spec (ofRounded spec s r t) := by
  obtain ⟨m, v, hm, hmin, hmax, rfl⟩ := hc
  have hexp : ∀ p : Nat, 2 ^ p ≤ r → t + p < v + spec.mantissaBits := by
    intro p hp
    by_contra hge
    have hbelow := mul_zpow_lt hm (show v + spec.mantissaBits ≤ t + p by omega)
    have habove := zpow_le_mul hp (le_refl (t + p : Int))
    linarith
  have hone : spec.mantissaBits = 1 + spec.mantissaBitsWithoutImplicit := rfl
  have hdouble := two_pow_mantissaBits spec
  have hpos := Nat.two_pow_pos spec.mantissaBitsWithoutImplicit
  unfold ofRounded
  split
  · next hlt =>
      refine encoded_ofMantissa s hlt hfull hlow ?_
      rcases hfull with hr | hleast
      · have := hexp _ hr
        omega
      · omega
  · next hcarry =>
      have := hexp spec.mantissaBits (Nat.le_of_not_lt hcarry)
      exact encoded_ofMantissa s (by omega) (.inl (Nat.le_refl _)) (by omega) (by omega)

/-- A number that is at most a float is not rounded to more. -/
theorem roundOff_mul_le {spec : Format} {n k : Nat} {e t : Int} (hn : 0 < n)
    (ht : t = spec.targetExponent (totalExponent n e)) (hk : t = e + k) {c : ℚ}
    (hc : Representable spec c) (h : (n : ℚ) * 2 ^ e ≤ c) : (roundOff n k : ℚ) * 2 ^ t ≤ c := by
  have htarget := ht.trans (targetExponent_eq spec n e)
  obtain ⟨m, v, hm, hmin, -, rfl⟩ := hc
  rcases Int.lt_or_le v t with hlt | hge
  · -- A float with a smaller exponent is smaller than the number.
    have hbelow := mul_zpow_lt hm (show v + spec.mantissaBits ≤ e + n.log2 by omega)
    have habove := zpow_le_mul (Nat.log2_self_le (by omega)) (le_refl (e + n.log2 : Int))
    linarith
  · obtain ⟨j, rfl⟩ : ∃ j : Nat, v = t + j := ⟨(v - t).toNat, by omega⟩
    rw [hk, Int.add_assoc, ← Nat.cast_add, mul_zpow_le_iff, Nat.add_comm k, Nat.pow_add,
      ← Nat.mul_assoc] at h
    rw [mul_zpow_le_iff]
    exact roundOff_le h

/-- A number that is at least a float is not rounded to less. -/
theorem le_roundOff_mul {spec : Format} {n k : Nat} {e t : Int} (hn : 0 < n)
    (ht : t = spec.targetExponent (totalExponent n e)) (hk : t = e + k) {c : ℚ}
    (hc : Representable spec c) (h : c ≤ (n : ℚ) * 2 ^ e) : c ≤ (roundOff n k : ℚ) * 2 ^ t := by
  obtain ⟨m, v, hm, hmin, -, rfl⟩ := hc
  rcases Int.lt_or_le v t with hlt | hge
  · have hone : spec.mantissaBits = 1 + spec.mantissaBitsWithoutImplicit := rfl
    have hfull := (roundOff_full spec hn ht hk).resolve_right (by omega)
    have hbelow := mul_zpow_lt hm
      (show v + spec.mantissaBits ≤ t + spec.mantissaBitsWithoutImplicit by omega)
    have habove := zpow_le_mul hfull (le_refl (t + spec.mantissaBitsWithoutImplicit : Int))
    linarith
  · obtain ⟨j, rfl⟩ : ∃ j : Nat, v = t + j := ⟨(v - t).toNat, by omega⟩
    rw [hk, Int.add_assoc, ← Nat.cast_add, zpow_mul_le_iff, Nat.add_comm k, Nat.pow_add,
      ← Nat.mul_assoc] at h
    rw [zpow_mul_le_iff]
    exact le_roundOff h

/-- What exceeds a power of two by less than half of the step to the next float is rounded to no
more than that power. -/
theorem roundOff_mul_le_two_pow {spec : Format} {n k : Nat} {e t u : Int} (hn : 0 < n)
    (ht : t = spec.targetExponent (totalExponent n e)) (hk : t = e + k)
    (hu : spec.minExponent + spec.mantissaBits ≤ u)
    (h : (n : ℚ) * 2 ^ e < 2 ^ u + 2 ^ (u - spec.mantissaBits)) :
    (roundOff n k : ℚ) * 2 ^ t ≤ 2 ^ u := by
  have htarget := ht.trans (targetExponent_eq spec n e)
  have hbits : 1 ≤ spec.mantissaBits := Nat.le_add_right 1 _
  have hlog : n.log2 + e ≤ u := by
    by_contra hgreater
    have habove := zpow_le_mul (Nat.log2_self_le (by omega))
      (show u + 1 ≤ e + n.log2 by omega)
    have hstep : (2 : ℚ) ^ (u - spec.mantissaBits) ≤ 2 ^ u :=
      zpow_le_zpow_right₀ (by norm_num) (by omega)
    rw [zpow_add₀ (by norm_num), zpow_one] at habove
    linarith
  obtain ⟨j, rfl⟩ : ∃ j : Nat, u = t + j := ⟨(u - t).toNat, by omega⟩
  have hone : (2 : ℚ) ^ (t + j) = (1 : Nat) * 2 ^ (t + j) := by rw [Nat.cast_one, one_mul]
  rw [hone, mul_zpow_le_iff, Nat.one_mul]
  rcases Nat.lt_or_ge j spec.mantissaBits with hfull | hshort
  · -- The power has all bits of the format, and the number is cut right below them.
    have hhalf : t + j - spec.mantissaBits = t - 1 := by omega
    rw [hhalf, hk] at h
    cases k with
    | zero =>
        refine roundOff_le ?_
        rw [Nat.pow_zero, Nat.mul_one]
        by_contra hgreater
        have habove : ((2 ^ j + 1 : Nat) : ℚ) * 2 ^ e ≤ n * 2 ^ e :=
          mul_le_mul_of_nonneg_right (by exact_mod_cast Nat.lt_of_not_le hgreater)
            (two_zpow_pos e).le
        have hstep : (2 : ℚ) ^ (e + (0 : Nat) - 1) ≤ 2 ^ e :=
          zpow_le_zpow_right₀ (by norm_num) (by omega)
        have hsplit := zpow_add_nat e j
        push_cast at habove
        rw [Nat.cast_zero, add_zero] at h hstep
        linarith
    | succ k =>
        refine roundOff_le_of_lt ?_
        have hsum : (2 : ℚ) ^ (e + (k + 1 : Nat) + j) + 2 ^ (e + (k + 1 : Nat) - 1) =
            (2 ^ j * 2 ^ (k + 1) + 2 ^ k : Nat) * 2 ^ e := by
          rw [show e + (k + 1 : Nat) - 1 = e + k by push_cast; ring, zpow_add_nat, zpow_add_nat,
            zpow_add_nat]
          push_cast
          ring
        rw [hsum, mul_lt_mul_iff_of_pos_right (two_zpow_pos e)] at h
        exact_mod_cast h
  · have hbelow : (n : ℚ) * 2 ^ e < (1 : Nat) * 2 ^ (e + (j + k : Nat)) := by
      rw [Nat.cast_one, one_mul]
      exact mul_zpow_lt Nat.lt_log2_self (by push_cast; omega)
    refine roundOff_le ?_
    rw [← Nat.pow_add, ← Nat.one_mul (2 ^ (j + k))]
    exact mul_zpow_le_iff.1 hbelow.le

/-- A float is what its own value is rounded to. -/
theorem Rounded.of_encoded {spec : Format} {f : Float.Model.UnpackedFloat}
    (hfinite : f.isFinite = true) (hf : Encoded spec f) : Rounded spec (valueOf f) f := by
  refine ⟨hfinite, fun _ _ => hf, fun _ h => h, fun _ h => h, ?_, id, id⟩
  intro t ht hlt
  cases f with
  | finite s m e hm =>
      obtain ⟨hbits, hfull, hlow, -⟩ := hf
      have hexact : e = spec.targetExponent (totalExponent m e) := by
        have hmost := (Nat.log2_lt (by omega)).2 hbits
        have hleast := Nat.le_log2 (n := m) (k := spec.mantissaBitsWithoutImplicit) (by omega)
        have hone : spec.mantissaBits = 1 + spec.mantissaBitsWithoutImplicit := rfl
        rw [targetExponent_eq]
        omega
      rw [valueOf, abs_apply_mul] at hlt ⊢
      exact roundOff_mul_le_two_pow (k := 0) hm hexact (Int.add_zero e).symm ht hlt
  | _ =>
      show |(0 : ℚ)| ≤ 2 ^ t
      rw [abs_zero]
      exact (two_zpow_pos t).le

/-- What is rounded only by shifting to the right is rounded soundly. -/
theorem rounded_roundWithAccuracy (spec : Format) (s : Sign) {n : Nat} {e : Int} (hn : 0 < n)
    (he : e ≤ spec.targetExponent (totalExponent n e)) :
    Rounded spec (s.apply n * 2 ^ e) (roundWithAccuracy spec s n e .exact) := by
  obtain ⟨t, ht⟩ : ∃ t, t = spec.targetExponent (totalExponent n e) := ⟨_, rfl⟩
  obtain ⟨k, hk⟩ : ∃ k : Nat, t = e + k := ⟨(t - e).toNat, by omega⟩
  obtain ⟨hbits, hround⟩ := roundWithAccuracy_eq spec s ht hk
  have hlow : spec.minExponent ≤ t := by
    have htarget := ht.trans (targetExponent_eq spec n e)
    omega
  have hvalue := valueOf_ofRounded s t hbits
  have habs : |valueOf (ofRounded spec s (roundOff n k) t)| = roundOff n k * 2 ^ t := by
    rw [hvalue, abs_apply_mul]
  rw [hround]
  refine ⟨isFinite_ofRounded spec s _ t, ?_, ?_, ?_, ?_, ?_, ?_⟩
  · intro c hc hle
    rw [abs_apply_mul] at hle
    exact encoded_ofRounded s (roundOff_full spec hn ht hk) hlow hc
      (roundOff_mul_le hn ht hk hc hle)
  · intro c hc hle
    rw [abs_apply_mul] at hle
    rw [habs]
    exact roundOff_mul_le hn ht hk hc hle
  · intro c hc hle
    rw [abs_apply_mul] at hle
    rw [habs]
    exact le_roundOff_mul hn ht hk hc hle
  · intro u hu hlt
    rw [abs_apply_mul] at hlt
    rw [habs]
    exact roundOff_mul_le_two_pow hn ht hk hu hlt
  · intro h
    rw [hvalue]
    exact apply_mul_nonneg s hn h _ t
  · intro h
    rw [hvalue]
    exact apply_mul_nonpos s hn h _ t

theorem log2_mul_two_pow {n : Nat} (hn : 0 < n) (k : Nat) : (n * 2 ^ k).log2 = n.log2 + k := by
  have hpos := Nat.mul_pos hn (Nat.two_pow_pos k)
  refine (Nat.log2_eq_iff (by omega)).2 ⟨?_, ?_⟩
  · rw [Nat.pow_add]
    exact Nat.mul_le_mul_right _ (Nat.log2_self_le (by omega))
  · rw [Nat.add_right_comm, Nat.pow_add]
    exact Nat.mul_lt_mul_of_pos_right Nat.lt_log2_self (Nat.two_pow_pos k)

/-- A mantissa at a lower exponent stands for the same number. -/
theorem apply_mul_zpow_sub (s : Sign) (m k : Nat) (e : Int) :
    ((s.apply (m * 2 ^ k : Nat) : Int) : ℚ) * 2 ^ (e - k) = s.apply m * 2 ^ e := by
  have hsplit : (2 : ℚ) ^ e = 2 ^ (e - k) * 2 ^ k := by
    rw [← zpow_add_nat, Int.sub_add_cancel]
  rw [hsplit]
  cases s <;> simp only [Sign.apply] <;> push_cast <;> ring

theorem rounded_round (spec : Format) (s : Sign) {n : Nat} (e : Int) (hn : 0 < n) :
    Rounded spec (s.apply n * 2 ^ e) (Float.Model.UnpackedFloat.round spec s n e) := by
  obtain ⟨k, hk⟩ : ∃ k, k = (e - spec.targetExponent (totalExponent n e)).toNat := ⟨_, rfl⟩
  have hround : Float.Model.UnpackedFloat.round spec s n e =
      roundWithAccuracy spec s (n * 2 ^ k) (e - k) .exact := by
    rw [Float.Model.UnpackedFloat.round, decreaseExponent, ← hk, Nat.shiftLeft_eq]
  rw [hround, ← apply_mul_zpow_sub s n k e]
  refine rounded_roundWithAccuracy spec s (Nat.mul_pos hn (Nat.two_pow_pos k)) ?_
  rw [targetExponent_eq, log2_mul_two_pow hn]
  rw [targetExponent_eq] at hk
  omega

@[simp] theorem valueOf_zero (s : Sign) : valueOf (.zero s) = 0 := rfl

theorem rounded_zero (spec : Format) (s : Sign) : Rounded spec 0 (.zero s) :=
  .of_encoded (f := .zero s) rfl trivial

theorem rounded_normalize (spec : Format) (m e : Int) :
    Rounded spec (m * 2 ^ e) (Float.Model.UnpackedFloat.normalize spec m e .positive) := by
  unfold Float.Model.UnpackedFloat.normalize
  split
  · next h =>
      have hneg := Int.compare_eq_lt.1 h
      have hround := rounded_round spec .negative e (show 0 < (-m).toNat by omega)
      rwa [Sign.apply, Int.toNat_of_nonneg (by omega), Int.neg_neg] at hround
  · next h =>
      obtain rfl := Int.compare_eq_eq.1 h
      rw [Int.cast_zero, zero_mul]
      exact rounded_zero spec .positive
  · next h =>
      have hpos := Int.compare_eq_gt.1 h
      have hround := rounded_round spec .positive e (show 0 < m.toNat by omega)
      rwa [Sign.apply, Int.toNat_of_nonneg (by omega)] at hround

section Floats

variable {spec : Format} {a b : Float.Model.UnpackedFloat}

/-! ## Operations -/

theorem apply_decreaseExponent (s : Sign) (m : Nat) {e t : Int} (ht : t ≤ e) :
    ((s.apply (decreaseExponent m e t).1 : Int) : ℚ) * 2 ^ t = s.apply m * 2 ^ e := by
  have hexp : e - (e - t).toNat = t := by omega
  have hsub := apply_mul_zpow_sub s m (e - t).toNat e
  rwa [hexp, ← Nat.shiftLeft_eq] at hsub

theorem rounded_add (ha : a.isFinite = true) (hb : b.isFinite = true) (hca : Encoded spec a)
    (hcb : Encoded spec b) : Rounded spec (valueOf a + valueOf b) (add spec a b) := by
  cases a with
  | notANumber => contradiction
  | infinity s => contradiction
  | zero s =>
      cases b with
      | notANumber => contradiction
      | infinity r => contradiction
      | zero r =>
          show Rounded spec (0 + 0) (if s == r then .zero s else .zero .positive)
          rw [add_zero]
          split <;> exact rounded_zero spec _
      | finite r n d hn =>
          rw [valueOf_zero, zero_add]
          exact .of_encoded hb hcb
  | finite s m e hm =>
      cases b with
      | notANumber => contradiction
      | infinity r => contradiction
      | zero r =>
          rw [valueOf_zero, add_zero]
          exact .of_encoded ha hca
      | finite r n d hn =>
          have hround := rounded_normalize spec
            (s.apply (decreaseExponent m e (min e d)).1 +
              r.apply (decreaseExponent n d (min e d)).1) (min e d)
          rwa [Int.cast_add, add_mul, apply_decreaseExponent s m (min_le_left e d),
            apply_decreaseExponent r n (min_le_right e d)] at hround

/-- To subtract is to add the negative. -/
theorem sub_eq_add (spec : Format) (a b : Float.Model.UnpackedFloat) :
    sub spec a b = add spec a b.neg := by
  cases a with
  | notANumber | infinity | zero => cases b <;> rfl
  | finite s m e hm =>
      cases b with
      | notANumber | infinity | zero => rfl
      | finite r n d hn =>
          have hsign : ∀ k : Nat, (-r).apply k = -(r.apply k : Int) := by
            intro k
            cases r
            · exact (Int.neg_neg _).symm
            · rfl
          show Float.Model.UnpackedFloat.normalize spec (_ - r.apply _) (min e d) .positive =
            Float.Model.UnpackedFloat.normalize spec (_ + (-r).apply _) (min e d) .positive
          rw [hsign, Int.sub_eq_add_neg]

@[simp] theorem isFinite_neg (a : Float.Model.UnpackedFloat) : a.neg.isFinite = a.isFinite := by
  cases a <;> rfl

theorem Encoded.neg (h : Encoded spec a) : Encoded spec a.neg := by
  cases a <;> exact h

@[simp] theorem valueOf_neg (a : Float.Model.UnpackedFloat) : valueOf a.neg = -valueOf a := by
  cases a with
  | notANumber | infinity | zero => exact neg_zero.symm
  | finite s m e hm =>
      cases s with
      | negative =>
          show ((m : Int) : ℚ) * 2 ^ e = -(((-m : Int) : ℚ) * 2 ^ e)
          push_cast
          ring
      | positive =>
          show ((-m : Int) : ℚ) * 2 ^ e = -(((m : Int) : ℚ) * 2 ^ e)
          push_cast
          ring

theorem rounded_sub (ha : a.isFinite = true) (hb : b.isFinite = true) (hca : Encoded spec a)
    (hcb : Encoded spec b) : Rounded spec (valueOf a - valueOf b) (sub spec a b) := by
  rw [sub_eq_add, sub_eq_add_neg, ← valueOf_neg]
  exact rounded_add ha (by rwa [isFinite_neg]) hca hcb.neg

theorem apply_mul_apply (s r : Sign) (m n : Nat) :
    (s.apply m : Int) * r.apply n = (s * r).apply (m * n : Nat) := by
  rw [Nat.cast_mul]
  cases s <;> cases r
  · exact Int.neg_mul_neg _ _
  · exact Int.neg_mul _ _
  · exact Int.mul_neg _ _
  · rfl

/-- The mantissa of a product has as many bits as the format, or the product is at the least
exponent. -/
theorem mul_le_targetExponent {m n : Nat} {e d : Int} {s r : Sign} {hm : 0 < m} {hn : 0 < n}
    (ha : Encoded spec (.finite s m e hm)) (hb : Encoded spec (.finite r n d hn)) :
    e + d ≤ spec.targetExponent (totalExponent (m * n) (e + d)) := by
  obtain ⟨-, ha, -, -⟩ := ha
  obtain ⟨-, hb, -, -⟩ := hb
  have hleft : m ≤ m * n := Nat.le_mul_of_pos_right m hn
  have hright : n ≤ m * n := Nat.le_mul_of_pos_left n hm
  have hone : spec.mantissaBits = 1 + spec.mantissaBitsWithoutImplicit := rfl
  rw [targetExponent_eq]
  by_cases hfull : 2 ^ spec.mantissaBitsWithoutImplicit ≤ m * n
  · have hlog := (Nat.le_log2 (by omega)).2 hfull
    omega
  · have hmin := minExponent_eq spec
    have hbits := spec.hm
    omega

theorem rounded_mul (ha : a.isFinite = true) (hb : b.isFinite = true) (hca : Encoded spec a)
    (hcb : Encoded spec b) : Rounded spec (valueOf a * valueOf b) (mul spec a b) := by
  cases a with
  | notANumber => contradiction
  | infinity s => contradiction
  | zero s =>
      rw [valueOf_zero, zero_mul]
      cases b with
      | notANumber => contradiction
      | infinity r => contradiction
      | zero r => exact rounded_zero spec (s * r)
      | finite r n d hn => exact rounded_zero spec (s * r)
  | finite s m e hm =>
      cases b with
      | notANumber => contradiction
      | infinity r => contradiction
      | zero r =>
          rw [valueOf_zero, mul_zero]
          exact rounded_zero spec (s * r)
      | finite r n d hn =>
          have hvalue : valueOf (.finite s m e hm) * valueOf (.finite r n d hn) =
              ((s * r).apply (m * n : Nat) : Int) * 2 ^ (e + d) := by
            rw [valueOf, valueOf, zpow_add₀ (by norm_num), ← apply_mul_apply]
            push_cast
            ring
          rw [hvalue]
          exact rounded_roundWithAccuracy spec (s * r) (Nat.mul_pos hm hn)
            (mul_le_targetExponent hca hcb)

/-! ## Order -/

/-- Of two floats written by a format, the one with the greater exponent is the greater one. -/
theorem mul_zpow_lt_mul_zpow {s r : Sign} {m n : Nat} {e d : Int} {hm : 0 < m} {hn : 0 < n}
    (ha : Encoded spec (.finite s m e hm)) (hb : Encoded spec (.finite r n d hn)) (h : e < d) :
    (m : ℚ) * 2 ^ e < n * 2 ^ d := by
  obtain ⟨hlt, -, hlow, -⟩ := ha
  obtain ⟨-, hfull, -, -⟩ := hb
  have hone : spec.mantissaBits = 1 + spec.mantissaBitsWithoutImplicit := rfl
  have hbelow := mul_zpow_lt hlt
    (show e + spec.mantissaBits ≤ d + spec.mantissaBitsWithoutImplicit by omega)
  have habove := zpow_le_mul (hfull.resolve_right (by omega))
    (le_refl (d + spec.mantissaBitsWithoutImplicit : Int))
  exact lt_of_lt_of_le hbelow habove

/-- The exponents decide, then the mantissas. -/
theorem then_eq_cmp {s r : Sign} {m n : Nat} {e d : Int} {hm : 0 < m} {hn : 0 < n}
    (ha : Encoded spec (.finite s m e hm)) (hb : Encoded spec (.finite r n d hn)) :
    (compare e d).then (compare m n) = cmp ((m : ℚ) * 2 ^ e) (n * 2 ^ d) := by
  rcases Int.lt_trichotomy e d with h | rfl | h
  · rw [Int.compare_eq_lt.2 h, Ordering.lt_then]
    exact (mul_zpow_lt_mul_zpow ha hb h).cmp_eq_lt.symm
  · rw [Int.compare_eq_eq.2 rfl, Ordering.eq_then, cmp_mul_pos_right (by positivity)]
    rcases Nat.lt_trichotomy m n with h | rfl | h
    · rw [Nat.compare_eq_lt.2 h]
      exact (Nat.cast_lt.2 h).cmp_eq_lt.symm
    · rw [Nat.compare_eq_eq.2 rfl, cmp_self_eq_eq]
    · rw [Nat.compare_eq_gt.2 h]
      exact (Nat.cast_lt.2 h).cmp_eq_gt.symm
  · rw [Int.compare_eq_gt.2 h, Ordering.gt_then]
    exact (mul_zpow_lt_mul_zpow hb ha h).cmp_eq_gt.symm

theorem cmp_neg_neg (p q : ℚ) : cmp (-p) (-q) = (cmp p q).swap := by
  rw [cmp_swap]
  rcases lt_trichotomy p q with h | rfl | h
  · rw [h.cmp_eq_gt, (neg_lt_neg h).cmp_eq_gt]
  · rw [cmp_self_eq_eq, cmp_self_eq_eq]
  · rw [h.cmp_eq_lt, (neg_lt_neg h).cmp_eq_lt]

theorem valueOf_positive (m : Nat) (e : Int) (hm : 0 < m) :
    valueOf (.finite .positive m e hm) = m * 2 ^ e := rfl

theorem valueOf_negative (m : Nat) (e : Int) (hm : 0 < m) :
    valueOf (.finite .negative m e hm) = -(m * 2 ^ e) := by
  show ((-m : Int) : ℚ) * 2 ^ e = _
  push_cast
  ring

/-- Finite floats are compared as the numbers that they stand for. -/
theorem compare_eq_cmp (ha : a.isFinite = true) (hb : b.isFinite = true) (hca : Encoded spec a)
    (hcb : Encoded spec b) : a.compare b = some (cmp (valueOf a) (valueOf b)) := by
  have hpos : ∀ {m : Nat} (e : Int), 0 < m → (0 : ℚ) < m * 2 ^ e := fun e hm => by positivity
  cases a with
  | notANumber => contradiction
  | infinity s => contradiction
  | zero s =>
      rw [valueOf_zero]
      cases b with
      | notANumber => contradiction
      | infinity r => contradiction
      | zero r => rw [valueOf_zero, cmp_self_eq_eq]; rfl
      | finite r n d hn =>
          cases r
          · rw [valueOf_negative, (neg_lt_zero.2 (hpos d hn)).cmp_eq_gt]; rfl
          · rw [valueOf_positive, (hpos d hn).cmp_eq_lt]; rfl
  | finite s m e hm =>
      cases b with
      | notANumber => contradiction
      | infinity r => contradiction
      | zero r =>
          rw [valueOf_zero]
          cases s
          · rw [valueOf_negative, (neg_lt_zero.2 (hpos e hm)).cmp_eq_lt]; rfl
          · rw [valueOf_positive, (hpos e hm).cmp_eq_gt]; rfl
      | finite r n d hn =>
          have hm' := hpos e hm
          have hn' := hpos d hn
          cases s <;> cases r
          · rw [valueOf_negative, valueOf_negative, cmp_neg_neg, ← then_eq_cmp hca hcb]; rfl
          · rw [valueOf_negative, valueOf_positive, LT.lt.cmp_eq_lt (by linarith)]; rfl
          · rw [valueOf_positive, valueOf_negative, LT.lt.cmp_eq_gt (by linarith)]; rfl
          · rw [valueOf_positive, valueOf_positive, ← then_eq_cmp hca hcb]; rfl

/-- Comparing the other way round. -/
theorem compare_swap (a b : Float.Model.UnpackedFloat) :
    b.compare a = (a.compare b).map Ordering.swap := by
  cases a with
  | notANumber => cases b <;> rfl
  | infinity s =>
      cases b with
      | notANumber => rfl
      | infinity r => cases s <;> cases r <;> rfl
      | zero r => cases s <;> rfl
      | finite r n d hn => cases s <;> rfl
  | zero s =>
      cases b with
      | notANumber | zero => rfl
      | infinity r => cases r <;> rfl
      | finite r n d hn => cases r <;> rfl
  | finite s m e hm =>
      cases b with
      | notANumber => rfl
      | infinity r => cases r <;> rfl
      | zero r => cases s <;> rfl
      | finite r n d hn =>
          have hswap : (compare d e).then (compare n m) =
              ((compare e d).then (compare m n)).swap := by
            rw [Ordering.swap_then, Int.compare_swap, Nat.compare_swap]
          cases s <;> cases r
          · exact congrArg (fun o => some o.swap) hswap
          · rfl
          · rfl
          · exact congrArg some hswap

/-- Numbers can be compared, also those that are not finite. -/
theorem exists_compare_eq (ha : a.isNaN = false) (hb : b.isNaN = false) :
    ∃ o, a.compare b = some o := by
  cases a with
  | notANumber => contradiction
  | infinity s =>
      cases b with
      | notANumber => contradiction
      | _ => cases s <;> exact ⟨_, rfl⟩
  | zero s =>
      cases b with
      | notANumber => contradiction
      | zero => exact ⟨_, rfl⟩
      | infinity r | finite r => cases r <;> exact ⟨_, rfl⟩
  | finite s m e hm =>
      cases b with
      | notANumber => contradiction
      | zero => cases s <;> exact ⟨_, rfl⟩
      | infinity r | finite r => cases s <;> cases r <;> exact ⟨_, rfl⟩

/-- Whatever can be compared is a number. -/
theorem isNaN_of_compare_eq {o : Ordering} (h : a.compare b = some o) :
    a.isNaN = false ∧ b.isNaN = false := by
  cases a with
  | notANumber => contradiction
  | _ =>
      cases b with
      | notANumber => contradiction
      | _ => exact ⟨rfl, rfl⟩

end Floats

end ToneGraph.Synth
