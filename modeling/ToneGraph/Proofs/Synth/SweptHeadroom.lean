import ToneGraph.Proofs.Synth.Headroom
/-!
# Headroom of swept delays

A swept delay reads its ring between two slots.  The way from one value to the other is the
difference of both, and it may be twice as far as either value is from zero, but a step along that
way ends between them.  Each of these operations rounds, so that the tap may read somewhat more than
the ring holds: `within_between` says how much.

The tap is read at an age that follows a sine.  If the sine is a number the age is one too, and it
is forced between one and the last that the ring holds, so that the share by which a tap lies beyond
a slot is a share of one.

## Main statements

* `within_between`: what a tap reads.
* `SweepShape.Sound.tapAge_spec`: the age at which a tap reads.
* `SweptDelay.bounded_step`: a swept delay stays bounded.
-/

namespace ToneGraph.Synth

open Float.Model (Format)
open Float.Model.UnpackedFloat

/-! ## Taps -/

/-- A step up from `u` towards `w`, neither of which is further from zero than `2 * p`.  The step is
only known in units of `p`, so that where `u` lies decides how long it may be. -/
private theorem abs_add_le_of_step_up {u w t p : ℚ} (hu : |u| ≤ 2 * p) (hw : |w| ≤ 2 * p)
    (ht : 0 ≤ t) (hstep : ∀ j : Nat, j ≤ 4 → w - u ≤ j * p → t ≤ j * p) :
    |u + t| ≤ 3 * p := by
  rw [abs_le] at hu hw ⊢
  constructor
  · linarith
  · by_cases hhigh : p ≤ u
    · have hone := hstep 1 (by decide) (by push_cast; linarith)
      push_cast at hone
      linarith
    · by_cases hnonneg : 0 ≤ u
      · have htwo := hstep 2 (by decide) (by push_cast; linarith)
        push_cast at htwo
        linarith
      · by_cases hlow : -p ≤ u
        · have hthree := hstep 3 (by decide) (by push_cast; linarith)
          push_cast at hthree
          linarith
        · have hfour := hstep 4 (by decide) (by push_cast; linarith)
          push_cast at hfour
          linarith

/-- A step from `u` towards `w`, up or down. -/
private theorem abs_add_le_of_step {u w t p : ℚ} (hu : |u| ≤ 2 * p) (hw : |w| ≤ 2 * p)
    (hup : 0 ≤ w - u → 0 ≤ t) (hdown : w - u ≤ 0 → t ≤ 0)
    (hstep : ∀ j : Nat, j ≤ 4 → |w - u| ≤ j * p → |t| ≤ j * p) : |u + t| ≤ 3 * p := by
  rcases le_total 0 (w - u) with hsign | hsign
  · have ht := hup hsign
    rw [abs_of_nonneg hsign, abs_of_nonneg ht] at hstep
    exact abs_add_le_of_step_up hu hw ht hstep
  · have ht := hdown hsign
    rw [abs_of_nonpos hsign, abs_of_nonpos ht] at hstep
    have hneg := abs_add_le_of_step_up (u := -u) (w := -w) (t := -t) (p := p)
      (by rwa [abs_neg]) (by rwa [abs_neg]) (by linarith)
      (fun j hj hle => hstep j hj (by linarith))
    rwa [← neg_add, abs_neg] at hneg

/-- Between two values a tap reads at most half as much again as either may be, for the way from one
to the other is rounded. -/
theorem within_between {s0 s1 f : Float} (h0 : Within ((128 : Nat) * unit) s0)
    (h1 : Within ((128 : Nat) * unit) s1) (hf : f.isFinite = true) (hzero : 0 ≤ value f)
    (hone : value f ≤ 1) : Within ((192 : Nat) * unit) (s0 + f * (s1 - s0)) := by
  have hway : |value s1 - value s0| ≤ (256 : Nat) * unit := by
    have := abs_sub (value s1) (value s0)
    have := h0.abs_le
    have := h1.abs_le
    push_cast at *
    linarith
  have hd := rounded_value_sub h1.isFinite h0.isFinite (gauge_unit.multiple (by decide)) hway
  have hshare : |value f * value (s1 - s0)| ≤ |value (s1 - s0)| := by
    rw [abs_mul, abs_of_nonneg hzero]
    exact mul_le_of_le_one_left (abs_nonneg _) hone
  have ht := rounded_value_mul hf hd.isFinite (representable_value (s1 - s0)) hshare
  have hstep : ∀ j : Nat, j ≤ 4 → |value s1 - value s0| ≤ j * ((64 : Nat) * unit) →
      |value (f * (s1 - s0))| ≤ j * ((64 : Nat) * unit) := by
    intro j hj hle
    rw [← mul_assoc, ← Nat.cast_mul] at hle ⊢
    have hdle := hd.abs_le (gauge_unit.multiple (by omega)) hle
    exact (ht.abs_le (representable_value (s1 - s0)) hshare).trans hdle
  have hbound : |value s0 + value (f * (s1 - s0))| ≤ (192 : Nat) * unit := by
    have habs := abs_add_le_of_step (t := value (f * (s1 - s0))) (p := (64 : Nat) * unit)
      (by have := h0.abs_le; push_cast at *; linarith)
      (by have := h1.abs_le; push_cast at *; linarith)
      (fun h => ht.nonneg (mul_nonneg hzero (hd.nonneg h)))
      (fun h => ht.nonpos (mul_nonpos_of_nonneg_of_nonpos hzero (hd.nonpos h))) hstep
    push_cast at *
    linarith
  exact (rounded_value_add h0.isFinite ht.isFinite (gauge_unit.multiple (by decide)) hbound).within
    (gauge_unit.multiple (by decide)) hbound

/-- A tap at an age that is a number below all counts. -/
theorem Ring.within_tap {r : Ring} (h : r.All (Within ((128 : Nat) * unit))) {age : Float}
    (hage : age.isFinite = true) (hzero : 0 ≤ value age) (hle : value age ≤ 2 ^ 64) :
    Within ((192 : Nat) * unit) (r.tap age) := by
  obtain ⟨hf, hnonneg, hone⟩ := fraction_spec hage hzero hle
  have hslot : ∀ slot, Within ((128 : Nat) * unit) (r.get slot) :=
    h.get (gauge_unit.within_zero _)
  exact within_between (hslot _) (hslot _) hf hnonneg hone

/-! ## Ages -/

theorem value_one : value 1.0 = 1 := by
  show (((2 ^ 52 : Nat) : Int) : ℚ) * 2 ^ (-52 : Int) = 1
  norm_num

theorem value_pos {x : Float} (hfinite : x.isFinite = true) (hpos : 0.0 < x) : 0 < value x :=
  (lt_iff_value_lt (by decide) hfinite).1 hpos

/-- What a sweep may be for its ages to be numbers and its ring to keep its bounds. -/
structure SweepShape.Sound (shape : SweepShape) : Prop where
  base : shape.base.isFinite = true
  depth : shape.depth.isFinite = true
  depth_pos : 0.0 < shape.depth
  feedback : Within (1 / 2) shape.feedback

theorem sound_chorusShape : chorusShape.Sound :=
  ⟨by decide, by decide, by decide, within_zero (by norm_num)⟩

theorem sound_flangerShape : flangerShape.Sound :=
  ⟨by decide, by decide, by decide,
    @within_of_unpack _ .positive 4503599627370496 (-53) (by decide) _ rfl (by norm_num)⟩

/-- The last age of a ring whose length has been a count. -/
theorem longest_spec {n : Nat} (h : n < 2 ^ 64) :
    (larger (Float.ofNat n) 1.0).isFinite = true ∧ 1 ≤ value (larger (Float.ofNat n) 1.0) ∧
      value (larger (Float.ofNat n) 1.0) ≤ 2 ^ 64 := by
  have hpower := representable_two_pow (n := 64) (by decide)
  have hle : (n : ℚ) ≤ 2 ^ 64 := by exact_mod_cast h.le
  have hround := rounded_ofNat n hpower hle
  have hmost : value (Float.ofNat n) ≤ 2 ^ 64 :=
    (le_abs_self _).trans (hround.abs_le hpower (by rwa [abs_of_nonneg n.cast_nonneg]))
  obtain ⟨hfinite, hvalue⟩ := value_larger hround.isFinite (show (1.0 : Float).isFinite by decide)
  rw [hvalue, value_one]
  exact ⟨hfinite, le_max_right _ _, max_le hmost (by norm_num)⟩

/-- The age at which a tap reads is a number if the sweep is. -/
theorem SweepShape.Sound.tapAge_spec {shape : SweepShape} (h : shape.Sound) {sampleRate : Float}
    (hfinite : sampleRate.isFinite = true) (hpos : 0.0 < sampleRate) {length : Nat}
    (hlength : length - 2 < 2 ^ 64) {sweep : Float} (hsweep : sweep.isNaN = false) :
    let age := shape.tapAge sampleRate length sweep
    age.isFinite = true ∧ 0 ≤ value age ∧ value age ≤ 2 ^ 64 := by
  intro age
  obtain ⟨hlongest, hlow, hhigh⟩ := longest_spec hlength
  have hmoved : (shape.depth * sweep).isNaN = false :=
    isNaN_mul_of_ne h.depth (value_pos h.depth h.depth_pos).ne' hsweep
  have hnumber : ((shape.base + shape.depth * sweep) * sampleRate).isNaN = false := by
    rw [float_mul_comm]
    exact isNaN_mul_of_ne hfinite (value_pos hfinite hpos).ne' (isNaN_add h.base hmoved)
  obtain ⟨hage, hleast, hmost⟩ := clamp_spec (by decide) hlongest (value_one ▸ hlow) hnumber
  rw [value_one] at hleast
  exact ⟨hage, zero_le_one.trans hleast, hmost.trans hhigh⟩

namespace SweptDelay

/-- The value of the wave that sweeps in the next tick. -/
def sweepValue (d : SweptDelay) : Float :=
  (2.0 * pi * d.sweep.phase).sin

/-- A swept delay that is far from overflow, and whose ages can be numbers. -/
structure Bounded (d : SweptDelay) : Prop where
  shape : d.shape.Sound
  rate : d.sampleRate.isFinite = true
  rate_pos : 0.0 < d.sampleRate
  length : d.ring.length - 2 < 2 ^ 64
  ring : d.ring.All (Within ((128 : Nat) * unit))
  lastWet : Within ((192 : Nat) * unit) d.lastWet

theorem bounded_silent {shape : SweepShape} (hshape : shape.Sound) {sampleRate : Float}
    (hrate : sampleRate.isFinite = true) (hpos : 0.0 < sampleRate) :
    (silent shape sampleRate).Bounded := by
  refine ⟨hshape, hrate, hpos, ?_, Ring.all_silent (gauge_unit.within_zero _) _,
    gauge_unit.within_zero _⟩
  have hcount : toCount (sampleRate * shape.buffer) < 2 ^ 64 := UInt64.toNat_lt _
  show (Ring.silent (toCount (sampleRate * shape.buffer) + 2)).length - 2 < 2 ^ 64
  rw [Ring.length_silent]
  omega

/-- The feedback is less than what it takes to fill the bounds, and so is the tap. -/
theorem bounded_step {d : SweptDelay} (h : d.Bounded) (hvalue : d.sweepValue.isNaN = false)
    {input : Float} (hinput : Tolerable loudest input) (rate mix : Float) :
    (d.step input rate mix).2.Bounded := by
  obtain ⟨ring, sweep, sampleRate, shape, lastWet⟩ := d
  obtain ⟨hshape, hrate, hpos, hlength, hring, hwet⟩ := h
  have hback : Within ((96 : Nat) * unit) (lastWet * shape.feedback) :=
    hwet.mul_units hshape.feedback gauge_unit (by norm_num) (by decide)
  have hwritten : Within ((128 : Nat) * unit) (finiteOrZero input + lastWet * shape.feedback) :=
    (hinput.within within_loudest).add_units hback gauge_unit (by decide) (by decide)
  have hput := hring.put hwritten
  have hlength' : (ring.put (finiteOrZero input + lastWet * shape.feedback)).length - 2 <
      2 ^ 64 := by
    rw [Ring.length_put]
    exact hlength
  obtain ⟨hage, hzero, hle⟩ := hshape.tapAge_spec hrate hpos hlength' hvalue
  exact ⟨hshape, hrate, hpos, hlength', hput, Ring.within_tap hput hage hzero hle⟩

end SweptDelay

end ToneGraph.Synth
