import ToneGraph.Proofs.Synth.Value
import ToneGraph.Synth.Biquad
import ToneGraph.Synth.Delay
import ToneGraph.Synth.Reverb
import ToneGraph.Synth.Sweep
/-!
# Headroom of effects

An effect refuses inputs that are not finite, but it adds and multiplies before it remembers.  What
it remembers is finite as long as no such result overflows, and that depends on how loud the inputs
are and on how much of the output is fed back.

Bounds are counted in a gauge, a number of which all small multiples are floats.  A bound that is a
float is kept by rounding, so that the bounds of one tick are composed as if there were none.

* The reverberation feeds back less than what it takes to exceed its bounds.
* A first-order allpass may feed back everything.  Its bound is so far above its input that a sum
  with the input is rounded back to the bound.
* The filter may grow with every tick, for its coefficients may change with every tick, but by no
  more than two bits.

## Main statements

* `Reverb.bounded_step`: a reverberation stays bounded.
* `cascade_rising`: so do the memories of a cascade whose coefficient is at most one.
* `Biquad.bounded_step`: the bound of a filter grows by two bits.
-/

namespace ToneGraph.Synth

open Float.Model (Format)
open Float.Model.UnpackedFloat

/-! ## Gauges -/

/-- A number of which all small multiples are floats. -/
structure Gauge (u : ℚ) : Prop where
  nonneg : 0 ≤ u
  multiple {n : Nat} : n < 512 → Representable Format.binary64 (n * u)

theorem gauge_two_pow {k : Nat} (hk : k ≤ 1015) : Gauge (2 ^ k) := by
  refine ⟨pow_nonneg (by norm_num) k, ?_⟩
  intro n hn
  refine ⟨n * 2 ^ 44, k - 44, ?_, ?_, ?_, ?_⟩
  · show n * 2 ^ 44 < 2 ^ 53
    omega
  · show (-1074 : Int) ≤ k - 44
    omega
  · show (k : Int) - 44 ≤ 971
    omega
  · rw [zpow_sub₀ (by norm_num), zpow_natCast]
    generalize (2 : ℚ) ^ k = p
    push_cast
    ring

theorem within_zero {c : ℚ} (hc : 0 ≤ c) : Within c 0.0 := by
  refine ⟨by decide, ?_⟩
  rw [show value 0.0 = 0 from rfl, abs_zero]
  exact hc

section Bounds

variable {x y : Float} {m n k : Nat} {u : ℚ}

theorem Gauge.within_zero (hu : Gauge u) (n : Nat) : Within (n * u) 0.0 :=
  Synth.within_zero (mul_nonneg n.cast_nonneg hu.nonneg)

theorem Gauge.add_le (hu : Gauge u) (h : m + n ≤ k) : m * u + n * u ≤ k * u := by
  have hcast : (m : ℚ) + n ≤ k := by exact_mod_cast h
  rw [← add_mul]
  exact mul_le_mul_of_nonneg_right hcast hu.nonneg

/-- Bounds of few units add up. -/
theorem Within.add_units (hx : Within (m * u) x) (hy : Within (n * u) y) (hu : Gauge u)
    (h : m + n ≤ k) (hk : k < 512) : Within (k * u) (x + y) :=
  hx.add hy (hu.multiple hk) (hu.add_le h)

theorem Within.sub_units (hx : Within (m * u) x) (hy : Within (n * u) y) (hu : Gauge u)
    (h : m + n ≤ k) (hk : k < 512) : Within (k * u) (x - y) :=
  hx.sub hy (hu.multiple hk) (hu.add_le h)

/-- A factor makes a bound so many times as large, or what units it takes to hold the product. -/
theorem Within.mul_units {q : ℚ} (hx : Within (m * u) x) (hy : Within q y) (hu : Gauge u)
    (h : m * q ≤ n) (hn : n < 512) : Within (n * u) (x * y) := by
  refine hx.mul hy (hu.multiple hn) ?_
  rw [mul_right_comm]
  exact mul_le_mul_of_nonneg_right h hu.nonneg

end Bounds

/-- A finite constant is within its own magnitude. -/
theorem within_of_unpack {x : Float} {s : Sign} {m : Nat} {e : Int} {hm : 0 < m} {c : ℚ}
    (h : x.toModel.unpack = .finite s m e hm) (hle : (m : ℚ) * 2 ^ e ≤ c) : Within c x := by
  refine ⟨?_, ?_⟩
  · show x.toModel.unpack.isFinite = true
    rw [h]
    rfl
  · rw [value, h, valueOf, abs_apply_mul]
    exact hle

theorem within_two_pow_of_unpack {x : Float} {k : Nat} {hm : 0 < 2 ^ 52}
    (h : x.toModel.unpack = .finite .positive (2 ^ 52) (k - 52 : Int) hm) : Within (2 ^ k) x :=
  within_of_unpack h (two_pow_eq_mul k).ge

/-! ## Inputs -/

/-- Whether an input is no louder than a limit if it is finite.  All other inputs count as
silence. -/
def Tolerable (limit x : Float) : Prop :=
  x.isFinite = true → x.abs ≤ limit

instance (limit x : Float) : Decidable (Tolerable limit x) :=
  inferInstanceAs (Decidable (x.isFinite = true → x.abs ≤ limit))

theorem Tolerable.within {limit x : Float} {c : ℚ} (h : Tolerable limit x)
    (hlimit : Within c limit) : Within c (finiteOrZero x) := by
  unfold finiteOrZero
  split
  · next hfinite =>
      have hle := (le_iff_value_le (by rwa [isFinite_abs]) hlimit.isFinite).1 (h hfinite)
      rw [value_abs] at hle
      exact ⟨hfinite, hle.trans ((le_abs_self _).trans hlimit.abs_le)⟩
  · exact within_zero ((abs_nonneg _).trans hlimit.abs_le)

/-- The gauge of the effects that feed back a share of their output: one thirty-second of their
loudest input. -/
def unit : ℚ :=
  2 ^ 1015

theorem gauge_unit : Gauge unit :=
  gauge_two_pow (by decide)

/-- The loudest input of effects that feed back a share of their output: two to the 1020th power. -/
def loudest : Float :=
  Float.ofBits 0x7FB0000000000000

theorem within_loudest : Within ((32 : Nat) * unit) loudest := by
  have hpow : (2 : ℚ) ^ 1020 = 2 ^ 5 * 2 ^ 1015 := by rw [← pow_add]
  have hcount : ((32 : Nat) : ℚ) * unit = 2 ^ 1020 := by
    rw [unit, hpow]
    norm_num
  rw [hcount]
  exact @within_two_pow_of_unpack _ 1020 (by decide) rfl

/-- The loudest input of a cascade: two to the 800th power. -/
def cascadeLoudest : Float :=
  Float.ofBits 0x71F0000000000000

theorem within_cascadeLoudest : Within (2 ^ 800) cascadeLoudest :=
  @within_two_pow_of_unpack _ 800 (by decide) rfl

/-! ## Rings -/

namespace Ring

/-- Every slot holds a value of some kind. -/
def All (P : Float → Prop) (r : Ring) : Prop :=
  ∀ x ∈ r.slots, P x

variable {P : Float → Prop} {r : Ring} {x : Float}

theorem all_silent (h : P 0.0) (n : Nat) : (silent n).All P := by
  intro x hx
  rw [Array.eq_of_mem_replicate hx]
  exact h

theorem All.put (h : r.All P) (hx : P x) : (r.put x).All P := by
  intro y hy
  rcases Array.mem_or_eq_of_mem_setIfInBounds hy with hold | rfl
  · exact h y hold
  · exact hx

theorem All.push (h : r.All P) (hx : P x) : (r.push x).All P :=
  h.put hx

theorem All.get (h : r.All P) (hzero : P 0.0) (slot : Nat) : P (r.get slot) := by
  rw [Ring.get, Array.getD_eq_getD_getElem?]
  cases hslot : r.slots[slot]? with
  | none => exact hzero
  | some y => exact h y (Array.mem_of_getElem? hslot)

theorem All.oldest (h : r.All P) (hzero : P 0.0) : P r.oldest :=
  h.get hzero r.position

theorem All.mono {Q : Float → Prop} (h : r.All P) (hle : ∀ x, P x → Q x) : r.All Q :=
  fun x hx => hle x (h x hx)

end Ring

/-- A ring of finite values only. -/
abbrev Ring.AllFinite (r : Ring) : Prop :=
  r.All (·.isFinite = true)

theorem Ring.All.finite {c : ℚ} {r : Ring} (h : r.All (Within c)) : r.AllFinite :=
  h.mono fun _ hx => hx.isFinite

/-- A delay line remembers inputs and nothing else. -/
theorem DelayLine.allFinite_step {d : DelayLine} (h : d.ring.AllFinite) (input : Float) :
    (d.step input).2.ring.AllFinite := by
  unfold step
  split
  · exact h
  · exact h.push (isFinite_finiteOrZero input)

/-! ## Reverberation -/

namespace Comb

/-- A comb whose ring and store are far below the greatest float. -/
structure Bounded (c : Comb) : Prop where
  ring : c.ring.All (Within ((16 : Nat) * unit))
  store : Within ((17 : Nat) * unit) c.store

theorem bounded_silent (length : Nat) : (silent length).Bounded :=
  ⟨Ring.all_silent (gauge_unit.within_zero _) _, gauge_unit.within_zero _⟩

theorem within_keep : Within (13 / 16) (1.0 - combDamping) :=
  @within_of_unpack _ .positive 7205759403792794 (-53) (by decide) _ rfl (by norm_num)

theorem within_damping : Within (13 / 64) combDamping :=
  @within_of_unpack _ .positive 7205759403792794 (-55) (by decide) _ rfl (by norm_num)

theorem within_feedback : Within (27 / 32) combFeedback :=
  @within_of_unpack _ .positive 7566047373982433 (-53) (by decide) _ rfl (by norm_num)

/-- What is fed back is less than what it takes to fill the bounds. -/
theorem bounded_step {c : Comb} (h : c.Bounded) {feed : Float}
    (hfeed : Within ((1 : Nat) * unit) feed) :
    Within ((16 : Nat) * unit) (c.step feed).1 ∧ (c.step feed).2.Bounded := by
  have hout : Within ((16 : Nat) * unit) c.ring.oldest :=
    h.ring.oldest (gauge_unit.within_zero _)
  have hkept : Within ((13 : Nat) * unit) (c.ring.oldest * (1.0 - combDamping)) :=
    hout.mul_units within_keep gauge_unit (by norm_num) (by decide)
  have hdamped : Within ((4 : Nat) * unit) (c.store * combDamping) :=
    h.store.mul_units within_damping gauge_unit (by norm_num) (by decide)
  have hstore : Within ((17 : Nat) * unit) (c.step feed).2.store :=
    hkept.add_units hdamped gauge_unit (by decide) (by decide)
  have hback : Within ((15 : Nat) * unit) ((c.step feed).2.store * combFeedback) :=
    hstore.mul_units within_feedback gauge_unit (by norm_num) (by decide)
  have hwritten : Within ((16 : Nat) * unit) (feed + (c.step feed).2.store * combFeedback) :=
    hfeed.add_units hback gauge_unit (by decide) (by decide)
  exact ⟨hout, h.ring.push hwritten, hstore⟩

end Comb

/-- A bank of combs adds up to what its combs may hold. -/
theorem stepCombs_bounded {feed : Float} (hfeed : Within ((1 : Nat) * unit) feed)
    {combs : List Comb} (h : ∀ c ∈ combs, c.Bounded) {sum : Float} {n : Nat}
    (hsum : Within (n * unit) sum) (hn : n + 16 * combs.length < 512) :
    Within ((n + 16 * combs.length : Nat) * unit) (stepCombs feed sum combs).1 ∧
      (stepCombs feed sum combs).2.length = combs.length ∧
      ∀ c ∈ (stepCombs feed sum combs).2, c.Bounded := by
  induction combs generalizing sum n with
  | nil => exact ⟨hsum, rfl, h⟩
  | cons c rest ih =>
      rw [List.length_cons] at hn ⊢
      obtain ⟨hout, hnext⟩ := Comb.bounded_step (h c List.mem_cons_self) hfeed
      have hadded : Within ((n + 16 : Nat) * unit) (sum + (c.step feed).1) :=
        hsum.add_units hout gauge_unit (le_refl _) (by omega)
      obtain ⟨htotal, hlength, hrest⟩ := ih (fun d hd => h d (List.mem_cons_of_mem c hd)) hadded
        (by omega)
      refine ⟨?_, congrArg (· + 1) hlength, ?_⟩
      · rwa [show n + 16 * (rest.length + 1) = n + 16 + 16 * rest.length by omega]
      · intro d hd
        rcases List.mem_cons.1 hd with rfl | hlater
        · exact hnext
        · exact hrest d hlater

namespace Allpass

theorem within_feedback : Within (1 / 2) allpassFeedback :=
  @within_of_unpack _ .positive 4503599627370496 (-53) (by decide) _ rfl (by norm_num)

/-- An allpass that holds at most twice its input goes on to do so, and gives at most three times
as much. -/
theorem bounded_step {a : Allpass} {n : Nat} (hn : 2 * n < 512)
    (h : a.ring.All (Within ((2 * n : Nat) * unit))) {x : Float} (hx : Within (n * unit) x) :
    (3 * n < 512 → Within ((3 * n : Nat) * unit) (a.step x).1) ∧
      (a.step x).2.ring.All (Within ((2 * n : Nat) * unit)) := by
  have hdelayed : Within ((2 * n : Nat) * unit) a.ring.oldest :=
    h.oldest (gauge_unit.within_zero _)
  have hback : Within (n * unit) (a.ring.oldest * allpassFeedback) :=
    hdelayed.mul_units within_feedback gauge_unit (by push_cast; linarith) (by omega)
  constructor
  · intro hthree
    exact hdelayed.sub_units hx gauge_unit (by omega) hthree
  · exact h.push (hx.add_units hback gauge_unit (by omega) hn)

end Allpass

namespace Reverb

/-- A reverberation that is far from overflow. -/
structure Bounded (r : Reverb) : Prop where
  four_combs : r.combs.length = 4
  combs : ∀ c ∈ r.combs, c.Bounded
  allpasses : ∃ a b : Allpass, r.allpasses = [a, b] ∧ a.ring.All (Within ((128 : Nat) * unit)) ∧
    b.ring.All (Within ((384 : Nat) * unit))

theorem bounded_silent (sampleRate : Float) : (silent sampleRate).Bounded := by
  refine ⟨rfl, ?_, _, _, rfl, ?_, ?_⟩
  · intro c hc
    obtain ⟨t, -, rfl⟩ := List.mem_map.1 hc
    exact Comb.bounded_silent _
  · exact Ring.all_silent (gauge_unit.within_zero _) _
  · exact Ring.all_silent (gauge_unit.within_zero _) _

theorem within_gain : Within (1 / 32) reverbInputGain :=
  @within_of_unpack _ .positive 8646911284551352 (-58) (by decide) _ rfl (by norm_num)

theorem bounded_step {r : Reverb} (h : r.Bounded) {input : Float}
    (hinput : Tolerable loudest input) (amount : Float) : (r.step input amount).2.Bounded := by
  have hfeed : Within ((1 : Nat) * unit) (finiteOrZero input * reverbInputGain) :=
    (hinput.within within_loudest).mul_units within_gain gauge_unit (by norm_num) (by decide)
  have hnone : Within ((0 : Nat) * unit) 0.0 := gauge_unit.within_zero 0
  obtain ⟨hsum, hlength, hcombs⟩ := stepCombs_bounded hfeed h.combs hnone
    (by rw [h.four_combs]; decide)
  rw [h.four_combs] at hsum hlength
  obtain ⟨a, b, hallpasses, ha, hb⟩ := h.allpasses
  obtain ⟨hfirst, ha⟩ := Allpass.bounded_step (n := 64) (by decide) ha hsum
  obtain ⟨-, hb⟩ := Allpass.bounded_step (n := 192) (by decide) hb (hfirst (by decide))
  refine ⟨hlength, hcombs, _, _, ?_, ha, hb⟩
  show (stepAllpasses _ r.allpasses).2 = _
  rw [hallpasses]
  rfl

end Reverb

/-! ## Cascades -/

/-- Every memory of a cascade is so far above what comes before it that the bound takes in a sum of
both. -/
def Rising : Nat → List Float → Prop
  | _, [] => True
  | n, z :: rest => Within (2 ^ (n + 54)) z ∧ Rising (n + 54) rest

theorem Rising.finite {n : Nat} {stages : List Float} (h : Rising n stages) :
    ∀ z ∈ stages, z.isFinite = true := by
  induction stages generalizing n with
  | nil => nofun
  | cons z rest ih =>
      intro w hw
      rcases List.mem_cons.1 hw with rfl | hlater
      · exact h.1.isFinite
      · exact ih h.2 w hlater

/-- A coefficient of one would let rounding carry the memories up step by step, were the bounds not
so far apart. -/
theorem cascade_rising {a : Float} (ha : Within 1 a) {stages : List Float} {n : Nat} {x : Float}
    (hx : Within (2 ^ n) x) (h : Rising n stages) (hn : n + 54 * stages.length ≤ 1022) :
    Rising n (cascade a x stages).2 := by
  induction stages generalizing n x with
  | nil => trivial
  | cons z rest ih =>
      rw [List.length_cons] at hn
      have hstep : (2 : ℚ) ^ n < 2 ^ ((n + 54 : Nat) - 53 : Int) := by
        rw [← zpow_natCast]
        exact zpow_lt_zpow_right₀ (by norm_num) (by push_cast; omega)
      have hscaled : Within (2 ^ n) (a * x) :=
        ha.mul hx (representable_two_pow (by omega)) (one_mul _).le
      have hy : Within (2 ^ (n + 54)) (a * x + z) :=
        hscaled.add_absorbed h.1 (by omega) (by linarith)
      have hback : Within (2 ^ (n + 54)) (a * (a * x + z)) :=
        ha.mul hy (representable_two_pow (by omega)) (one_mul _).le
      have hz : Within (2 ^ (n + 54)) (x - a * (a * x + z)) :=
        hx.sub_absorbed hback (by omega) (by linarith)
      exact ⟨hz, ih hy h.2 (by omega)⟩

namespace Phaser

/-- The coefficient of the allpasses in the next tick. -/
def nextCoefficient (p : Phaser) : Float :=
  coefficient p.sampleRate (2.0 * pi * p.sweep.phase).sin

theorem rising_silent (sampleRate : Float) : Rising 800 (silent sampleRate).stages := by
  have hzero : ∀ n : Nat, Within (2 ^ n) 0.0 := fun n => within_zero (by positivity)
  exact ⟨hzero _, hzero _, hzero _, hzero _, trivial⟩

end Phaser

/-! ## Filters -/

/-- Coefficients none of which is beyond two, as those of a stable filter are. -/
structure Coefficients.Tame (c : Coefficients) : Prop where
  b0 : Within 2 c.b0
  b1 : Within 2 c.b1
  b2 : Within 2 c.b2
  a1 : Within 2 c.a1
  a2 : Within 2 c.a2

namespace Biquad

/-- A filter whose memories are at most eight times as large as a number. -/
structure Bounded (u : ℚ) (f : Biquad) : Prop where
  z1 : Within ((8 : Nat) * u) f.z1
  z2 : Within ((8 : Nat) * u) f.z2

/-- A tick makes the memories at most four times as large. -/
theorem bounded_step {f : Biquad} {u : ℚ} (hu : Gauge u) (h : f.Bounded u)
    (hf : f.coefficients.Tame) {input : Float} (hinput : Within u (finiteOrZero input)) :
    (f.step input).2.Bounded (4 * u) := by
  have hx : Within ((1 : Nat) * u) (finiteOrZero input) := by rwa [Nat.cast_one, one_mul]
  have hforward : ∀ {c : Float}, Within 2 c → Within ((2 : Nat) * u) (c * finiteOrZero input) := by
    intro c hc
    rw [float_mul_comm]
    exact hx.mul_units hc hu (by norm_num) (by decide)
  have hout : Within ((10 : Nat) * u) (f.step input).1 :=
    (hforward hf.b0).add_units h.z1 hu (by decide) (by decide)
  have hback : ∀ {c : Float}, Within 2 c → Within ((20 : Nat) * u) (c * (f.step input).1) := by
    intro c hc
    rw [float_mul_comm]
    exact hout.mul_units hc hu (by norm_num) (by decide)
  have hfirst : Within ((22 : Nat) * u)
      (f.coefficients.b1 * finiteOrZero input - f.coefficients.a1 * (f.step input).1) :=
    (hforward hf.b1).sub_units (hback hf.a1) hu (by decide) (by decide)
  have hz1 : Within ((32 : Nat) * u) (f.step input).2.z1 :=
    hfirst.add_units h.z2 hu (by decide) (by decide)
  have hz2 : Within ((32 : Nat) * u) (f.step input).2.z2 :=
    (hforward hf.b2).sub_units (hback hf.a2) hu (by decide) (by decide)
  have hcount : ((32 : Nat) : ℚ) * u = (8 : Nat) * (4 * u) := by
    push_cast
    ring
  rw [hcount] at hz1 hz2
  exact ⟨hz1, hz2⟩

end Biquad

end ToneGraph.Synth
