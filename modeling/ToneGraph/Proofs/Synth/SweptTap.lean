import ToneGraph.Proofs.Synth.Ring
import ToneGraph.Proofs.Synth.SweptHeadroom
/-!
# What a swept tap reads

A swept delay writes the value of a tick and then reads between two slots, before it goes on to the
next one.  The newer of the two slots holds what was written as many ticks ago as the whole part of
the age says, and the older one holds the value before that.  This needs one slot more than the age
has whole ticks: in a ring that is shorter, the older slot would be the one just written.

A ring of three slots or more is long enough for every age that a sweep asks for, also where the
sweep gives no number at all.

## Main definitions

* `SweptDelay.written`: what a tick writes.
* `SweptDelay.atTap`: the ring at the moment where the tap reads it.
* `Ring.TapInside`: no subtraction of a tap goes below zero, and no slot is beyond the end.

## Main statements

* `Ring.Records.tap_eq`: a tap reads between two writes that follow each other.
* `SweepShape.toCount_tapAge`: the ages of a sweep fit its ring.
* `SweptDelay.tap_between_writes`: both, in every tick of every run.
-/

namespace ToneGraph.Synth

/-! ## Taps of rings -/

namespace Ring

/-- What a tap computes on its way to two slots of a ring.  The arithmetic is that of counts, which
knows nothing below zero, and the two slots are slots of the ring at every age. -/
structure TapInside (r : Ring) : Prop where
  two_le : 2 ≤ r.length
  position_lt : r.position < r.length
  back_le : ∀ age, age % r.length ≤ r.position + r.length
  newer_lt : ∀ age, r.slotAgo age < r.length
  one_le : ∀ age, 1 ≤ r.slotAgo age + r.length
  older_lt : ∀ age, r.slotBefore (r.slotAgo age) < r.length

theorem tapInside {r : Ring} (htwo : 2 ≤ r.length) (hposition : r.position < r.length) :
    r.TapInside where
  two_le := htwo
  position_lt := hposition
  back_le := fun age => by
    have hback := Nat.mod_lt age (show 0 < r.length by omega)
    omega
  newer_lt := fun age => r.slotAgo_lt age (by omega)
  one_le := fun _ => by omega
  older_lt := fun _ => r.slotBefore_lt _ (by omega)

/-- A tap at an age reads between what was written as many ticks ago as the age has whole ticks, and
what was written before that. -/
theorem Records.tap_eq {r : Ring} {w : Nat → Float} {n : Nat} (h : r.Records w n) {age : Float}
    (hage : toCount age + 2 ≤ r.length) :
    (r.put (w n)).tap age = ago (toCount age) w n +
      (age - Float.ofNat (toCount age)) *
        (ago (toCount age + 1) w n - ago (toCount age) w n) := by
  unfold tap
  simp only [slotAgo_put, slotBefore_put, slotBefore_slotAgo h.position
    (show toCount age + 1 < r.length by omega)]
  simp only [h.get_slotAgo (show toCount age < r.length by omega),
    h.get_slotAgo (show toCount age + 1 < r.length by omega)]

end Ring

/-! ## Ages -/

/-- The last age that a ring of at least three slots is read at. -/
theorem value_longest {length : Nat} (hthree : 3 ≤ length) (hlength : length ≤ 2 ^ 53) :
    let longest := larger (Float.ofNat (length - 2)) 1.0
    longest.isFinite = true ∧ value longest = (length - 2 : Nat) := by
  have hrepresentable := representable_natCast (n := length - 2) (by omega)
  have hround := rounded_ofNat (length - 2) hrepresentable le_rfl
  have hvalue : value (Float.ofNat (length - 2)) = (length - 2 : Nat) :=
    hround.valueOf_eq (by rwa [abs_of_nonneg (Nat.cast_nonneg _)])
  have hone : (1 : ℚ) ≤ (length - 2 : Nat) := by exact_mod_cast (by omega : 1 ≤ length - 2)
  obtain ⟨hfinite, hlarger⟩ := value_larger hround.isFinite (show (1.0 : Float).isFinite by decide)
  rw [hvalue, value_one, max_eq_left hone] at hlarger
  exact ⟨hfinite, hlarger⟩

/-- A ring of at least three slots is long enough for every age of a sweep.  What is no number
counts as an age of no ticks. -/
theorem SweepShape.toCount_tapAge (shape : SweepShape) (sampleRate : Float) {length : Nat}
    (hthree : 3 ≤ length) (hlength : length ≤ 2 ^ 53) (sweep : Float) :
    toCount (shape.tapAge sampleRate length sweep) + 2 ≤ length := by
  obtain ⟨hfinite, hvalue⟩ := value_longest hthree hlength
  have hone : value 1.0 ≤ (length - 2 : Nat) := by
    rw [value_one]
    exact_mod_cast (by omega : 1 ≤ length - 2)
  unfold tapAge
  dsimp only
  cases hnumber : ((shape.base + shape.depth * sweep) * sampleRate).isNaN with
  | true =>
      rw [clamp_of_isNaN hnumber, toCount_of_isNaN hnumber]
      omega
  | false =>
      obtain ⟨hage, hlow, hhigh⟩ := clamp_spec (by decide) hfinite (hvalue ▸ hone) hnumber
      have hnonneg : (0 : ℚ) ≤ value 1.0 := by rw [value_one]; norm_num
      obtain ⟨n, -, hwhole, -, hcount⟩ := toCount_spec hage (hnonneg.trans hlow)
      have hle : n ≤ length - 2 := by exact_mod_cast (hvalue ▸ hwhole.trans hhigh)
      rw [hcount]
      omega

/-! ## Swept delays -/

namespace SweptDelay

/-- What a tick with some input writes: the input, and what is fed back of the last tap. -/
def written (d : SweptDelay) (input : Float) : Float :=
  finiteOrZero input + d.lastWet * d.shape.feedback

/-- The ring in a tick with some input at the moment where the tap reads it.  The value of the tick
is written, and the position is still that of its slot. -/
def atTap (d : SweptDelay) (input : Float) : Ring :=
  d.ring.put (d.written input)

/-- The age at which the tap reads in the next tick. -/
def tapAge (d : SweptDelay) : Float :=
  d.shape.tapAge d.sampleRate d.ring.length d.sweepValue

/-- A tick reads the ring once, at the age of the sweep, and then goes on to the next slot. -/
theorem step_eq (d : SweptDelay) (input rate mix : Float) :
    d.step input rate mix =
      (finiteOrZero input * (1.0 - share mix) + (d.atTap input).tap d.tapAge * share mix,
        { d with
          ring := (d.atTap input).move
          sweep := (d.sweep.step rate d.sampleRate).2
          lastWet := (d.atTap input).tap d.tapAge }) := by
  obtain ⟨ring, sweep, sampleRate, shape, lastWet⟩ := d
  unfold step tapAge
  simp only [Ring.length_put]
  rfl

/-- A tick of a swept delay, whose inputs and parameters are known in all ticks. -/
abbrev stepOn (x rate mix : Nat → Float) (n : Nat) (d : SweptDelay) : Float × SweptDelay :=
  d.step (x n) (rate n) (mix n)

section Run

variable (shape : SweepShape) (sampleRate : Float) (x rate mix : Nat → Float)

/-- Before a tick the ring of a swept delay holds what the ticks before it wrote. -/
theorem records_states (n : Nat) :
    let d := states (stepOn x rate mix) (silent shape sampleRate)
    (d n).ring.Records (fun k => (d k).written (x k)) n ∧
      (d n).ring.length = toCount (sampleRate * shape.buffer) + 2 := by
  intro d
  induction n with
  | zero => exact ⟨Ring.records_silent _ _, Ring.length_silent _⟩
  | succ n ih =>
      obtain ⟨hrecords, hlength⟩ := ih
      have hring : (d (n + 1)).ring = (d n).ring.push ((d n).written (x n)) := by
        show (stepOn x rate mix n (d n)).2.ring = _
        rw [stepOn, step_eq]
        rfl
      rw [hring]
      exact ⟨hrecords.push, (Ring.length_push _ _).trans hlength⟩

/-- In every tick of a swept delay, the tap reads between two writes that follow each other, the
newer of which is as many ticks old as the age has whole ticks.  Before the first tick there was
silence.  This holds of every age that leaves two slots of the ring, and if the ring has at least
three, of the age at which the tick itself reads.

Whatever the age, no arithmetic on the way to the two slots goes below zero or beyond the end. -/
theorem tap_between_writes (n : Nat) :
    let d : Nat → SweptDelay := states (stepOn x rate mix) (silent shape sampleRate)
    let written := fun k => (d k).written (x k)
    let ring := (d n).atTap (x n)
    ring.length = toCount (sampleRate * shape.buffer) + 2 ∧
    (d (n + 1)).ring = ring.move ∧ (d (n + 1)).lastWet = ring.tap (d n).tapAge ∧
    (∀ age, toCount age + 2 ≤ ring.length → ring.tap age = ago (toCount age) written n +
      (age - Float.ofNat (toCount age)) *
        (ago (toCount age + 1) written n - ago (toCount age) written n)) ∧
    (3 ≤ ring.length → ring.length ≤ 2 ^ 53 → toCount (d n).tapAge + 2 ≤ ring.length) ∧
    ring.TapInside := by
  intro d written ring
  obtain ⟨hrecords, hbuffer⟩ := records_states shape sampleRate x rate mix n
  have hbuffer : (d n).ring.length = toCount (sampleRate * shape.buffer) + 2 := hbuffer
  have hlength : ring.length = (d n).ring.length := Ring.length_put _ _
  have htwo : 2 ≤ ring.length := by omega
  have hposition : ring.position < ring.length := hlength ▸ hrecords.position_lt (by omega)
  have hstep : d (n + 1) = (stepOn x rate mix n (d n)).2 := rfl
  rw [stepOn, step_eq] at hstep
  refine ⟨hlength.trans hbuffer, ?_, ?_, ?_, ?_, Ring.tapInside htwo hposition⟩
  · rw [hstep]
  · rw [hstep]
  · intro age hage
    exact hrecords.tap_eq (hlength ▸ hage)
  · intro hthree hmost
    rw [hlength] at hthree hmost ⊢
    exact SweepShape.toCount_tapAge _ _ hthree hmost _

end Run

/-- At a thousand samples a second a flanger has twelve slots.  In its third tick, halfway between
one tick ago and two ticks ago lies the mean of what the first two ticks wrote, and the tick itself
reads between two writes as well. -/
theorem flanger_between_first_writes :
    let d := states (stepOn (fun _ => 1.0) (fun _ => 0.5) (fun _ => 0.5)) (.flanger 1000.0)
    let ring := (d 2).atTap 1.0
    (ring.length = 12 ∧ toCount 1.5 + 2 ≤ ring.length ∧ toCount (d 2).tapAge + 2 ≤ ring.length) ∧
    ring.tap 1.5 = (d 1).written 1.0 + 0.5 * ((d 0).written 1.0 - (d 1).written 1.0) ∧
    ring.TapInside := by
  intro d ring
  obtain ⟨hlength, -, -, htap, hown, hinside⟩ := tap_between_writes flangerShape 1000.0
    (fun _ => 1.0) (fun _ => 0.5) (fun _ => 0.5) 2
  have hbuffer : toCount (1000.0 * flangerShape.buffer) + 2 = 12 := by decide
  have hlength : ring.length = 12 := hlength.trans hbuffer
  have hage : toCount 1.5 + 2 ≤ ring.length := by
    rw [hlength]
    decide
  have hshare : (1.5 : Float) - Float.ofNat (toCount 1.5) = 0.5 := by decide
  have htap := htap 1.5 hage
  rw [hshare] at htap
  exact ⟨⟨hlength, hage, hown (by omega) (by omega)⟩, htap, hinside⟩

end SweptDelay

end ToneGraph.Synth
