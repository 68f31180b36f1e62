import ToneGraph.Proofs.Synth.SweptHeadroom
/-!
# What effects remember

A run of an effect is a list of ticks.  The memories that it leaves are not the same promise for
every effect.

* An input that is not finite counts as silence for all of them.
* A delay line remembers inputs only, so that its ring is finite after every run.
* The other effects remember results.  Their memories are finite if the inputs leave headroom, and
  if the functions that the effect takes from elsewhere give what its coefficients or ages need.
* An effect that has lost a memory to overflow does not recover, whatever its inputs become.

Without headroom nothing of the kind holds: the two greatest swings are all it takes to silence a
chorus for good.

## Main definitions

* `memoryAfter`: what an effect remembers after some ticks.
* `IgnoresNonFinite`, `Latches`: the first and the last of these promises.

## Main statements

* `memories_of_effects`: all of them.
* `not_allFinite_after_swings`: a chorus that finite inputs put out of order.
-/

namespace ToneGraph.Synth

/-! ## Runs -/

/-- An input and two parameters, of which an effect reads as many as it has. -/
structure Tick where
  input : Float
  first : Float
  second : Float

/-- The same tick with silence for an input that is not finite. -/
def Tick.quieted (t : Tick) : Tick :=
  { t with input := finiteOrZero t.input }

section Runs

variable {σ : Type}

/-- What an effect remembers after some ticks. -/
def memoryAfter (tick : σ → Tick → Float × σ) (start : σ) (ticks : List Tick) : σ :=
  ticks.foldl (fun s t => (tick s t).2) start

/-- Some tick of a run does not find what it needs. -/
def Misses (good : σ → Tick → Prop) (tick : σ → Tick → Float × σ) (start : σ)
    (ticks : List Tick) : Prop :=
  ∃ k t, ticks[k]? = some t ∧ ¬ good (memoryAfter tick start (ticks.take k)) t

/-- Every input that is not finite counts as silence, as far as memories go. -/
def IgnoresNonFinite (tick : σ → Tick → Float × σ) : Prop :=
  ∀ start ticks, memoryAfter tick start (ticks.map Tick.quieted) = memoryAfter tick start ticks

/-- An effect that remembers something that is not finite does so forever. -/
def Latches (tick : σ → Tick → Float × σ) (finite : σ → Prop) : Prop :=
  ∀ start ticks, ¬ finite start → ¬ finite (memoryAfter tick start ticks)

variable {tick : σ → Tick → Float × σ} {s : σ} {ticks : List Tick}

theorem memoryAfter_cons (t : Tick) :
    memoryAfter tick s (t :: ticks) = memoryAfter tick (tick s t).2 ticks := rfl

/-- A bound that may grow with every tick holds at the end, unless a tick does not find what it
needs to keep it. -/
theorem memoryAfter_or_misses (P : Nat → σ → Prop) {good : σ → Tick → Prop} (hstart : P 0 s)
    (htick : ∀ i < ticks.length, ∀ s, ∀ t ∈ ticks, P i s → good s t → P (i + 1) (tick s t).2) :
    P ticks.length (memoryAfter tick s ticks) ∨ Misses good tick s ticks := by
  induction ticks generalizing s P with
  | nil => exact .inl hstart
  | cons t rest ih =>
      by_cases hgood : good s t
      · have hnext := htick 0 (Nat.zero_lt_succ _) s t List.mem_cons_self hstart hgood
        have hlater := ih (fun i => P (i + 1)) hnext fun i hi s u hu =>
          htick (i + 1) (Nat.succ_lt_succ hi) s u (List.mem_cons_of_mem t hu)
        rcases hlater with hend | ⟨k, u, hu, hbad⟩
        · exact .inl hend
        · exact .inr ⟨k + 1, u, hu, hbad⟩
      · exact .inr ⟨0, t, rfl, hgood⟩

/-- What holds at first and is kept by every tick holds at the end. -/
theorem memoryAfter_induction (P : σ → Prop) (hstart : P s)
    (htick : ∀ s, ∀ t ∈ ticks, P s → P (tick s t).2) : P (memoryAfter tick s ticks) := by
  have hend : P (memoryAfter tick s ticks) ∨ Misses (fun _ _ => True) tick s ticks :=
    memoryAfter_or_misses (fun _ => P) hstart fun _ _ s t ht hs _ => htick s t ht hs
  refine hend.resolve_right ?_
  rintro ⟨k, t, -, hbad⟩
  exact hbad trivial

/-- An effect latches if a tick can leave finite memories only where it found them. -/
theorem latches_of_tick {finite : σ → Prop} (h : ∀ s t, finite (tick s t).2 → finite s) :
    Latches tick finite := by
  intro start ticks hstart
  refine memoryAfter_induction (fun s => ¬ finite s) hstart ?_
  intro s t _ hs hnext
  exact hs (h s t hnext)

theorem ignoresNonFinite_of_tick (h : ∀ s t, (tick s t.quieted).2 = (tick s t).2) :
    IgnoresNonFinite tick := by
  intro start ticks
  unfold memoryAfter
  rw [List.foldl_map]
  congr
  funext s t
  exact h s t

end Runs

theorem finiteOrZero_finiteOrZero (x : Float) : finiteOrZero (finiteOrZero x) = finiteOrZero x :=
  if_pos (isFinite_finiteOrZero x)

/-- A ring has lost nothing if what was written needed the value that it replaced. -/
theorem Ring.allFinite_of_push {r : Ring} {x : Float} (h : (r.push x).AllFinite)
    (hx : x.isFinite = true → r.oldest.isFinite = true) : r.AllFinite := by
  intro y hy
  obtain ⟨i, hi⟩ := Array.mem_iff_getElem?.1 hy
  have hslots : (r.push x).slots = r.slots.setIfInBounds r.position x := rfl
  by_cases hposition : r.position = i
  · have hsize : r.position < r.slots.size := by
      rw [hposition]
      exact (Array.getElem?_eq_some_iff.1 hi).1
    have hwritten : (r.push x).slots[i]? = some x := by
      rw [hslots, Array.getElem?_setIfInBounds, if_pos hposition, if_pos hsize]
    have hold := hx (h x (Array.mem_of_getElem? hwritten))
    rwa [Ring.oldest, hposition, Array.getD_eq_getD_getElem?, hi] at hold
  · have hkept : (r.push x).slots[i]? = some y := by
      rw [hslots, Array.getElem?_setIfInBounds, if_neg hposition, hi]
    exact h y (Array.mem_of_getElem? hkept)

/-! ## Delay lines -/

namespace DelayLine

/-- One tick, of which a delay line takes the input only. -/
def tick (d : DelayLine) (t : Tick) : Float × DelayLine :=
  d.step t.input

theorem ignoresNonFinite : IgnoresNonFinite tick := by
  refine ignoresNonFinite_of_tick ?_
  intro d t
  show (d.step (finiteOrZero t.input)).2 = (d.step t.input).2
  unfold step
  split
  · rfl
  · rw [finiteOrZero_finiteOrZero]

theorem allFinite_memoryAfter (length : Nat) (ticks : List Tick) :
    (memoryAfter tick (silent length) ticks).ring.AllFinite := by
  refine memoryAfter_induction (fun d : DelayLine => d.ring.AllFinite) ?_ ?_
  · exact Ring.all_silent (by decide) length
  · intro d t _ hd
    exact allFinite_step hd t.input

end DelayLine

/-! ## Filters -/

namespace Biquad

/-- One tick of an input, a cutoff and a quality. -/
def tick (f : Biquad) (t : Tick) : Float × Biquad :=
  (f.setParams t.first t.second).step t.input

/-- Whether both memories are finite. -/
def AllFinite (f : Biquad) : Prop :=
  f.z1.isFinite = true ∧ f.z2.isFinite = true

/-- The coefficients with which a tick is computed are tame. -/
def TameAt (f : Biquad) (t : Tick) : Prop :=
  (f.setParams t.first t.second).coefficients.Tame

theorem ignoresNonFinite : IgnoresNonFinite tick := by
  refine ignoresNonFinite_of_tick ?_
  intro f t
  show ((f.setParams t.first t.second).step (finiteOrZero t.input)).2 =
    ((f.setParams t.first t.second).step t.input).2
  unfold step
  rw [finiteOrZero_finiteOrZero]

theorem memories_setParams (f : Biquad) (cutoff quality : Float) :
    (f.setParams cutoff quality).z1 = f.z1 ∧ (f.setParams cutoff quality).z2 = f.z2 := by
  unfold setParams
  dsimp only
  split <;> exact ⟨rfl, rfl⟩

theorem Bounded.setParams {u : ℚ} {f : Biquad} (h : f.Bounded u) (cutoff quality : Float) :
    (f.setParams cutoff quality).Bounded u := by
  obtain ⟨hz1, hz2⟩ := f.memories_setParams cutoff quality
  constructor
  · rw [hz1]
    exact h.z1
  · rw [hz2]
    exact h.z2

theorem bounded_rest {u : ℚ} (hu : Gauge u) (mode : FilterMode) (sampleRate : Float) :
    (rest mode sampleRate).Bounded u :=
  Bounded.setParams ⟨hu.within_zero 8, hu.within_zero 8⟩ 1000.0 defaultQuality

/-- The bound of the memories grows by two bits with every tick. -/
theorem allFinite_memoryAfter (mode : FilterMode) (sampleRate : Float) {limit : Float} {bits : Nat}
    {ticks : List Tick} (hlimit : Within (2 ^ bits) limit)
    (hticks : ∀ t ∈ ticks, Tolerable limit t.input) (hbits : bits + 2 * ticks.length ≤ 1017) :
    (memoryAfter tick (rest mode sampleRate) ticks).AllFinite ∨
      Misses TameAt tick (rest mode sampleRate) ticks := by
  by_cases hempty : ticks = []
  · subst hempty
    have hrest := bounded_rest (gauge_two_pow (k := 0) (by decide)) mode sampleRate
    exact .inl ⟨hrest.z1.isFinite, hrest.z2.isFinite⟩
  have hsome : 0 < ticks.length := List.length_pos_iff.2 hempty
  refine Or.imp_left (fun h => ⟨h.z1.isFinite, h.z2.isFinite⟩)
    (memoryAfter_or_misses (fun i f => f.Bounded (2 ^ (bits + 2 * i))) ?_ ?_)
  · exact bounded_rest (gauge_two_pow (by omega)) mode sampleRate
  · intro i hi f t ht hf htame
    have hpow : (2 : ℚ) ^ bits ≤ 2 ^ (bits + 2 * i) :=
      pow_le_pow_right₀ (by norm_num) (by omega)
    have hgrown : (2 : ℚ) ^ (bits + 2 * (i + 1)) = 4 * 2 ^ (bits + 2 * i) := by
      rw [show bits + 2 * (i + 1) = 2 + (bits + 2 * i) by omega, pow_add]
      norm_num
    rw [hgrown]
    exact bounded_step (gauge_two_pow (by omega)) (hf.setParams t.first t.second) htame
      (((hticks t ht).within hlimit).mono hpow)

/-- The first memory alone needs both memories of the tick before. -/
theorem latches : Latches tick AllFinite := by
  refine latches_of_tick ?_
  intro f t h
  obtain ⟨hz1, hz2⟩ := f.memories_setParams t.first t.second
  obtain ⟨hdifference, hsecond⟩ := isFinite_of_add h.1
  obtain ⟨-, hfed⟩ := isFinite_of_sub hdifference
  obtain ⟨-, hfirst⟩ := isFinite_of_add (isFinite_of_mul hfed).2
  exact ⟨hz1 ▸ hfirst, hz2 ▸ hsecond⟩

end Biquad

/-! ## Reverberation -/

/-- Whether the ring and the store of a comb are finite. -/
def Comb.AllFinite (c : Comb) : Prop :=
  c.ring.AllFinite ∧ c.store.isFinite = true

theorem Comb.allFinite_of_step {c : Comb} {feed : Float} (h : (c.step feed).2.AllFinite) :
    c.AllFinite := by
  obtain ⟨hring, hstore⟩ := h
  obtain ⟨hkept, hdamped⟩ := isFinite_of_add hstore
  exact ⟨Ring.allFinite_of_push hring fun _ => (isFinite_of_mul hkept).1,
    (isFinite_of_mul hdamped).1⟩

theorem Allpass.allFinite_of_step {a : Allpass} {x : Float}
    (h : (a.step x).2.ring.AllFinite) : a.ring.AllFinite :=
  Ring.allFinite_of_push h fun hwritten => (isFinite_of_mul (isFinite_of_add hwritten).2).1

theorem allFinite_of_stepCombs {feed : Float} {combs : List Comb} {sum : Float}
    (h : ∀ c ∈ (stepCombs feed sum combs).2, c.AllFinite) : ∀ c ∈ combs, c.AllFinite := by
  induction combs generalizing sum with
  | nil => exact h
  | cons c rest ih =>
      intro d hd
      rcases List.mem_cons.1 hd with rfl | hlater
      · exact Comb.allFinite_of_step (h _ List.mem_cons_self)
      · exact ih (fun e he => h e (List.mem_cons_of_mem _ he)) d hlater

theorem allFinite_of_stepAllpasses {allpasses : List Allpass} {x : Float}
    (h : ∀ a ∈ (stepAllpasses x allpasses).2, a.ring.AllFinite) :
    ∀ a ∈ allpasses, a.ring.AllFinite := by
  induction allpasses generalizing x with
  | nil => exact h
  | cons a rest ih =>
      intro b hb
      rcases List.mem_cons.1 hb with rfl | hlater
      · exact Allpass.allFinite_of_step (h _ List.mem_cons_self)
      · exact ih (fun c hc => h c (List.mem_cons_of_mem _ hc)) b hlater

namespace Reverb

/-- One tick of an input and an amount. -/
def tick (r : Reverb) (t : Tick) : Float × Reverb :=
  r.step t.input t.first

/-- Whether all combs and allpasses are finite. -/
def AllFinite (r : Reverb) : Prop :=
  (∀ c ∈ r.combs, c.AllFinite) ∧ ∀ a ∈ r.allpasses, a.ring.AllFinite

theorem ignoresNonFinite : IgnoresNonFinite tick := by
  refine ignoresNonFinite_of_tick ?_
  intro r t
  show (r.step (finiteOrZero t.input) t.first).2 = (r.step t.input t.first).2
  unfold step
  rw [finiteOrZero_finiteOrZero]

theorem Bounded.allFinite {r : Reverb} (h : r.Bounded) : r.AllFinite := by
  constructor
  · intro c hc
    exact ⟨(h.combs c hc).ring.finite, (h.combs c hc).store.isFinite⟩
  · obtain ⟨a, b, hallpasses, ha, hb⟩ := h.allpasses
    rw [hallpasses]
    intro c hc
    rcases List.mem_pair.1 hc with rfl | rfl
    · exact ha.finite
    · exact hb.finite

theorem allFinite_memoryAfter (sampleRate : Float) {ticks : List Tick}
    (hticks : ∀ t ∈ ticks, Tolerable loudest t.input) :
    (memoryAfter tick (silent sampleRate) ticks).AllFinite := by
  have hbounded : (memoryAfter tick (silent sampleRate) ticks).Bounded :=
    memoryAfter_induction Bounded (bounded_silent sampleRate)
      fun r t ht hr => bounded_step hr (hticks t ht) t.first
  exact hbounded.allFinite

theorem latches : Latches tick AllFinite :=
  latches_of_tick fun _ _ h => ⟨allFinite_of_stepCombs h.1, allFinite_of_stepAllpasses h.2⟩

end Reverb

/-! ## Phasers -/

theorem allFinite_of_cascade {a x : Float} {stages : List Float}
    (h : ∀ z ∈ (cascade a x stages).2, z.isFinite = true) : ∀ z ∈ stages, z.isFinite = true := by
  induction stages generalizing x with
  | nil => exact h
  | cons z rest ih =>
      intro w hw
      rcases List.mem_cons.1 hw with rfl | hlater
      · obtain ⟨-, hfed⟩ := isFinite_of_sub (h _ List.mem_cons_self)
        exact (isFinite_of_add (isFinite_of_mul hfed).2).2
      · exact ih (fun v hv => h v (List.mem_cons_of_mem _ hv)) w hlater

theorem length_cascade (a x : Float) (stages : List Float) :
    (cascade a x stages).2.length = stages.length := by
  induction stages generalizing x with
  | nil => rfl
  | cons z rest ih => exact congrArg (· + 1) (ih _)

namespace Phaser

/-- One tick of an input, a rate and a mix. -/
def tick (p : Phaser) (t : Tick) : Float × Phaser :=
  p.step t.input t.first t.second

/-- Whether all stages are finite. -/
def AllFinite (p : Phaser) : Prop :=
  ∀ z ∈ p.stages, z.isFinite = true

/-- The coefficient of a tick is no further from zero than one. -/
def TameAt (p : Phaser) (_ : Tick) : Prop :=
  Within 1 p.nextCoefficient

theorem ignoresNonFinite : IgnoresNonFinite tick := by
  refine ignoresNonFinite_of_tick ?_
  intro p t
  show (p.step (finiteOrZero t.input) t.first t.second).2 = (p.step t.input t.first t.second).2
  unfold step
  rw [finiteOrZero_finiteOrZero]

theorem allFinite_memoryAfter (sampleRate : Float) {ticks : List Tick}
    (hticks : ∀ t ∈ ticks, Tolerable cascadeLoudest t.input) :
    (memoryAfter tick (silent sampleRate) ticks).AllFinite ∨
      Misses TameAt tick (silent sampleRate) ticks := by
  refine Or.imp_left (fun ⟨hrising, _⟩ => Rising.finite hrising)
    (memoryAfter_or_misses (fun _ p => Rising 800 p.stages ∧ p.stages.length = 4) ?_ ?_)
  · exact ⟨rising_silent sampleRate, rfl⟩
  · rintro _ _ p t ht ⟨hp, hfour⟩ htame
    constructor
    · exact cascade_rising htame ((hticks t ht).within within_cascadeLoudest) hp
        (by rw [hfour]; decide)
    · rw [← hfour]
      exact length_cascade _ _ p.stages

theorem latches : Latches tick AllFinite :=
  latches_of_tick fun _ _ h => allFinite_of_cascade h

end Phaser

/-! ## Swept delays -/

namespace SweptDelay

/-- One tick of an input, a rate and a mix. -/
def tick (d : SweptDelay) (t : Tick) : Float × SweptDelay :=
  d.step t.input t.first t.second

/-- Whether the ring and what was read from it last are finite. -/
def AllFinite (d : SweptDelay) : Prop :=
  d.ring.AllFinite ∧ d.lastWet.isFinite = true

/-- The wave that sweeps gives a tick a number. -/
def NumberAt (d : SweptDelay) (_ : Tick) : Prop :=
  d.sweepValue.isNaN = false

theorem ignoresNonFinite : IgnoresNonFinite tick := by
  refine ignoresNonFinite_of_tick ?_
  rintro ⟨ring, sweep, sampleRate, shape, lastWet⟩ t
  simp only [tick, Tick.quieted, step, finiteOrZero_finiteOrZero]

theorem allFinite_memoryAfter {shape : SweepShape} (hshape : shape.Sound) {sampleRate : Float}
    (hrate : sampleRate.isFinite = true) (hpos : 0.0 < sampleRate)
    {ticks : List Tick} (hticks : ∀ t ∈ ticks, Tolerable loudest t.input) :
    (memoryAfter tick (silent shape sampleRate) ticks).AllFinite ∨
      Misses NumberAt tick (silent shape sampleRate) ticks := by
  refine Or.imp_left (fun h => ⟨h.ring.finite, h.lastWet.isFinite⟩)
    (memoryAfter_or_misses (fun _ => Bounded) ?_ ?_)
  · exact bounded_silent hshape hrate hpos
  · intro _ _ d t ht hd hnumber
    exact bounded_step hd hnumber (hticks t ht) t.first t.second

/-- At a sample rate as low as this, a tap is always between the only two slots. -/
structure TwoSlots (d : SweptDelay) : Prop where
  length : d.ring.length = 2
  position : d.ring.position < 2

/-- A tap of two slots is finite only if both are. -/
theorem isFinite_get_of_tap {r : Ring} (hlength : r.length = 2) {age : Float}
    (h : (r.tap age).isFinite = true) {slot : Nat} (hslot : slot < 2) :
    (r.get slot).isFinite = true := by
  obtain ⟨hnewer, hstep⟩ := isFinite_of_add h
  obtain ⟨holder, -⟩ := isFinite_of_sub (isFinite_of_mul hstep).2
  have hlt : r.slotAgo (toCount age) < 2 := by
    rw [← hlength]
    exact r.slotAgo_lt _ (by omega)
  have hother : r.slotBefore (r.slotAgo (toCount age)) = 1 - r.slotAgo (toCount age) := by
    have hsize : r.slots.size = 2 := hlength
    rw [Ring.slotBefore, hsize]
    omega
  rcases (by omega : slot = r.slotAgo (toCount age) ∨ slot = 1 - r.slotAgo (toCount age)) with
    rfl | rfl
  · exact hnewer
  · rwa [hother] at holder

theorem twoSlots_tick {d : SweptDelay} (h : d.TwoSlots) (t : Tick) :
    (d.tick t).2.TwoSlots := by
  obtain ⟨ring, sweep, sampleRate, shape, lastWet⟩ := d
  have hlength : ∀ x, (ring.put x).length = 2 := fun x => (ring.length_put x).trans h.length
  refine ⟨hlength _, ?_⟩
  exact (hlength _) ▸ (ring.put _).position_move_lt ((hlength _).symm ▸ Nat.zero_lt_two)

/-- What was read from two slots goes into what is written to one of them, and so into what is read
next. -/
theorem not_isFinite_lastWet_tick {d : SweptDelay} (h : d.TwoSlots)
    (hwet : ¬ d.lastWet.isFinite = true) (t : Tick) :
    ¬ (d.tick t).2.lastWet.isFinite = true := by
  obtain ⟨ring, sweep, sampleRate, shape, lastWet⟩ := d
  intro hnext
  have hlength : (ring.put (finiteOrZero t.input + lastWet * shape.feedback)).length = 2 :=
    (ring.length_put _).trans h.length
  have hread := isFinite_get_of_tap hlength hnext h.position
  have hwritten : (ring.put (finiteOrZero t.input + lastWet * shape.feedback)).get ring.position =
      finiteOrZero t.input + lastWet * shape.feedback := by
    have hin : ring.position < ring.slots.size :=
      Nat.lt_of_lt_of_eq h.position h.length.symm
    rw [Ring.get, Ring.put, Array.getD_eq_getD_getElem?, Array.getElem?_setIfInBounds, if_pos rfl,
      if_pos hin]
    rfl
  rw [hwritten] at hread
  exact hwet (isFinite_of_mul (isFinite_of_add hread).2).1

theorem not_isFinite_lastWet {d : SweptDelay} (h : d.TwoSlots) (hwet : ¬ d.lastWet.isFinite = true)
    (ticks : List Tick) : ¬ (memoryAfter tick d ticks).lastWet.isFinite = true := by
  have hend : (memoryAfter tick d ticks).TwoSlots ∧
      ¬ (memoryAfter tick d ticks).lastWet.isFinite = true :=
    memoryAfter_induction (fun d : SweptDelay => d.TwoSlots ∧ ¬ d.lastWet.isFinite = true) ⟨h, hwet⟩
      fun d t _ hd => ⟨twoSlots_tick hd.1 t, not_isFinite_lastWet_tick hd.1 hd.2 t⟩
  exact hend.2

end SweptDelay

/-! ## A chorus out of order -/

/-- The greatest finite sample. -/
def greatest : Float :=
  Float.ofBits 0x7FEFFFFFFFFFFFFF

/-- Finite samples leave nothing when they are multiplied by zero. -/
theorem mul_zero_of_isFinite {x : Float} (hx : x.isFinite = true) :
    x * 0.0 = 0.0 ∨ x * 0.0 = -0.0 := by
  have hx : x.toModel.unpack.isFinite = true := hx
  have hmul : x * 0.0 = Float.ofModel (Float.Model.pack
      (.mul .binary64 x.toModel.unpack (.zero .positive))) := rfl
  rw [hmul]
  generalize x.toModel.unpack = f at hx
  cases f with
  | notANumber | infinity => contradiction
  | zero s | finite s =>
      cases s with
      | positive => exact .inl rfl
      | negative => exact .inr rfl

/-- Between the greatest sample and its negative there is no finite way, in either direction. -/
theorem not_isFinite_tap (age : Float) :
    ¬ (Ring.tap ⟨#[greatest, -greatest], 1⟩ age).isFinite = true := by
  intro h
  let r : Ring := ⟨#[greatest, -greatest], 1⟩
  have hway : (r.get (r.slotBefore (r.slotAgo (toCount age))) -
      r.get (r.slotAgo (toCount age))).isFinite = true :=
    (isFinite_of_mul (isFinite_of_add h).2).2
  have hslot : r.slotAgo (toCount age) < 2 := r.slotAgo_lt _ (by decide)
  rcases (by omega : r.slotAgo (toCount age) = 0 ∨ r.slotAgo (toCount age) = 1) with
    hfirst | hsecond
  · rw [hfirst] at hway
    exact absurd hway (by decide)
  · rw [hsecond] at hway
    exact absurd hway (by decide)

/-- A chorus of two slots that holds the greatest sample reads no finite value once the negative of
that sample is written. -/
theorem not_isFinite_lastWet_swing (sweep : SlowSine) (wet : Float) :
    ¬ (SweptDelay.tick ⟨⟨#[greatest, 0.0], 1⟩, sweep, 1.0, chorusShape, wet⟩
      ⟨-greatest, 1.0, 0.0⟩).2.lastWet.isFinite = true := by
  intro hfinite
  have htap : (Ring.tap ⟨#[greatest, -greatest + wet * 0.0], 1⟩ _).isFinite = true := hfinite
  have hwritten : (-greatest + wet * 0.0).isFinite = true :=
    @SweptDelay.isFinite_get_of_tap ⟨#[greatest, -greatest + wet * 0.0], 1⟩ rfl _ htap 1
      Nat.one_lt_two
  have hkept : -greatest + wet * 0.0 = -greatest := by
    rcases mul_zero_of_isFinite (isFinite_of_mul (isFinite_of_add hwritten).2).1 with
      hzero | hzero
    · rw [hzero]
      rfl
    · rw [hzero]
      rfl
  rw [hkept] at htap
  exact not_isFinite_tap _ htap

/-- A chorus at one sample a second needs no more than the two greatest swings, whatever comes after
them. -/
theorem not_allFinite_after_swings (rest : List Tick) :
    ¬ (memoryAfter SweptDelay.tick (.chorus 1.0)
      (⟨greatest, 1.0, 0.0⟩ :: ⟨-greatest, 1.0, 0.0⟩ :: rest)).AllFinite := by
  intro hend
  obtain ⟨wet, sweep, hfirst⟩ : ∃ wet sweep,
      (SweptDelay.tick (.chorus 1.0) ⟨greatest, 1.0, 0.0⟩).2 =
        ⟨⟨#[greatest, 0.0], 1⟩, sweep, 1.0, chorusShape, wet⟩ := ⟨_, _, rfl⟩
  rw [memoryAfter_cons, memoryAfter_cons, hfirst] at hend
  refine SweptDelay.not_isFinite_lastWet ?_ (not_isFinite_lastWet_swing sweep wet) rest hend.2
  exact SweptDelay.twoSlots_tick ⟨rfl, Nat.one_lt_two⟩ _

/-- Four ordinary inputs after the two swings are not enough to recover. -/
theorem chorus_does_not_recover :
    ¬ (memoryAfter SweptDelay.tick (.chorus 1.0)
      [⟨greatest, 1.0, 0.0⟩, ⟨-greatest, 1.0, 0.0⟩, ⟨1.0, 1.0, 0.0⟩, ⟨1.0, 1.0, 0.0⟩,
        ⟨1.0, 1.0, 0.0⟩, ⟨1.0, 1.0, 0.0⟩]).AllFinite :=
  not_allFinite_after_swings _

/-! ## All effects -/

/-- What every run leaves in the memories of effects.

Inputs that are not finite count as silence.  A delay line remembers only what is finite.  So do the
others while their inputs leave headroom: the reverberation always, a chorus or flanger while its
wave gives numbers, a phaser while its coefficient is no further from zero than one, a filter while
its coefficients are no further from zero than two and the run is short enough for the loudest
input.  A memory that is not finite is never lost again, though a chorus or flanger is sure to keep
it only if its ring is as short as it can be. -/
theorem memories_of_effects {sampleRate : Float} (hfinite : sampleRate.isFinite = true)
    (hpos : 0.0 < sampleRate) (length : Nat) (mode : FilterMode) {shape : SweepShape}
    (hshape : shape ∈ [chorusShape, flangerShape]) (ticks : List Tick) :
    (IgnoresNonFinite DelayLine.tick ∧ IgnoresNonFinite Biquad.tick ∧
      IgnoresNonFinite Reverb.tick ∧ IgnoresNonFinite SweptDelay.tick ∧
      IgnoresNonFinite Phaser.tick) ∧
    (memoryAfter DelayLine.tick (.silent length) ticks).ring.AllFinite ∧
    ((∀ t ∈ ticks, Tolerable loudest t.input) →
      (memoryAfter Reverb.tick (.silent sampleRate) ticks).AllFinite ∧
      ((memoryAfter SweptDelay.tick (.silent shape sampleRate) ticks).AllFinite ∨
        Misses SweptDelay.NumberAt SweptDelay.tick (.silent shape sampleRate) ticks)) ∧
    ((∀ t ∈ ticks, Tolerable cascadeLoudest t.input) →
      (memoryAfter Phaser.tick (.silent sampleRate) ticks).AllFinite ∨
        Misses Phaser.TameAt Phaser.tick (.silent sampleRate) ticks) ∧
    (∀ limit bits, Within (2 ^ bits) limit → (∀ t ∈ ticks, Tolerable limit t.input) →
      bits + 2 * ticks.length ≤ 1017 →
      (memoryAfter Biquad.tick (.rest mode sampleRate) ticks).AllFinite ∨
        Misses Biquad.TameAt Biquad.tick (.rest mode sampleRate) ticks) ∧
    (Latches Biquad.tick Biquad.AllFinite ∧ Latches Reverb.tick Reverb.AllFinite ∧
      Latches Phaser.tick Phaser.AllFinite ∧
      ∀ d : SweptDelay, d.TwoSlots → ¬ d.lastWet.isFinite = true →
        ¬ (memoryAfter SweptDelay.tick d ticks).lastWet.isFinite = true) := by
  refine ⟨⟨DelayLine.ignoresNonFinite, Biquad.ignoresNonFinite, Reverb.ignoresNonFinite,
    SweptDelay.ignoresNonFinite, Phaser.ignoresNonFinite⟩,
    DelayLine.allFinite_memoryAfter length ticks, ?_, ?_, ?_, Biquad.latches, Reverb.latches,
    Phaser.latches, ?_⟩
  · intro hticks
    refine ⟨Reverb.allFinite_memoryAfter sampleRate hticks, ?_⟩
    rcases List.mem_pair.1 hshape with rfl | rfl
    · exact SweptDelay.allFinite_memoryAfter sound_chorusShape hfinite hpos hticks
    · exact SweptDelay.allFinite_memoryAfter sound_flangerShape hfinite hpos hticks
  · intro hticks
    exact Phaser.allFinite_memoryAfter sampleRate hticks
  · intro limit bits hlimit hticks hbits
    exact Biquad.allFinite_memoryAfter mode sampleRate hlimit hticks hbits
  · intro d hslots hwet
    exact SweptDelay.not_isFinite_lastWet hslots hwet ticks

/-- Two ticks of every effect at a common sample rate, and four effects that have lost a memory. -/
theorem memories_after_two_ticks :
    let ticks : List Tick := [⟨1.0, 0.5, 0.5⟩, ⟨0.0 / 0.0, 0.5, 0.5⟩]
    (memoryAfter DelayLine.tick (.silent 3) ticks).ring.AllFinite ∧
    (memoryAfter Reverb.tick (.silent 44100.0) ticks).AllFinite ∧
    ((memoryAfter SweptDelay.tick (.flanger 44100.0) ticks).AllFinite ∨
      Misses SweptDelay.NumberAt SweptDelay.tick (.flanger 44100.0) ticks) ∧
    ((memoryAfter Phaser.tick (.silent 44100.0) ticks).AllFinite ∨
      Misses Phaser.TameAt Phaser.tick (.silent 44100.0) ticks) ∧
    ((memoryAfter Biquad.tick (.rest .bandpass 44100.0) ticks).AllFinite ∨
      Misses Biquad.TameAt Biquad.tick (.rest .bandpass 44100.0) ticks) ∧
    ¬ (memoryAfter Biquad.tick ⟨.lowpass, 44100.0, 500.0, 0.7, ⟨1.0, 0.0, 0.0, 0.0, 0.0⟩,
        0.0 / 0.0, 0.0⟩ ticks).AllFinite ∧
    ¬ (memoryAfter Reverb.tick ⟨[⟨.silent 1, 0.0 / 0.0⟩], []⟩ ticks).AllFinite ∧
    ¬ (memoryAfter Phaser.tick ⟨.start, 44100.0, [1.0 / 0.0]⟩ ticks).AllFinite ∧
    ¬ (memoryAfter SweptDelay.tick ⟨.silent 2, .start, 1.0, chorusShape, 0.0 / 0.0⟩
        ticks).lastWet.isFinite = true := by
  intro ticks
  obtain ⟨-, hdelay, hloud, hphaser, hfilter, hfilters, hreverbs, hphasers, hslots⟩ :=
    @memories_of_effects 44100.0 (by decide) (by decide) 3 .bandpass flangerShape (by simp) ticks
  obtain ⟨hreverb, hflanger⟩ := hloud (by decide)
  refine ⟨hdelay, hreverb, hflanger, hphaser (by decide), ?_, ?_, ?_, ?_, ?_⟩
  · exact hfilter 1.0 0 (@within_two_pow_of_unpack _ 0 (by decide) rfl) (by decide) (by decide)
  · refine hfilters _ ticks ?_
    rintro ⟨hz1, -⟩
    exact absurd hz1 (by decide)
  · refine hreverbs _ ticks ?_
    rintro ⟨hcombs, -⟩
    exact absurd (hcombs _ List.mem_cons_self).2 (by decide)
  · refine hphasers _ ticks ?_
    intro hstages
    exact absurd (hstages _ List.mem_cons_self) (by decide)
  · exact hslots _ ⟨rfl, Nat.zero_lt_two⟩ (by decide)

end ToneGraph.Synth
