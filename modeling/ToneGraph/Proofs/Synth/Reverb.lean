import ToneGraph.Proofs.Synth.Ring
/-!
# Difference equations of a reverberation

A reverberation moves six rings of different lengths.  Seen from outside none of them has slots or a
position: it gives what it wrote a fixed number of ticks ago, and what it writes follows from its
input and its output.  These are difference equations between streams, and since every ring has a
slot, an output depends on earlier ticks only, so that they have one solution.

A comb or an allpass solves its equations alone, whatever its input is.  A reverberation adds
nothing but wires: all combs hear the same input, and what they give is added up and sent through
one allpass after the other.

## Main definitions

* `Comb.Equations`, `Allpass.Equations`: the equations of one ring.
* `Reverb.Equations`: how the streams of a reverberation hang together.

## Main statements

* `Comb.equations_outputs`, `Allpass.equations_outputs`: a ring that runs alone.
* `Reverb.states_eq`: the rings of a reverberation run as if each were alone.
* `Reverb.difference_equations`: the outputs of a reverberation are the solution.
-/

namespace ToneGraph.Synth

/-! ## Combs -/

namespace Comb

/-- A tick of a comb, whose inputs are known in all ticks. -/
abbrev stepOn (feed : Nat → Float) (n : Nat) (c : Comb) : Float × Comb :=
  c.step (feed n)

/-- A comb gives what was written as many ticks ago as it is long.  It smooths what it gives and
writes its input with the smoothed value fed back. -/
structure Equations (length : Nat) (feed out smooth written : Nat → Float) : Prop where
  out_eq : ∀ k, out k = ago length written k
  smooth_eq : ∀ k, smooth k = out k * 0.8 + ago 1 smooth k * 0.2
  written_eq : ∀ k, written k = feed k + smooth k * 0.84

section Alone

variable (length : Nat) (feed : Nat → Float)

/-- The smoothed output of a comb in a tick. -/
def smoothed (n : Nat) : Float :=
  (states (stepOn feed) (silent length) (n + 1)).store

/-- What a comb writes in a tick. -/
def written (n : Nat) : Float :=
  feed n + smoothed length feed n * combFeedback

/-- Before a tick the ring of a comb holds what was written, and the last smoothed output is kept
beside it. -/
theorem records_states (n : Nat) :
    let c := states (stepOn feed) (silent length) n
    c.ring.Records (written length feed) n ∧ c.ring.length = max length 1 ∧
      c.store = ago 1 (smoothed length feed) n := by
  induction n with
  | zero => exact ⟨Ring.records_silent _ _, Ring.length_silent _, rfl⟩
  | succ n ih =>
      obtain ⟨hrecords, hlength, -⟩ := ih
      exact ⟨hrecords.push, (Ring.length_push _ _).trans hlength, rfl⟩

theorem equations_outputs :
    Equations (max length 1) feed (outputs (stepOn feed) (silent length))
      (smoothed length feed) (written length feed) where
  out_eq := by
    intro k
    obtain ⟨hrecords, hlength, -⟩ := records_states length feed k
    have hpos : 0 < (states (stepOn feed) (silent length) k).ring.length := by omega
    rw [← hlength]
    exact hrecords.oldest_eq hpos
  smooth_eq := by
    intro k
    obtain ⟨-, -, hstore⟩ := records_states length feed k
    have hkept : (1.0 - combDamping : Float) = 0.8 := by decide
    rw [← hstore, ← hkept]
    rfl
  written_eq := fun _ => rfl

end Alone

/-- The equations of a comb have one solution. -/
theorem Equations.unique {length : Nat} (hlength : 0 < length) {feed : Nat → Float}
    {out out' smooth smooth' written written' : Nat → Float}
    (h : Equations length feed out smooth written)
    (h' : Equations length feed out' smooth' written') : out = out' := by
  have hall : ∀ k, out k = out' k ∧ smooth k = smooth' k ∧ written k = written' k := by
    intro k
    induction k using Nat.strongRecOn with
    | _ k ih =>
        have hout : out k = out' k := by
          rw [h.out_eq, h'.out_eq, ago_congr hlength fun j hj => (ih j hj).2.2]
        have hsmooth : smooth k = smooth' k := by
          rw [h.smooth_eq, h'.smooth_eq, hout, ago_congr Nat.one_pos fun j hj => (ih j hj).2.1]
        refine ⟨hout, hsmooth, ?_⟩
        rw [h.written_eq, h'.written_eq, hsmooth]
  exact funext fun k => (hall k).1

end Comb

/-! ## Allpasses -/

namespace Allpass

/-- A tick of an allpass, whose inputs are known in all ticks. -/
abbrev stepOn (x : Nat → Float) (n : Nat) (a : Allpass) : Float × Allpass :=
  a.step (x n)

/-- An allpass takes its input away from what was written as many ticks ago as it is long, and
writes its input with half of that old value. -/
structure Equations (length : Nat) (x out written : Nat → Float) : Prop where
  out_eq : ∀ k, out k = ago length written k - x k
  written_eq : ∀ k, written k = x k + ago length written k * 0.5

section Alone

variable (length : Nat) (x : Nat → Float)

/-- What an allpass writes in a tick. -/
def written (n : Nat) : Float :=
  x n + (states (stepOn x) (silent length) n).ring.oldest * allpassFeedback

/-- Before a tick the ring of an allpass holds what was written. -/
theorem records_states (n : Nat) :
    let a := states (stepOn x) (silent length) n
    a.ring.Records (written length x) n ∧ a.ring.length = max length 1 := by
  induction n with
  | zero => exact ⟨Ring.records_silent _ _, Ring.length_silent _⟩
  | succ n ih =>
      obtain ⟨hrecords, hlength⟩ := ih
      exact ⟨hrecords.push, (Ring.length_push _ _).trans hlength⟩

theorem oldest_states (n : Nat) :
    (states (stepOn x) (silent length) n).ring.oldest =
      ago (max length 1) (written length x) n := by
  obtain ⟨hrecords, hlength⟩ := records_states length x n
  have hpos : 0 < (states (stepOn x) (silent length) n).ring.length := by omega
  rw [← hlength]
  exact hrecords.oldest_eq hpos

theorem equations_outputs :
    Equations (max length 1) x (outputs (stepOn x) (silent length)) (written length x) where
  out_eq := by
    intro k
    rw [← oldest_states]
    rfl
  written_eq := by
    intro k
    rw [← oldest_states]
    rfl

end Alone

/-- The equations of an allpass have one solution. -/
theorem Equations.unique {length : Nat} (hlength : 0 < length)
    {x out out' written written' : Nat → Float} (h : Equations length x out written)
    (h' : Equations length x out' written') : out = out' := by
  have hwritten : ∀ k, written k = written' k := by
    intro k
    induction k using Nat.strongRecOn with
    | _ k ih =>
        rw [h.written_eq, h'.written_eq, ago_congr hlength ih]
  funext k
  rw [h.out_eq, h'.out_eq, funext hwritten]

end Allpass

/-! ## Reverberations -/

/-- A share is forced between zero and one, and zero for what is no number. -/
theorem share_eq (a : Float) :
    share a = if a.isNaN then 0.0 else if a < 0.0 then 0.0 else if 1.0 < a then 1.0 else a := by
  unfold share clamp
  by_cases hlow : a < 0.0
  · simp only [if_pos hlow, if_neg (show ¬ (1.0 : Float) < 0.0 by decide)]
  · simp only [if_neg hlow]

/-- All combs hear the same input.  Their outputs are added up from the first to the last. -/
theorem stepCombs_eq (feed sum : Float) (combs : List Comb) :
    stepCombs feed sum combs =
      (combs.foldl (fun s c => s + (c.step feed).1) sum,
        combs.map fun c => (c.step feed).2) := by
  induction combs generalizing sum with
  | nil => rfl
  | cons c rest ih =>
      rw [stepCombs]
      simp only [ih]
      rfl

namespace Reverb

/-- A tick of a reverberation, whose inputs and amounts are known in all ticks. -/
abbrev stepOn (x amount : Nat → Float) (n : Nat) (r : Reverb) : Float × Reverb :=
  r.step (x n) (amount n)

/-- The length of a ring at a sample rate: its length at 44100 samples a second, scaled and cut to a
whole number.  A length that is cut to nothing counts as one. -/
def ringLength (rate : Float) (tuning : Nat) : Nat :=
  max (Float.ofNat tuning * (rate / 44100.0)).toUInt64.toNat 1

/-- At ten samples a second no ring of a reverberation is longer than one slot. -/
example : (combTunings ++ allpassTunings).map (ringLength 10.0) = [1, 1, 1, 1, 1, 1] := by
  decide

/-- The streams inside a reverberation.  Those of a comb are found by its tuning. -/
structure Streams where
  dry : Nat → Float
  share : Nat → Float
  comb : Nat → Nat → Float
  smooth : Nat → Nat → Float
  combWritten : Nat → Nat → Float
  sum : Nat → Float
  first : Nat → Float
  firstWritten : Nat → Float
  second : Nat → Float
  secondWritten : Nat → Float

/-- The equations of a reverberation with inputs `x` and amounts `amount`, whose outputs are `y`. -/
structure Equations (rate : Float) (x amount : Nat → Float) (s : Streams) (y : Nat → Float) :
    Prop where
  dry_eq : ∀ k, s.dry k = if (x k).isFinite then x k else 0.0
  share_eq : ∀ k, s.share k =
    if (amount k).isNaN then 0.0
    else if amount k < 0.0 then 0.0 else if 1.0 < amount k then 1.0 else amount k
  combs : ∀ t ∈ [1116, 1188, 1277, 1356], Comb.Equations (ringLength rate t)
    (fun k => s.dry k * 0.03) (s.comb t) (s.smooth t) (s.combWritten t)
  sum_eq : ∀ k, s.sum k = 0.0 + s.comb 1116 k + s.comb 1188 k + s.comb 1277 k + s.comb 1356 k
  first : Allpass.Equations (ringLength rate 556) s.sum s.first s.firstWritten
  second : Allpass.Equations (ringLength rate 441) s.first s.second s.secondWritten
  out_eq : ∀ k, y k = s.dry k * (1.0 - s.share k) + s.second k * 3.0 * s.share k

theorem ringLength_pos (rate : Float) (tuning : Nat) : 0 < ringLength rate tuning :=
  Nat.lt_of_lt_of_le Nat.zero_lt_one (Nat.le_max_right _ _)

/-- The equations leave no choice of the outputs. -/
theorem Equations.unique {rate : Float} {x amount y y' : Nat → Float} {s s' : Streams}
    (h : Equations rate x amount s y) (h' : Equations rate x amount s' y') : y = y' := by
  have hdry : s.dry = s'.dry := funext fun k => (h.dry_eq k).trans (h'.dry_eq k).symm
  have hshare : s.share = s'.share := funext fun k => (h.share_eq k).trans (h'.share_eq k).symm
  have hcomb : ∀ t ∈ [1116, 1188, 1277, 1356], s.comb t = s'.comb t := fun t ht =>
    (h.combs t ht).unique (ringLength_pos rate t) (hdry ▸ h'.combs t ht)
  have hsum : s.sum = s'.sum := by
    funext k
    rw [h.sum_eq, h'.sum_eq, hcomb 1116 (by decide), hcomb 1188 (by decide), hcomb 1277 (by decide),
      hcomb 1356 (by decide)]
  have hfirst : s.first = s'.first :=
    h.first.unique (ringLength_pos rate 556) (hsum ▸ h'.first)
  have hsecond : s.second = s'.second :=
    h.second.unique (ringLength_pos rate 441) (hfirst ▸ h'.second)
  funext k
  rw [h.out_eq, h'.out_eq, hsecond, hdry, hshare]

/-- The rings of a reverberation before a tick.  They have the lengths of their tunings, give in
that tick what the streams say, and stand on slots of their own. -/
structure Plays (rate : Float) (s : Streams) (k : Nat) (r : Reverb) : Prop where
  combs : r.combs.map (fun c => (c.ring.length, (c.step (s.dry k * 0.03)).1)) =
    [1116, 1188, 1277, 1356].map fun t => (ringLength rate t, s.comb t k)
  allpasses : ∃ a b, r.allpasses = [a, b] ∧
    (a.ring.length, (a.step (s.sum k)).1) = (ringLength rate 556, s.first k) ∧
    (b.ring.length, (b.step (s.first k)).1) = (ringLength rate 441, s.second k)
  positions : (∀ c ∈ r.combs, c.ring.position < c.ring.length) ∧
    ∀ a ∈ r.allpasses, a.ring.position < a.ring.length

section Run

variable (rate : Float) (x amount : Nat → Float)

/-- What all combs hear. -/
def feed (n : Nat) : Float :=
  finiteOrZero (x n) * reverbInputGain

/-- The streams of rings that run alone and hear what the rings of a reverberation hear. -/
def streams : Streams :=
  let comb t := outputs (Comb.stepOn (feed x)) (.silent (scaledLength rate t))
  let sum k := combTunings.foldl (fun s t => s + comb t k) 0.0
  let first := outputs (Allpass.stepOn sum) (.silent (scaledLength rate 556))
  { dry := fun k => finiteOrZero (x k)
    share := fun k => Synth.share (amount k)
    comb
    smooth := fun t => Comb.smoothed (scaledLength rate t) (feed x)
    combWritten := fun t => Comb.written (scaledLength rate t) (feed x)
    sum
    first
    firstWritten := Allpass.written (scaledLength rate 556) sum
    second := outputs (Allpass.stepOn first) (.silent (scaledLength rate 441))
    secondWritten := Allpass.written (scaledLength rate 441) first }

/-- The rings of a reverberation run as if each were alone. -/
theorem states_eq (n : Nat) :
    states (stepOn x amount) (silent rate) n =
      ⟨combTunings.map fun t =>
          states (Comb.stepOn (feed x)) (.silent (scaledLength rate t)) n,
        [states (Allpass.stepOn (streams rate x amount).sum)
            (.silent (scaledLength rate 556)) n,
          states (Allpass.stepOn (streams rate x amount).first)
            (.silent (scaledLength rate 441)) n]⟩ := by
  induction n with
  | zero => rfl
  | succ n ih =>
      rw [states, ih, stepOn, step]
      simp only [stepCombs_eq]
      rfl

theorem equations_streams :
    Equations rate x amount (streams rate x amount) (outputs (stepOn x amount) (silent rate)) where
  dry_eq := fun _ => rfl
  share_eq := fun k => share_eq (amount k)
  combs := fun t _ => Comb.equations_outputs (scaledLength rate t) (feed x)
  sum_eq := fun _ => rfl
  first := Allpass.equations_outputs (scaledLength rate 556) _
  second := Allpass.equations_outputs (scaledLength rate 441) _
  out_eq := by
    intro k
    rw [outputs, states_eq, stepOn, step]
    simp only [stepCombs_eq]
    rfl

theorem plays_states (k : Nat) :
    Plays rate (streams rate x amount) k (states (stepOn x amount) (silent rate) k) := by
  have hcomb : ∀ t, (states (Comb.stepOn (feed x)) (.silent (scaledLength rate t)) k).ring.length =
      ringLength rate t := fun t => (Comb.records_states (scaledLength rate t) (feed x) k).2.1
  have hfirst := Allpass.records_states (scaledLength rate 556) (streams rate x amount).sum k
  have hsecond := Allpass.records_states (scaledLength rate 441) (streams rate x amount).first k
  rw [states_eq]
  refine ⟨?_, ⟨_, _, rfl, Prod.ext hfirst.2 rfl, Prod.ext hsecond.2 rfl⟩, ?_, ?_⟩
  · rw [List.map_map]
    refine List.map_congr_left fun t _ => ?_
    exact Prod.ext (hcomb t) rfl
  · intro c hc
    obtain ⟨t, -, rfl⟩ := List.mem_map.1 hc
    refine (Comb.records_states (scaledLength rate t) (feed x) k).1.position_lt ?_
    rw [hcomb]
    exact ringLength_pos rate t
  · intro a ha
    rcases List.mem_cons.1 ha with rfl | ha
    · exact hfirst.1.position_lt (hfirst.2 ▸ ringLength_pos rate 556)
    · obtain rfl := List.mem_singleton.1 ha
      exact hsecond.1.position_lt (hsecond.2 ▸ ringLength_pos rate 441)

/-- The outputs of a reverberation are the one solution of its difference equations, at every sample
rate and whatever it hears: four combs on one input, their sum through two allpasses, and the result
mixed with the input by the amount of the tick, forced between zero and one.  In every tick each
ring gives what the equations say, and its position is that of a slot. -/
theorem difference_equations :
    ∃ s : Streams, Equations rate x amount s (outputs (stepOn x amount) (silent rate)) ∧
      (∀ k, Plays rate s k (states (stepOn x amount) (silent rate) k)) ∧
      ∀ s' y', Equations rate x amount s' y' → y' = outputs (stepOn x amount) (silent rate) := by
  have hequations := equations_streams rate x amount
  exact ⟨streams rate x amount, hequations, plays_states rate x amount,
    fun _ _ h' => h'.unique hequations⟩

end Run

/-- At 612.5 samples a second no two rings have the same length.  One sample comes back when the
shortest comb has passed and nothing is heard before, for an input that is no number is silence; and
it comes back as loud as under the amount one, for an amount above one counts as one. -/
theorem shortest_comb_answers_first :
    let x : Nat → Float := fun k => if k = 0 then 1.0 else 0.0 / 0.0
    let amount : Nat → Float := fun _ => 5.0
    let y := outputs (stepOn x amount) (silent 612.5)
    [1116, 1188, 1277, 1356, 556, 441].map (ringLength 612.5) = [15, 16, 17, 18, 7, 6] ∧
      (∃ s, Equations 612.5 x amount s y ∧ ∀ k, Plays 612.5 s k (states (stepOn x amount)
        (silent 612.5) k)) ∧
      (∀ k < 15, y k = 0.0) ∧ y 15 = 0.09 := by
  intro x amount y
  obtain ⟨s, hequations, hplays, -⟩ := difference_equations 612.5 x amount
  exact ⟨by decide, ⟨s, hequations, hplays⟩, by decide +kernel, by decide +kernel⟩

end Reverb

end ToneGraph.Synth
