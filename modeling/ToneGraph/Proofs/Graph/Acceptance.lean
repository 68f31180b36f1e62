import ToneGraph.Proofs.Graph.Search
import ToneGraph.Proofs.Graph.Tick
/-!
# Acceptance

An arena becomes a graph exactly if it is well formed.  The checks come one behind the other, so
the error is the first that is due: that of the sample rate before that of the root, then those of
the cells, the cycle, and last the delays, where the lowest that has no memory is named.

## Main definitions

* `Arena.WellFormed`: what an arena needs to become the graph of a root.
* `Arena.Refusal`: the errors, each with all that has been passed before it.

## Main statements

* `Arena.memories_eq_error_iff`: the memories fail at the lowest delay that is not timed.
* `Arena.finish_accepts_wellFormed`: an arena is accepted if it is well formed, and else refused
  with the first error that is due.
-/

namespace ToneGraph

open Synth

/-! ## Delays -/

/-- A graph may have this sample rate. -/
def BuildSettings.Runs (settings : BuildSettings) : Prop :=
  settings.sampleRate.isFinite = true ∧ 0.0 < settings.sampleRate

/-- A delay may take this many seconds. -/
structure BuildSettings.Allows (settings : BuildSettings) (seconds : Float) : Prop where
  finite : seconds.isFinite = true
  not_negative : ¬ seconds < 0.0
  within : ¬ settings.maxDelay < seconds

instance (settings : BuildSettings) (seconds : Float) : Decidable (settings.Allows seconds) :=
  decidable_of_iff
    (seconds.isFinite = true ∧ ¬ seconds < 0.0 ∧ ¬ settings.maxDelay < seconds)
    ⟨fun ⟨hfinite, hnegative, hwithin⟩ => ⟨hfinite, hnegative, hwithin⟩,
      fun ⟨hfinite, hnegative, hwithin⟩ => ⟨hfinite, hnegative, hwithin⟩⟩

namespace Cell

/-- If the cell delays, then by a constant time that is allowed. -/
def Timed (settings : BuildSettings) (arena : Arena) (cell : Cell) : Prop :=
  ∀ input time, cell.node = .effect .delay input [time] →
    ∃ seconds, arena.constant? time = some seconds ∧ settings.Allows seconds

/-- Why a delay is not timed. -/
inductive Untimed (settings : BuildSettings) (arena : Arena) (cell : Cell) : BuildError → Prop
  | varying {input time} : cell.node = .effect .delay input [time] →
      arena.constant? time = none → Untimed settings arena cell (.variableDelay cell.origin)
  | outOfRange {input time seconds} : cell.node = .effect .delay input [time] →
      arena.constant? time = some seconds → ¬ settings.Allows seconds →
      Untimed settings arena cell (.delayOutOfRange seconds settings.maxDelay cell.origin)

/-- A complete cell that delays has one parameter, its time. -/
theorem Complete.exists_time {size : Nat} {cell : Cell} (h : cell.Complete size) {input : Signal}
    {params : List Signal} (hnode : cell.node = .effect .delay input params) :
    ∃ time, params = [time] := by
  have harity := h.arity
  rw [hnode] at harity
  exact List.length_eq_one_iff.1 (Nat.succ.inj (harity.trans (Nat.add_comm 1 1)))

end Cell

namespace Arena

variable {settings : BuildSettings} {arena : Arena} {root : Nat}

/-- A delay has a line if its time is a constant that is allowed. -/
theorem delayLine_cases (settings : BuildSettings) (arena : Arena) (cell : Cell) (time : Signal) :
    (∃ seconds, arena.constant? time = some seconds ∧ settings.Allows seconds ∧
      Memory.delayLine settings arena cell [time] =
        .ok (.delay (.silent (DelayLine.lengthFor seconds settings.sampleRate)))) ∨
    (arena.constant? time = none ∧
      Memory.delayLine settings arena cell [time] = .error (.variableDelay cell.origin)) ∨
    ∃ seconds, arena.constant? time = some seconds ∧ ¬ settings.Allows seconds ∧
      Memory.delayLine settings arena cell [time] =
        .error (.delayOutOfRange seconds settings.maxDelay cell.origin) := by
  rw [Memory.delayLine, List.head?_cons, Option.bind_some]
  cases hknown : arena.constant? time with
  | none => exact .inr (.inl ⟨rfl, rfl⟩)
  | some seconds =>
      dsimp only
      split
      · next hbad =>
          refine .inr (.inr ⟨seconds, rfl, ?_, rfl⟩)
          rintro ⟨hfinite, hnegative, hwithin⟩
          simp [hfinite, hnegative, hwithin] at hbad
      · next hgood =>
          refine .inl ⟨seconds, rfl, ?_, rfl⟩
          simp only [Bool.or_eq_true, Bool.not_eq_true', decide_eq_true_eq, not_or,
            Bool.not_eq_false] at hgood
          exact ⟨hgood.1.1, hgood.1.2, hgood.2⟩

theorem forNode_delay {index : Nat} {cell : Cell} {input : Signal} {params : List Signal}
    (hnode : cell.node = .effect .delay input params) :
    Memory.forNode settings arena index cell = Memory.delayLine settings arena cell params := by
  rw [Memory.forNode, hnode]

/-- Only a delay may be without a memory. -/
theorem exists_delay_of_forNode {index : Nat} {cell : Cell} {why : BuildError}
    (h : Memory.forNode settings arena index cell = .error why) :
    ∃ input params, cell.node = .effect .delay input params := by
  unfold Memory.forNode at h
  split at h
  case h_4 kind input params hnode =>
    cases kind with
    | delay => exact ⟨input, params, hnode⟩
    | _ => contradiction
  all_goals contradiction

/-- A complete cell is without a memory for want of a time that is allowed. -/
theorem untimed_of_forNode {index size : Nat} {cell : Cell} (hcomplete : cell.Complete size)
    {why : BuildError} (h : Memory.forNode settings arena index cell = .error why) :
    cell.Untimed settings arena why := by
  obtain ⟨input, params, hnode⟩ := exists_delay_of_forNode h
  obtain ⟨time, rfl⟩ := hcomplete.exists_time hnode
  rw [forNode_delay hnode] at h
  rcases delayLine_cases settings arena cell time with
    ⟨seconds, _, _, hline⟩ | ⟨hknown, hline⟩ | ⟨seconds, hknown, hallows, hline⟩
  · exact absurd (hline.symm.trans h) nofun
  · cases hline.symm.trans h
    exact .varying hnode hknown
  · cases hline.symm.trans h
    exact .outOfRange hnode hknown hallows

/-- A complete cell has a memory exactly if it is timed. -/
theorem exists_forNode_iff {index size : Nat} {cell : Cell} (hcomplete : cell.Complete size) :
    (∃ memory, Memory.forNode settings arena index cell = .ok memory) ↔
      cell.Timed settings arena := by
  constructor
  · rintro ⟨memory, hmemory⟩ input time hnode
    rw [forNode_delay hnode] at hmemory
    rcases delayLine_cases settings arena cell time with
      ⟨seconds, hknown, hallows, _⟩ | ⟨_, hline⟩ | ⟨_, _, _, hline⟩
    · exact ⟨seconds, hknown, hallows⟩
    · exact absurd (hline.symm.trans hmemory) nofun
    · exact absurd (hline.symm.trans hmemory) nofun
  · intro htimed
    cases hmemory : Memory.forNode settings arena index cell with
    | ok memory => exact ⟨memory, rfl⟩
    | error why =>
        cases untimed_of_forNode hcomplete hmemory with
        | varying hnode hknown =>
            obtain ⟨seconds, hseconds, _⟩ := htimed _ _ hnode
            exact absurd (hseconds.symm.trans hknown) nofun
        | outOfRange hnode hknown hbad =>
            obtain ⟨seconds, hseconds, hallows⟩ := htimed _ _ hnode
            cases hseconds.symm.trans hknown
            exact absurd hallows hbad

theorem checksInRow_memoriesFrom (settings : BuildSettings) (arena : Arena) :
    ChecksInRow (Memory.forNode settings arena) (memoriesFrom settings arena) where
  nil := fun _ => ⟨[], rfl⟩
  cons := by
    intro index cell rest why
    rw [memoriesFrom, bind_eq_error_iff, ← exists_and_right]
    refine or_congr_right (exists_congr fun memory => and_congr_right fun _ => ?_)
    rw [bind_eq_error_iff]
    exact ⟨fun h => h.resolve_right nofun, .inl⟩

/-- All delays of an arena are timed. -/
def Timed (settings : BuildSettings) (arena : Arena) : Prop :=
  ∀ (i : Nat) (cell : Cell), arena[i]? = some cell → cell.Timed settings arena

/-- All cells have a memory if all delays are timed. -/
theorem exists_memories_iff (hcomplete : arena.Complete) :
    (∃ memories, memoriesFrom settings arena 0 arena.toList = .ok memories) ↔
      arena.Timed settings := by
  rw [(checksInRow_memoriesFrom settings arena).exists_ok_iff]
  simp only [Array.getElem?_toList]
  exact forall_congr' fun i => forall_congr' fun cell => forall_congr' fun hcell =>
    exists_forNode_iff (hcomplete i cell hcell)

/-- Else the first memory that is missing is that of the lowest delay that is not timed. -/
theorem memories_eq_error_iff (hcomplete : arena.Complete) {why : BuildError} :
    memoriesFrom settings arena 0 arena.toList = .error why ↔
      ∃ i cell, arena[i]? = some cell ∧ Memory.forNode settings arena i cell = .error why ∧
        ∀ j < i, ∀ (other : Cell), arena[j]? = some other → other.Timed settings arena := by
  rw [(checksInRow_memoriesFrom settings arena).eq_error_iff]
  simp only [Array.getElem?_toList, Nat.zero_add]
  refine exists_congr fun i => exists_congr fun cell => and_congr_right fun _ =>
    and_congr_right fun _ => ?_
  exact forall_congr' fun j => forall_congr' fun _ => forall_congr' fun other =>
    forall_congr' fun hother => exists_forNode_iff (hcomplete j other hother)

/-! ## Finishing an arena -/

theorem checkSampleRate_eq_ok_iff :
    checkSampleRate settings.sampleRate = .ok () ↔ settings.Runs := by
  rw [BuildSettings.Runs]
  unfold checkSampleRate
  split
  · next hgood => simpa using hgood
  · next hbad => simpa using hbad

theorem finish_of_not_runs (h : ¬ settings.Runs) :
    arena.finish settings root = .error (.invalidSampleRate settings.sampleRate) := by
  refine bind_eq_error_iff.2 (.inl (if_neg ?_))
  simpa [BuildSettings.Runs] using h

/-- No node under the root lies on a cycle. -/
def Acyclic (arena : Arena) (root : Nat) : Prop :=
  ∀ id, arena.Under root id → ¬ arena.OnCycle id

/-- What an arena needs to become the graph of a root. -/
structure WellFormed (settings : BuildSettings) (arena : Arena) (root : Nat) : Prop where
  runs : settings.Runs
  root_lt : root < arena.size
  complete : arena.Complete
  acyclic : arena.Acyclic root
  timed : arena.Timed settings

/-- The errors that refuse an arena.  Each has all checks behind it that come before its own. -/
inductive Refusal (settings : BuildSettings) (arena : Arena) (root : Nat) : BuildError → Prop
  | sampleRate : ¬ settings.Runs →
      Refusal settings arena root (.invalidSampleRate settings.sampleRate)
  | missingRoot : settings.Runs → arena.size ≤ root →
      Refusal settings arena root (.missingRoot root)
  | incomplete {i : Nat} {cell : Cell} {why} : settings.Runs → root < arena.size →
      (∀ j < i, ∀ (other : Cell), arena[j]? = some other → other.Complete arena.size) →
      arena[i]? = some cell → cell.Incomplete arena.size i why → Refusal settings arena root why
  | cycle {id : Nat} : settings.Runs → root < arena.size → arena.Complete →
      arena.Under root id → arena.OnCycle id →
      Refusal settings arena root (.cycle id (arena.originOf id))
  | untimed {i : Nat} {cell : Cell} {why} : settings.Runs → root < arena.size → arena.Complete →
      arena.Acyclic root →
      (∀ j < i, ∀ (other : Cell), arena[j]? = some other → other.Timed settings arena) →
      arena[i]? = some cell → cell.Untimed settings arena why → Refusal settings arena root why

/-- The nodes under a root of a complete arena have an order exactly if none is on a cycle. -/
theorem exists_order_iff (hcomplete : arena.Complete) (hroot : root < arena.size) :
    (∃ plan, arena.order root = .ok plan) ↔ arena.Acyclic root := by
  have hcheck := check_eq_ok_iff.2 hcomplete
  refine ⟨?_, exists_order (closed_of_check hcheck) hroot⟩
  rintro ⟨plan, hplan⟩ id hunder
  obtain ⟨hsettled, hmem⟩ := settled_of_order hcheck hroot hplan
  exact hsettled.not_onCycle (List.mem_reverse.2 ((hmem id).2 hunder))

/-- When all other checks are passed, what is left are the memories. -/
theorem finish_eq_error_iff (hruns : settings.Runs) (hroot : root < arena.size)
    (hcomplete : arena.Complete) (hacyclic : arena.Acyclic root) {why : BuildError} :
    arena.finish settings root = .error why ↔
      memoriesFrom settings arena 0 arena.toList = .error why := by
  obtain ⟨plan, hplan⟩ := (exists_order_iff hcomplete hroot).2 hacyclic
  have hexists : arena.checkRoot root = .ok () := if_pos hroot
  rw [finish, checkSampleRate_eq_ok_iff.2 hruns, hexists, check_eq_ok_iff.2 hcomplete, hplan]
  cases memoriesFrom settings arena 0 arena.toList with
  | ok memories =>
      refine iff_of_false (fun hok => ?_) (fun hok => ?_)
      · cases hok
      · cases hok
  | error other =>
      show Except.error other = Except.error why ↔ _
      rw [Except.error.injEq, Except.error.injEq]

theorem exists_finish_iff :
    (∃ g, arena.finish settings root = .ok g) ↔ arena.WellFormed settings root := by
  constructor
  · rintro ⟨g, hfinish⟩
    obtain ⟨hrate, hroot, hcheck, plan, memories, hplan, hmemories, -⟩ :=
      finish_eq_ok_iff.1 hfinish
    have hcomplete := check_eq_ok_iff.1 hcheck
    exact
      { runs := checkSampleRate_eq_ok_iff.1 hrate
        root_lt := hroot
        complete := hcomplete
        acyclic := (exists_order_iff hcomplete hroot).1 ⟨plan, hplan⟩
        timed := (exists_memories_iff hcomplete).1 ⟨memories, hmemories⟩ }
  · rintro ⟨hruns, hroot, hcomplete, hacyclic, htimed⟩
    obtain ⟨plan, hplan⟩ := (exists_order_iff hcomplete hroot).2 hacyclic
    obtain ⟨memories, hmemories⟩ := (exists_memories_iff hcomplete).2 htimed
    exact ⟨_, finish_eq_ok_iff.2 ⟨checkSampleRate_eq_ok_iff.2 hruns, hroot,
      check_eq_ok_iff.2 hcomplete, plan, memories, hplan, hmemories, rfl⟩⟩

theorem refusal_of_finish {why : BuildError} (hfail : arena.finish settings root = .error why) :
    arena.Refusal settings root why := by
  by_cases hruns : settings.Runs
  case neg =>
    cases (finish_of_not_runs hruns).symm.trans hfail
    exact .sampleRate hruns
  rcases bind_eq_error_iff.1 hfail with hrate | ⟨_, -, hfail⟩
  · exact absurd ((checkSampleRate_eq_ok_iff.2 hruns).symm.trans hrate) nofun
  rcases bind_eq_error_iff.1 hfail with hmissing | ⟨_, hroot, hfail⟩
  · unfold checkRoot at hmissing
    split at hmissing
    · contradiction
    · next hroot =>
        cases hmissing
        exact .missingRoot hruns (Nat.le_of_not_lt hroot)
  replace hroot : root < arena.size := by
    unfold checkRoot at hroot
    split at hroot
    · assumption
    · contradiction
  rcases bind_eq_error_iff.1 hfail with hcheck | ⟨_, hcheck, hfail⟩
  · obtain ⟨i, cell, hcell, hwrong, hbefore⟩ := check_eq_error_iff.1 hcheck
    exact .incomplete hruns hroot hbefore hcell (incomplete_of_checkCell hwrong)
  have hcomplete := check_eq_ok_iff.1 hcheck
  rcases bind_eq_error_iff.1 hfail with horder | ⟨plan, hplan, hfail⟩
  · obtain ⟨id, rfl, hunder, hcycle⟩ := exists_cycle_of_order (closed_of_check hcheck) hroot horder
    exact .cycle hruns hroot hcomplete hunder hcycle
  have hacyclic := (exists_order_iff hcomplete hroot).1 ⟨plan, hplan⟩
  rcases bind_eq_error_iff.1 hfail with hmemory | ⟨_, _, hok⟩
  · obtain ⟨i, cell, hcell, hwrong, hbefore⟩ := (memories_eq_error_iff hcomplete).1 hmemory
    exact .untimed hruns hroot hcomplete hacyclic hbefore hcell
      (untimed_of_forNode (hcomplete i cell hcell) hwrong)
  · contradiction

/-- An arena becomes the graph of a root exactly if it is well formed, and else it is refused with
the first error that is due. -/
theorem finish_accepts_wellFormed (settings : BuildSettings) (arena : Arena) (root : Nat) :
    ((∃ g, arena.finish settings root = .ok g) ↔ arena.WellFormed settings root) ∧
      ∀ why, arena.finish settings root = .error why → arena.Refusal settings root why :=
  ⟨exists_finish_iff, fun _ => refusal_of_finish⟩

/-- Of two nodes that fail their checks the lower one is named, whichever check it fails. -/
theorem refusal_of_two_nodes :
    let settings : BuildSettings := ⟨48000.0, defaultSeed, defaultMaxDelay⟩
    let arena : Arena := #[⟨.time, none⟩, ⟨.math .min [.node 0, .node 9], some 3⟩,
      ⟨.math .abs [], some 5⟩]
    let why : BuildError := .danglingInput 1 9 (some 3)
    arena.finish settings 0 = .error why ∧ arena.Refusal settings 0 why ∧
      ¬ arena.WellFormed settings 0 := by
  intro settings arena why
  have hrate : checkSampleRate settings.sampleRate = .ok () := if_pos (by decide)
  have hfinish : arena.finish settings 0 = .error why := by
    rw [finish, hrate]
    rfl
  obtain ⟨haccepts, hrefusal⟩ := finish_accepts_wellFormed settings arena 0
  refine ⟨hfinish, hrefusal why hfinish, fun hwell => ?_⟩
  obtain ⟨g, hg⟩ := haccepts.2 hwell
  cases hfinish.symm.trans hg

end Arena

end ToneGraph
