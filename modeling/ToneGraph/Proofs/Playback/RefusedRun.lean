import Mathlib.Data.List.Induction
import ToneGraph.Proofs.Playback.Continuity
/-!
# Runs that are refused

A run may end in three ways without playing its source: what plays cannot be asked to stop, the
source is rejected, or its graph cannot be sent.  Which of them it is depends on the commands that
wait, and so on all that has happened before and between the steps of the run.

Until a run ends, its phase says what it has done to the record of the control side: nothing, then
that nothing plays, then the number of a new graph.  The last of these is not undone when the graph
cannot be sent.

## Main definitions

* `Moment.answered`: the answer with which an action ends a run.
* `Moment.Recorded`: the record during a run, by the record before it.
* `Moment.Refusal`: the ways to refuse a run.
* `Control.KeepsBooks`: what a refused run should leave of the last number and the last error.

## Main statements

* `Moment.answered_run`: a run that nothing interrupts is answered as `Session.run` says.
* `Moment.Recorded.refused`: a run that is answered with an error is refused in one of these ways.
* `Moment.books_after_refused_run`: a refused run plays nothing, and it keeps the books exactly if
  it has not built its graph.
* `Moment.state_after_refused_run`: a refused run leaves the control side idle, unless it could not
  stop what plays.
-/

namespace ToneGraph

open Synth

/-! ## The record after each step -/

namespace Session

/-- Asking to stop is refused only if a graph plays and the queue is full, and then changes
nothing. -/
theorem halt_record (s : Session) :
    (s.control.state = .playing ∧ s.send? .stop = none ∧ s.halt = (.error .queueFull, s)) ∨
    ∃ t, s.halt = (.ok (), t) ∧ (s.control.state = .playing ∨ t.control = s.control) ∧
      (s.control.state = .playing → t.control = { s.control with state := .idle }) := by
  by_cases hplaying : s.control.state = .playing
  · cases hsend : s.send? .stop with
    | none =>
        left
        refine ⟨hplaying, rfl, ?_⟩
        rw [halt, if_pos hplaying, hsend]
    | some sent =>
        right
        obtain ⟨-, hcontrol⟩ := sent_of_send? hsend
        refine ⟨sent.enter .idle, ?_, .inl hplaying, ?_⟩
        · rw [halt, if_pos hplaying, hsend]
        · intro _
          rw [enter, hcontrol]
  · right
    refine ⟨s, ?_, .inr rfl, fun h => absurd h hplaying⟩
    rw [halt, if_neg hplaying]

/-- A source that is rejected leaves why. -/
theorem build_of_compile_error {s : Session} {source : String} {why : Rejection}
    (h : compile s.control.settings source = .error why) :
    s.build source = (.error why, { s with control := { s.control with
      state := .idle
      lastError := some why } }) := by
  unfold build
  dsimp only
  rw [show compile (s.enter .building).control.settings source = .error why from h]
  rfl

/-- Asking to play is refused only if the queue is full. -/
theorem launch_record (s : Session) (g : Graph) :
    (s.send? (.play g) = none ∧ s.launch g = (.error .queueFull, s.enter .idle)) ∨
      (s.launch g).1 = .ok () := by
  unfold launch
  cases hsend : s.send? (.play g) with
  | none => exact .inl ⟨rfl, rfl⟩
  | some sent => exact .inr rfl

end Session

namespace Moment

/-! ## Answers -/

/-- The answer with which the control side ends a run. -/
def answered : Moment → Action → List (Except RunError Unit)
  | ⟨s, .replacing _⟩, .proceed =>
    match s.halt.1 with
    | .error why => [.error (.audio why)]
    | .ok () => []
  | ⟨s, .silenced source⟩, .proceed =>
    match (s.build source).1 with
    | .error why => [.error (.rejected why)]
    | .ok _ => []
  | ⟨s, .built g⟩, .proceed => [(s.launch g).1.mapError .audio]
  | _, _ => []

/-- A run that nothing interrupts is answered once, as the request is. -/
theorem answered_run (s : Session) (source : String) :
    gather answered ⟨s, .ready⟩ [.run source, .proceed, .proceed, .proceed] =
      [(s.run source).1] := by
  show gather answered ⟨s.reclaim.2, .replacing source⟩ [.proceed, .proceed, .proceed] = _
  simp only [gather, answered, act, proceed, Session.run, Session.stop]
  cases s.reclaim.2.halt with
  | mk result halted =>
      cases result with
      | error why => rfl
      | ok _ =>
          dsimp only
          cases halted.build source with
          | mk result built =>
              cases result with
              | error why => rfl
              | ok g => rfl

/-! ## The record during a run -/

/-- What the run of a source has made of the record: nothing while it has only collected, then that
nothing plays, then the next number and no error once it has built the graph. -/
def Recorded (old : Control) (source : String) : Moment → Prop
  | ⟨s, .replacing asked⟩ => asked = source ∧ s.control = old
  | ⟨s, .silenced asked⟩ => asked = source ∧ s.control = { old with state := .idle }
  | ⟨s, .built g⟩ =>
    (∃ g₀, compile old.settings source = .ok g₀ ∧ g = g₀.numbered (old.generation + 1)) ∧
      s.control = { old with
        state := .building
        generation := old.generation + 1
        lastError := none }
  | ⟨_, .ready⟩ | ⟨_, .stopping⟩ => False

variable {m : Moment} {old : Control} {source : String}

theorem act_proceed (m : Moment) : m.act .proceed = m.proceed := by
  obtain ⟨s, phase⟩ := m
  cases phase <;> rfl

/-- The record decides, whatever else changes. -/
theorem Recorded.of_same {s t : Session} {phase : Phase} (h : Recorded old source ⟨s, phase⟩)
    (hcontrol : t.control = s.control) : Recorded old source ⟨t, phase⟩ := by
  cases phase with
  | ready | stopping => exact h
  | replacing | silenced | built => exact ⟨h.1, hcontrol.trans h.2⟩

/-- The next step of a run ends it or goes on as the phases say. -/
theorem Recorded.proceed (h : m.Recorded old source)
    (hold : old.state = .idle ∨ old.state = .playing) :
    (m.act .proceed).phase = .ready ∨ (m.act .proceed).Recorded old source := by
  obtain ⟨s, phase⟩ := m
  cases phase with
  | ready | stopping => exact absurd h id
  | replacing asked =>
      obtain ⟨rfl, rfl⟩ := h
      rw [act_proceed, Moment.proceed]
      rcases s.halt_record with ⟨-, -, hhalt⟩ | ⟨t, hhalt, hsame, hstopped⟩
      · left
        rw [hhalt]
      · right
        rw [hhalt]
        refine ⟨rfl, ?_⟩
        rcases hold with hidle | hplaying
        · have hcontrol : t.control = s.control := by
            apply hsame.resolve_left
            rw [hidle]
            decide
          rw [hcontrol, ← hidle]
        · exact hstopped hplaying
  | silenced asked =>
      obtain ⟨rfl, hcontrol⟩ := h
      rw [act_proceed, Moment.proceed]
      have hsettings : s.control.settings = old.settings := by rw [hcontrol]
      cases hcompile : compile old.settings asked with
      | error why =>
          left
          rw [Session.build_of_compile_error (hsettings ▸ hcompile)]
      | ok g₀ =>
          right
          rw [Session.build_of_compile (hsettings ▸ hcompile), hcontrol]
          exact ⟨⟨g₀, hcompile, rfl⟩, rfl⟩
  | built g => exact .inl rfl

/-- A run begins by collecting only. -/
theorem recorded_run (source : String) (hready : m.phase = .ready) :
    (m.act (.run source)).Recorded m.session.control source ∧ accepted m (.run source) = [] := by
  obtain ⟨s, phase⟩ := m
  obtain rfl : phase = .ready := hready
  exact ⟨⟨rfl, rfl⟩, rfl⟩

/-- Until a run ends, every action leaves the record as the phase says. -/
theorem Recorded.act (h : m.Recorded old source)
    (hold : old.state = .idle ∨ old.state = .playing) (action : Action) :
    (m.act action).phase = .ready ∨ (m.act action).Recorded old source := by
  have hproceed := h.proceed hold
  obtain ⟨s, phase⟩ := m
  cases action with
  | proceed => exact hproceed
  | block samples =>
      obtain ⟨hcontrol, -⟩ := s.process_effect samples
      exact .inr (h.of_same hcontrol)
  | readScope count => exact .inr (h.of_same (s.control_readScope count))
  | reclaim | takeScope | setVolume | setSeed | stop | run =>
      cases phase with
      | ready => exact absurd h id
      | _ => exact .inr h

theorem Underway.initial {before during : List Action} {action : Action}
    (h : m.Underway before source (during ++ [action])) : m.Underway before source during := by
  constructor
  · exact h.1
  · intro first hfirst
    exact h.2 first (hfirst.trans (List.prefix_append during [action]))

/-- A run that is under way has sent nothing, and the record is as its phase says. -/
theorem Underway.recorded {before during : List Action} (h : m.Underway before source during)
    (hold : (m.after before).session.control.state = .idle ∨
      (m.after before).session.control.state = .playing) :
    (m.after (before ++ .run source :: during)).Recorded (m.after before).session.control source ∧
      gather accepted m (before ++ .run source :: during) = gather accepted m before := by
  induction during using List.reverseRecOn with
  | nil =>
      obtain ⟨hrecorded, hnothing⟩ := recorded_run source h.1
      rw [after_concat, gather_concat, hnothing, List.append_nil]
      exact ⟨hrecorded, rfl⟩
  | append_singleton during action ih =>
      obtain ⟨hrecorded, haccepted⟩ := ih h.initial
      have hbusy := h.2 (during ++ [action]) (List.prefix_refl _)
      rw [← List.cons_append, ← List.append_assoc] at hbusy ⊢
      rw [after_concat] at hbusy ⊢
      rw [gather_concat, haccepted]
      constructor
      · exact (hrecorded.act hold action).resolve_left hbusy
      · have hnothing : accepted (m.after (before ++ .run source :: during)) action = [] := by
          rcases act_numbers (m.after (before ++ .run source :: during)) action with
            ⟨-, -, -, -, -, hnone, -⟩ | ⟨-, hnone | ⟨-, -, -, hready⟩, -⟩
          · exact hnone
          · exact hnone
          · exact absurd hready hbusy
        rw [hnothing, List.append_nil]

/-! ## Refusals -/

/-- The ways to refuse a run, with what the last step leaves of the record. -/
inductive Refusal (old : Control) (source : String) (now next : Moment) : RunError → Prop
  /-- What plays could not be asked to stop. -/
  | unstopped : now.phase = .replacing source → old.state = .playing →
      now.session.send? .stop = none → next.session = now.session →
      next.session.control = old → Refusal old source now next (.audio .queueFull)
  /-- The source was rejected. -/
  | rejected (why : Rejection) : now.phase = .silenced source →
      compile old.settings source = .error why →
      next.session.control = { old with state := .idle, lastError := some why } →
      Refusal old source now next (.rejected why)
  /-- The graph could not be sent. -/
  | unsent (g : Graph) : now.phase = .built (g.numbered (old.generation + 1)) →
      compile old.settings source = .ok g →
      now.session.send? (.play (g.numbered (old.generation + 1))) = none →
      next.session.control =
        { old with state := .idle, generation := old.generation + 1, lastError := none } →
      Refusal old source now next (.audio .queueFull)

/-- A run that is answered with an error has ended, has sent no graph, and is refused in one of the
three ways. -/
theorem Recorded.refused (h : m.Recorded old source) {action : Action} {why : RunError}
    (hanswer : answered m action = [.error why]) :
    (m.act action).phase = .ready ∧ accepted m action = [] ∧
      Refusal old source m (m.act action) why := by
  obtain ⟨s, phase⟩ := m
  have hproceed : action = .proceed := by
    cases action with
    | proceed => rfl
    | _ => cases phase <;> contradiction
  subst hproceed
  cases phase with
  | ready | stopping => exact absurd h id
  | replacing asked =>
      obtain ⟨rfl, hcontrol⟩ := h
      rcases s.halt_record with ⟨hplaying, hfull, hhalt⟩ | ⟨t, hhalt, -⟩
      · have hnext : Moment.act ⟨s, .replacing asked⟩ .proceed = ⟨s, .ready⟩ := by
          rw [act_proceed, Moment.proceed, hhalt]
        rw [answered, hhalt] at hanswer
        obtain rfl : RunError.audio .queueFull = why := by simpa using hanswer
        rw [hnext]
        exact ⟨rfl, rfl, .unstopped rfl (hcontrol ▸ hplaying) hfull rfl hcontrol⟩
      · rw [answered, hhalt] at hanswer
        contradiction
  | silenced asked =>
      obtain ⟨rfl, hcontrol⟩ := h
      have hsettings : s.control.settings = old.settings := by rw [hcontrol]
      cases hcompile : compile old.settings asked with
      | error r =>
          have hbuild := Session.build_of_compile_error (hsettings ▸ hcompile)
          rw [answered, hbuild] at hanswer
          obtain rfl : RunError.rejected r = why := by simpa using hanswer
          rw [act_proceed, Moment.proceed, hbuild, hcontrol]
          exact ⟨rfl, rfl, .rejected r rfl hcompile rfl⟩
      | ok g₀ =>
          rw [answered, Session.build_of_compile (hsettings ▸ hcompile)] at hanswer
          contradiction
  | built g =>
      obtain ⟨⟨g₀, hcompile, rfl⟩, hcontrol⟩ := h
      rcases s.launch_record (g₀.numbered (old.generation + 1)) with ⟨hfull, hlaunch⟩ | hlaunch
      · rw [answered, hlaunch] at hanswer
        obtain rfl : RunError.audio .queueFull = why := by simpa [Except.mapError] using hanswer
        rw [act_proceed, Moment.proceed, accepted, hlaunch, Session.enter, hcontrol]
        exact ⟨rfl, rfl, .unsent g₀ rfl hcompile hfull rfl⟩
      · rw [answered, hlaunch] at hanswer
        simp [Except.mapError] at hanswer

end Moment

/-- What a refused run should leave of the record: the number of the last graph, and as the last
error the reason if the source was rejected, or else the one that was there. -/
structure Control.KeepsBooks (old new : Control) (why : RunError) : Prop where
  generation : new.generation = old.generation
  lastError : new.lastError =
    match why with
    | .rejected r => some r
    | .audio _ => old.lastError

namespace Moment

/-- The books are kept until the graph is built. -/
theorem Refusal.keepsBooks_iff {now next : Moment} {why : RunError}
    (h : Refusal old source now next why) :
    old.KeepsBooks next.session.control why ↔ ∀ g, now.phase ≠ .built g := by
  cases h with
  | unstopped hphase _ _ _ hcontrol | rejected _ hphase _ hcontrol =>
      constructor
      · intro _ g hbuilt
        exact Phase.noConfusion (hphase.symm.trans hbuilt)
      · intro _
        rw [hcontrol]
        exact ⟨rfl, rfl⟩
  | unsent g hphase _ _ hcontrol =>
      constructor
      · intro hbooks
        have hsame : old.generation + 1 = old.generation := by
          simpa [hcontrol] using hbooks.generation
        exact absurd hsame (Nat.succ_ne_self _)
      · intro hunbuilt
        exact absurd hphase (hunbuilt _)

section

variable (sampleRate : UInt32) (channels : Nat) (settings : Settings) (before during : List Action)
  (source : String) (action : Action) (why : RunError)

/-- Between requests the record says that nothing plays or that a graph does. -/
theorem idle_or_playing
    (hready : ((start sampleRate channels settings).after before).phase = .ready) :
    let s := ((start sampleRate channels settings).after before).session
    s.control.state = .idle ∨ s.control.state = .playing := by
  intro s
  obtain ⟨-, hphase⟩ := after_induction (agrees_start sampleRate channels settings)
    (fun _ action h => h.act action) before
  rw [hready] at hphase
  rcases hphase with hs | hs
  · exact .inl hs.state
  · exact .inr hs.state

/-- A run that is refused plays nothing: whatever happens later, the graphs that the voice has been
told to play and those that wait were accepted before the run or are accepted after it.  The run
keeps the books if and only if it is refused before its graph is built.  A graph that is built and
cannot be sent leaves its number behind and clears the last error. -/
theorem books_after_refused_run
    (hrun : (start sampleRate channels settings).Underway before source during)
    (hrefused : answered ((start sampleRate channels settings).after
      (before ++ .run source :: during)) action = [.error why]) :
    let m := start sampleRate channels settings
    let now := m.after (before ++ .run source :: during)
    let whole := before ++ .run source :: during ++ [action]
    let old := (m.after before).session.control
    let new := (m.after whole).session.control
    (∀ later, graphsOf (gather obeyed m (whole ++ later)) ++
        graphsOf (m.after (whole ++ later)).session.link.commands.toList =
          gather accepted m before ++ gather accepted (m.after whole) later) ∧
      (old.KeepsBooks new why ↔ ∀ g, now.phase ≠ .built g) ∧
      ∀ g, now.phase = .built g →
        why = .audio .queueFull ∧ new.generation = old.generation + 1 ∧ new.lastError = none := by
  intro m now whole old new
  obtain ⟨hrecorded, haccepted⟩ := hrun.recorded
    (idle_or_playing sampleRate channels settings before hrun.1)
  obtain ⟨-, hnothing, hrefusal⟩ := hrecorded.refused hrefused
  have hnew : new = (now.act action).session.control := by
    rw [← after_concat]
  refine ⟨?_, ?_, ?_⟩
  · intro later
    have hwhole : gather accepted m whole = gather accepted m before := by
      rw [gather_concat, hnothing, haccepted, List.append_nil]
    rw [obeyed_append_waiting m rfl, gather_append, hwhole]
  · rw [hnew]
    exact hrefusal.keepsBooks_iff
  · intro g hbuilt
    rw [hnew]
    cases hrefusal with
    | unstopped hphase | rejected _ hphase => exact Phase.noConfusion (hphase.symm.trans hbuilt)
    | unsent g₀ _ _ _ hcontrol =>
        rw [hcontrol]
        exact ⟨rfl, rfl, rfl⟩

/-- A run that is refused leaves the control side idle, with nothing to be heard once all commands
are obeyed, unless it is refused because what plays could not be asked to stop.  Then nothing
changes: the record says that the graph plays, and it plays on. -/
theorem state_after_refused_run
    (hrun : (start sampleRate channels settings).Underway before source during)
    (hrefused : answered ((start sampleRate channels settings).after
      (before ++ .run source :: during)) action = [.error why]) :
    let m := start sampleRate channels settings
    let now := m.after (before ++ .run source :: during)
    let next := now.act action
    let old := (m.after before).session.control
    (next.session.control.state = .idle ↔ now.phase ≠ .replacing source) ∧
      (next.session.control.state = .idle → next.session.heard.generation? = none) ∧
      (now.phase = .replacing source →
        why = .audio .queueFull ∧ now.session.send? .stop = none ∧ next.session = now.session ∧
          next.session.control = old ∧ old.state = .playing ∧
          next.session.heard.generation? = some old.generation) := by
  intro m now next old
  obtain ⟨hrecorded, -⟩ := hrun.recorded
    (idle_or_playing sampleRate channels settings before hrun.1)
  obtain ⟨hready, -, hrefusal⟩ := hrecorded.refused hrefused
  have hagrees : next.Agrees := (after_induction (agrees_start sampleRate channels settings)
    (fun _ action h => h.act action) (before ++ .run source :: during)).act action
  have hends : next.session.Silent ∨ next.session.Sounds := by
    obtain ⟨-, hphase⟩ := hagrees
    rwa [show next.phase = .ready from hready] at hphase
  have hsilent : next.session.control.state = .idle → next.session.heard.generation? = none := by
    intro hidle
    rcases hends with hs | hs
    · exact hs.heard
    · exact absurd (hidle.symm.trans hs.state) (by decide)
  cases hrefusal with
  | unstopped hphase hplaying hfull hsession hcontrol =>
      have hstate : next.session.control.state = .playing := (congrArg _ hcontrol).trans hplaying
      have hsounds : next.session.heard.generation? = some old.generation := by
        rcases hends with hs | hs
        · exact absurd (hs.state.symm.trans hstate) (by decide)
        · rw [hs.heard]
          exact congrArg _ (congrArg _ hcontrol)
      refine ⟨?_, hsilent, fun _ => ⟨rfl, hfull, hsession, hcontrol, hplaying, hsounds⟩⟩
      rw [hstate]
      exact ⟨nofun, fun hother => absurd hphase hother⟩
  | rejected _ hphase _ hcontrol | unsent _ hphase _ _ hcontrol =>
      have hother : now.phase ≠ .replacing source := by
        intro hreplacing
        exact Phase.noConfusion (hphase.symm.trans hreplacing)
      have hstate : next.session.control.state = .idle := congrArg _ hcontrol
      exact ⟨⟨fun _ => hother, fun _ => hstate⟩, hsilent, fun h => absurd h hother⟩

end

/-! ## A queue with room for two commands -/

/-- The settings with the least room for commands. -/
def leastRoom : Settings :=
  { Settings.default with commandCapacity := 2 }

/-- A source without tokens is rejected. -/
theorem compile_empty (settings : BuildSettings) : ∃ why, compile settings "" = .error why := by
  have hscan : Token.scan "" = [⟨.eof, "", 0⟩] := by decide +kernel
  rw [compile, checkSource, parseSource, hscan]
  exact ⟨_, rfl⟩

/-- A source is rejected, and then two volumes wait for the voice. -/
def rejectedThenFull : List Action :=
  [.run "", .proceed, .proceed, .setVolume 0.5, .setVolume 0.5]

theorem after_rejectedThenFull :
    ∃ s why, (start 1000 1 leastRoom).after rejectedThenFull = ⟨s, .ready⟩ ∧
      s.control.state = .idle ∧ s.control.generation = 0 ∧ s.control.lastError = some why ∧
      s.control.settings = (Session.start 1000 1 leastRoom).control.settings ∧
      s.link.commands.toList.length = s.link.commands.capacity := by
  let first := Session.start 1000 1 leastRoom
  obtain ⟨why, hwhy⟩ := compile_empty first.control.settings
  have hrejected : (start 1000 1 leastRoom).after [.run "", .proceed, .proceed] =
      ⟨{ first with control := { first.control with lastError := some why } }, .ready⟩ := by
    show proceed ⟨first, .silenced ""⟩ = _
    rw [proceed, Session.build_of_compile_error hwhy]
    rfl
  have hsplit : (start 1000 1 leastRoom).after rejectedThenFull =
      ((start 1000 1 leastRoom).after [.run "", .proceed, .proceed]).after
        [.setVolume 0.5, .setVolume 0.5] := rfl
  rw [hsplit, hrejected]
  exact ⟨_, why, rfl, rfl, rfl, rfl, rfl, rfl⟩

section

variable {m : Moment} {source : String}

/-- A request that has ended is not taken up again. -/
theorem after_of_ready {steps : List Action} (hsteps : ∀ step ∈ steps, step = .proceed)
    (hready : m.phase = .ready) : (m.after steps).phase = .ready := by
  induction steps with
  | nil => exact hready
  | cons step rest ih =>
      obtain ⟨s, phase⟩ := m
      obtain rfl : phase = .ready := hready
      obtain rfl : step = .proceed := hsteps step List.mem_cons_self
      exact ih (fun step hstep => hsteps step (List.mem_cons_of_mem _ hstep))

/-- A run that nothing interrupts is under way if it has not ended by its last step. -/
theorem underway_of_busy {before steps : List Action} (hsteps : ∀ step ∈ steps, step = .proceed)
    (hready : (m.after before).phase = .ready)
    (hbusy : (m.after (before ++ .run source :: steps)).phase ≠ .ready) :
    m.Underway before source steps := by
  refine ⟨hready, ?_⟩
  rintro first ⟨rest, rfl⟩ hended
  apply hbusy
  have hrest : ∀ step ∈ rest, step = .proceed :=
    fun step hstep => hsteps step (List.mem_append_right first hstep)
  rw [← List.cons_append, ← List.append_assoc, after_append]
  exact after_of_ready hrest hended

/-- The steps of a run in a session that is idle and whose queue is full. -/
theorem unsent_steps {s : Session} {g : Graph} (hidle : s.control.state = .idle)
    (hcompile : compile s.control.settings source = .ok g)
    (hfull : s.link.commands.toList.length = s.link.commands.capacity) :
    let g := g.numbered (s.control.generation + 1)
    ∃ t, s.reclaim.2.halt = (.ok (), s.reclaim.2) ∧ s.reclaim.2.build source = (.ok g, t) ∧
      t.launch g = (.error .queueFull, t.enter .idle) ∧
      t.control.generation = s.control.generation + 1 ∧ t.control.lastError = none := by
  have hhalt : s.reclaim.2.halt = (.ok (), s.reclaim.2) := by
    rw [Session.halt, if_neg]
    rw [show s.reclaim.2.control.state = .idle from hidle]
    decide
  have hsend : ∀ t : Session, t.link.commands = s.link.commands → ∀ c, t.send? c = none := by
    intro t ht c
    rw [Session.send?_eq_none_iff, ht, hfull]
  refine ⟨_, hhalt, Session.build_of_compile (s := s.reclaim.2) hcompile, ?_, rfl, rfl⟩
  rw [Session.launch, hsend]
  rfl

/-- A run in a session that is idle and whose queue is full builds its graph and then is refused. -/
theorem unsent_run {before : List Action} {s : Session} {g : Graph}
    (hbefore : m.after before = ⟨s, .ready⟩) (hidle : s.control.state = .idle)
    (hcompile : compile s.control.settings source = .ok g)
    (hfull : s.link.commands.toList.length = s.link.commands.capacity) :
    let now := m.after (before ++ [.run source, .proceed, .proceed])
    m.Underway before source [.proceed, .proceed] ∧
      now.phase = .built (g.numbered (s.control.generation + 1)) ∧
      answered now .proceed = [.error (.audio .queueFull)] := by
  intro now
  obtain ⟨t, hhalt, hbuild, hlaunch, -⟩ := unsent_steps hidle hcompile hfull
  have hnow : now = ⟨t, .built (g.numbered (s.control.generation + 1))⟩ := by
    have hsteps : now = proceed (proceed ⟨s.reclaim.2, .replacing source⟩) := by
      dsimp only [now]
      rw [after_append, hbefore]
      rfl
    rw [hsteps, proceed, hhalt]
    dsimp only
    rw [proceed, hbuild]
  have hphase : now.phase = .built (g.numbered (s.control.generation + 1)) := by
    rw [hnow]
  refine ⟨?_, hphase, ?_⟩
  · apply underway_of_busy
    · simp
    · rw [hbefore]
    · intro hready
      exact Phase.noConfusion (hphase.symm.trans hready)
  · rw [hnow, answered, hlaunch]
    rfl

end

/-- A run whose graph is built and cannot be sent: the number has moved on and the last error is
lost. -/
theorem unsent_graph_is_counted :
    let m := start 1000 1 leastRoom
    let during : List Action := [.proceed, .proceed]
    let whole := rejectedThenFull ++ .run "1" :: during ++ [.proceed]
    let old := (m.after rejectedThenFull).session.control
    let new := (m.after whole).session.control
    m.Underway rejectedThenFull "1" during ∧
      answered (m.after (rejectedThenFull ++ .run "1" :: during)) .proceed =
        [.error (.audio .queueFull)] ∧
      ¬ old.KeepsBooks new (.audio .queueFull) ∧ new.generation = old.generation + 1 ∧
      new.lastError = none := by
  intro m during whole old new
  obtain ⟨s, why, hbefore, hidle, -, -, hsettings, hfull⟩ := after_rejectedThenFull
  obtain ⟨g, hg⟩ := compile_one s.control.settings (by rw [hsettings]; exact if_pos (by decide))
  obtain ⟨hrun, hphase, hanswer⟩ := unsent_run hbefore hidle hg hfull
  obtain ⟨-, hbooks, hbuilt⟩ := books_after_refused_run 1000 1 leastRoom rejectedThenFull during "1"
    .proceed (.audio .queueFull) hrun hanswer
  obtain ⟨-, hnumber, hlost⟩ := hbuilt _ hphase
  exact ⟨hrun, hanswer, fun hkept => hbooks.1 hkept _ hphase, hnumber, hlost⟩

/-- A session whose queue is full answers a run with an error, counts the graph all the same, and
forgets why the source before was rejected. -/
theorem full_queue_loses_books :
    let s := ((start 1000 1 leastRoom).after rejectedThenFull).session
    (s.run "1").1 = .error (.audio .queueFull) ∧
      s.control.generation = 0 ∧ (s.run "1").2.control.generation = 1 ∧
      s.control.lastError ≠ none ∧ (s.run "1").2.control.lastError = none := by
  intro s
  obtain ⟨s', why, hbefore, hidle, hnumber, herror, hsettings, hfull⟩ := after_rejectedThenFull
  obtain rfl : s = s' := congrArg Moment.session hbefore
  obtain ⟨g, hg⟩ := compile_one s.control.settings (by rw [hsettings]; exact if_pos (by decide))
  obtain ⟨t, hhalt, hbuild, hlaunch, hcounted, hlost⟩ := unsent_steps hidle hg hfull
  have hrun : s.run "1" = (.error (.audio .queueFull), t.enter .idle) := by
    rw [Session.run, Session.stop, hhalt]
    dsimp only
    rw [hbuild]
    dsimp only
    rw [hlaunch]
    rfl
  rw [hrun, hnumber, herror]
  rw [hnumber] at hcounted
  exact ⟨rfl, rfl, hcounted, Option.some_ne_none _, hlost⟩

/-- A graph and a volume wait for the voice. -/
def playingThenFull : List Action :=
  [.run "1", .proceed, .proceed, .proceed, .setVolume 0.5]

theorem after_playingThenFull :
    ∃ s, (start 1000 1 leastRoom).after playingThenFull = ⟨s, .ready⟩ ∧
      s.control.state = .playing ∧ s.reclaim.2.halt = (.error .queueFull, s.reclaim.2) := by
  obtain ⟨g, -, hbuilt⟩ := start_run_one 1000 1 leastRoom (if_pos (by decide))
  have hsplit : (start 1000 1 leastRoom).after playingThenFull =
      ((start 1000 1 leastRoom).after [.run "1", .proceed, .proceed]).after
        [.proceed, .setVolume 0.5] := rfl
  rw [hsplit, hbuilt]
  exact ⟨_, rfl, rfl, rfl⟩

/-- A run that cannot stop what plays, which plays on. -/
theorem unstopped_graph_plays_on :
    let m := start 1000 1 leastRoom
    let now := m.after (playingThenFull ++ [.run "1"])
    let next := now.act .proceed
    m.Underway playingThenFull "1" [] ∧
      answered now .proceed = [.error (.audio .queueFull)] ∧
      next.session.control.state ≠ .idle ∧
      next.session.heard.generation? =
        some (m.after playingThenFull).session.control.generation := by
  intro m now next
  obtain ⟨s, hbefore, -, hhalt⟩ := after_playingThenFull
  have hnow : now = ⟨s.reclaim.2, .replacing "1"⟩ := by
    dsimp only [now, m]
    rw [after_append, hbefore]
    rfl
  have hrun : m.Underway playingThenFull "1" [] := by
    apply underway_of_busy
    · simp
    · dsimp only [m]
      rw [hbefore]
    · show now.phase ≠ .ready
      rw [hnow]
      nofun
  have hanswer : answered now .proceed = [.error (.audio .queueFull)] := by
    rw [hnow, answered, hhalt]
  obtain ⟨hidle, -, hunstopped⟩ := state_after_refused_run 1000 1 leastRoom playingThenFull [] "1"
    .proceed (.audio .queueFull) hrun hanswer
  have hphase : now.phase = .replacing "1" := by
    rw [hnow]
  obtain ⟨-, -, -, -, -, hsounds⟩ := hunstopped hphase
  exact ⟨hrun, hanswer, fun h => hidle.1 h hphase, hsounds⟩

/-- A session whose queue is full while a graph plays answers a run with an error and goes on
playing. -/
theorem full_queue_keeps_playing :
    let s := ((start 1000 1 leastRoom).after playingThenFull).session
    (s.run "1").1 = .error (.audio .queueFull) ∧ (s.run "1").2.control.state = .playing := by
  intro s
  obtain ⟨s', hbefore, hplaying, hhalt⟩ := after_playingThenFull
  obtain rfl : s = s' := congrArg Moment.session hbefore
  have hrun : s.run "1" = (.error (.audio .queueFull), s.reclaim.2) := by
    rw [Session.run, Session.stop, hhalt]
  rw [hrun]
  exact ⟨rfl, hplaying⟩

end Moment

end ToneGraph
