import Mathlib.Algebra.BigOperators.Ring.Finset
import Mathlib.Algebra.Order.BigOperators.Group.Finset
import ToneGraph.Proofs.Graph.Order
/-!
# Depth first search

The search keeps its own list of tasks where a recursive one would call itself.  The nodes in
progress are those that a task has still to close, and whatever is looked at before such a task is
read by the node that it closes.  So the nodes in progress are the path to the node that is looked
at: an input in progress closes a cycle, and a search that meets none goes the way of the recursive
search, which is `Arena.Visit`.

## Main definitions

* `Arena.OnCycle`: a node that reads itself, at once or through others.
* `Arena.Visit`: the recursive depth first search.
* `Arena.Advances`, `Arena.Halts`: one turn of the search, and its end.
* `Arena.Reaches`: where the search stands after some turns.
* `Arena.Nested`: tasks that stand before the closing of a node are about what the node reads.

## Main statements

* `Arena.exists_cycle_of_order`: an order fails at a node of a cycle under the root.
* `Arena.visit_of_order`: an order is the one of the recursive search.
* `Arena.order_is_post_order`: when there is an order, what it is, and that the search ends.
-/

namespace ToneGraph

namespace Arena

variable {arena : Arena} {root : Nat}

/-! ## Cycles -/

/-- The node at `below` is read by the node at `id`, at once or through others. -/
def Beneath (arena : Arena) (id below : Nat) : Prop :=
  Relation.TransGen (fun i j => j ∈ arena.inputsOf i) id below

/-- A node that reads itself, at once or through others. -/
def OnCycle (arena : Arena) (id : Nat) : Prop :=
  arena.Beneath id id

/-- What is beneath a node is under one of its inputs. -/
theorem Beneath.exists_input {id below : Nat} (h : arena.Beneath id below) :
    ∃ j ∈ arena.inputsOf id, arena.Under j below := by
  obtain ⟨j, hj, hbelow⟩ := Relation.TransGen.head'_iff.1 h
  exact ⟨j, hj, hbelow⟩

/-- A node of a settled list lies on no cycle. -/
theorem Settled.not_onCycle {ids : List Nat} (h : arena.Settled ids) {id : Nat} (hid : id ∈ ids) :
    ¬ arena.OnCycle id := by
  induction ids with
  | nil => contradiction
  | cons first rest ih =>
      obtain ⟨hfresh, hinputs, hrest⟩ := h
      rcases List.mem_cons.1 hid with rfl | hid
      · intro hcycle
        obtain ⟨j, hj, hback⟩ := hcycle.exists_input
        exact hfresh (hrest.mem_of_under (hinputs j hj) hback)
      · exact ih hrest hid

/-- In a settled list every node stands before its inputs. -/
theorem Settled.inputs_behind {front back : List Nat} {id : Nat}
    (h : arena.Settled (front ++ id :: back)) : ∀ j ∈ arena.inputsOf id, j ∈ back := by
  induction front with
  | nil => exact h.2.1
  | cons first rest ih => exact ih h.2.2

theorem Settled.of_append {front back : List Nat} (h : arena.Settled (front ++ back)) :
    arena.Settled back := by
  induction front with
  | nil => exact h
  | cons first rest ih => exact ih h.2.2

/-! ## The recursive search -/

mutual

/-- The recursive search looks at a node when some nodes are closed.  A node that is closed is
passed over, any other is closed behind its inputs. -/
inductive Visit (arena : Arena) : (closed : List Nat) → (id : Nat) → (after : List Nat) → Prop
  | again {closed id} : id ∈ closed → Visit arena closed id closed
  | first {closed id after} : id ∉ closed → VisitAll arena closed (arena.inputsOf id) after →
      Visit arena closed id (after ++ [id])

/-- The recursive search looks at several nodes, from the left. -/
inductive VisitAll (arena : Arena) :
    (closed : List Nat) → (ids : List Nat) → (after : List Nat) → Prop
  | nil {closed} : VisitAll arena closed [] closed
  | cons {closed id between rest after} : Visit arena closed id between →
      VisitAll arena between rest after → VisitAll arena closed (id :: rest) after

end

mutual

/-- The recursive search has one outcome at most. -/
theorem Visit.unique {closed after : List Nat} {id : Nat} :
    arena.Visit closed id after → ∀ {other}, arena.Visit closed id other → other = after
  | .again hmem, _, hother => by
      cases hother with
      | again _ => rfl
      | first hfresh _ => exact absurd hmem hfresh
  | .first hfresh hinputs, _, hother => by
      cases hother with
      | again hmem => exact absurd hmem hfresh
      | first _ hinputs' => rw [hinputs.unique hinputs']

theorem VisitAll.unique {closed after : List Nat} {ids : List Nat} :
    arena.VisitAll closed ids after → ∀ {other}, arena.VisitAll closed ids other → other = after
  | .nil, _, hother => by
      cases hother
      rfl
  | .cons hfirst hrest, _, hother => by
      cases hother with
      | cons hfirst' hrest' =>
          cases hfirst.unique hfirst'
          exact hrest.unique hrest'

end

mutual

/-- What is closed stays so. -/
theorem Visit.mem_of_mem {closed after : List Nat} {id i : Nat} (hi : i ∈ closed) :
    arena.Visit closed id after → i ∈ after
  | .again _ => hi
  | .first _ hinputs => List.mem_append_left _ (hinputs.mem_of_mem hi)

theorem VisitAll.mem_of_mem {closed after : List Nat} {ids : List Nat} {i : Nat}
    (hi : i ∈ closed) : arena.VisitAll closed ids after → i ∈ after
  | .nil => hi
  | .cons hfirst hrest => hrest.mem_of_mem (hfirst.mem_of_mem hi)

end

/-- Nodes that are closed already may be left out. -/
theorem VisitAll.of_filter {p : Nat → Bool} {closed ids after : List Nat}
    (h : arena.VisitAll closed (ids.filter p) after) (hdone : ∀ i ∈ ids, p i = false → i ∈ closed) :
    arena.VisitAll closed ids after := by
  induction ids generalizing closed with
  | nil => exact h
  | cons id rest ih =>
      obtain ⟨hid, hrest⟩ := List.forall_mem_cons.1 hdone
      by_cases hp : p id = true
      · rw [List.filter_cons_of_pos hp] at h
        cases h with
        | cons hfirst hmore =>
            exact .cons hfirst (ih hmore fun i hi hpi => hfirst.mem_of_mem (hrest i hi hpi))
      · rw [List.filter_cons_of_neg hp] at h
        exact .cons (.again (hid (by simpa using hp))) (ih h hrest)

/-- The recursive search closes the node that it was asked for last. -/
theorem Visit.getLast? {after : List Nat} (h : arena.Visit [] root after) :
    after.getLast? = some root := by
  cases h with
  | again hmem => contradiction
  | first _ _ => exact List.getLast?_concat

/-! ## Turns of the search -/

/-- Where the search stands between two tasks. -/
structure Progress where
  marks : Array Mark
  tasks : List Task
  closed : List Nat

/-- One turn of the search: what it works on next when it goes on. -/
inductive Advances (arena : Arena) : Progress → Progress → Prop
  | leave {marks id rest closed} :
      Advances arena ⟨marks, .leave id :: rest, closed⟩
        ⟨marks.setIfInBounds id .done, rest, id :: closed⟩
  | enter {marks id rest closed} : marks[id]? = some .unvisited →
      (∀ j ∈ arena.inputsOf id, (marks.setIfInBounds id .inProgress)[j]? ≠ some .inProgress) →
      Advances arena ⟨marks, .enter id :: rest, closed⟩
        ⟨marks.setIfInBounds id .inProgress,
          ((arena.inputsOf id).filter fun j =>
            (marks.setIfInBounds id .inProgress)[j]? == some .unvisited).map .enter ++
              .leave id :: rest, closed⟩
  | skip {marks id rest closed} : marks[id]? ≠ some .unvisited → marks[id]? ≠ some .inProgress →
      Advances arena ⟨marks, .enter id :: rest, closed⟩ ⟨marks, rest, closed⟩

/-- The end of the search: nothing is left to do, an input of the node that is entered is in
progress, or that node itself is. -/
inductive Halts (arena : Arena) : Progress → Except BuildError (List Nat) → Prop
  | finished {marks closed} : Halts arena ⟨marks, [], closed⟩ (.ok closed.reverse)
  | meets {marks id rest closed j} : marks[id]? = some .unvisited → j ∈ arena.inputsOf id →
      (marks.setIfInBounds id .inProgress)[j]? = some .inProgress →
      Halts arena ⟨marks, .enter id :: rest, closed⟩ (.error (.cycle j (arena.originOf j)))
  | reenters {marks id rest closed} : marks[id]? = some .inProgress →
      Halts arena ⟨marks, .enter id :: rest, closed⟩ (.error (.cycle id (arena.originOf id)))

/-- What the search gives from where it stands. -/
def Progress.outcome (arena : Arena) (s : Progress) : Except BuildError (List Nat) :=
  arena.search s.marks s.tasks s.closed

/-- The search goes on or ends, and these turns are what it consists of. -/
theorem advances_or_halts (arena : Arena) (s : Progress) :
    (∃ s', arena.Advances s s' ∧ s.outcome arena = s'.outcome arena) ∨
      arena.Halts s (s.outcome arena) := by
  obtain ⟨marks, tasks, closed⟩ := s
  cases tasks with
  | nil =>
      refine .inr ?_
      rw [Progress.outcome, search]
      exact .finished
  | cons task rest =>
      cases task with
      | leave id => exact .inl ⟨_, .leave, by rw [Progress.outcome, search, Progress.outcome]⟩
      | enter id =>
          rw [Progress.outcome, search_enter]
          split
          · next hid =>
              dsimp only
              split
              · next j hfind =>
                  refine .inr (.meets hid (List.mem_reverse.1 (List.mem_of_find?_eq_some hfind)) ?_)
                  simpa using List.find?_some hfind
              · next hfind => exact .inl ⟨_, .enter hid (not_inProgress_of_find? hfind), rfl⟩
          · next hid => exact .inr (.reenters hid)
          · next hfresh hopen => exact .inl ⟨_, .skip hfresh hopen, rfl⟩

/-! ## The search ends -/

/-- How many turns the unvisited nodes are worth: one to leave each and one to enter each of its
inputs. -/
def unvisitedTurns (arena : Arena) (marks : Array Mark) : Nat :=
  ∑ i ∈ Finset.range marks.size,
    if marks[i]? = some .unvisited then (arena.inputsOf i).length + 1 else 0

/-- How many turns the search may still take: those, and one for each task. -/
def effort (arena : Arena) (s : Progress) : Nat :=
  s.tasks.length + arena.unvisitedTurns s.marks

private theorem unvisited_of_set {marks : Array Mark} {id i : Nat} {mark : Mark}
    (hmark : mark ≠ .unvisited) (h : (marks.setIfInBounds id mark)[i]? = some .unvisited) :
    id ≠ i ∧ marks[i]? = some .unvisited := by
  rw [Array.getElem?_setIfInBounds] at h
  split at h
  · split at h
    · exact absurd (Option.some.inj h) hmark
    · contradiction
  · next hne => exact ⟨hne, h⟩

theorem unvisitedTurns_set_le (marks : Array Mark) (id : Nat) {mark : Mark}
    (hmark : mark ≠ .unvisited) :
    arena.unvisitedTurns (marks.setIfInBounds id mark) ≤ arena.unvisitedTurns marks := by
  rw [unvisitedTurns, Array.size_setIfInBounds]
  refine Finset.sum_le_sum fun i _ => ?_
  split
  · next hset => rw [if_pos (unvisited_of_set hmark hset).2]
  · exact Nat.zero_le _

/-- The turns that an unvisited node is worth are no longer counted when it is marked. -/
theorem unvisitedTurns_set {marks : Array Mark} {id : Nat} {mark : Mark}
    (hmark : mark ≠ .unvisited) (hid : marks[id]? = some .unvisited) :
    arena.unvisitedTurns (marks.setIfInBounds id mark) + ((arena.inputsOf id).length + 1) ≤
      arena.unvisitedTurns marks := by
  have hlt : id < marks.size := (Array.getElem?_eq_some_iff.1 hid).1
  have hown : (arena.inputsOf id).length + 1 = ∑ i ∈ Finset.range marks.size,
      if i = id then (arena.inputsOf i).length + 1 else 0 := by
    rw [Finset.sum_ite_eq', if_pos (Finset.mem_range.2 hlt)]
  rw [unvisitedTurns, Array.size_setIfInBounds, hown, ← Finset.sum_add_distrib]
  refine Finset.sum_le_sum fun i _ => ?_
  by_cases heq : i = id
  · subst heq
    have hset : (marks.setIfInBounds i mark)[i]? ≠ some .unvisited :=
      fun hset => (unvisited_of_set hmark hset).1 rfl
    rw [if_neg hset, if_pos rfl, if_pos hid, Nat.zero_add]
  · rw [if_neg heq, Nat.add_zero]
    split
    · next hset => rw [if_pos (unvisited_of_set hmark hset).2]
    · exact Nat.zero_le _

theorem Advances.effort_lt {s s' : Progress} (h : arena.Advances s s') :
    arena.effort s' < arena.effort s := by
  cases h with
  | @leave marks id rest closed =>
      have hturns : arena.unvisitedTurns (marks.setIfInBounds id .done) ≤ _ :=
        unvisitedTurns_set_le marks id (by decide)
      simp only [effort, List.length_cons]
      omega
  | @enter marks id rest closed hid hinputs =>
      have hturns : arena.unvisitedTurns (marks.setIfInBounds id .inProgress) + _ ≤ _ :=
        unvisitedTurns_set (by decide) hid
      have hnext := List.length_filter_le
        (fun j => (marks.setIfInBounds id .inProgress)[j]? == some .unvisited) (arena.inputsOf id)
      simp only [effort, List.length_append, List.length_map, List.length_cons]
      omega
  | skip _ _ =>
      simp only [effort, List.length_cons]
      omega

/-- What holds where the search ends, and before a turn if it holds behind it, holds always. -/
theorem progress_induction (arena : Arena) {P : Progress → Prop}
    (hhalt : ∀ s, arena.Halts s (s.outcome arena) → P s)
    (hturn : ∀ s s', arena.Advances s s' → s.outcome arena = s'.outcome arena → P s' → P s)
    (s : Progress) : P s := by
  induction heffort : arena.effort s using Nat.strong_induction_on generalizing s with
  | h n ih =>
      rcases advances_or_halts arena s with ⟨s', hadvance, houtcome⟩ | hend
      · exact hturn s s' hadvance houtcome (ih _ (heffort ▸ hadvance.effort_lt) s' rfl)
      · exact hhalt s hend

/-- Where the search for an order begins. -/
def start (arena : Arena) (root : Nat) : Progress :=
  ⟨Array.replicate arena.size .unvisited, [.enter root], []⟩

/-- Where the search stands after some turns. -/
inductive Reaches (arena : Arena) (root : Nat) : Nat → Progress → Prop
  | start : Reaches arena root 0 (arena.start root)
  | turn {n s s'} : Reaches arena root n s → arena.Advances s s' → Reaches arena root (n + 1) s'

theorem effort_start (arena : Arena) (root : Nat) :
    arena.effort (arena.start root) =
      1 + ∑ i ∈ Finset.range arena.size, ((arena.inputsOf i).length + 1) := by
  rw [effort, start, unvisitedTurns, Array.size_replicate]
  refine congrArg (1 + ·) (Finset.sum_congr rfl fun i hi => ?_)
  rw [Array.getElem?_replicate, if_pos (Finset.mem_range.1 hi), if_pos rfl]

/-- No run of the search is longer than the effort that it starts with. -/
theorem Reaches.add_effort_le {n : Nat} {s : Progress} (h : arena.Reaches root n s) :
    n + arena.effort s ≤ arena.effort (arena.start root) := by
  induction h with
  | start => exact Nat.le_of_eq (Nat.zero_add _)
  | turn _ hadvance ih =>
      have hlt := hadvance.effort_lt
      omega

/-- The search comes to an end, and the order is what it ends with. -/
theorem exists_halt (arena : Arena) (root : Nat) :
    ∃ n s, arena.Reaches root n s ∧ arena.Halts s (arena.order root) := by
  have hrun : ∀ s n, arena.Reaches root n s →
      ∃ m s', arena.Reaches root m s' ∧ arena.Halts s' (s.outcome arena) := by
    intro s
    induction s using progress_induction arena with
    | hhalt s hend => exact fun n hreach => ⟨n, s, hreach, hend⟩
    | hturn s s' hadvance houtcome ih =>
        intro n hreach
        rw [houtcome]
        exact ih (n + 1) (hreach.turn hadvance)
  exact hrun (arena.start root) 0 .start

/-! ## Nodes in progress -/

/-- A task in front of another: if the other closes a node, this one is about another node, which
is beneath it. -/
def Inside (arena : Arena) (task behind : Task) : Prop :=
  ∀ id, behind = .leave id → task.id ≠ id ∧ arena.Beneath id task.id

/-- All tasks in front of the closing of a node are about nodes beneath it. -/
def Nested (arena : Arena) (tasks : List Task) : Prop :=
  tasks.Pairwise arena.Inside

theorem mem_leaves_iff {tasks : List Task} {id : Nat} : id ∈ leaves tasks ↔ .leave id ∈ tasks := by
  induction tasks with
  | nil => simp [leaves]
  | cons task rest ih => cases task <;> simp [leaves, ih]

/-- What the search keeps to in its turns. -/
structure Sound (arena : Arena) (root : Nat) (s : Progress) : Prop where
  searching : arena.Searching root s.marks s.tasks s.closed
  nested : arena.Nested s.tasks

theorem sound_start (hroot : root < arena.size) : arena.Sound root (arena.start root) where
  searching := .start hroot
  nested := List.pairwise_singleton _ _

theorem Sound.advance (hclosed : arena.Closed) {s s' : Progress} (h : arena.Sound root s)
    (hadvance : arena.Advances s s') : arena.Sound root s' := by
  obtain ⟨hsearching, hnested⟩ := h
  cases hadvance with
  | leave => exact ⟨hsearching.leave, hnested.of_cons⟩
  | skip hfresh hopen =>
      exact ⟨hsearching.skip (hsearching.done_of_ne hfresh hopen), hnested.of_cons⟩
  | @enter marks id rest closed hid hinputs =>
      refine ⟨hsearching.enter hclosed hid hinputs, ?_⟩
      obtain ⟨hfirst, hrest⟩ := List.pairwise_cons.1 hnested
      refine List.pairwise_append.2 ⟨?_, ?_, ?_⟩
      · refine List.pairwise_map.2 (List.pairwise_of_forall fun i j k hk => ?_)
        contradiction
      · exact List.pairwise_cons.2 ⟨hfirst, hrest⟩
      · intro task htask behind hbehind k hk
        subst hk
        obtain ⟨j, hj, rfl⟩ := List.mem_map.1 htask
        obtain ⟨hinput, hfresh⟩ := List.mem_filter.1 hj
        obtain ⟨hne, hfresh⟩ := unvisited_of_set (by decide) (beq_iff_eq.1 hfresh)
        rcases List.mem_cons.1 hbehind with heq | hbehind
        · cases heq
          exact ⟨Ne.symm hne, .single hinput⟩
        · refine ⟨?_, (hfirst _ hbehind k rfl).2.tail hinput⟩
          rintro rfl
          have hleaves : j ∈ leaves rest := mem_leaves_iff.2 hbehind
          have hopen := (hsearching.mem_leaves j).1 hleaves
          rw [hfresh] at hopen
          contradiction

theorem Reaches.sound (hclosed : arena.Closed) (hroot : root < arena.size) {n : Nat}
    {s : Progress} (h : arena.Reaches root n s) : arena.Sound root s := by
  induction h with
  | start => exact sound_start hroot
  | turn _ hadvance ih => exact ih.advance hclosed hadvance

/-- A node that is about to be entered is not in progress: it would be beneath itself. -/
theorem Sound.not_inProgress {marks : Array Mark} {id : Nat} {rest : List Task}
    {closed : List Nat} (h : arena.Sound root ⟨marks, .enter id :: rest, closed⟩) :
    marks[id]? ≠ some .inProgress := by
  intro hopen
  have hleave : .leave id ∈ rest := mem_leaves_iff.1 ((h.searching.mem_leaves id).2 hopen)
  exact ((List.pairwise_cons.1 h.nested).1 _ hleave id rfl).1 rfl

/-- Where the search fails there is a cycle, through the node that it names. -/
theorem Sound.exists_cycle {s : Progress} (h : arena.Sound root s) {why : BuildError}
    (hfail : arena.Halts s (.error why)) :
    ∃ id, why = .cycle id (arena.originOf id) ∧ arena.Under root id ∧ arena.OnCycle id := by
  cases hfail with
  | @meets marks id rest closed j hid hinput hopen =>
      have hunder : arena.Under root id := (h.searching.tasks_under _ List.mem_cons_self).1
      refine ⟨j, rfl, hunder.tail hinput, ?_⟩
      by_cases heq : id = j
      · subst heq
        exact .single hinput
      · rw [Array.getElem?_setIfInBounds_ne heq] at hopen
        have hleave : .leave j ∈ rest := mem_leaves_iff.1 ((h.searching.mem_leaves j).2 hopen)
        exact ((List.pairwise_cons.1 h.nested).1 _ hleave j rfl).2.tail hinput
  | reenters hopen => exact absurd hopen h.not_inProgress

/-- An order fails at a node of a cycle under the root. -/
theorem exists_cycle_of_order (hclosed : arena.Closed) (hroot : root < arena.size)
    {why : BuildError} (hfail : arena.order root = .error why) :
    ∃ id, why = .cycle id (arena.originOf id) ∧ arena.Under root id ∧ arena.OnCycle id := by
  obtain ⟨n, s, hreach, hend⟩ := arena.exists_halt root
  rw [hfail] at hend
  exact (hreach.sound hclosed hroot).exists_cycle hend

/-- The nodes under a root have an order if none of them lies on a cycle. -/
theorem exists_order (hclosed : arena.Closed) (hroot : root < arena.size)
    (hacyclic : ∀ id, arena.Under root id → ¬ arena.OnCycle id) :
    ∃ plan, arena.order root = .ok plan := by
  cases horder : arena.order root with
  | ok plan => exact ⟨plan, rfl⟩
  | error why =>
      obtain ⟨id, _, hunder, hcycle⟩ := exists_cycle_of_order hclosed hroot horder
      exact absurd hcycle (hacyclic id hunder)

/-! ## The recursive search again -/

/-- What the recursive search makes of tasks: it looks at the nodes to be entered, and closes the
nodes to be left. -/
def Resumes (arena : Arena) : (closed : List Nat) → List Task → (after : List Nat) → Prop
  | closed, [], after => after = closed
  | closed, .enter id :: rest, after =>
    ∃ between, arena.Visit closed id between ∧ Resumes arena between rest after
  | closed, .leave id :: rest, after => Resumes arena (closed ++ [id]) rest after

theorem visitAll_of_resumes {ids closed after : List Nat} {tasks : List Task}
    (h : arena.Resumes closed (ids.map .enter ++ tasks) after) :
    ∃ between, arena.VisitAll closed ids between ∧ arena.Resumes between tasks after := by
  induction ids generalizing closed with
  | nil => exact ⟨closed, .nil, h⟩
  | cons id rest ih =>
      obtain ⟨middle, hfirst, hmore⟩ := h
      obtain ⟨between, hrest, hafter⟩ := ih hmore
      exact ⟨between, .cons hfirst hrest, hafter⟩

/-- If the recursive search does what is left to do after a turn, it does so before it. -/
theorem Sound.resumes_of_advances (hclosed : arena.Closed) {s s' : Progress}
    (h : arena.Sound root s) (hadvance : arena.Advances s s') {after : List Nat}
    (hafter : arena.Resumes s'.closed.reverse s'.tasks after) :
    arena.Resumes s.closed.reverse s.tasks after := by
  obtain ⟨hsearching, _⟩ := h
  cases hadvance with
  | leave => rwa [List.reverse_cons] at hafter
  | skip hfresh hopen =>
      have hdone := hsearching.done_of_ne hfresh hopen
      exact ⟨_, .again (List.mem_reverse.2 ((hsearching.mem_closed _).2 hdone)), hafter⟩
  | @enter marks id rest closed hid hinputs =>
      obtain ⟨between, hvisit, hafter⟩ := visitAll_of_resumes hafter
      refine ⟨between ++ [id], .first ?_ (hvisit.of_filter ?_), hafter⟩
      · intro hmem
        have hdone := (hsearching.mem_closed id).1 (List.mem_reverse.1 hmem)
        rw [hid] at hdone
        contradiction
      · -- An input that is passed over is neither unvisited nor in progress.
        intro j hj hseen
        have hlt : j < (marks.setIfInBounds id .inProgress).size := by
          rw [Array.size_setIfInBounds, hsearching.sized]
          exact hclosed id j hj
        have hmark := Array.getElem?_eq_getElem hlt
        have hopen := hinputs j hj
        rw [hmark] at hseen hopen
        cases hdone : (marks.setIfInBounds id .inProgress)[j] with
        | unvisited => simp [hdone] at hseen
        | inProgress => exact absurd (congrArg some hdone) hopen
        | done =>
            have hentered := hsearching.enter hclosed hid hinputs
            refine List.mem_reverse.2 ((hentered.mem_closed j).2 ?_)
            rw [hmark, hdone]

/-- An order is the one of the recursive search. -/
theorem visit_of_order (hclosed : arena.Closed) (hroot : root < arena.size) {plan : List Nat}
    (hplan : arena.order root = .ok plan) : arena.Visit [] root plan := by
  have hresumes : ∀ s, arena.Sound root s → s.outcome arena = .ok plan →
      arena.Resumes s.closed.reverse s.tasks plan := by
    intro s
    induction s using progress_induction arena with
    | hhalt s hend =>
        intro _ hok
        rw [hok] at hend
        cases hend
        exact rfl
    | hturn s s' hadvance houtcome ih =>
        intro hsound hok
        rw [houtcome] at hok
        exact hsound.resumes_of_advances hclosed hadvance (ih (hsound.advance hclosed hadvance) hok)
  obtain ⟨between, hvisit, rfl⟩ := hresumes _ (sound_start hroot) hplan
  exact hvisit

/-! ## Arenas without cycles -/

theorem Descends.lt_of_beneath (hdesc : arena.Descends) {id below : Nat}
    (h : arena.Beneath id below) : below < id := by
  induction h with
  | single hinput => exact hdesc _ _ hinput
  | tail _ hinput ih => exact Nat.lt_trans (hdesc _ _ hinput) ih

/-- The nodes under a root have an order if every node reads lower places only. -/
theorem Descends.exists_order (hdesc : arena.Descends) (hroot : root < arena.size) :
    ∃ plan, arena.order root = .ok plan :=
  Arena.exists_order hdesc.closed hroot fun _ _ hcycle =>
    absurd (hdesc.lt_of_beneath hcycle) (Nat.lt_irrefl _)

/-! ## Post-order -/

/-- The search for an order of the nodes under a root.  It ends, after no more turns than there are
nodes and inputs and one.  If all inputs exist it never enters a node in progress.  It gives an
order exactly if no node under the root lies on a cycle: the nodes under the root, each once, after
its inputs, the root last, as the recursive search closes them.  Otherwise it names a node on a
cycle under the root. -/
theorem order_is_post_order (arena : Arena) (root : Nat) :
    (∃ n s, arena.Reaches root n s ∧ arena.Halts s (arena.order root)) ∧
    (∀ n s, arena.Reaches root n s →
      n ≤ 1 + ∑ i ∈ Finset.range arena.size, ((arena.inputsOf i).length + 1)) ∧
    (arena.Closed → root < arena.size →
      (∀ n s, arena.Reaches root n s → ∀ id rest, s.tasks = .enter id :: rest →
        s.marks[id]? ≠ some .inProgress) ∧
      ((∃ plan, arena.order root = .ok plan) ↔
        ∀ id, arena.Under root id → ¬ arena.OnCycle id) ∧
      (∀ plan, arena.order root = .ok plan →
        (∀ id, id ∈ plan ↔ arena.Under root id) ∧ plan.Nodup ∧
        (∀ front id back, plan = front ++ id :: back → ∀ j ∈ arena.inputsOf id, j ∈ front) ∧
        plan.getLast? = some root ∧ ∀ other, arena.Visit [] root other ↔ other = plan) ∧
      ∀ why, arena.order root = .error why →
        ∃ id, why = .cycle id (arena.originOf id) ∧ arena.Under root id ∧ arena.OnCycle id) := by
  refine ⟨arena.exists_halt root, ?_, ?_⟩
  · intro n s hreach
    have hbound := hreach.add_effort_le
    rw [effort_start] at hbound
    exact Nat.le_of_add_right_le hbound
  intro hclosed hroot
  have hsettled : ∀ plan, arena.order root = .ok plan →
      arena.Settled plan.reverse ∧ ∀ id, id ∈ plan ↔ arena.Under root id :=
    fun plan hplan => (Searching.start hroot).settled_of_search hclosed hplan
  refine ⟨?_, ⟨?_, exists_order hclosed hroot⟩, ?_, fun why => exists_cycle_of_order hclosed hroot⟩
  · rintro n ⟨marks, tasks, closed⟩ hreach id rest rfl
    exact (hreach.sound hclosed hroot).not_inProgress
  · rintro ⟨plan, hplan⟩ id hunder
    obtain ⟨hplan, hmem⟩ := hsettled plan hplan
    exact hplan.not_onCycle (List.mem_reverse.2 ((hmem id).2 hunder))
  · intro plan hplan
    have hvisit := visit_of_order hclosed hroot hplan
    obtain ⟨hplan, hmem⟩ := hsettled plan hplan
    refine ⟨hmem, List.nodup_reverse.1 hplan.nodup, ?_, hvisit.getLast?, fun other => ⟨?_, ?_⟩⟩
    · rintro front id back rfl j hj
      rw [List.reverse_append, List.reverse_cons, List.append_assoc] at hplan
      exact List.mem_reverse.1 (hplan.inputs_behind j hj)
    · exact hvisit.unique
    · rintro rfl
      exact hvisit

/-- A node that two others read stands in the order once, behind its own input. -/
theorem order_of_diamond :
    let arena : Arena := #[⟨.arithmetic .add (.node 2) (.node 3), none⟩, ⟨.time, none⟩,
      ⟨.math .abs [.node 1], none⟩, ⟨.arithmetic .mul (.node 1) (.node 1), none⟩]
    arena.Closed ∧ 0 < arena.size ∧ arena.Visit [] 0 [1, 2, 3, 0] ∧
      ∀ id, id ∈ [1, 2, 3, 0] ↔ arena.Under 0 id := by
  intro arena
  have hclosed : arena.Closed := closed_of_check rfl
  have hroot : 0 < arena.size := by decide
  have horder : arena.order 0 = .ok [1, 2, 3, 0] := by
    simp [Arena.order, search_enter, search, arena, inputsOf, Node.inputNodes, Node.inputs,
      Signal.node?, List.filterMap]
  obtain ⟨-, -, hspec⟩ := order_is_post_order arena 0
  obtain ⟨-, -, hplan, -⟩ := hspec hclosed hroot
  obtain ⟨hmem, -, -, -, hvisit⟩ := hplan _ horder
  exact ⟨hclosed, hroot, (hvisit _).2 rfl, hmem⟩

end Arena

end ToneGraph
