import Mathlib.Logic.Relation
import ToneGraph.Proofs.Graph.Checks
/-!
# Evaluation order

The search lists the nodes under a root, each after its inputs.  Its invariant reads the tasks
from the left: a task to close a node stands behind tasks for all inputs of the node that are not
closed yet, and no two tasks close the same node.  Closing a node then keeps the closed nodes
settled, and when no task is left they hold everything under the root.

## Main definitions

* `Arena.Under`: the nodes that a root reads, directly or through others.
* `Arena.Settled`: a list of nodes in which each stands before its inputs, and stands once.
* `Arena.Searching`: the invariant of the search.
* `Arena.Descends`: every node reads nodes at lower places only.

## Main statements

* `Arena.settled_of_order`: the reversed order is settled, and it holds exactly what is under the
  root.
-/

namespace ToneGraph

namespace Arena

theorem inputsOf_eq {arena : Arena} {id : Nat} {cell : Cell} (h : arena[id]? = some cell) :
    arena.inputsOf id = cell.node.inputNodes := by
  rw [inputsOf, h]

/-- Only a node that exists has inputs. -/
theorem lt_size_of_input {arena : Arena} {i j : Nat} (h : j ∈ arena.inputsOf i) :
    i < arena.size := by
  unfold inputsOf at h
  split at h
  · next hcell => exact (Array.getElem?_eq_some_iff.1 hcell).1
  · contradiction

/-- The node at `id` is read by the node at `root`, directly or through others, or is that node. -/
def Under (arena : Arena) (root id : Nat) : Prop :=
  Relation.ReflTransGen (fun i j => j ∈ arena.inputsOf i) root id

theorem Under.refl (arena : Arena) (root : Nat) : arena.Under root root :=
  Relation.ReflTransGen.refl

theorem Under.tail {arena : Arena} {root i j : Nat} (hi : arena.Under root i)
    (hj : j ∈ arena.inputsOf i) : arena.Under root j :=
  Relation.ReflTransGen.tail hi hj

/-- Every node of the list is followed by all of its inputs, and none by itself. -/
def Settled (arena : Arena) : List Nat → Prop
  | [] => True
  | id :: rest => id ∉ rest ∧ (∀ j ∈ arena.inputsOf id, j ∈ rest) ∧ Settled arena rest

variable {arena : Arena} {root : Nat}

theorem Settled.nodup {ids : List Nat} (h : arena.Settled ids) : ids.Nodup := by
  induction ids with
  | nil => exact List.nodup_nil
  | cons id rest ih => exact List.nodup_cons.2 ⟨h.1, ih h.2.2⟩

theorem Settled.inputs_mem {ids : List Nat} (h : arena.Settled ids) {i j : Nat} (hi : i ∈ ids)
    (hj : j ∈ arena.inputsOf i) : j ∈ ids := by
  induction ids with
  | nil => contradiction
  | cons id rest ih =>
      rcases List.mem_cons.1 hi with rfl | hi
      · exact List.mem_cons_of_mem _ (h.2.1 j hj)
      · exact List.mem_cons_of_mem _ (ih h.2.2 hi)

/-- What holds of a node as soon as it holds of its inputs holds of a settled list. -/
theorem Settled.induction {ids : List Nat} (h : arena.Settled ids) {P : Nat → Prop}
    (hnode : ∀ i ∈ ids, (∀ j ∈ arena.inputsOf i, P j) → P i) : ∀ i ∈ ids, P i := by
  induction ids with
  | nil => exact List.forall_mem_nil P
  | cons id rest ih =>
      obtain ⟨hid, hothers⟩ := List.forall_mem_cons.1 hnode
      have hrest := ih h.2.2 hothers
      exact List.forall_mem_cons.2 ⟨hid fun j hj => hrest j (h.2.1 j hj), hrest⟩

/-- A settled list that holds a node holds everything under it. -/
theorem Settled.mem_of_under {ids : List Nat} (h : arena.Settled ids) {id : Nat}
    (hroot : root ∈ ids) (hid : arena.Under root id) : id ∈ ids := by
  induction hid with
  | refl => exact hroot
  | tail _ hj ih => exact h.inputs_mem ih hj

/-! ## References that exist -/

/-- Every input of every node exists. -/
def Closed (arena : Arena) : Prop :=
  ∀ i, ∀ j ∈ arena.inputsOf i, j < arena.size

/-- An arena that passes its checks refers to existing nodes only. -/
theorem closed_of_check (h : arena.check = .ok ()) : arena.Closed := by
  intro i j hj
  obtain ⟨cell, hcell⟩ : ∃ cell, arena[i]? = some cell :=
    ⟨_, Array.getElem?_eq_getElem (lt_size_of_input hj)⟩
  rw [inputsOf_eq hcell] at hj
  exact (check_eq_ok_iff.1 h i cell hcell).inputs j hj

/-! ## Tasks -/

/-- The node that a task is about. -/
def Task.id : Task → Nat
  | .enter id => id
  | .leave id => id

/-- The nodes that the tasks close. -/
def leaves : List Task → List Nat
  | [] => []
  | .enter _ :: rest => leaves rest
  | .leave id :: rest => id :: leaves rest

theorem leaves_enters_append (ids : List Nat) (tasks : List Task) :
    leaves (ids.map .enter ++ tasks) = leaves tasks := by
  induction ids with
  | nil => rfl
  | cons id rest ih => exact ih

/-- Whoever is closed by a task has its inputs among the known nodes or those that the tasks before
are about. -/
def Waiting (arena : Arena) : (known : List Nat) → List Task → Prop
  | _, [] => True
  | known, .enter id :: rest => Waiting arena (id :: known) rest
  | known, .leave id :: rest =>
    (∀ j ∈ arena.inputsOf id, j ∈ known) ∧ Waiting arena (id :: known) rest

theorem Waiting.of_enter {known : List Nat} {id : Nat} {tasks : List Task}
    (h : arena.Waiting known (.enter id :: tasks)) : arena.Waiting (id :: known) tasks :=
  h

theorem Waiting.mono {known more : List Nat} {tasks : List Task} (h : arena.Waiting known tasks)
    (hsub : ∀ j ∈ known, j ∈ more) : arena.Waiting more tasks := by
  have hcons : ∀ {known more : List Nat} (id : Nat), (∀ j ∈ known, j ∈ more) →
      ∀ j ∈ id :: known, j ∈ id :: more :=
    fun id hsub j hj => (List.mem_cons.1 hj).elim (fun h => h ▸ List.mem_cons_self)
      fun h => List.mem_cons_of_mem _ (hsub j h)
  induction tasks generalizing known more with
  | nil => trivial
  | cons task rest ih =>
      cases task with
      | enter id => exact ih h.of_enter (hcons id hsub)
      | leave id =>
          obtain ⟨hinputs, hrest⟩ := h
          exact ⟨fun j hj => hsub j (hinputs j hj), ih hrest (hcons id hsub)⟩

theorem waiting_enters_append {known : List Nat} {tasks : List Task} (ids : List Nat)
    (h : arena.Waiting (ids.reverse ++ known) tasks) :
    arena.Waiting known (ids.map .enter ++ tasks) := by
  induction ids generalizing known with
  | nil => exact h
  | cons id rest ih =>
      show arena.Waiting (id :: known) (rest.map .enter ++ tasks)
      refine ih ?_
      rwa [List.reverse_cons, List.append_assoc] at h

/-! ## The search -/

/-- What holds whenever the search looks at its next task. -/
structure Searching (arena : Arena) (root : Nat) (marks : Array Mark) (tasks : List Task)
    (closed : List Nat) : Prop where
  sized : marks.size = arena.size
  settled : arena.Settled closed
  waiting : arena.Waiting closed tasks
  mem_closed : ∀ id, id ∈ closed ↔ marks[id]? = some .done
  mem_leaves : ∀ id, id ∈ leaves tasks ↔ marks[id]? = some .inProgress
  nodup : (leaves tasks).Nodup
  closed_under : ∀ id ∈ closed, arena.Under root id
  tasks_under : ∀ task ∈ tasks, arena.Under root task.id ∧ task.id < arena.size
  root_seen : root ∈ closed ∨ root ∈ tasks.map Task.id

namespace Searching

variable {marks : Array Mark} {tasks : List Task} {closed : List Nat} {id : Nat}

theorem start (hroot : root < arena.size) :
    arena.Searching root (Array.replicate arena.size .unvisited) [.enter root] [] where
  sized := Array.size_replicate
  settled := trivial
  waiting := trivial
  mem_closed id := by
    simp [Array.getElem?_replicate]
  mem_leaves id := by
    simp [leaves, Array.getElem?_replicate]
  nodup := List.nodup_nil
  closed_under := by simp
  tasks_under task htask := by
    rw [List.mem_singleton.1 htask]
    exact ⟨.refl arena root, hroot⟩
  root_seen := .inr List.mem_cons_self

private theorem getElem?_mark (h : id < marks.size) (mark : Mark) (i : Nat) :
    (marks.setIfInBounds id mark)[i]? = if id = i then some mark else marks[i]? := by
  rw [Array.getElem?_setIfInBounds]
  by_cases heq : id = i
  · subst heq
    rw [if_pos rfl, if_pos h, if_pos rfl]
  · rw [if_neg heq, if_neg heq]

/-- Closing a node. -/
theorem leave (h : arena.Searching root marks (.leave id :: tasks) closed) :
    arena.Searching root (marks.setIfInBounds id .done) tasks (id :: closed) where
  sized := by
    rw [Array.size_setIfInBounds, h.sized]
  settled := by
    have hopen := (h.mem_leaves id).1 List.mem_cons_self
    refine ⟨?_, h.waiting.1, h.settled⟩
    intro hmem
    rw [(h.mem_closed id).1 hmem] at hopen
    contradiction
  waiting := h.waiting.2
  mem_closed i := by
    have hid : id < marks.size := h.sized ▸ (h.tasks_under _ List.mem_cons_self).2
    rw [getElem?_mark hid, List.mem_cons, h.mem_closed]
    by_cases heq : id = i
    · simp [heq]
    · simp [heq, Ne.symm heq]
  mem_leaves i := by
    have hid : id < marks.size := h.sized ▸ (h.tasks_under _ List.mem_cons_self).2
    have hfresh : id ∉ leaves tasks := (List.nodup_cons.1 h.nodup).1
    rw [getElem?_mark hid]
    by_cases heq : id = i
    · subst heq
      simp [hfresh]
    · rw [if_neg heq, ← h.mem_leaves i]
      constructor
      · exact List.mem_cons_of_mem _
      · exact fun hmem => (List.mem_cons.1 hmem).resolve_left (Ne.symm heq)
  nodup := (List.nodup_cons.1 h.nodup).2
  closed_under i hi := by
    rcases List.mem_cons.1 hi with rfl | hi
    · exact (h.tasks_under _ List.mem_cons_self).1
    · exact h.closed_under i hi
  tasks_under task htask := h.tasks_under task (List.mem_cons_of_mem _ htask)
  root_seen := by
    rcases h.root_seen with hroot | hroot
    · exact .inl (List.mem_cons_of_mem _ hroot)
    · rcases List.mem_cons.1 hroot with rfl | hroot
      · exact .inl List.mem_cons_self
      · exact .inr hroot

/-- Looking at a node that is closed already. -/
theorem skip (h : arena.Searching root marks (.enter id :: tasks) closed)
    (hid : marks[id]? = some .done) : arena.Searching root marks tasks closed where
  sized := h.sized
  settled := h.settled
  waiting := by
    have hclosed : id ∈ closed := (h.mem_closed id).2 hid
    refine h.waiting.of_enter.mono ?_
    intro j hj
    rcases List.mem_cons.1 hj with rfl | hj
    · exact hclosed
    · exact hj
  mem_closed := h.mem_closed
  mem_leaves := h.mem_leaves
  nodup := h.nodup
  closed_under := h.closed_under
  tasks_under task htask := h.tasks_under task (List.mem_cons_of_mem _ htask)
  root_seen := by
    rcases h.root_seen with hroot | hroot
    · exact .inl hroot
    · rcases List.mem_cons.1 hroot with rfl | hroot
      · exact .inl ((h.mem_closed _).2 hid)
      · exact .inr hroot

/-- A node that a task is about is done if it is not in progress and has been visited. -/
theorem done_of_ne (h : arena.Searching root marks (.enter id :: tasks) closed)
    (hfresh : marks[id]? ≠ some .unvisited) (hopen : marks[id]? ≠ some .inProgress) :
    marks[id]? = some .done := by
  have hlt : id < marks.size := h.sized ▸ (h.tasks_under _ List.mem_cons_self).2
  rw [Array.getElem?_eq_getElem hlt] at hfresh hopen ⊢
  cases hmark : marks[id] with
  | unvisited => exact absurd (congrArg some hmark) hfresh
  | inProgress => exact absurd (congrArg some hmark) hopen
  | done => rfl

/-- Entering a node none of whose inputs is in progress. -/
theorem enter (hclosed : arena.Closed)
    (h : arena.Searching root marks (.enter id :: tasks) closed)
    (hid : marks[id]? = some .unvisited)
    (hinputs : ∀ j ∈ arena.inputsOf id,
      (marks.setIfInBounds id .inProgress)[j]? ≠ some .inProgress) :
    arena.Searching root (marks.setIfInBounds id .inProgress)
      (((arena.inputsOf id).filter
          fun j => (marks.setIfInBounds id .inProgress)[j]? == some .unvisited).map .enter ++
        .leave id :: tasks) closed := by
  obtain ⟨hunder, hlt⟩ : arena.Under root id ∧ id < arena.size :=
    h.tasks_under _ List.mem_cons_self
  have hset : ∀ i, (marks.setIfInBounds id .inProgress)[i]? =
      if id = i then some .inProgress else marks[i]? := getElem?_mark (h.sized ▸ hlt) .inProgress
  have hfresh : id ∉ leaves tasks := by
    intro hmem
    have hopen := (h.mem_leaves id).1 hmem
    rw [hid] at hopen
    contradiction
  refine
    { sized := ?_
      settled := h.settled
      waiting := ?_
      mem_closed := ?_
      mem_leaves := ?_
      nodup := ?_
      closed_under := h.closed_under
      tasks_under := ?_
      root_seen := ?_ }
  · rw [Array.size_setIfInBounds, h.sized]
  · refine waiting_enters_append _ ⟨?_, h.waiting.of_enter.mono ?_⟩
    · intro j hj
      -- An input that is not closed is unvisited, so it is entered before `id` is left.
      have hjlt : j < marks.size := h.sized ▸ hclosed id j hj
      have hne : id ≠ j := by
        rintro rfl
        exact hinputs id hj ((hset id).trans (if_pos rfl))
      have hsame : (marks.setIfInBounds id .inProgress)[j]? = marks[j]? :=
        (hset j).trans (if_neg hne)
      cases hmark : marks[j] with
      | unvisited =>
          refine List.mem_append_left _ (List.mem_reverse.2 (List.mem_filter.2 ⟨hj, ?_⟩))
          rw [hsame, Array.getElem?_eq_getElem hjlt, hmark]
          rfl
      | inProgress =>
          refine absurd ?_ (hinputs j hj)
          rw [hsame, Array.getElem?_eq_getElem hjlt, hmark]
      | done =>
          refine List.mem_append_right _ ((h.mem_closed j).2 ?_)
          rw [Array.getElem?_eq_getElem hjlt, hmark]
    · intro j hj
      rcases List.mem_cons.1 hj with rfl | hj
      · exact List.mem_cons_self
      · exact List.mem_cons_of_mem _ (List.mem_append_right _ hj)
  · intro i
    rw [hset, h.mem_closed]
    by_cases heq : id = i
    · subst heq
      simp [hid]
    · rw [if_neg heq]
  · intro i
    rw [leaves_enters_append, hset]
    by_cases heq : id = i
    · subst heq
      simp [leaves]
    · rw [if_neg heq, ← h.mem_leaves i]
      exact ⟨fun hmem => (List.mem_cons.1 hmem).resolve_left (Ne.symm heq),
        List.mem_cons_of_mem _⟩
  · rw [leaves_enters_append]
    exact List.nodup_cons.2 ⟨hfresh, h.nodup⟩
  · intro task htask
    rcases List.mem_append.1 htask with htask | htask
    · obtain ⟨j, hj, rfl⟩ := List.mem_map.1 htask
      have hinput := (List.mem_filter.1 hj).1
      exact ⟨hunder.tail hinput, hclosed id j hinput⟩
    · rcases List.mem_cons.1 htask with rfl | htask
      · exact ⟨hunder, hlt⟩
      · exact h.tasks_under task (List.mem_cons_of_mem _ htask)
  · rw [List.map_append]
    exact h.root_seen.imp_right (List.mem_append_right _)

end Searching

/-- Entering a node, by its mark. -/
theorem search_enter (marks : Array Mark) (id : Nat) (tasks : List Task) (closed : List Nat) :
    arena.search marks (.enter id :: tasks) closed =
      match marks[id]? with
      | some .unvisited =>
        let marked := marks.setIfInBounds id .inProgress
        match (arena.inputsOf id).reverse.find? (fun j => marked[j]? == some .inProgress) with
        | some j => .error (.cycle j (arena.originOf j))
        | none =>
          arena.search marked
            (((arena.inputsOf id).filter fun j => marked[j]? == some .unvisited).map .enter ++
              .leave id :: tasks) closed
      | some .inProgress => .error (.cycle id (arena.originOf id))
      | _ => arena.search marks tasks closed := by
  rw [search]
  split
  · next hid =>
      generalize marks[id]? = mark at hid
      subst hid
      rfl
  · next hid => simp only [hid]
  · next hfresh hopen =>
      split
      · next hid => exact absurd hid hfresh
      · next hid => exact absurd hid hopen
      · rfl

/-- If the search finds no input in progress, there is none. -/
theorem not_inProgress_of_find? {marks : Array Mark} {inputs : List Nat}
    (h : inputs.reverse.find? (fun j => marks[j]? == some .inProgress) = none) :
    ∀ j ∈ inputs, marks[j]? ≠ some .inProgress := by
  intro j hj hopen
  have hnot := List.find?_eq_none.1 h j (List.mem_reverse.2 hj)
  rw [hopen] at hnot
  exact hnot rfl

/-- Whatever the search lists is settled and holds exactly what is under the root. -/
theorem Searching.settled_of_search (hclosed : arena.Closed) {marks : Array Mark}
    {tasks : List Task} {closed plan : List Nat}
    (h : arena.Searching root marks tasks closed)
    (hplan : arena.search marks tasks closed = .ok plan) :
    arena.Settled plan.reverse ∧ ∀ id, id ∈ plan ↔ arena.Under root id := by
  induction marks, tasks, closed using search.induct arena with
  | case1 marks closed =>
      rw [search] at hplan
      cases hplan
      rw [List.reverse_reverse]
      refine ⟨h.settled, fun id => ?_⟩
      rw [List.mem_reverse]
      have hroot : root ∈ closed := h.root_seen.resolve_right (List.not_mem_nil)
      exact ⟨h.closed_under id, h.settled.mem_of_under hroot⟩
  | case2 marks closed id rest ih =>
      rw [search] at hplan
      exact ih h.leave hplan
  | case3 marks closed id rest hid marked inputs input hcycle =>
      simp only [search_enter, hid] at hplan
      simp only [marked, inputs] at hcycle
      rw [hcycle] at hplan
      contradiction
  | case4 marks closed id rest hid marked inputs hclear next ih =>
      have hinputs := not_inProgress_of_find? hclear
      simp only [search_enter, hid] at hplan
      simp only [marked, inputs] at hclear
      rw [hclear] at hplan
      exact ih (h.enter hclosed hid hinputs) hplan
  | case5 marks closed id rest hid =>
      rw [search_enter, hid] at hplan
      contradiction
  | case6 marks closed id rest hfresh hopen ih =>
      have hid : marks[id]? = some .done := h.done_of_ne hfresh hopen
      rw [search_enter, hid] at hplan
      exact ih (h.skip hid) hplan

/-- The order of the nodes under a root, read backwards, is settled, and it holds exactly the
nodes under the root. -/
theorem settled_of_order (hcheck : arena.check = .ok ()) (hroot : root < arena.size)
    {plan : List Nat} (h : arena.order root = .ok plan) :
    arena.Settled plan.reverse ∧ ∀ id, id ∈ plan ↔ arena.Under root id :=
  (Searching.start hroot).settled_of_search (closed_of_check hcheck) h

/-! ## Arenas without cycles -/

/-- Every node reads nodes at lower places only. -/
def Descends (arena : Arena) : Prop :=
  ∀ i, ∀ j ∈ arena.inputsOf i, j < i

theorem Descends.closed (h : arena.Descends) : arena.Closed :=
  fun i j hj => Nat.lt_trans (h i j hj) (lt_size_of_input hj)

end Arena

end ToneGraph
