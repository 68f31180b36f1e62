import ToneGraph.Proofs.Graph.Constants
import ToneGraph.Proofs.Text.LineBreak
/-!
# Listings

A listing is written by a recursion that keeps no record of where it has been.  It goes into every
input of every node that it comes to, however often it has been there.  On a cycle it would not
end, and a graph may hold cycles.  They are not under its root, though: the plan has every node
under the root before those that read it, so a path from the root has no more steps than the plan
has nodes.

What is written is the tree of these paths.  A path is the list of the positions at which it goes
into inputs.  In the order of lists a path comes before all that go on from it, and of two paths
that part the one with the earlier input comes first, which is the pre-order of the tree.

## Main definitions

* `Graph.Writes`: the recursion without a bound, as the lines that it ends with.
* `Signal.follow`, `Signal.lineAt`: the signal at the end of a path, and its line.
* `Graph.ListsPaths`: some lines are those of all paths, in their order.

## Main statements

* `Graph.writes_linesOf`: where a budget lasts, the recursion ends with the lines of a listing.
* `Graph.Writes.listsPaths`: the recursion writes one line for each path.
* `Graph.listing_unfolds_root`: the listing of a finished graph.
-/

namespace ToneGraph

open Number

/-! ## Paths -/

namespace Node

/-- An oscillator at a constant frequency, which a listing shows whole in its own line. -/
def isTone : Node → Bool
  | oscillator _ (.constant _) => true
  | _ => false

theorem listedInputs_eq (node : Node) :
    node.listedInputs = if node.isTone then [] else node.inputs := by
  cases node with
  | oscillator waveform frequency => cases frequency <;> rfl
  | _ => rfl

theorem mem_inputs_of_listed {node : Node} {s : Signal} (h : s ∈ node.listedInputs) :
    s ∈ node.inputs := by
  rw [listedInputs_eq] at h
  split at h
  · contradiction
  · exact h

end Node

namespace Signal

/-- What a listing says about a signal. -/
def caption (nodes : Array Node) : Signal → String
  | constant value => plain (ofFloat value)
  | node id => s!"#{id} " ++ (nodes[id]?.map Node.headline).getD ""

/-- The signal at the end of a path, if there is such a path.  No path goes on from a constant or
from a node that is shown whole. -/
def follow (nodes : Array Node) : Signal → List Nat → Option Signal
  | s, [] => some s
  | constant _, _ :: _ => none
  | node id, k :: path => do
    let node ← nodes[id]?
    if node.isTone then none
    else
      let input ← node.inputs[k]?
      follow nodes input path

/-- The line of the signal at the end of a path from a signal that is shown at some depth: two
spaces for each level, and what there is to say about the signal. -/
def lineAt (nodes : Array Node) (depth : Nat) (s : Signal) (path : List Nat) : Option String :=
  (s.follow nodes path).map fun last =>
    String.ofList (List.replicate (2 * (depth + path.length)) ' ') ++ last.caption nodes

variable {nodes : Array Node} {depth : Nat} {id : Nat}

theorem follow_node {unit : Node} (hnode : nodes[id]? = some unit) (k : Nat) (path : List Nat) :
    (node id).follow nodes (k :: path) =
      unit.listedInputs[k]?.bind fun input => input.follow nodes path := by
  rw [follow, hnode, Node.listedInputs_eq]
  by_cases htone : unit.isTone <;> simp [htone]

theorem lineAt_nil (s : Signal) :
    s.lineAt nodes depth [] = some (Graph.indent depth (s.caption nodes)) :=
  rfl

theorem lineAt_node {unit : Node} (hnode : nodes[id]? = some unit) (k : Nat) (path : List Nat) :
    (node id).lineAt nodes depth (k :: path) =
      unit.listedInputs[k]?.bind fun input => input.lineAt nodes (depth + 1) path := by
  have hdepth : depth + (path.length + 1) = depth + 1 + path.length := by omega
  rw [lineAt, follow_node hnode, List.length_cons, Option.map_bind, hdepth]
  rfl

/-- The line at the end of a path that starts at one of several signals, which are shown at some
depth.  The first step says at which. -/
def lineAmong (nodes : Array Node) (depth : Nat) (signals : List Signal) : List Nat → Option String
  | [] => none
  | k :: path => signals[k]?.bind fun s => s.lineAt nodes depth path

end Signal

namespace Graph

/-! ## The recursion -/

section Recursion

variable {nodes : Array Node}

mutual

/-- The recursion that lists a signal ends with some lines.  It is the one of the listing, but
nothing bounds it. -/
inductive Writes (nodes : Array Node) : (depth : Nat) → Signal → List String → Prop
  | constant {depth value} :
      Writes nodes depth (.constant value) [indent depth (plain (ofFloat value))]
  | node {depth id node below} : nodes[id]? = some node →
      WritesAll nodes (depth + 1) node.listedInputs below →
      Writes nodes depth (.node id) (indent depth (s!"#{id} " ++ node.headline) :: below)

/-- The recursion lists several signals, from the left. -/
inductive WritesAll (nodes : Array Node) : (depth : Nat) → List Signal → List String → Prop
  | nil {depth} : WritesAll nodes depth [] []
  | cons {depth s rest lines more} : Writes nodes depth s lines → WritesAll nodes depth rest more →
      WritesAll nodes depth (s :: rest) (lines ++ more)

end

mutual

/-- The recursion ends with the same lines whenever it ends. -/
theorem Writes.unique {depth : Nat} {s : Signal} {lines : List String} :
    Writes nodes depth s lines → ∀ {other}, Writes nodes depth s other → other = lines
  | .constant, _, hother => by
      cases hother
      rfl
  | .node hnode hbelow, _, hother => by
      cases hother with
      | node hnode' hbelow' =>
          cases hnode.symm.trans hnode'
          rw [hbelow.unique hbelow']

theorem WritesAll.unique {depth : Nat} {signals : List Signal} {lines : List String} :
    WritesAll nodes depth signals lines →
      ∀ {other}, WritesAll nodes depth signals other → other = lines
  | .nil, _, hother => by
      cases hother
      rfl
  | .cons hfirst hrest, _, hother => by
      cases hother with
      | cons hfirst' hrest' => rw [hfirst.unique hfirst', hrest.unique hrest']

end

theorem writesAll_flatMap {depth : Nat} {signals : List Signal} {linesOf : Signal → List String}
    (h : ∀ s ∈ signals, Writes nodes depth s (linesOf s)) :
    WritesAll nodes depth signals (signals.flatMap linesOf) := by
  induction signals with
  | nil => exact .nil
  | cons s rest ih =>
      obtain ⟨hfirst, hrest⟩ := List.forall_mem_cons.1 h
      exact .cons hfirst (ih hrest)

end Recursion

section Budget

variable {arena : Arena} {budget : Nat} {signal : Signal}

theorem getElem?_nodes {id : Nat} {cell : Cell} (h : arena[id]? = some cell) :
    (arena.map Cell.node)[id]? = some cell.node := by
  rw [Array.getElem?_map, h, Option.map_some]

/-- Where a budget lasts, the recursion ends, and the fuel of the listing does not run out. -/
theorem writes_linesOf (hclosed : arena.Closed) (h : arena.Suffices budget signal)
    (hexists : ∀ i ∈ signal.node?, i < arena.size) (depth : Nat) :
    Writes (arena.map Cell.node) depth signal
      (linesOf (arena.map Cell.node) budget depth signal) := by
  induction budget generalizing signal depth with
  | zero =>
      cases signal with
      | constant value => exact .constant
      | node id => contradiction
  | succ budget ih =>
      cases signal with
      | constant value => exact .constant
      | node id =>
          have hlt : id < arena.size := hexists id rfl
          have hcell : arena[id]? = some arena[id] := Array.getElem?_eq_getElem hlt
          rw [linesOf, getElem?_nodes hcell]
          -- What is listed under a node are inputs of it, and for these one step less lasts.
          refine .node (getElem?_nodes hcell) (writesAll_flatMap fun s hs => ?_)
          have hinput := Node.mem_inputs_of_listed hs
          refine ih (h _ hcell s hinput) (fun j hj => ?_) (depth + 1)
          exact hclosed id j (Arena.mem_inputsOf hcell hinput hj)

/-- Where a budget lasts, no path has more steps. -/
theorem length_le_of_follow (h : arena.Suffices budget signal) {path : List Nat} {last : Signal}
    (hfollow : signal.follow (arena.map Cell.node) path = some last) : path.length ≤ budget := by
  induction path generalizing budget signal with
  | nil => exact Nat.zero_le budget
  | cons k path ih =>
      cases signal with
      | constant value => contradiction
      | node id =>
          cases budget with
          | zero => contradiction
          | succ budget =>
              cases hcell : arena[id]? with
              | none => simp [Signal.follow, hcell] at hfollow
              | some cell =>
                  rw [Signal.follow_node (getElem?_nodes hcell)] at hfollow
                  obtain ⟨s, hs, hpath⟩ := Option.bind_eq_some_iff.1 hfollow
                  have hinput := Node.mem_inputs_of_listed (List.mem_of_getElem? hs)
                  exact Nat.succ_le_succ (ih (h cell hcell s hinput) hpath)

end Budget

/-! ## One line for each path -/

/-- The lines of all paths that have one, in the order of the paths. -/
structure ListsPaths (lineAt : List Nat → Option String) (paths : List (List Nat))
    (lines : List String) : Prop where
  sorted : paths.Pairwise (· < ·)
  mem_iff : ∀ path, path ∈ paths ↔ (lineAt path).isSome
  map_eq : paths.map lineAt = lines.map some

namespace ListsPaths

variable {lineAt below : List Nat → Option String} {paths more : List (List Nat)}
  {lines others : List String}

theorem nil (h : ∀ path, lineAt path = none) : ListsPaths lineAt [] [] where
  sorted := .nil
  mem_iff path := by simp [h]
  map_eq := rfl

theorem ne_nil (h : ListsPaths below paths lines) (hnil : below [] = none) :
    ∀ path ∈ paths, ∃ k rest, path = k :: rest := by
  intro path hpath
  refine List.exists_cons_of_ne_nil ?_
  rintro rfl
  have hsome := (h.mem_iff []).1 hpath
  rw [hnil] at hsome
  contradiction

/-- A line in front of those further in. -/
theorem cons {line : String} (h : ListsPaths below paths lines) (hnil : below [] = none)
    (hhere : lineAt [] = some line) (hbelow : ∀ k path, lineAt (k :: path) = below (k :: path)) :
    ListsPaths lineAt ([] :: paths) (line :: lines) where
  sorted := by
    refine List.pairwise_cons.2 ⟨fun path hpath => ?_, h.sorted⟩
    obtain ⟨k, rest, rfl⟩ := h.ne_nil hnil path hpath
    exact List.nil_lt_cons k rest
  mem_iff path := by
    cases path with
    | nil => simp [hhere]
    | cons k rest => simp [hbelow, h.mem_iff]
  map_eq := by
    rw [List.map_cons, List.map_cons, hhere, ← h.map_eq]
    congr 1
    refine List.map_congr_left fun path hpath => ?_
    obtain ⟨k, rest, rfl⟩ := h.ne_nil hnil path hpath
    exact hbelow k rest

/-- A path that starts one signal further to the right. -/
def moveRight : List Nat → List Nat
  | [] => []
  | k :: path => (k + 1) :: path

theorem pairwise_moveRight (hmore : ∀ path ∈ more, ∃ k rest, path = k :: rest)
    (h : more.Pairwise (· < ·)) : (more.map moveRight).Pairwise (· < ·) := by
  refine List.pairwise_map.2 (h.imp_of_mem fun {p q} hp hq hlt => ?_)
  obtain ⟨i, p, rfl⟩ := hmore p hp
  obtain ⟨j, q, rfl⟩ := hmore q hq
  rcases List.cons_lt_cons_iff.1 hlt with hfirst | ⟨rfl, hrest⟩
  · exact List.cons_lt_cons_iff.2 (.inl (Nat.succ_lt_succ hfirst))
  · exact List.cons_lt_cons_iff.2 (.inr ⟨rfl, hrest⟩)

theorem mem_moveRight_iff (hmore : ∀ path ∈ more, ∃ k rest, path = k :: rest) {path : List Nat} :
    path ∈ more.map moveRight ↔ ∃ k rest, path = (k + 1) :: rest ∧ k :: rest ∈ more := by
  constructor
  · intro hpath
    obtain ⟨before, hbefore, rfl⟩ := List.mem_map.1 hpath
    obtain ⟨k, rest, rfl⟩ := hmore before hbefore
    exact ⟨k, rest, rfl, hbefore⟩
  · rintro ⟨k, rest, rfl, hmem⟩
    exact List.mem_map.2 ⟨k :: rest, hmem, rfl⟩

/-- The lines of a signal in front of those of the signals to its right. -/
theorem append {nodes : Array Node} {depth : Nat} {s : Signal} {rest : List Signal}
    (h : ListsPaths (s.lineAt nodes depth) paths lines)
    (hrest : ListsPaths (Signal.lineAmong nodes depth rest) more others) :
    ListsPaths (Signal.lineAmong nodes depth (s :: rest))
      (paths.map (0 :: ·) ++ more.map moveRight) (lines ++ others) where
  sorted := by
    have hmore := hrest.ne_nil rfl
    refine List.pairwise_append.2 ⟨?_, pairwise_moveRight hmore hrest.sorted, ?_⟩
    · refine List.pairwise_map.2 (h.sorted.imp fun hlt => ?_)
      exact List.cons_lt_cons_iff.2 (.inr ⟨rfl, hlt⟩)
    · -- A path through the first signal starts with 0, any other with a later position.
      intro p hp q hq
      obtain ⟨p, -, rfl⟩ := List.mem_map.1 hp
      obtain ⟨k, q, rfl, -⟩ := (mem_moveRight_iff hmore).1 hq
      exact List.cons_lt_cons_iff.2 (.inl (Nat.succ_pos k))
  mem_iff path := by
    rw [List.mem_append, mem_moveRight_iff (hrest.ne_nil rfl)]
    match path with
    | [] => simp [Signal.lineAmong]
    | 0 :: path => simpa [Signal.lineAmong] using h.mem_iff path
    | (k + 1) :: path => simpa [Signal.lineAmong] using hrest.mem_iff (k :: path)
  map_eq := by
    rw [List.map_append, List.map_append, ← h.map_eq, ← hrest.map_eq, List.map_map, List.map_map]
    congr 1
    refine List.map_congr_left fun path hpath => ?_
    obtain ⟨k, path, rfl⟩ := hrest.ne_nil rfl path hpath
    rfl

end ListsPaths

mutual

/-- The recursion writes one line for each path from where it starts, by induction on its run. -/
theorem Writes.listsPaths {nodes : Array Node} {depth : Nat} {s : Signal} {lines : List String} :
    Writes nodes depth s lines → ∃ paths, ListsPaths (s.lineAt nodes depth) paths lines
  | .constant => by
      have hnone : ListsPaths (fun _ => none) [] [] := .nil fun _ => rfl
      exact ⟨[[]], hnone.cons rfl rfl fun _ _ => rfl⟩
  | .node hnode hbelow => by
      obtain ⟨paths, h⟩ := hbelow.listsPaths
      refine ⟨[] :: paths, h.cons rfl ?_ (Signal.lineAt_node hnode)⟩
      rw [Signal.lineAt_nil, Signal.caption, hnode]
      rfl

theorem WritesAll.listsPaths {nodes : Array Node} {depth : Nat} {signals : List Signal}
    {lines : List String} : WritesAll nodes depth signals lines →
      ∃ paths, ListsPaths (Signal.lineAmong nodes depth signals) paths lines
  | .nil => ⟨[], .nil fun path => by cases path <;> rfl⟩
  | .cons hfirst hrest => by
      obtain ⟨paths, h⟩ := hfirst.listsPaths
      obtain ⟨more, hmore⟩ := hrest.listsPaths
      exact ⟨_, h.append hmore⟩

end

end Graph

theorem OneLine.caption (nodes : Array Node) (s : Signal) : OneLine (s.caption nodes) := by
  cases s with
  | constant value => exact plain _
  | node id =>
      refine (((by decide : OneLine "#").append (repr id)).append (by decide)).append ?_
      cases nodes[id]? with
      | none => decide
      | some node => exact headline node

namespace Graph

/-! ## The listing of a graph -/

variable {settings : BuildSettings} {arena : Arena} {root : Nat} {g : Graph}

/-- The listing looks at what no call changes. -/
theorem Built.listing_afterCalls (h : Built arena root g) (calls : List Call) :
    (g.afterCalls calls).listing = g.listing := by
  have hlater := h.afterCalls calls
  rw [listing, lines, hlater.nodes_eq, hlater.root_eq, ← h.nodes_eq, ← h.root_eq]
  rfl

/-- A budget as large as the plan lasts from the root. -/
theorem Built.suffices (h : Built arena root g) :
    arena.Suffices g.plan.length (.node root) := by
  have hroot : root ∈ g.plan.reverse := List.mem_reverse.2 ((h.mem_plan root).2 (.refl arena root))
  have hsuffices := h.settled.suffices hroot
  rwa [List.length_reverse] at hsuffices

/-- There are no more nodes in the plan than in the arena. -/
theorem Built.length_plan_le (h : Built arena root g) : g.plan.length ≤ arena.size := by
  have hnodup : g.plan.Nodup := List.nodup_reverse.1 h.settled.nodup
  exact Arena.length_le_size hnodup h.range

/-- The recursion from the root of a finished graph ends with the lines of its listing. -/
theorem writes_lines (h : arena.finish settings root = .ok g) :
    Writes (arena.map Cell.node) 0 (.node root) g.lines := by
  have hbuilt := built_of_finish h
  obtain ⟨_, hroot, hcheck, _⟩ := Arena.finish_eq_ok_iff.1 h
  have hexists : ∀ i ∈ (Signal.node root).node?, i < arena.size := by
    rintro i ⟨rfl⟩
    exact hroot
  have hsuffices := hbuilt.suffices.mono hbuilt.length_plan_le
  rw [lines, hbuilt.nodes_eq, hbuilt.root_eq, Array.size_map]
  exact writes_linesOf (Arena.closed_of_check hcheck) hsuffices hexists 0

/-- The listing of a finished graph.  The recursion that writes it ends, with these lines and no
others.  They are one line for each path from the root, in pre-order, each indented by the length of
its path, and no path has more steps than the plan has nodes.  Split at its line breaks, the text
gives these lines and nothing behind the last.  Whatever is called later, the listing stays. -/
theorem listing_unfolds_root (h : arena.finish settings root = .ok g) :
    let nodes := arena.map Cell.node
    let start := Signal.node root
    (∀ lines, Writes nodes 0 start lines ↔ lines = g.lines) ∧
    (∃ paths : List (List Nat),
      paths.Pairwise (· < ·) ∧
      (∀ path, path ∈ paths ↔ (start.follow nodes path).isSome) ∧
      (∀ path ∈ paths, path.length ≤ g.plan.length) ∧
      paths.map (start.lineAt nodes 0) = g.lines.map some) ∧
    g.listing.toList.splitOn '\n' = g.lines.map String.toList ++ [[]] ∧
    ∀ calls, (g.afterCalls calls).listing = g.listing := by
  intro nodes start
  have hbuilt := built_of_finish h
  have hwrites : Writes nodes 0 start g.lines := writes_lines h
  obtain ⟨paths, hpaths⟩ := hwrites.listsPaths
  have hmem : ∀ path, path ∈ paths ↔ (start.follow nodes path).isSome := by
    intro path
    rw [hpaths.mem_iff, Signal.lineAt, Option.isSome_map]
  refine ⟨fun lines => ⟨hwrites.unique, ?_⟩, ⟨paths, hpaths.sorted, hmem, ?_, hpaths.map_eq⟩, ?_,
    hbuilt.listing_afterCalls⟩
  · rintro rfl
    exact hwrites
  · intro path hpath
    obtain ⟨last, hlast⟩ := Option.isSome_iff_exists.1 ((hmem path).1 hpath)
    exact length_le_of_follow hbuilt.suffices hlast
  · refine splitOn_join fun line hline => ?_
    have hsome : some line ∈ paths.map (start.lineAt nodes 0) :=
      hpaths.map_eq ▸ List.mem_map_of_mem hline
    obtain ⟨path, -, hat⟩ := List.mem_map.1 hsome
    obtain ⟨last, -, rfl⟩ := Option.map_eq_some_iff.1 hat
    exact (OneLine.caption nodes last).indent _

/-- A tone that is read twice is listed twice, and no path goes on from it.  A cycle beside the root
does not keep the recursion from its end. -/
theorem listing_of_shared_tone :
    let arena : Arena := #[⟨.oscillator .sine (.constant 440.0), none⟩,
      ⟨.math .abs [.node 0], none⟩, ⟨.arithmetic .mul (.node 1) (.node 0), none⟩,
      ⟨.math .exp [.node 4], none⟩, ⟨.math .sqrt [.node 3], none⟩]
    let settings : BuildSettings := ⟨48000.0, defaultSeed, defaultMaxDelay⟩
    ∃ (g : Graph) (paths : List (List Nat)), arena.finish settings 2 = .ok g ∧
      Writes (arena.map Cell.node) 0 (.node 2)
        ["#2 *", "  #1 abs", "    #0 sine 440.0Hz", "  #0 sine 440.0Hz"] ∧
      paths.Pairwise (· < ·) ∧ paths.length = 4 ∧ [0, 0] ∈ paths ∧ [0, 0, 0] ∉ paths := by
  intro arena settings
  have hcheck : arena.check = .ok () := by rfl
  have horder : arena.order 2 = .ok [0, 1, 2] := by
    simp [Arena.order, Arena.search_enter, Arena.search, arena, Arena.inputsOf, Node.inputNodes,
      Node.inputs, Signal.node?, List.filterMap]
  have hfinish : arena.finish settings 2 = .ok _ :=
    Arena.finish_eq_ok_iff.2 ⟨if_pos (by decide), by decide, hcheck, _, _, horder, rfl, rfl⟩
  have hnodes : arena.map Cell.node = #[.oscillator .sine (.constant 440.0), .math .abs [.node 0],
      .arithmetic .mul (.node 1) (.node 0), .math .exp [.node 4], .math .sqrt [.node 3]] := by
    simp [arena]
  obtain ⟨hwrites, ⟨paths, hsorted, hmem, -, hlines⟩, -⟩ := listing_unfolds_root hfinish
  rw [lines] at hlines
  simp only [lines, hnodes] at hwrites hmem hlines ⊢
  have hlength : paths.length = 4 := by
    have hcount := congrArg List.length hlines
    rwa [List.length_map, List.length_map] at hcount
  refine ⟨_, paths, hfinish, (hwrites _).2 (by rfl), hsorted, hlength, (hmem _).2 rfl, ?_⟩
  exact fun h => absurd ((hmem _).1 h) (by decide)

end Graph

end ToneGraph
