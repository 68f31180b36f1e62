import ToneGraph.Graph.Listing
/-!
# Line breaks

A listing is lines, each ended by a line break, and is read back by its line breaks.  So nothing
that stands in a line may hold one: no number, whatever its value, and no name of a unit.

## Main definitions

* `OneLine`: a text without a line break.

## Main statements

* `OneLine.headline`: what a listing says about a node is one line.
* `splitOn_join`: lines that are put together fall apart into the same lines.
-/

namespace ToneGraph

open Number

/-- A text without a line break. -/
def OneLine (text : String) : Prop :=
  '\n' ∉ text.toList

instance (text : String) : Decidable (OneLine text) :=
  inferInstanceAs (Decidable ('\n' ∉ text.toList))

namespace OneLine

theorem append {a b : String} (ha : OneLine a) (hb : OneLine b) : OneLine (a ++ b) := by
  rw [OneLine, String.toList_append, List.mem_append, not_or]
  exact ⟨ha, hb⟩

theorem replicate {c : Char} (hc : '\n' ≠ c) (n : Nat) :
    OneLine (String.ofList (List.replicate n c)) := by
  rw [OneLine, String.toList_ofList]
  exact fun hmem => hc (List.eq_of_mem_replicate hmem)

theorem repr (n : Nat) : OneLine n.repr := by
  rw [OneLine, Nat.toList_repr]
  intro hmem
  have hdigit := Nat.isDigit_of_mem_toDigits (by decide) (Nat.le_refl 10) hmem
  contradiction

theorem take {text : String} (h : OneLine text) (n : Nat) : OneLine (text.take n).toString := by
  have htake : (text.take n).toString.toList = text.toList.take n := String.toList_copy_take
  rw [OneLine, htake]
  exact fun hmem => h (List.mem_of_mem_take hmem)

theorem drop {text : String} (h : OneLine text) (n : Nat) : OneLine (text.drop n).toString := by
  have hdrop : (text.drop n).toString.toList = text.toList.drop n := String.toList_copy_drop
  rw [OneLine, hdrop]
  exact fun hmem => h (List.mem_of_mem_drop hmem)

theorem zeros (n : Nat) : OneLine (zeros n) :=
  replicate (by decide) n

theorem sign (negative : Bool) : OneLine (sign negative) := by
  cases negative <;> decide

theorem split (d : Decimal) : OneLine d.split.1 ∧ OneLine d.split.2 := by
  have htext : OneLine d.digitText := repr d.digits
  have hzero : OneLine "0" := by decide
  have hempty : OneLine "" := by decide
  simp only [Decimal.split]
  split
  · exact ⟨hzero, zeros _⟩
  · split
    · exact ⟨hzero, (zeros _).append htext⟩
    · split
      · exact ⟨htext.append (zeros _), hempty⟩
      · exact ⟨htext.take _, htext.drop _⟩

theorem positional (d : Decimal) : OneLine d.positional := by
  obtain ⟨hwhole, hfraction⟩ := split d
  show OneLine (if d.split.2.isEmpty then d.split.1 else d.split.1 ++ "." ++ d.split.2)
  split
  · exact hwhole
  · exact (hwhole.append (by decide)).append hfraction

theorem plain (v : Value) : OneLine (plain v) := by
  cases v with
  | nan => decide
  | infinite negative => exact (sign negative).append (by decide)
  | finite b => exact (sign b.negative).append (positional _)

theorem rounded (places : Nat) (v : Value) : OneLine (rounded places v) := by
  cases v with
  | nan => exact (by decide : OneLine "NaN")
  | infinite negative => exact (sign negative).append (by decide)
  | finite b => exact (sign b.negative).append (positional _)

theorem formatFrequency (hertz : Float) : OneLine (formatFrequency hertz) := by
  unfold ToneGraph.formatFrequency
  split
  · exact (rounded 1 _).append (by decide)
  · exact (rounded 1 _).append (by decide)

theorem waveform (w : Synth.Waveform) : OneLine w.name := by
  cases w <;> decide

theorem mathOp (op : Synth.MathOp) : OneLine op.name := by
  cases op <;> decide

theorem effectKind (kind : Synth.EffectKind) : OneLine kind.name := by
  cases kind <;> decide

theorem name (node : Node) : OneLine node.name := by
  cases node with
  | oscillator w _ => exact waveform w
  | noise color => cases color <;> decide
  | random => decide
  | time => decide
  | ramp _ _ _ => exact (by decide : OneLine "ramp")
  | math op _ => exact mathOp op
  | arithmetic _ _ _ => exact (by decide : OneLine "arithmetic")
  | effect kind _ _ => exact effectKind kind
  | constant _ => exact (by decide : OneLine "constant")

theorem symbol (op : BinaryOp) : OneLine op.symbol.toString := by
  cases op <;> decide

theorem headline (node : Node) : OneLine node.headline := by
  cases node with
  | oscillator w frequency =>
      cases frequency with
      | constant hertz => exact ((waveform w).append (by decide)).append (formatFrequency hertz)
      | node id => exact waveform w
  | constant value => exact plain _
  | arithmetic op _ _ => exact symbol op
  | _ => exact name _

theorem indent {text : String} (h : OneLine text) (depth : Nat) :
    OneLine (Graph.indent depth text) :=
  (replicate (by decide) _).append h

end OneLine

theorem toList_join_lines (lines : List String) :
    (String.join (lines.map (· ++ "\n"))).toList =
      ['\n'].intercalate (lines.map String.toList ++ [[]]) := by
  rw [String.toList_join, List.flatMap_map]
  induction lines with
  | nil => rfl
  | cons line rest ih =>
      have hne : rest.map String.toList ++ [[]] ≠ [] := by simp
      rw [List.flatMap_cons, ih, List.map_cons, List.cons_append,
        List.intercalate_cons_of_ne_nil hne, String.toList_append]
      rfl

/-- Lines that are each ended by a line break are what the text falls apart into. -/
theorem splitOn_join {lines : List String} (h : ∀ line ∈ lines, OneLine line) :
    (String.join (lines.map (· ++ "\n"))).toList.splitOn '\n' =
      lines.map String.toList ++ [[]] := by
  rw [toList_join_lines, List.splitOn_intercalate '\n' ?_ (by simp)]
  intro text hmem
  rcases List.mem_append.1 hmem with htext | hlast
  · obtain ⟨line, hline, rfl⟩ := List.mem_map.1 htext
    exact h line hline
  · rw [List.mem_singleton.1 hlast]
    exact List.not_mem_nil

end ToneGraph
