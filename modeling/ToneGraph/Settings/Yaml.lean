import ToneGraph.Number.Text
import ToneGraph.Settings
import ToneGraph.Yaml.Document
/-!
# Settings files

Settings are kept as a Yaml mapping. A file need only hold the keys that it changes, keys of no
setting are passed over, and no setting may be given twice. What is written holds every setting, in
a fixed order.
-/

namespace ToneGraph.Settings

open Yaml

/-- The keys of a settings file, in the order in which they are written. -/
def keys : List String :=
  ["sample_rate", "channels", "block_size", "seed", "master_volume", "ceiling",
    "max_delay_seconds", "command_capacity", "scope_capacity"]

/-- A word of 64 bits. -/
def word64? (value : Yaml.Node) : Option UInt64 :=
  (value.natural? UInt64.size).map UInt64.ofNat

/-- A float of 32 bits. It is rounded from 64 bits, so a large one becomes infinite. -/
def float32? (value : Yaml.Node) : Option Float32 :=
  value.float?.map Number.narrow

/-- Gives a value to the setting of a key, if the value is of its type. -/
def set? (s : Settings) (key : String) (value : Yaml.Node) : Option Settings :=
  match key with
  | "sample_rate" => do
    let rate ← value.optional? (Node.natural? UInt32.size)
    return { s with sampleRate := rate.map UInt32.ofNat }
  | "channels" => do
    let channels ← value.optional? (Node.natural? UInt16.size)
    return { s with channels := channels.map UInt16.ofNat }
  | "block_size" => (word64? value).map fun x => { s with blockSize := x }
  | "seed" => (word64? value).map fun x => { s with seed := x }
  | "master_volume" => (float32? value).map fun x => { s with masterVolume := x }
  | "ceiling" => (float32? value).map fun x => { s with ceiling := x }
  | "max_delay_seconds" => value.float?.map fun x => { s with maxDelaySeconds := x }
  | "command_capacity" => (word64? value).map fun x => { s with commandCapacity := x }
  | "scope_capacity" => (word64? value).map fun x => { s with scopeCapacity := x }
  | _ => some s

/-- Gives values to settings, each of them once at most. `seen` holds the settings that have been
given already. A key is a scalar of any kind. -/
def setAll? (document : Document) (s : Settings) (seen : List String) :
    List (Yaml.Node × Yaml.Node) → Option Settings
  | [] => some s
  | (key, value) :: rest => do
    let key ← (document.follow key).text?
    if seen.contains key then none
    let s ← s.set? key (document.follow value)
    setAll? document s (if keys.contains key then key :: seen else seen) rest

/-- The settings of a file, if it holds a mapping with values of the right types or nothing. -/
def ofYaml? (text : String) : Option Settings := do
  let document ← Document.ofText? text
  match document.root with
  | .mapping entries => setAll? document default [] entries
  | root => if root.isEmpty then some default else none

/-- A setting that may be left to the device. -/
def optionText : Option Nat → String
  | none => "null"
  | some n => toString n

/-- The values of all settings as a file shows them, in the order of the keys. -/
def valueTexts (s : Settings) : List String :=
  let single (x : Float32) := Number.setting Number.singleSetting (Number.ofFloat32 x)
  [optionText (s.sampleRate.map UInt32.toNat), optionText (s.channels.map UInt16.toNat),
    toString s.blockSize.toNat, toString s.seed.toNat, single s.masterVolume, single s.ceiling,
    Number.setting Number.doubleSetting (Number.ofFloat s.maxDelaySeconds),
    toString s.commandCapacity.toNat, toString s.scopeCapacity.toNat]

/-- A file that holds all settings, one a line. -/
def toYaml (s : Settings) : String :=
  String.join ((keys.zip s.valueTexts).map fun (key, value) => key ++ ": " ++ value ++ "\n")

end ToneGraph.Settings
