import ToneGraph.Number.Power
import ToneGraph.Synth.Limiter
/-!
# Wave files

Sound as whole numbers of 16 bits, the samples of a frame side by side, behind a header that says
how to play them. Up to two channels take the short header; more take the long one, which also names
the place of every channel.
-/

namespace ToneGraph

open Synth

/-- Sound in a file. -/
structure Wave where
  sampleRate : UInt32
  channels : UInt16
  samples : Array Int16

/-- The whole number of a sample: one is the largest, and fractions are cut off. What is no number
is silent. -/
def wholeSample (x : Float32) : Int16 :=
  (clamp32 (-1.0) 1.0 x * 32767.0).toInt16

/-- The lowest `length` bytes of a number, the lowest first. -/
def littleEndian (length n : Nat) : List UInt8 :=
  (List.range length).map fun i => UInt8.ofNat (n >>> (8 * i))

@[simp] theorem length_littleEndian (length n : Nat) : (littleEndian length n).length = length := by
  simp [littleEndian]

/-- A word of letters, a byte each. -/
def asciiBytes (word : String) : List UInt8 :=
  word.toList.map fun c => UInt8.ofNat c.toNat

namespace Wave

/-- How many bytes play in a second, as a word of 32 bits. -/
def byteRate (w : Wave) : UInt32 :=
  w.sampleRate * 2 * w.channels.toUInt32

/-- Channels, rates, and the bytes of a frame. -/
def layout (w : Wave) : List UInt8 :=
  littleEndian 2 w.channels.toNat ++ littleEndian 4 w.sampleRate.toNat ++
    littleEndian 4 w.byteRate.toNat ++ littleEndian 2 (w.byteRate / w.sampleRate).toNat ++
    littleEndian 2 16

/-- Marks the long header as one of plain samples. -/
def plainSamplesMark : List UInt8 :=
  [0x01, 0x00, 0x00, 0x00, 0x00, 0x00, 0x10, 0x00, 0x80, 0x00, 0x00, 0xaa, 0x00, 0x38, 0x9b, 0x71]

/-- The part of the header that says how the samples are laid out. -/
def format (w : Wave) : List UInt8 :=
  if w.channels ≤ 2 then littleEndian 4 16 ++ littleEndian 2 1 ++ w.layout
  else
    littleEndian 4 40 ++ littleEndian 2 0xfffe ++ w.layout ++ littleEndian 2 22 ++
      littleEndian 2 16 ++ littleEndian 4 (Number.twoTo w.channels.toNat - 1) ++ plainSamplesMark

/-- The samples, two bytes each. -/
def data (w : Wave) : List UInt8 :=
  w.samples.toList.flatMap fun x => littleEndian 2 x.toUInt16.toNat

theorem length_data (w : Wave) : w.data.length = 2 * w.samples.size := by
  rw [data, ← Array.length_toList]
  induction w.samples.toList with
  | nil => rfl
  | cons x rest ih =>
    rw [List.flatMap_cons, List.length_append, length_littleEndian, ih, List.length_cons]
    omega

/-- The bytes of the file. -/
def encode (w : Wave) : List UInt8 :=
  let size := 2 * w.samples.size
  let body := asciiBytes "WAVE" ++ asciiBytes "fmt " ++ w.format ++ asciiBytes "data" ++
    littleEndian 4 size
  asciiBytes "RIFF" ++ littleEndian 4 (body.length + size) ++ body ++ w.data

end Wave

end ToneGraph
