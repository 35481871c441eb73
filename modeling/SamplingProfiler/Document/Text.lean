/-
Documents as JSON text, both ways.

Writing a document and reading the text back gives the document again, in either layout.
A reader accepts more than what is written: fields in any order, unknown fields, and a
record as an array of its fields.
-/
import SamplingProfiler.Document.Basic
import SamplingProfiler.Json.Basic
import SamplingProfiler.Json.Reader

namespace SamplingProfiler

open Json (Reader Refusal)

/-! ### Writing -/

/-- A frame is written as its number or its name. -/
def FrameLabel.toJson : FrameLabel → Json
  | id frame => .number frame.raw.toNat
  | name text => .string text

/-- A sample is written as a record. -/
def Sample.toJson (s : Sample) : Json :=
  .object [
    ("frames", .array (s.frames.map fun f => (f.map (·.toJson)).getD .null)),
    ("weight", .number s.weight.val)]

/-- A document is written as a record. -/
def Document.toJson (d : Document) : Json :=
  .object [
    ("kind", .string d.kind.name),
    ("max_stack_depth", .number d.maxStackDepth),
    ("log_capacity", .number d.logCapacity),
    ("evictions", .number d.evictions),
    ("dropped_samples", .number d.droppedSamples),
    ("total_weight", .number d.totalWeight.val),
    ("samples", .array (d.samples.map (·.toJson)))]

/-! ### Reading scalars -/

/-- Reads a frame number. -/
def FrameId.read : Reader FrameId := fun cs => do
  let (n, cs) ← Json.readNatural cs
  return (⟨UInt64.ofNat n⟩, cs)

/-- Reads a weight. -/
def Weight.read : Reader Weight := fun cs => do
  let (n, cs) ← Json.readNatural cs
  return (Weight.ofNat n, cs)

/-- The kind with a given name. -/
def SamplerKind.ofName? (name : List Char) : Option SamplerKind :=
  if name = SamplerKind.cpu.name.toList then some .cpu
  else if name = SamplerKind.memory.name.toList then some .memory
  else none

/-- Reads the name of a kind. -/
def SamplerKind.readName : Reader SamplerKind := fun cs => do
  let (name, cs) ← Json.readText cs
  match SamplerKind.ofName? name with
  | some kind => return (kind, cs)
  | none => .error .mismatched

/-- Reads the member name of an object that stands for a kind.  Whatever does not begin with a
quote is no member name, so it is malformed and not mismatched. -/
def SamplerKind.readMemberName : Reader SamplerKind := fun cs =>
  match Json.skipSpace cs with
  | [] => .error .endsEarly
  | '"' :: cs => SamplerKind.readName ('"' :: cs)
  | _ => .error .malformed

/-- Reads a kind: its name, or an object with that one member, which is null. -/
def SamplerKind.read : Reader SamplerKind := fun cs =>
  match Json.skipSpace cs with
  | [] => .error .endsEarly
  | '"' :: cs => SamplerKind.readName ('"' :: cs)
  | '\x7b' :: cs => do
    let (kind, cs) ← SamplerKind.readMemberName cs
    let ((), cs) ← Json.readColon cs
    let ((), cs) ← Json.readNull cs
    let ((), cs) ← Json.readClose .curly cs
    return (kind, cs)
  | _ => .error .malformed

/-! ### Reading frames -/

/-- How many brackets may be open in a document.  Four are open around a frame. -/
def Document.maxNesting : Nat := 127

/-- Reads a frame of a sample.  A value that is neither null nor a number nor a string is read
to its end before it is refused. -/
def FrameLabel.read? : Reader (Option FrameLabel) := fun cs =>
  match Json.skipSpace cs with
  | 'n' :: cs => do return (none, ← Json.readWord ['u', 'l', 'l'] cs)
  | '"' :: cs => do
    let (s, cs) ← Json.readString cs
    return (some (.name (String.ofList s)), cs)
  | c :: cs =>
    if c = '-' ∨ c.isDigit then do
      let (n, cs) ← Json.readNatural (c :: cs)
      return (some (.id ⟨UInt64.ofNat n⟩), cs)
    else do
      let _ ← Json.pass ⟨true, some (Document.maxNesting - 4)⟩ (c :: cs)
      .error .mismatched
  | [] => .error .endsEarly

/-! ### Reading records -/

/-- The fields of a sample read so far. -/
structure Sample.Fields where
  /-- The frames. -/
  frames : Option (List (Option FrameLabel)) := none
  /-- The weight. -/
  weight : Option Weight := none

/-- A sample as a record. -/
def Sample.record : Json.Record Sample.Fields Sample where
  fields := [
    ⟨"frames".toList, fun s => s.frames.isSome, fun s cs => do
      let (v, cs) ← Json.readArray FrameLabel.read? cs
      return ({ s with frames := some v }, cs)⟩,
    ⟨"weight".toList, fun s => s.weight.isSome, fun s cs => do
      let (v, cs) ← Weight.read cs
      return ({ s with weight := some v }, cs)⟩]
  start := {}
  build := fun s => do return ⟨← s.frames, ← s.weight⟩

/-- The fields of a document read so far. -/
structure Document.Fields where
  /-- Which sampler it comes from. -/
  kind : Option SamplerKind := none
  /-- The length of every backtrace. -/
  maxStackDepth : Option Nat := none
  /-- How many backtraces the log could hold. -/
  logCapacity : Option Nat := none
  /-- How many eviction rounds there were. -/
  evictions : Option Nat := none
  /-- How many samples were dropped. -/
  droppedSamples : Option Nat := none
  /-- The saturating sum of all weights. -/
  totalWeight : Option Weight := none
  /-- The samples. -/
  samples : Option (List Sample) := none

/-- A document as a record. -/
def Document.record : Json.Record Document.Fields Document where
  fields := [
    ⟨"kind".toList, fun d => d.kind.isSome, fun d cs => do
      let (v, cs) ← SamplerKind.read cs
      return ({ d with kind := some v }, cs)⟩,
    ⟨"max_stack_depth".toList, fun d => d.maxStackDepth.isSome, fun d cs => do
      let (v, cs) ← Json.readNatural cs
      return ({ d with maxStackDepth := some v }, cs)⟩,
    ⟨"log_capacity".toList, fun d => d.logCapacity.isSome, fun d cs => do
      let (v, cs) ← Json.readNatural cs
      return ({ d with logCapacity := some v }, cs)⟩,
    ⟨"evictions".toList, fun d => d.evictions.isSome, fun d cs => do
      let (v, cs) ← Json.readNatural cs
      return ({ d with evictions := some v }, cs)⟩,
    ⟨"dropped_samples".toList, fun d => d.droppedSamples.isSome, fun d cs => do
      let (v, cs) ← Json.readNatural cs
      return ({ d with droppedSamples := some v }, cs)⟩,
    ⟨"total_weight".toList, fun d => d.totalWeight.isSome, fun d cs => do
      let (v, cs) ← Weight.read cs
      return ({ d with totalWeight := some v }, cs)⟩,
    ⟨"samples".toList, fun d => d.samples.isSome, fun d cs => do
      let (v, cs) ← Json.readArray Sample.record.read cs
      return ({ d with samples := some v }, cs)⟩]
  start := {}
  build := fun d => do
    return ⟨← d.kind, ← d.maxStackDepth, ← d.logCapacity, ← d.evictions, ← d.droppedSamples,
      ← d.totalWeight, ← d.samples⟩

/-- Reads the text of a document. -/
def Document.ofText (text : List Char) : Except Refusal Document :=
  Json.readWhole? Document.record.read text

/-- Reads the text of a kind. -/
def SamplerKind.ofText (text : List Char) : Except Refusal SamplerKind :=
  Json.readWhole? SamplerKind.read text

/-- Reads the text of a frame number. -/
def FrameId.ofText (text : List Char) : Except Refusal FrameId :=
  Json.readWhole? FrameId.read text

end SamplingProfiler
