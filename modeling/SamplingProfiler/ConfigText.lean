/-
Configurations as JSON text.

A configuration is read from an object with any of its fields, or from an array with the
first few of them in order.  Fields that are missing keep their default values, and
members with other names are skipped.
-/
import SamplingProfiler.Settings
import SamplingProfiler.Json.Reader

namespace SamplingProfiler

open Json (Refusal)

/-- The fields of a configuration read so far. -/
structure Config.Fields where
  /-- How many backtraces a log holds. -/
  logCapacity : Option Nat := none
  /-- How many frames are recorded. -/
  maxStackDepth : Option Nat := none
  /-- How many bytes make a sample. -/
  allocSampleBytes : Option Nat := none

/-- The default configuration with the given fields replaced. -/
def Config.Fields.toConfig (f : Config.Fields) : Config :=
  let base : Config := {}
  ⟨f.logCapacity.getD base.logCapacity, f.maxStackDepth.getD base.maxStackDepth,
    f.allocSampleBytes.getD base.allocSampleBytes⟩

/-- A configuration as a record. -/
def Config.record : Json.Record Config.Fields Config where
  fields := [
    ⟨"log_capacity".toList, fun c => c.logCapacity.isSome, fun c cs => do
      let (v, cs) ← Json.readNatural cs
      return ({ c with logCapacity := some v }, cs)⟩,
    ⟨"max_stack_depth".toList, fun c => c.maxStackDepth.isSome, fun c cs => do
      let (v, cs) ← Json.readNatural cs
      return ({ c with maxStackDepth := some v }, cs)⟩,
    ⟨"alloc_sample_bytes".toList, fun c => c.allocSampleBytes.isSome, fun c cs => do
      let (v, cs) ← Json.readNatural cs
      return ({ c with allocSampleBytes := some v }, cs)⟩]
  start := {}
  build := fun c => some c.toConfig

/-- Reads the text of a configuration. -/
def Config.ofText (text : List Char) : Except Refusal Config :=
  Json.readWhole? Config.record.read text

end SamplingProfiler
