/-
Writing documents to a sink that may fail.

A sink takes bytes until its room is used up and then refuses every further one.  It has
taken what it could of a write that fails.  The text of the documents is written first,
then a newline, then the sink is flushed; where the failure falls decides which error is
reported.
-/
import SamplingProfiler.Document.Text

namespace SamplingProfiler

/-- Where a text is written to, and what has been written. -/
structure Sink where
  /-- How many more bytes it takes, if there is a limit. -/
  room : Option Nat
  /-- Does flushing fail? -/
  flushFails : Bool
  /-- The bytes taken so far, the last one first. -/
  taken : List UInt8
deriving DecidableEq, Inhabited

/-- Why a sink fails. -/
inductive SinkFailure where
  /-- It takes no more bytes. -/
  | diskFull
  /-- It cannot be flushed. -/
  | flushFailed
deriving DecidableEq

/-- The failure in words. -/
def SinkFailure.message : SinkFailure → String
  | diskFull => "disk full"
  | flushFailed => "flush failed"

/-- Why an export fails. -/
inductive ExportError where
  /-- While the documents were written. -/
  | json (cause : SinkFailure)
  /-- After they were written. -/
  | io (cause : SinkFailure)
deriving DecidableEq

/-- The error in words. -/
def ExportError.message : ExportError → String
  | json cause => cause.message
  | io cause => cause.message

namespace Sink

/-- A sink that takes so many bytes. -/
def ofRoom (room : Option Nat) (flushFails : Bool) : Sink := ⟨room, flushFails, []⟩

/-- The bytes taken so far, in order. -/
def written (sink : Sink) : List UInt8 := sink.taken.reverse

/-- Takes bytes, as far as there is room; if there is not room for all, that is a failure. -/
def put (sink : Sink) (bytes : List UInt8) : Except SinkFailure Unit × Sink :=
  match sink.room with
  | none => (.ok (), { sink with taken := bytes.reverse ++ sink.taken })
  | some room =>
    (if bytes.length ≤ room then .ok () else .error .diskFull,
      { sink with
        room := some (room - bytes.length)
        taken := (bytes.take room).reverse ++ sink.taken })

/-- Writes a text one character after the other, and stops at the first failure. -/
def write (sink : Sink) : List Char → Except SinkFailure Unit × Sink
  | [] => (.ok (), sink)
  | c :: rest =>
    match sink.put (String.utf8EncodeChar c) with
    | (.ok (), sink) => sink.write rest
    | (.error e, sink) => (.error e, sink)

/-- Flushes the sink. -/
def flush (sink : Sink) : Except SinkFailure Unit :=
  if sink.flushFails then .error .flushFailed else .ok ()

end Sink

/-- Writes a JSON value in its pretty form, a newline, and flushes. -/
def Json.export (v : Json) (sink : Sink) : Except ExportError Unit × Sink :=
  match sink.write v.pretty with
  | (.error e, sink) => (.error (.json e), sink)
  | (.ok (), sink) =>
    match sink.write ['\n'] with
    | (.error e, sink) => (.error (.io e), sink)
    | (.ok (), sink) =>
      match sink.flush with
      | .error e => (.error (.io e), sink)
      | .ok () => (.ok (), sink)

namespace Exporter

/-- Writes the document of one snapshot. -/
def exportOne (x : Exporter) (s : Snapshot) : Sink → Except ExportError Unit × Sink :=
  (x.document s).toJson.export

/-- Writes the documents of several snapshots as an array. -/
def exportAll (x : Exporter) (snapshots : List Snapshot) : Sink → Except ExportError Unit × Sink :=
  (Json.array (snapshots.map fun s => (x.document s).toJson)).export

end Exporter

end SamplingProfiler
