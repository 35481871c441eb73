/-
What an export leaves in a sink that is too small.

A text reaches a sink in many writes, and any of them may be the one that fails.  Which one
it is does not matter: writing pieces one after the other up to the first failure leaves
the sink as writing all of them at once does (`Sink.putAll_eq_put`), because a write that
fails has still filled the sink.  So what is left of an export depends on the number of
bytes of its text alone.  A sink with less room than that has the first bytes of the text
and the writer of the text has failed; with just enough room it is the newline that fails;
with more room nothing fails but what flushing may.
-/
import SamplingProfiler.Document.Sink

namespace SamplingProfiler

namespace Sink

/-! ### Pieces

A write that fails fills the sink.  So after a failure no further piece would be taken, and it
makes no difference that none is tried: `put_append` says this of two pieces, and any number of
them follows.
-/

variable {room : Nat} {flushFails : Bool} {taken bytes : List UInt8}

/-- Bytes that there is room for are all taken. -/
theorem put_of_le (h : bytes.length ≤ room) :
    put ⟨some room, flushFails, taken⟩ bytes
      = (.ok (), ⟨some (room - bytes.length), flushFails, bytes.reverse ++ taken⟩) := by
  simp only [put, if_pos h, List.take_of_length_le h]

/-- Of more bytes, the first are taken, and then there is no room left. -/
theorem put_of_lt (h : room < bytes.length) :
    put ⟨some room, flushFails, taken⟩ bytes
      = (.error .diskFull, ⟨some 0, flushFails, (bytes.take room).reverse ++ taken⟩) := by
  simp only [put, if_neg (Nat.not_le.mpr h), Nat.sub_eq_zero_of_le (Nat.le_of_lt h)]

@[simp] theorem put_nil (sink : Sink) : sink.put [] = (.ok (), sink) := by
  rcases sink with ⟨_ | room, flushFails, taken⟩
  · rfl
  · exact put_of_le (Nat.zero_le room)

/-- Bytes are taken in two steps as they are at once; the second step is left out if the first
fails. -/
theorem put_append (sink : Sink) (first second : List UInt8) :
    sink.put (first ++ second) = match sink.put first with
      | (.ok (), sink) => sink.put second
      | (.error e, sink) => (.error e, sink) := by
  rcases sink with ⟨_ | room, flushFails, taken⟩
  · simp [put]
  rcases Nat.lt_or_ge room first.length with hfull | hroom
  · have hboth : room < (first ++ second).length := by
      rw [List.length_append]
      omega
    rw [put_of_lt hfull, put_of_lt hboth, List.take_append_of_le_length (Nat.le_of_lt hfull)]
  rw [put_of_le hroom]
  dsimp only
  rcases Nat.lt_or_ge (room - first.length) second.length with hfull | hleft
  · have hboth : room < (first ++ second).length := by
      rw [List.length_append]
      omega
    rw [put_of_lt hfull, put_of_lt hboth, List.take_append, List.take_of_length_le hroom,
      List.reverse_append, List.append_assoc]
  · have hboth : (first ++ second).length ≤ room := by
      rw [List.length_append]
      omega
    rw [put_of_le hleft, put_of_le hboth, List.length_append, Nat.sub_sub, List.reverse_append,
      List.append_assoc]

/-- Takes pieces one after the other, and stops at the first failure. -/
def putAll (sink : Sink) : List (List UInt8) → Except SinkFailure Unit × Sink
  | [] => (.ok (), sink)
  | piece :: rest =>
    match sink.put piece with
    | (.ok (), sink) => sink.putAll rest
    | (.error e, sink) => (.error e, sink)

/-- It does not matter which pieces bytes come in. -/
theorem putAll_eq_put (sink : Sink) (pieces : List (List UInt8)) :
    sink.putAll pieces = sink.put pieces.flatten := by
  induction pieces generalizing sink with
  | nil => exact (put_nil sink).symm
  | cons piece rest ih =>
      rw [putAll, List.flatten_cons, put_append]
      rcases sink.put piece with ⟨_ | _, taken⟩
      · rfl
      · exact ih taken

/-- A text comes in characters. -/
theorem write_eq_putAll (sink : Sink) (text : List Char) :
    sink.write text = sink.putAll (text.map String.utf8EncodeChar) := by
  induction text generalizing sink with
  | nil => rfl
  | cons c rest ih =>
      rw [write, List.map_cons, putAll]
      rcases sink.put (String.utf8EncodeChar c) with ⟨_ | _, taken⟩
      · rfl
      · exact ih taken

theorem write_eq_put (sink : Sink) (text : List Char) :
    sink.write text = sink.put (text.flatMap String.utf8EncodeChar) := by
  rw [write_eq_putAll, putAll_eq_put, List.flatMap_def]

end Sink

/-! ### Exports -/

/-- The bytes of the pretty text of a value. -/
def Json.prettyBytes (v : Json) : List UInt8 := v.pretty.flatMap String.utf8EncodeChar

/-- What an export of a value comes to in a sink that takes so many bytes. -/
structure Json.CutOff (v : Json) (room : Nat) (flushFails : Bool)
    (outcome : Except ExportError Unit × Sink) : Prop where
  /-- Without room for the text, writing the text fails, and its first bytes are there. -/
  inText : room < v.prettyBytes.length →
    outcome.1 = .error (.json .diskFull) ∧ outcome.2.written = v.prettyBytes.take room
  /-- With room for the text and no more, the newline fails. -/
  atNewline : room = v.prettyBytes.length →
    outcome.1 = .error (.io .diskFull) ∧ outcome.2.written = v.prettyBytes
  /-- With more room, all is there, and flushing may fail. -/
  nowhere : v.prettyBytes.length < room →
    outcome.1 = (if flushFails then .error (.io .flushFailed) else .ok ())
      ∧ outcome.2.written = v.prettyBytes ++ String.utf8EncodeChar '\n'

theorem Json.cutOff_export (v : Json) (room : Nat) (flushFails : Bool) :
    v.CutOff room flushFails (v.export (.ofRoom (some room) flushFails)) := by
  have htext (sink : Sink) : sink.write v.pretty = sink.put v.prettyBytes := sink.write_eq_put _
  have hnewline (sink : Sink) : sink.write ['\n'] = sink.put (String.utf8EncodeChar '\n') :=
    sink.write_eq_put _
  have hlength : (String.utf8EncodeChar '\n').length = 1 := rfl
  unfold Json.export Sink.ofRoom
  simp only [htext, hnewline]
  constructor
  · intro hroom
    rw [Sink.put_of_lt hroom]
    exact ⟨rfl, by simp [Sink.written]⟩
  · intro hroom
    rw [Sink.put_of_le (Nat.le_of_eq hroom.symm)]
    dsimp only
    rw [Sink.put_of_lt (by omega), hroom, Nat.sub_self]
    exact ⟨rfl, by simp [Sink.written]⟩
  · intro hroom
    rw [Sink.put_of_le (Nat.le_of_lt hroom)]
    dsimp only
    rw [Sink.put_of_le (by omega)]
    cases flushFails <;> exact ⟨rfl, by simp [Sink.written, Sink.flush]⟩

/-- Whatever is exported, under whichever names, and however much room the sink has: it is left
with the beginning of the text, and the error says whether the text was cut off or what comes
after it. -/
theorem exports_cut_off (x : Exporter) (room : Nat) (flushFails : Bool) :
    (∀ s : Snapshot, (x.document s).toJson.CutOff room flushFails
      (x.exportOne s (.ofRoom (some room) flushFails)))
    ∧ ∀ snapshots : List Snapshot,
      (Json.array (snapshots.map fun s => (x.document s).toJson)).CutOff room flushFails
        (x.exportAll snapshots (.ofRoom (some room) flushFails)) :=
  ⟨fun _ => Json.cutOff_export _ room flushFails, fun _ => Json.cutOff_export _ room flushFails⟩

/-- The text of no documents has two bytes, and the newline is one more. -/
example : ([1, 2, 3].map fun room =>
      let (result, sink) := Exporter.nameless.exportAll [] (.ofRoom (some room) false)
      (result.toOption, sink.written))
    = [(none, [91]), (none, [91, 93]), (some (), [91, 93, 10])] := by
  decide

end SamplingProfiler
