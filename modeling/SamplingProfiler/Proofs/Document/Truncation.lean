/-
A profile that breaks off is not mistaken for a profile.

What is left of an export that was interrupted is the beginning of a document.  The whole
document is a record, and its last character is the bracket that closes it, so every text
that breaks off before its end lacks that bracket at least.  Reading it finds that it ends
too early, and nothing worse: wherever the cut falls, what stands before it could have gone
on to be a document.
-/
import SamplingProfiler.Proofs.Document.RoundTrip
import SamplingProfiler.Proofs.Json.Truncation

namespace SamplingProfiler

open Json (BreaksOff RunsOut Cut breaksOff_of_first runsOut_readNatural cut_cons
  not_cut_nil)

/-! ### Scalars

What is left of a number may be a number, so of weights and of labels it is said only that their
readers come to the end of the text (`RunsOut`).  Words and strings break off by themselves.
-/

theorem Weight.runsOut (w : Weight) : RunsOut Weight.read (.number w.val) :=
  (runsOut_readNatural w.val_le).map Weight.ofNat

theorem SamplerKind.breaksOff (kind : SamplerKind) :
    BreaksOff SamplerKind.read (.string kind.name) := by
  refine breaksOff_of_first ?_ rfl fun layout _ level part hpart hne => ?_
  · intro before cs hbefore
    simp only [SamplerKind.read, Json.skipSpace_append hbefore]
  · have hquote : Json.isSpace '"' = false := rfl
    rw [Json.write, Json.quote] at hpart
    rcases cut_cons hpart with rfl | ⟨rest, rfl, hrest⟩
    · exact absurd rfl hne
    · simp only [SamplerKind.read, Json.skipSpace_cons hquote, SamplerKind.readName, Json.readText,
        Json.readString_of_cut hrest, bind, Except.bind]

private theorem FrameLabel.read?_append {before : List Char} (hbefore : Json.Spaces before)
    (cs : List Char) : FrameLabel.read? (before ++ cs) = FrameLabel.read? cs := by
  simp only [FrameLabel.read?, Json.skipSpace_append hbefore]

private theorem FrameLabel.breaksOff_null : BreaksOff FrameLabel.read? .null := by
  refine breaksOff_of_first (fun _ cs hbefore => FrameLabel.read?_append hbefore cs) rfl
    fun layout _ level part hpart hne => ?_
  rcases cut_cons hpart with rfl | ⟨rest, rfl, h1⟩
  · rfl
  rcases cut_cons h1 with rfl | ⟨rest, rfl, h2⟩
  · rfl
  rcases cut_cons h2 with rfl | ⟨rest, rfl, h3⟩
  · rfl
  rcases cut_cons h3 with rfl | ⟨rest, rfl, hnone⟩
  · rfl
  · exact absurd hnone not_cut_nil

private theorem FrameLabel.breaksOff_name (text : String) :
    BreaksOff FrameLabel.read? (.string text) := by
  refine breaksOff_of_first (fun _ cs hbefore => FrameLabel.read?_append hbefore cs) rfl
    fun layout _ level part hpart hne => ?_
  have hquote : Json.isSpace '"' = false := rfl
  rw [Json.write, Json.quote] at hpart
  rcases cut_cons hpart with rfl | ⟨rest, rfl, hrest⟩
  · exact absurd rfl hne
  · simp only [FrameLabel.read?, Json.skipSpace_cons hquote, Json.readString_of_cut hrest, bind,
      Except.bind]

private theorem FrameLabel.runsOut_id (frame : FrameId) :
    RunsOut FrameLabel.read? (.number frame.raw.toNat) := by
  refine Json.runsOut_number ?_ fun m hm => ?_
  · intro cs hcs
    simp only [FrameLabel.read?, Json.skipSpace_eq_nil hcs]
  · have hsmaller := FrameLabel.readsBack (some (.id ⟨UInt64.ofNat m⟩))
    have hword : (UInt64.ofNat m).toNat = m :=
      UInt64.toNat_ofNat_of_lt (Nat.lt_of_le_of_lt hm frame.raw.toNat_lt)
    simp only [Option.map_some, FrameLabel.toJson, Option.getD_some, hword] at hsmaller
    exact ⟨_, hsmaller⟩

theorem FrameLabel.runsOut (label : Option FrameLabel) :
    RunsOut FrameLabel.read? ((label.map (·.toJson)).getD .null) := by
  rcases label with _ | frame | text
  · exact FrameLabel.breaksOff_null.runsOut
  · exact FrameLabel.runsOut_id frame
  · exact (FrameLabel.breaksOff_name text).runsOut

/-! ### Records

A record breaks off wherever it is cut, if each of its members runs out (`Fills.breaksOff`).  This
is used from the inside to the outside: of samples, then of the array of them, then of documents.
-/

theorem Sample.breaksOff (s : Sample) : BreaksOff Sample.record.read s.toJson := by
  have hframes := Json.breaksOff_readArray (fun label (_ : label ∈ s.frames) =>
    FrameLabel.readsBack label) fun label _ => FrameLabel.runsOut label
  refine s.fills.breaksOff ?_
  simp only [Json.Record.RunsOut, List.forall_mem_cons]
  exact ⟨⟨_, rfl, fun read => hframes.runsOut.map fun v => { read with frames := some v }⟩,
    ⟨_, rfl, fun read => s.weight.runsOut.map fun v => { read with weight := some v }⟩,
    List.forall_mem_nil _⟩

theorem Document.breaksOff {d : Document} (h : d.FitsWords) :
    BreaksOff Document.record.read d.toJson := by
  have hsamples := Json.breaksOff_readArray (fun s (_ : s ∈ d.samples) => Sample.readsBack s)
    fun s _ => (Sample.breaksOff s).runsOut
  refine (Document.fills h).breaksOff ?_
  simp only [Json.Record.RunsOut, List.forall_mem_cons]
  exact ⟨⟨_, rfl, fun read => d.kind.breaksOff.runsOut.map fun v => { read with kind := some v }⟩,
    ⟨_, rfl, fun read => (runsOut_readNatural h.maxStackDepth).map fun v =>
      { read with maxStackDepth := some v }⟩,
    ⟨_, rfl, fun read => (runsOut_readNatural h.logCapacity).map fun v =>
      { read with logCapacity := some v }⟩,
    ⟨_, rfl, fun read => (runsOut_readNatural h.evictions).map fun v =>
      { read with evictions := some v }⟩,
    ⟨_, rfl, fun read => (runsOut_readNatural h.droppedSamples).map fun v =>
      { read with droppedSamples := some v }⟩,
    ⟨_, rfl, fun read => d.totalWeight.runsOut.map fun v => { read with totalWeight := some v }⟩,
    ⟨_, rfl, fun read => hsamples.runsOut.map fun v => { read with samples := some v }⟩,
    List.forall_mem_nil _⟩

/-- Wherever the text of a document is cut, in either layout, reading what is left finds that it
ends too early. -/
theorem cut_document_endsEarly (d : Document) (h : d.FitsWords) :
    (∀ part, part <+: d.toJson.compact → part ≠ d.toJson.compact →
      Document.ofText part = .error .endsEarly)
    ∧ ∀ part, part <+: d.toJson.pretty → part ≠ d.toJson.pretty →
      Document.ofText part = .error .endsEarly :=
  ⟨fun _ hpart hne =>
      (Document.breaksOff h).readWhole Json.Layout.blank_compact ⟨hpart, hne⟩,
    fun _ hpart hne =>
      (Document.breaksOff h).readWhole Json.Layout.blank_pretty ⟨hpart, hne⟩⟩

/-- For instance the cut may fall in an escape, or in the number twelve so that one is left. -/
theorem cut_document_endsEarly_in_escape :
    ∃ d : Document, d.FitsWords
      ∧ d.toJson.compact.drop 134 = "01\"],\"weight\":12\x7d]\x7d".toList
      ∧ Document.ofText (d.toJson.compact.take 134) = .error .endsEarly
      ∧ (d.toJson.pretty.drop 64).take 3 = "12,".toList
      ∧ Document.ofText (d.toJson.pretty.take 65) = .error .endsEarly := by
  have hd : Document.FitsWords ⟨.memory, 1, 12, 0, 0, .ofNat 12,
      [⟨[some (.name "\x01")], .ofNat 12⟩]⟩ := ⟨by decide, by decide, by decide, by decide⟩
  obtain ⟨hcompact, hpretty⟩ := cut_document_endsEarly _ hd
  exact ⟨_, hd, by decide, hcompact _ (List.take_prefix _ _) (by decide), by decide,
    hpretty _ (List.take_prefix _ _) (by decide)⟩

end SamplingProfiler
