/-
Documents are read back as they were written.

Each reader takes back what is written of its shape: weights, kinds, frames, samples and
documents.  So a document comes back from its compact text, from its pretty text and from
the bytes that an export leaves in a sink (`Document.ofText_write`,
`Document.read_exported`).  A name may be any text, as strings are escaped; it is never
taken for a number or for padding, as it has quotes.

For a snapshot that is exported without registered names this means that nothing of it is
lost: its entries come back, the heaviest first.
-/
import SamplingProfiler.Document.Sink
import SamplingProfiler.Proofs.Json.Records
import SamplingProfiler.Proofs.Document.Samples

namespace SamplingProfiler

open Json (ReadsBack readsBack_of_first readsBack_readNatural Fills)

/-! ### Scalars

Of all labels of a frame only a number does not say where it ends.  It is read back in front of
what cannot be part of a number (`Json.Ends`), and a name in front of anything.
-/

theorem Weight.readsBack (w : Weight) : ReadsBack Weight.read (.number w.val) w := by
  have h := (readsBack_readNatural w.val_le).map Weight.ofNat
  rw [Weight.ofNat_val] at h
  exact h

theorem SamplerKind.readsBack (kind : SamplerKind) :
    ReadsBack SamplerKind.read (.string kind.name) kind := by
  refine readsBack_of_first ?_ fun layout _ level after _ => ?_
  · intro before cs hbefore
    simp only [SamplerKind.read, Json.skipSpace_append hbefore]
  · have hname : SamplerKind.ofName? kind.name.toList = some kind := by cases kind <;> rfl
    have hquote : Json.isSpace '"' = false := rfl
    have hstring := Json.readString_quote kind.name.toList after
    rw [Json.write, Json.quote_append]
    simp only [SamplerKind.read, Json.skipSpace_cons hquote, SamplerKind.readName, Json.readText,
      hstring, hname, bind, Except.bind]
    rfl

private theorem FrameLabel.read?_id (frame : FrameId) {after : List Char}
    (hafter : Json.Ends after) :
    FrameLabel.read? (Nat.toDigits 10 frame.raw.toNat ++ after) = .ok (some (.id frame), after) := by
  have hword : frame.raw.toNat ≤ maxWord := by
    have := frame.raw.toNat_lt
    unfold maxWord
    omega
  have hnumber := readsBack_readNatural hword .compact Json.Layout.blank_compact 0 [] after
    Json.spaces_nil hafter
  obtain ⟨c, cs, hdigits, hc⟩ := Json.exists_toDigits_eq frame.raw.toNat
  rw [List.nil_append, Json.write, hdigits, List.cons_append] at hnumber
  rw [hdigits, List.cons_append]
  unfold FrameLabel.read?
  rw [Json.skipSpace_cons (Json.isSpace_of_isDigit hc)]
  -- a digit is neither the letter nor the quote that other labels begin with
  split
  · rename_i heq
    obtain ⟨rfl, -⟩ := List.cons.inj heq
    cases hc
  · rename_i heq
    obtain ⟨rfl, -⟩ := List.cons.inj heq
    cases hc
  · rename_i heq
    obtain ⟨rfl, rfl⟩ := List.cons.inj heq
    simp only [hc, or_true, if_true, hnumber, bind, Except.bind, pure, Except.pure,
      UInt64.ofNat_toNat]
  · contradiction

private theorem FrameLabel.read?_name (text : String) (after : List Char) :
    FrameLabel.read? (Json.quote text.toList ++ after) = .ok (some (.name text), after) := by
  have hquote : Json.isSpace '"' = false := rfl
  have hstring := Json.readString_quote text.toList after
  rw [Json.quote_append]
  simp only [FrameLabel.read?, Json.skipSpace_cons hquote, hstring, bind, Except.bind,
    String.ofList_toList]
  rfl

theorem FrameLabel.readsBack (label : Option FrameLabel) :
    ReadsBack FrameLabel.read? ((label.map (·.toJson)).getD .null) label := by
  refine readsBack_of_first ?_ fun layout _ level after hafter => ?_
  · intro before cs hbefore
    simp only [FrameLabel.read?, Json.skipSpace_append hbefore]
  rcases label with _ | frame | text
  · rfl
  · exact FrameLabel.read?_id frame hafter
  · exact FrameLabel.read?_name text after

/-! ### Records

A record is read member by member in the order in which it is written, and each member fills one
more field (`Sample.fills`, `Document.fills`).  The same lemmas are used of texts that are cut.
-/

/-- Read member by member, the text of a sample leads to its fields. -/
theorem Sample.fills (s : Sample) : Fills Sample.record Sample.record.start
    [("frames", .array (s.frames.map fun f => (f.map (·.toJson)).getD .null)),
      ("weight", .number s.weight.val)]
    ⟨some s.frames, some s.weight⟩ := by
  have hframes := Json.readsBack_readArray fun label (_ : label ∈ s.frames) =>
    FrameLabel.readsBack label
  let read : Sample.Fields := {}
  refine .cons rfl rfl (hframes.map fun v => { read with frames := some v }) ?_
  let read := { read with frames := some s.frames }
  exact .cons rfl rfl (s.weight.readsBack.map fun v => { read with weight := some v }) .nil

theorem Sample.readsBack (s : Sample) : ReadsBack Sample.record.read s.toJson s :=
  s.fills.readsBack _ rfl

/-- The numbers of a document fit 64 bits. -/
structure Document.FitsWords (d : Document) : Prop where
  maxStackDepth : d.maxStackDepth ≤ maxWord
  logCapacity : d.logCapacity ≤ maxWord
  evictions : d.evictions ≤ maxWord
  droppedSamples : d.droppedSamples ≤ maxWord

/-- Read member by member, the text of a document leads to its fields. -/
theorem Document.fills {d : Document} (h : d.FitsWords) :
    Fills Document.record Document.record.start
      [("kind", .string d.kind.name), ("max_stack_depth", .number d.maxStackDepth),
        ("log_capacity", .number d.logCapacity), ("evictions", .number d.evictions),
        ("dropped_samples", .number d.droppedSamples), ("total_weight", .number d.totalWeight.val),
        ("samples", .array (d.samples.map (·.toJson)))]
      ⟨some d.kind, some d.maxStackDepth, some d.logCapacity, some d.evictions,
        some d.droppedSamples, some d.totalWeight, some d.samples⟩ := by
  have hsamples := Json.readsBack_readArray fun s (_ : s ∈ d.samples) => Sample.readsBack s
  let read : Document.Fields := {}
  refine .cons rfl rfl (d.kind.readsBack.map fun v => { read with kind := some v }) ?_
  let read : Document.Fields := { read with kind := some d.kind }
  refine .cons rfl rfl ((readsBack_readNatural h.maxStackDepth).map fun v =>
    { read with maxStackDepth := some v }) ?_
  let read := { read with maxStackDepth := some d.maxStackDepth }
  refine .cons rfl rfl ((readsBack_readNatural h.logCapacity).map fun v =>
    { read with logCapacity := some v }) ?_
  let read := { read with logCapacity := some d.logCapacity }
  refine .cons rfl rfl ((readsBack_readNatural h.evictions).map fun v =>
    { read with evictions := some v }) ?_
  let read := { read with evictions := some d.evictions }
  refine .cons rfl rfl ((readsBack_readNatural h.droppedSamples).map fun v =>
    { read with droppedSamples := some v }) ?_
  let read := { read with droppedSamples := some d.droppedSamples }
  refine .cons rfl rfl (d.totalWeight.readsBack.map fun v => { read with totalWeight := some v }) ?_
  let read := { read with totalWeight := some d.totalWeight }
  exact .cons rfl rfl (hsamples.map fun v => { read with samples := some v }) .nil

theorem Document.readsBack {d : Document} (h : d.FitsWords) :
    ReadsBack Document.record.read d.toJson d :=
  (Document.fills h).readsBack _ rfl

/-- The text of a document is read back, with white space after it or without. -/
theorem Document.ofText_write {d : Document} (h : d.FitsWords) {layout : Json.Layout}
    (hlayout : layout.Blank) {after : List Char} (hafter : Json.Spaces after) :
    Document.ofText (d.toJson.write layout 0 ++ after) = .ok d :=
  (Document.readsBack h).readWhole hlayout 0 hafter

/-! ### Bytes

A text is written character by character and comes back as bytes.  Those of one character after the
other are the bytes of the text, so they are valid and decode to it.
-/

/-- A sink without a limit takes every byte of a text. -/
theorem Sink.write_unlimited (taken : List UInt8) (text : List Char) :
    Sink.write ⟨none, false, taken⟩ text
      = (.ok (), ⟨none, false, (text.flatMap String.utf8EncodeChar).reverse ++ taken⟩) := by
  induction text generalizing taken with
  | nil => rfl
  | cons c text ih =>
      show Sink.write ⟨none, false, (String.utf8EncodeChar c).reverse ++ taken⟩ text = _
      rw [ih, List.flatMap_cons, List.reverse_append, List.append_assoc]

/-- An export leaves the pretty text and a newline. -/
theorem Json.export_unlimited (v : Json) :
    v.export (.ofRoom none false)
      = (.ok (), ⟨none, false, ((v.pretty ++ ['\n']).flatMap String.utf8EncodeChar).reverse⟩) := by
  unfold Json.export Sink.ofRoom
  rw [Sink.write_unlimited]
  dsimp only
  rw [Sink.write_unlimited]
  simp [Sink.flush, List.flatMap_append]

/-- Bytes that a text was written in are those of that text. -/
theorem fromUTF8?_flatMap (text : List Char) :
    String.fromUTF8? (text.flatMap String.utf8EncodeChar).toByteArray = some (.ofList text) := by
  have hvalid : (text.flatMap String.utf8EncodeChar).toByteArray.IsValidUTF8 :=
    ByteArray.isValidUTF8_utf8Encode
  unfold String.fromUTF8?
  rw [dif_pos hvalid]
  rfl

/-- What an export of a document leaves is its pretty text with a newline, and is read back. -/
theorem Document.read_exported {d : Document} (h : d.FitsWords) :
    ∃ sink, d.toJson.export (.ofRoom none false) = (.ok (), sink)
      ∧ String.fromUTF8? sink.written.toByteArray = some (.ofList (d.toJson.pretty ++ ['\n']))
      ∧ Document.ofText (d.toJson.pretty ++ ['\n']) = .ok d := by
  refine ⟨_, Json.export_unlimited _, ?_, ?_⟩
  · rw [Sink.written, List.reverse_reverse]
    exact fromUTF8?_flatMap _
  · exact Document.ofText_write h Json.Layout.blank_pretty (Json.spaces_nil.cons rfl)

/-- Nothing is lost when a profile is exported and read back.  A document whose numbers fit
64 bits comes back from its compact text, from its pretty text and from the bytes of an
export.  And the samples that come back from the export of a snapshot without registered
names stand for the entries of the snapshot, ranked by weight. -/
theorem export_round_trip :
    (∀ d : Document, d.FitsWords →
      Document.ofText d.toJson.compact = .ok d ∧ Document.ofText d.toJson.pretty = .ok d
      ∧ ∃ sink, d.toJson.export (.ofRoom none false) = (.ok (), sink)
        ∧ String.fromUTF8? sink.written.toByteArray = some (.ofList (d.toJson.pretty ++ ['\n']))
        ∧ Document.ofText (d.toJson.pretty ++ ['\n']) = .ok d)
    ∧ ∀ s : Snapshot, (Exporter.nameless.document s).FitsWords →
      ∃ sink text entries, Exporter.nameless.exportOne s (.ofRoom none false) = (.ok (), sink)
        ∧ String.fromUTF8? sink.written.toByteArray = some text
        ∧ Document.ofText text.toList = .ok (Exporter.nameless.document s)
        ∧ (Exporter.nameless.document s).samples.mapM Sample.asEntry = some entries
        ∧ RanksByWeight entries s.entries := by
  refine ⟨fun d hd => ⟨?_, ?_, Document.read_exported hd⟩, fun s hs => ?_⟩
  · have hread := Document.ofText_write hd Json.Layout.blank_compact Json.spaces_nil
    rwa [List.append_nil] at hread
  · have hread := Document.ofText_write hd Json.Layout.blank_pretty Json.spaces_nil
    rwa [List.append_nil] at hread
  · obtain ⟨sink, hexport, htext, hread⟩ := Document.read_exported hs
    refine ⟨sink, _, _, hexport, htext, ?_, Exporter.mapM_asEntry_document s,
      ranksByWeight_byWeight s.entries⟩
    rw [String.toList_ofList]
    exact hread

/-- For instance a name may look like a number, or like the end of the text, and the largest
number is a frame like any other. -/
theorem export_round_trip_of_odd_names :
    ∃ (d : Document) (s : Snapshot),
      d.samples.map (·.frames) = [[none, some (.id FrameId.gc), some (.name "7")],
        [some (.name "\"]\n\x01\\")]]
      ∧ d.FitsWords ∧ Document.ofText d.toJson.compact = .ok d
      ∧ Document.ofText d.toJson.pretty = .ok d
      ∧ s.entries = [⟨[FrameId.gc, FrameId.null], .ofNat 7⟩]
      ∧ (Exporter.nameless.document s).FitsWords
      ∧ ∃ sink text entries, Exporter.nameless.exportOne s (.ofRoom none false) = (.ok (), sink)
        ∧ String.fromUTF8? sink.written.toByteArray = some text
        ∧ Document.ofText text.toList = .ok (Exporter.nameless.document s)
        ∧ (Exporter.nameless.document s).samples.mapM Sample.asEntry = some entries
        ∧ RanksByWeight entries s.entries := by
  obtain ⟨hdocument, hsnapshot⟩ := export_round_trip
  have hd : Document.FitsWords ⟨.memory, maxWord, 0, 1, 2, .ofNat 5,
      [⟨[none, some (.id FrameId.gc), some (.name "7")], .ofNat 3⟩,
        ⟨[some (.name "\"]\n\x01\\")], .ofNat 2⟩]⟩ := ⟨by decide, by decide, by decide, by decide⟩
  have hs : (Exporter.nameless.document ⟨.cpu, 2, none, some (.ofNat 7), 3⟩).FitsWords :=
    ⟨by decide, by decide, by decide, by decide⟩
  obtain ⟨hcompact, hpretty, -⟩ := hdocument _ hd
  exact ⟨_, _, rfl, hd, hcompact, hpretty, rfl, hs, hsnapshot _ hs⟩

end SamplingProfiler
