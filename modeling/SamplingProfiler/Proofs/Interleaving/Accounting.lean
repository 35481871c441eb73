/-
Every sample is counted once.

Take a stretch of a run in which a sampler stays running, that begins and ends with no
operation suspended.  What the exports hand over, and what is left in the end, is what was
there in the beginning and what the samples have added.  A sample that comes while another
is being captured adds nothing, and is counted as dropped.

In between, part of what is counted is on its way: a tick may be about to ask whether
memory is being reclaimed, and a sample may be about to be captured.  `View.worth` has that
part too, so every turn keeps the books balanced (`Turn.balances`), and the run follows by
adding up.  An interval that a tick has read is the one it is counted with, because a
running sampler is not started again.
-/
import SamplingProfiler.Proofs.Interleaving.Custody
import SamplingProfiler.Proofs.Log.Total

namespace SamplingProfiler

variable {ε : Type}

/-! ### What is counted -/

/-- Is a sample of the sampler being captured? -/
def Weave.isRecording (kind : SamplerKind) (w : Weave ε) : Bool :=
  w.suspended.any fun s => (s.held? kind).isSome

/-- What a sampler has credited and not yet handed over: to the backtraces in its live log,
and to reclamation. -/
def Weave.credited (kind : SamplerKind) (w : Weave ε) : Nat :=
  ((w.process.sampler kind).live.log?.map (·.totalWeight.val)).getD 0
    + (w.process.reclaimedBy kind).val

namespace Occurrence

/-- Does a sample arrive while another is being captured? -/
def loses (kind : SamplerKind) (o : Occurrence ε) : Bool :=
  (o.sample kind).isSome && o.before.isRecording kind

/-- The weight of a sample that arrives and is not lost. -/
def kept (kind : SamplerKind) (o : Occurrence ε) : Option Weight :=
  if o.loses kind then none else o.sample kind

/-- No eviction round discards anything, and no sum is cut off. -/
structure Exact (kind : SamplerKind) (o : Occurrence ε) : Prop where
  unevicted : ∀ x ∈ o.writes kind, x.written.evictions = x.log.evictions
  written : ∀ x ∈ o.writes kind, x.log.sum + x.weight.val ≤ maxWord
  reclaimed : ∀ weight ∈ o.reclaims kind,
    (o.before.process.reclaimedBy kind).val + weight.val ≤ maxWord
  exported : ∀ snapshot ∈ o.exported kind, sumOfWeights snapshot.entries ≤ maxWord

instance (kind : SamplerKind) (o : Occurrence ε) : Decidable (o.Exact kind) :=
  decidable_of_iff
    ((∀ x ∈ o.writes kind, x.written.evictions = x.log.evictions)
      ∧ (∀ x ∈ o.writes kind, x.log.sum + x.weight.val ≤ maxWord)
      ∧ (∀ weight ∈ o.reclaims kind,
        (o.before.process.reclaimedBy kind).val + weight.val ≤ maxWord)
      ∧ ∀ snapshot ∈ o.exported kind, sumOfWeights snapshot.entries ≤ maxWord)
    ⟨fun ⟨h₁, h₂, h₃, h₄⟩ => ⟨h₁, h₂, h₃, h₄⟩, fun ⟨h₁, h₂, h₃, h₄⟩ => ⟨h₁, h₂, h₃, h₄⟩⟩

end Occurrence

/-- The snapshots of a sampler that are handed over in a run. -/
def snapshots (kind : SamplerKind) (os : List (Occurrence ε)) : List Snapshot :=
  os.filterMap (·.exported kind)

/-- What all of them weigh. -/
def handedOver (kind : SamplerKind) (os : List (Occurrence ε)) : Nat :=
  ((snapshots kind os).map (·.totalWeight.val)).sum

/-- How many dropped samples they report. -/
def reportedDrops (kind : SamplerKind) (os : List (Occurrence ε)) : Nat :=
  ((snapshots kind os).map (·.dropped)).sum

/-- How many ticks there are in a run. -/
def ticksMade (kind : SamplerKind) (os : List (Occurrence ε)) : Nat :=
  (os.map (·.ticks kind)).sum

/-- How many samples are lost in a run. -/
def samplesLost (kind : SamplerKind) (os : List (Occurrence ε)) : Nat :=
  os.countP (·.loses kind)

/-- What the samples that are not lost weigh. -/
def samplesKept (kind : SamplerKind) (os : List (Occurrence ε)) : Nat :=
  ((os.filterMap (·.kept kind)).map (·.val)).sum

/-! ### Turns

A tick is worth its interval from when it has read it, and a sample is worth its weight from when it
holds the log.  So worth is not changed by what only passes from one to the other or into the log.
-/

namespace Deed

/-- What the snapshot weighs, if one is handed over. -/
def handed (d : Deed) : Nat := (d.exported.map (·.totalWeight.val)).getD 0

/-- How many dropped samples it reports. -/
def drops (d : Deed) : Nat := (d.exported.map (·.dropped)).getD 0

/-- Is a sample lost that arrives at this view? -/
def lost (d : Deed) (v : View) : Nat := if d.sample.isSome ∧ v.held ≠ [] then 1 else 0

/-- What a sample weighs that is not lost. -/
def gain (d : Deed) (v : View) : Nat :=
  if v.held = [] then (d.sample.map (·.val)).getD 0 else 0

/-- No eviction round discards anything, and no sum is cut off. -/
structure Exact (d : Deed) (v : View) : Prop where
  unevicted : ∀ x ∈ d.writes, x.written.evictions = x.log.evictions
  written : ∀ x ∈ d.writes, x.log.sum + x.weight.val ≤ maxWord
  reclaimed : ∀ weight ∈ d.reclaims, v.reclaimed.val + weight.val ≤ maxWord
  exported : ∀ snapshot ∈ d.exported, sumOfWeights snapshot.entries ≤ maxWord

end Deed

/-- What a sampler has credited and not yet handed over, and what is about to be. -/
def View.worth (v : View) : Nat :=
  (v.custody.map (·.sum)).sum + (v.held.map (·.2.val)).sum + v.reclaimed.val
    + v.interval.val * v.asks.length

/-- What holds while a sampler stays running. -/
structure Tally (kind : SamplerKind) (v : View) : Prop extends Custody v where
  running : v.running = true
  /-- It is not about to be started. -/
  starts_eq : v.starts = 0
  /-- The ticks have read its interval. -/
  asks_eq : ∀ weight ∈ v.asks, weight = v.interval
  /-- No log weighs more than can be said. -/
  sum_le : ∀ log ∈ v.custody, log.sum ≤ maxWord
  /-- The memory sampler credits nothing to reclamation. -/
  reclaimed_eq : kind = .memory → v.reclaimed = 0

/-- How a step changes what a sampler is worth, and its count of dropped samples. -/
structure Balances (kind : SamplerKind) (v : View) (d : Deed) (v' : View) : Prop where
  interval_eq : v'.interval = v.interval
  dropped_eq : d.drops + v'.dropped = v.dropped + d.lost v
  /-- A tick is worth an interval, unless it is lost, -/
  ticks : kind = .cpu → d.handed + v'.worth + v.interval.val * d.lost v
    = v.worth + v.interval.val * d.ticks
  /-- and only ticks are lost. -/
  lost_le : kind = .cpu → v'.asks.length + d.lost v ≤ v.asks.length + d.ticks
  /-- An allocation is worth its size. -/
  sizes : kind = .memory → d.handed + v'.worth = v.worth + d.gain v

section

variable {kind : SamplerKind} {v v' : View} {d : Deed}

theorem Deed.lost_of_held {weight : Weight} (hsample : d.sample = some weight)
    (hheld : v.held ≠ []) : d.lost v = 1 := by
  unfold Deed.lost
  rw [if_pos ⟨by rw [hsample]; rfl, hheld⟩]

theorem Deed.lost_of_free (hheld : v.held = []) : d.lost v = 0 := by
  unfold Deed.lost
  rw [if_neg (fun h => h.2 hheld)]

theorem Deed.gain_of_held (hheld : v.held ≠ []) : d.gain v = 0 := if_neg hheld

theorem Deed.gain_of_free (hheld : v.held = []) :
    d.gain v = (d.sample.map (·.val)).getD 0 := if_pos hheld

theorem Tally.live_ne_absent (ok : Tally kind v) : v.live ≠ .absent := by
  intro hlive
  have hpos := ok.started ok.running hlive
  rw [ok.starts_eq] at hpos
  exact absurd hpos (Nat.lt_irrefl 0)

/-- A sample that arrives is lost or on its way. -/
theorem Arrival.worth {weight : Weight} (h : Arrival v weight v') (ok : Tally kind v) :
    Tally kind v' ∧ v'.interval = v.interval ∧ v'.asks = v.asks ∧
      (v.held ≠ [] ∧ v'.dropped = v.dropped + 1 ∧ v'.worth = v.worth ∨
        v.held = [] ∧ v'.dropped = v.dropped ∧ v'.worth = v.worth + weight.val) := by
  obtain ⟨hok, hcustody, -⟩ := h.custody ok.toCustody
  have hsum : ∀ log ∈ v'.custody, log.sum ≤ maxWord := by
    rw [hcustody]
    exact ok.sum_le
  cases h with
  | ignored hlive => exact absurd hlive ok.live_ne_absent
  | dropped hlive =>
      obtain ⟨entry, hheld⟩ := ok.held_inUse hlive
      refine ⟨⟨hok, ok.running, ok.starts_eq, ok.asks_eq, hsum, ok.reclaimed_eq⟩, rfl, rfl,
        .inl ⟨?_, rfl, rfl⟩⟩
      rw [hheld]
      exact List.cons_ne_nil _ _
  | @held log hlive =>
      have hheld : v.held = [] := ok.held_free (by simp [hlive])
      refine ⟨⟨hok, ok.running, ok.starts_eq, ok.asks_eq, hsum, ok.reclaimed_eq⟩, rfl, rfl,
        .inr ⟨hheld, rfl, ?_⟩⟩
      unfold View.worth
      rw [hcustody]
      simp
      omega

/-- A sample of the CPU sampler that arrives after its tick has asked, or without asking. -/
private theorem Balances.of_tick {asks : List Weight} {ticks : Nat} (hkind : kind = .cpu)
    (hlength : asks.length + 1 = v.asks.length + ticks)
    (harrival : Arrival { v with asks := asks } v.interval v')
    (hok : Tally kind { v with asks := asks }) :
    Balances kind v { ticks := ticks, sample := some v.interval } v' := by
  obtain ⟨-, hinterval, hasks, hcases⟩ := harrival.worth hok
  have hlength' : v'.asks.length = asks.length := congrArg List.length hasks
  have hworth : v.worth + v.interval.val * ticks
      = View.worth { v with asks := asks } + v.interval.val := by
    have hmul := congrArg (v.interval.val * ·) hlength
    simp only [Nat.mul_add, Nat.mul_one] at hmul
    unfold View.worth View.custody
    dsimp only
    omega
  generalize hd : ({ ticks := ticks, sample := some v.interval } : Deed) = d
  have hdrops : d.drops = 0 := by rw [← hd]; rfl
  have hhanded : d.handed = 0 := by rw [← hd]; rfl
  have hticks : d.ticks = ticks := by rw [← hd]
  have hsample : d.sample = some v.interval := by rw [← hd]
  rcases hcases with ⟨hheld, hdropped, hworth'⟩ | ⟨hheld, hdropped, hworth'⟩
  · have hlost : d.lost v = 1 := Deed.lost_of_held hsample hheld
    refine ⟨hinterval, ?_, ?_, ?_, ?_⟩
    · rw [hdrops, hlost, hdropped, Nat.zero_add]
    · intro _
      rw [hhanded, hlost, hticks, hworth', hworth, Nat.mul_one, Nat.zero_add]
    · intro _
      omega
    · intro hmemory
      cases hkind.symm.trans hmemory
  · have hlost : d.lost v = 0 := Deed.lost_of_free hheld
    refine ⟨hinterval, ?_, ?_, ?_, ?_⟩
    · rw [hdrops, hlost, hdropped, Nat.zero_add, Nat.add_zero]
    · intro _
      rw [hhanded, hlost, hticks, hworth', hworth, Nat.mul_zero, Nat.zero_add, Nat.add_zero]
    · intro _
      omega
    · intro hmemory
      cases hkind.symm.trans hmemory

/-- A step with which no sample arrives and nothing is handed over. -/
private theorem Balances.of_inward (hsample : d.sample = none) (hexported : d.exported = none)
    (hinterval : v'.interval = v.interval) (hdropped : v'.dropped = v.dropped)
    (hworth : v'.worth = v.worth + v.interval.val * d.ticks)
    (hasks : v'.asks.length ≤ v.asks.length + d.ticks) (hticks : kind = .memory → d.ticks = 0) :
    Balances kind v d v' := by
  have hdrops : d.drops = 0 := by unfold Deed.drops; rw [hexported]; rfl
  have hhanded : d.handed = 0 := by unfold Deed.handed; rw [hexported]; rfl
  have hlost : d.lost v = 0 := by simp [Deed.lost, hsample]
  have hgain : d.gain v = 0 := by simp [Deed.gain, hsample]
  refine ⟨hinterval, ?_, ?_, ?_, ?_⟩
  · rw [hdrops, hlost, hdropped, Nat.zero_add, Nat.add_zero]
  · intro _
    rw [hhanded, hlost, hworth, Nat.mul_zero, Nat.zero_add, Nat.add_zero]
  · intro _
    rw [hlost]
    exact hasks
  · intro hkind
    rw [hhanded, hgain, hworth, hticks hkind, Nat.mul_zero, Nat.zero_add]

/-- An export hands over all that the sampler has credited. -/
private theorem Tally.handed_eq (ok : Tally kind v) (hlive : v.live ≠ .inUse) {depth : Nat}
    (hdepth : ∀ old ∈ v.live.log?, old.depth = depth)
    (hd : d.exported = snapshotOf kind depth v.live.log? v.reclaimed v.dropped)
    (hexact : d.Exact v) :
    d.handed + v.interval.val * v.asks.length = v.worth ∧ d.drops = v.dropped := by
  obtain ⟨old, hready⟩ : ∃ old, v.live = .ready old := by
    cases hlog : v.live with
    | absent => exact absurd hlog ok.live_ne_absent
    | inUse => exact absurd hlog hlive
    | ready old => exact ⟨old, rfl⟩
  have hcustody : v.custody = [old] := ok.custody_ready hready
  have hlog : v.live.log? = some old := by rw [hready]; rfl
  have hfits : fitsBlock (max 1 depth) = true := by
    rw [← hdepth old hlog]
    exact (ok.sound old (by rw [hcustody]; exact List.mem_singleton_self old)).fits
  have hsnapshot : d.exported = some ⟨kind, depth, some old,
      if kind = .cpu then some v.reclaimed else none, v.dropped⟩ := by
    rw [hd, hlog]
    exact if_pos (.inr hfits)
  have hle := hexact.exported _ hsnapshot
  have hworth : v.worth = old.sum + v.reclaimed.val + v.interval.val * v.asks.length := by
    unfold View.worth
    rw [hcustody, ok.held_free hlive]
    simp
  unfold Deed.handed Deed.drops
  rw [hsnapshot, hworth]
  refine ⟨congrArg (· + _) ?_, rfl⟩
  show (Weight.sum _).val = _
  rw [val_sum_weights hle]
  unfold Snapshot.entries Snapshot.backtraces
  rw [sumOfWeights_append, old.sum_eq]
  cases kind with
  | cpu => rfl
  | memory =>
      rw [ok.reclaimed_eq rfl]
      rfl

/-- Every turn of a sampler that stays running keeps the books balanced. -/
theorem Turn.balances (h : Turn kind v d v') (ok : Tally kind v) (hrun' : v'.running = true)
    (hexact : d.Exact v) : Tally kind v' ∧ Balances kind v d v' := by
  have hok' : Custody v' := (h.custody ok.toCustody).1
  cases h with
  | rest =>
      exact ⟨⟨hok', ok.running, ok.starts_eq, ok.asks_eq, ok.sum_le, ok.reclaimed_eq⟩,
        .of_inward rfl rfl rfl rfl rfl (Nat.le_refl _) (fun _ => rfl)⟩
  | ask hkind =>
      have hworth : View.worth { v with asks := v.interval :: v.asks }
          = v.worth + v.interval.val * 1 := by
        unfold View.worth View.custody
        dsimp only
        rw [List.length_cons, Nat.mul_add]
        omega
      refine ⟨⟨hok', ok.running, ok.starts_eq, ?_, ok.sum_le, ok.reclaimed_eq⟩,
        .of_inward rfl rfl rfl rfl hworth (Nat.le_refl _)
          (fun h => by cases hkind.symm.trans h)⟩
      intro weight hweight
      rcases List.mem_cons.mp hweight with heq | hmem
      · exact heq
      · exact ok.asks_eq weight hmem
  | @reclaim weight asks hkind hasks =>
      have hweight : weight = v.interval :=
        ok.asks_eq weight (by rw [hasks]; exact List.mem_cons_self)
      have hsum : (v.reclaimed + weight).val = v.reclaimed.val + weight.val :=
        Nat.min_eq_left (hexact.reclaimed weight rfl)
      have hworth : View.worth { v with asks := asks, reclaimed := v.reclaimed + weight }
          = v.worth := by
        unfold View.worth View.custody
        dsimp only
        rw [hsum, hasks, List.length_cons, Nat.mul_add, hweight]
        omega
      have hle : asks.length ≤ v.asks.length := by
        rw [hasks]
        exact Nat.le_succ _
      refine ⟨⟨hok', ok.running, ok.starts_eq, ?_, ok.sum_le, ?_⟩,
        .of_inward rfl rfl rfl rfl hworth hle (fun _ => rfl)⟩
      · intro other hother
        exact ok.asks_eq other (by rw [hasks]; exact List.mem_cons_of_mem _ hother)
      · intro hkind'
        cases hkind.symm.trans hkind'
  | @answered v' weight asks hkind hasks harrival =>
      have hweight : weight = v.interval :=
        ok.asks_eq weight (by rw [hasks]; exact List.mem_cons_self)
      have hok : Tally kind { v with asks := asks } := by
        refine ⟨⟨ok.held_inUse, ok.held_free, ok.started, ok.sound⟩, ok.running, ok.starts_eq,
          ?_, ok.sum_le, ok.reclaimed_eq⟩
        intro other hother
        exact ok.asks_eq other (by rw [hasks]; exact List.mem_cons_of_mem _ hother)
      rw [hweight] at harrival ⊢
      exact ⟨(harrival.worth hok).1, .of_tick hkind (by rw [hasks]; rfl) harrival hok⟩
  | ticked hkind hrun harrival =>
      exact ⟨(harrival.worth ok).1, .of_tick hkind rfl harrival ok⟩
  | @allocated v' weight hkind hrun harrival =>
      obtain ⟨hok, hinterval, -, hcases⟩ := harrival.worth ok
      have hcpu : kind ≠ .cpu := by
        rw [hkind]
        exact nofun
      refine ⟨hok, hinterval, ?_, fun h => absurd h hcpu, fun h => absurd h hcpu, fun _ => ?_⟩
      · rcases hcases with ⟨hheld, hdropped, -⟩ | ⟨hheld, hdropped, -⟩
        · rw [Deed.lost_of_held rfl hheld, hdropped]
          exact Nat.zero_add _
        · rw [Deed.lost_of_free hheld, hdropped]
          exact Nat.zero_add _
      · rcases hcases with ⟨hheld, -, hworth⟩ | ⟨hheld, -, hworth⟩
        · rw [Deed.gain_of_held hheld, hworth]
          exact Nat.zero_add _
        · rw [Deed.gain_of_free hheld, hworth]
          exact Nat.zero_add _
  | @write log weight held source hheld =>
      obtain ⟨hlive, rfl, hcustody⟩ := ok.custody_held hheld
      have hmem : log ∈ v.custody := by
        rw [hcustody]
        exact List.mem_singleton_self log
      have hfits : log.sum + weight.val ≤ maxWord := hexact.written _ rfl
      have hsum : (log.record source weight).sum = log.sum + weight.val :=
        (ok.sound log hmem).wellFormed.sum_record (hexact.unevicted _ rfl) hfits
      have hcustody' : View.custody { v with
          live := .ready (log.record source weight), held := [] }
            = [log.record source weight] := rfl
      have hworth : View.worth { v with
          live := .ready (log.record source weight), held := [] } = v.worth := by
        unfold View.worth
        rw [hcustody', hcustody, hheld]
        simp [hsum]
      refine ⟨⟨hok', ok.running, ok.starts_eq, ok.asks_eq, ?_, ok.reclaimed_eq⟩,
        .of_inward rfl rfl rfl rfl hworth (Nat.le_refl _) (fun _ => rfl)⟩
      intro log' hlog'
      rw [hcustody'] at hlog'
      rw [List.mem_singleton.mp hlog', hsum]
      exact hfits
  | raise hrun => cases ok.running.symm.trans hrun
  | resumed hrun => cases ok.running.symm.trans hrun
  | spare hstarts => cases ok.starts_eq.symm.trans hstarts
  | install hstarts => cases ok.starts_eq.symm.trans hstarts
  | lower => cases hrun'
  | @replace log depth hrun hlive hlog hdepth =>
      have hheld : v.held = [] := ok.held_free hlive
      obtain ⟨hhanded, hdrops⟩ := ok.handed_eq hlive hdepth rfl hexact
      have hempty : log.sum = 0 := by
        obtain ⟨settings, hasher, -, hmade⟩ := hlog
        rw [(newLog_eq_ok hmade).1]
        exact BacktraceLog.sum_empty _ _ _
      have hcustody' : View.custody { v with
          live := .ready log, dropped := 0, reclaimed := 0, drawn := v.drawn + 1 } = [log] := by
        unfold View.custody
        rw [hheld]
        rfl
      have hworth : View.worth { v with
          live := .ready log, dropped := 0, reclaimed := 0, drawn := v.drawn + 1 }
            = v.interval.val * v.asks.length := by
        unfold View.worth
        rw [hcustody', hheld]
        simp [hempty]
      refine ⟨⟨hok', ok.running, ok.starts_eq, ok.asks_eq, ?_, fun _ => rfl⟩, rfl, ?_, ?_, ?_, ?_⟩
      · intro log' hlog'
        rw [hcustody'] at hlog'
        rw [List.mem_singleton.mp hlog', hempty]
        exact Nat.zero_le _
      · rw [hdrops, Deed.lost_of_free hheld]
      · intro _
        rw [hworth, hhanded, Deed.lost_of_free hheld]
      · intro _
        exact Nat.le_of_eq (congrArg (v.asks.length + ·) (Deed.lost_of_free hheld))
      · intro _
        have hgain : Deed.gain {
            exported := snapshotOf kind depth v.live.log? v.reclaimed v.dropped } v = 0 :=
          Deed.gain_of_free hheld
        rw [hworth, hhanded, hgain, Nat.add_zero]
  | remove hrun => cases ok.running.symm.trans hrun

end

/-! ### Runs

What a run adds up is the sum of what its steps do (`handedOver_cons` and the lemmas beside it).
The interval of the ticks is the same in all steps, as none changes it (`Balances.interval_eq`).
-/

section

variable {kind : SamplerKind}

theorem Weave.isRecording_iff (w : Weave ε) :
    w.isRecording kind = true ↔ (w.view kind).held ≠ [] := by
  show _ ↔ w.suspended.filterMap (·.held? kind) ≠ []
  unfold Weave.isRecording
  rw [List.any_eq_true, Ne, List.filterMap_eq_nil_iff]
  simp [Option.isSome_iff_ne_none]

private theorem deed_lost (o : Occurrence ε) :
    (o.deed kind).lost (o.before.view kind) = if o.loses kind then 1 else 0 := by
  unfold Deed.lost Occurrence.loses
  simp only [Bool.and_eq_true, Weave.isRecording_iff]
  rfl

private theorem deed_gain (o : Occurrence ε) :
    (o.deed kind).gain (o.before.view kind) = ((o.kept kind).map (·.val)).getD 0 := by
  unfold Occurrence.kept Occurrence.loses
  by_cases hheld : (o.before.view kind).held = []
  · have hrecording : ¬ o.before.isRecording kind = true := by
      rw [Weave.isRecording_iff]
      exact fun h => h hheld
    rw [Deed.gain_of_free hheld, if_neg (by rw [Bool.and_eq_true]; exact fun h => hrecording h.2)]
    rfl
  · have hrecording : o.before.isRecording kind = true := o.before.isRecording_iff.mpr hheld
    rw [Deed.gain_of_held hheld, hrecording, Bool.and_true]
    cases o.sample kind <;> rfl

private theorem handedOver_cons (o : Occurrence ε) (os : List (Occurrence ε)) :
    handedOver kind (o :: os) = (o.deed kind).handed + handedOver kind os :=
  sum_filterMap_cons _ _ _ _

private theorem reportedDrops_cons (o : Occurrence ε) (os : List (Occurrence ε)) :
    reportedDrops kind (o :: os) = (o.deed kind).drops + reportedDrops kind os :=
  sum_filterMap_cons _ _ _ _

private theorem samplesKept_cons (o : Occurrence ε) (os : List (Occurrence ε)) :
    samplesKept kind (o :: os)
      = (o.deed kind).gain (o.before.view kind) + samplesKept kind os := by
  rw [deed_gain]
  exact sum_filterMap_cons _ _ _ _

private theorem samplesLost_cons (o : Occurrence ε) (os : List (Occurrence ε)) :
    samplesLost kind (o :: os)
      = (o.deed kind).lost (o.before.view kind) + samplesLost kind os := by
  rw [deed_lost, Nat.add_comm]
  exact List.countP_cons

/-- A run during which a sampler stays running keeps the books balanced. -/
theorem Weave.Run.balances {w w' : Weave ε} {os : List (Occurrence ε)} (h : Weave.Run w os w')
    (hcalm : ∀ o ∈ os, o.Calm)
    (hrunning : ∀ o ∈ os, (o.after.process.sampler kind).running = true)
    (hexact : ∀ o ∈ os, o.Exact kind) (ok : Tally kind (w.view kind)) :
    let interval := (w.view kind).interval.val
    Tally kind (w'.view kind)
      ∧ reportedDrops kind os + (w'.view kind).dropped
        = (w.view kind).dropped + samplesLost kind os
      ∧ (kind = .cpu → handedOver kind os + (w'.view kind).worth
            + interval * samplesLost kind os
          = (w.view kind).worth + interval * ticksMade kind os
        ∧ (w'.view kind).asks.length + samplesLost kind os
          ≤ (w.view kind).asks.length + ticksMade kind os)
      ∧ (kind = .memory → handedOver kind os + (w'.view kind).worth
          = (w.view kind).worth + samplesKept kind os) := by
  induction h with
  | nil w =>
      refine ⟨ok, Nat.zero_add _, fun _ => ⟨?_, Nat.le_refl _⟩, fun _ => Nat.zero_add _⟩
      exact congrArg (· + _) (Nat.zero_add _)
  | @cons w₁ w₂ w₃ event r os first rest ih =>
      have hmem : (⟨w₁, event, r, w₂⟩ : Occurrence ε) ∈ ⟨w₁, event, r, w₂⟩ :: os :=
        List.mem_cons_self
      have hexact₁ := hexact _ hmem
      obtain ⟨hok, hone⟩ := (first.turn (hcalm _ hmem) kind).balances ok (hrunning _ hmem)
        ⟨hexact₁.1, hexact₁.2, hexact₁.3, hexact₁.4⟩
      obtain ⟨hok', hdropped, hticks, hsizes⟩ :=
        ih (fun o ho => hcalm o (List.mem_cons_of_mem _ ho))
          (fun o ho => hrunning o (List.mem_cons_of_mem _ ho))
          (fun o ho => hexact o (List.mem_cons_of_mem _ ho)) hok
      rw [hone.interval_eq] at hticks
      rw [handedOver_cons, reportedDrops_cons, samplesLost_cons, samplesKept_cons]
      dsimp only
      have hdropped₁ := hone.dropped_eq
      refine ⟨hok', by omega, ?_, ?_⟩
      · intro hkind
        obtain ⟨hworth, hlost⟩ := hticks hkind
        have hworth₁ := hone.ticks hkind
        have hlost₁ := hone.lost_le hkind
        have hmade : ticksMade kind (⟨w₁, event, r, w₂⟩ :: os)
            = (Occurrence.deed kind ⟨w₁, event, r, w₂⟩).ticks + ticksMade kind os :=
          List.sum_cons
        rw [hmade, Nat.mul_add, Nat.mul_add]
        exact ⟨by omega, by omega⟩
      · intro hkind
        have hworth := hsizes hkind
        have hworth₁ := hone.sizes hkind
        omega

/-- When no operation is suspended, none is about to do anything to a sampler. -/
private theorem Weave.view_of_idle {w : Weave ε} (hidle : w.suspended = []) :
    (w.view kind).starts = 0 ∧ (w.view kind).held = [] ∧ (w.view kind).asks = [] := by
  show w.suspended.countP _ = 0 ∧ w.suspended.filterMap _ = [] ∧ w.suspended.filterMap _ = []
  rw [hidle]
  exact ⟨rfl, rfl, rfl⟩

/-- What a sampler is worth when no operation is suspended. -/
theorem Tally.worth_eq {w : Weave ε} (ok : Tally kind (w.view kind)) (hidle : w.suspended = []) :
    (w.view kind).worth = w.credited kind := by
  obtain ⟨-, hheld, hasks⟩ := @Weave.view_of_idle _ kind _ hidle
  have hcustody := ok.custody_free (ok.live_ne_inUse hheld)
  unfold View.worth Weave.credited
  rw [hcustody, hheld, hasks]
  show _ = ((w.view kind).live.log?.map (·.totalWeight.val)).getD 0 + (w.view kind).reclaimed.val
  cases hlog : (w.view kind).live.log? with
  | none => simp
  | some log =>
      have hsum : log.sum ≤ maxWord := ok.sum_le log (by rw [hcustody, hlog]; simp)
      simp [BacktraceLog.totalWeight_val hsum]

/-- Whatever interrupts what, as long as no fault passes through an operation, no log is
missing memory and nothing waits for a log in use, every sample is counted once.

Let a sampler stay running from one time at which no operation is suspended to another, and
let no log evict and no sum be cut off.  Then what the exports have handed over, with what is
credited in the end, is what was credited in the beginning and besides
the sizes of the allocations that were sampled and not dropped,
or an interval for every tick that was made and not dropped.
The samples that the exports report as dropped, with those that are still to be reported,
are those that came while another was being captured. -/
theorem samples_counted_once {config : Config} {stackCapacity : Nat} {reportsReclaims : Bool}
    {hashers : HashFamily} {host : ε} {p : Process ε} {past os : List (Occurrence ε)}
    {w w' : Weave ε}
    (hidle : Process.idle config stackCapacity reportsReclaims hashers host = .ok p)
    (hpast : Weave.Run ⟨p, []⟩ past w) (hrun : Weave.Run w os w')
    (hcalm : ∀ o ∈ past ++ os, o.Calm)
    (hbegins : w.suspended = []) (hends : w'.suspended = [])
    (hrunning : (w.process.sampler kind).running = true)
    (hstays : ∀ o ∈ os, (o.after.process.sampler kind).running = true)
    (hfits : ∀ log ∈ (w.process.sampler kind).live.log?, log.sum ≤ maxWord)
    (hexact : ∀ o ∈ os, o.Exact kind) :
    handedOver kind os + w'.credited kind = w.credited kind + (match kind with
        | .cpu => w.process.cpu.interval.val * (ticksMade kind os - samplesLost kind os)
        | .memory => samplesKept kind os)
      ∧ (kind = .cpu → samplesLost kind os ≤ ticksMade kind os)
      ∧ reportedDrops kind os + (w'.process.sampler kind).dropped
        = (w.process.sampler kind).dropped + samplesLost kind os := by
  obtain ⟨hfirst, hnone⟩ := @custody_idle ε kind _ _ _ _ _ _ hidle
  obtain ⟨hcustody, -⟩ := hpast.custody (fun o ho => hcalm o (List.mem_append_left _ ho))
    hfirst hnone
  obtain ⟨hstarts, hheld, hasks⟩ := @Weave.view_of_idle _ kind _ hbegins
  obtain ⟨-, -, hasks'⟩ := @Weave.view_of_idle _ kind _ hends
  have hok : Tally kind (w.view kind) := by
    refine ⟨hcustody, hrunning, hstarts, ?_, ?_, ?_⟩
    · rw [hasks]
      exact nofun
    · rw [hcustody.custody_free (hcustody.live_ne_inUse hheld)]
      exact fun log hlog => hfits log (Option.mem_toList.mp hlog)
    · intro hkind
      rw [hkind]
      rfl
  obtain ⟨hok', hdropped, hticks, hsizes⟩ :=
    hrun.balances (fun o ho => hcalm o (List.mem_append_right _ ho)) hstays hexact hok
  rw [hok.worth_eq hbegins, hok'.worth_eq hends] at hticks hsizes
  rw [hasks, hasks', List.length_nil, Nat.zero_add, Nat.zero_add] at hticks
  refine ⟨?_, fun hkind => (hticks hkind).2, hdropped⟩
  cases kind with
  | cpu =>
      obtain ⟨hworth, hlost⟩ := hticks rfl
      have hle := Nat.mul_le_mul_left w.process.cpu.interval.val hlost
      dsimp only
      rw [Nat.mul_sub]
      rw [show (w.view .cpu).interval = w.process.cpu.interval from rfl] at hworth
      omega
  | memory => exact hsizes rfl

/-- For instance, with a tick that comes while another is being captured and one that comes
while an export makes a log. -/
theorem samples_counted_once_of_ticks :
    ∃ (p : Process Unit) (past os : List (Occurrence Unit)) (w w' : Weave Unit),
      Process.idle { logCapacity := 1, maxStackDepth := 1 } 1 true .mixing () = .ok p
      ∧ Weave.Run ⟨p, []⟩ past w ∧ Weave.Run w os w' ∧ (∀ o ∈ past ++ os, o.Calm)
      ∧ w.suspended = [] ∧ w'.suspended = [] ∧ (w.process.sampler .cpu).running = true
      ∧ (∀ o ∈ os, (o.after.process.sampler .cpu).running = true)
      ∧ (∀ log ∈ (w.process.sampler .cpu).live.log?, log.sum ≤ maxWord)
      ∧ (∀ o ∈ os, o.Exact .cpu)
      ∧ ticksMade .cpu os = 3 ∧ samplesLost .cpu os = 1
      ∧ handedOver .cpu os + w'.credited .cpu = w.credited .cpu
        + w.process.cpu.interval.val * (ticksMade .cpu os - samplesLost .cpu os) := by
  obtain ⟨p, hidle⟩ : ∃ p : Process Unit,
      Process.idle { logCapacity := 1, maxStackDepth := 1 } 1 true .mixing () = .ok p := ⟨_, rfl⟩
  have hp := Process.eq_of_idle hidle
  generalize hpast : Weave.play (⟨p, []⟩ : Weave Unit)
    [.call (.start (.cpu (.ofNat 10))), .resume, .resume] = past
  generalize hplay : Weave.play past.2 [
    .call .tick, .resume, .call .tick, .resume, .resume,
    .call (.exportKind .cpu), .call .tick, .resume, .resume, .resume] = play
  have hrun : Weave.Run ⟨p, []⟩ past.1 past.2 := by
    rw [← hpast]
    exact Weave.run_play _ _
  have hrun' : Weave.Run past.2 play.1 play.2 := by
    rw [← hplay]
    exact Weave.run_play _ _
  have hcalm : (past.1 ++ play.1).all Occurrence.isCalm = true := by
    rw [← hplay, ← hpast, hp]
    decide +kernel
  have hcalm' : ∀ o ∈ past.1 ++ play.1, o.Calm := fun o ho =>
    Occurrence.calm_of_isCalm (List.all_eq_true.mp hcalm o ho)
  have hbegins : past.2.suspended = [] := by
    rw [← hpast, hp]
    rfl
  have hends : play.2.suspended = [] := by
    rw [← hplay, ← hpast, hp]
    rfl
  have hrunning : (past.2.process.sampler .cpu).running = true := by
    rw [← hpast, hp]
    rfl
  have hstays : ∀ o ∈ play.1, (o.after.process.sampler .cpu).running = true := by
    rw [← hplay, ← hpast, hp]
    decide +kernel
  have hexact : ∀ o ∈ play.1, o.Exact .cpu := by
    rw [← hplay, ← hpast, hp]
    decide +kernel
  have hcounts : ticksMade .cpu play.1 = 3 ∧ samplesLost .cpu play.1 = 1 := by
    rw [← hplay, ← hpast, hp]
    decide +kernel
  have hfits : ∀ log ∈ (past.2.process.sampler .cpu).live.log?, log.sum ≤ maxWord := by
    rw [← hpast, hp]
    decide +kernel
  obtain ⟨hsum, -, -⟩ := @samples_counted_once _ .cpu _ _ _ _ _ _ _ _ _ _ hidle hrun hrun' hcalm'
    hbegins hends hrunning hstays hfits hexact
  exact ⟨p, _, _, _, _, hidle, hrun, hrun', hcalm', hbegins, hends, hrunning, hstays, hfits, hexact,
    hcounts.1, hcounts.2, hsum⟩

end

end SamplingProfiler
