/-
Where the log of a sampler is.

A log is in the custody of its sampler from the moment it is installed until an export
takes it away.  While a sample is being recorded the recording operation holds it, and
there is only one such operation.  A running sampler always has a log in its custody,
unless a start is just about to make one.

Logs are told apart by the keys of their hash functions, since every log draws one of its
own.  A step adds at most the key that was drawn last to the keys of all logs that are or
were in custody (`Turn.keys`), so no key ever comes twice, and none is ever lost.
-/
import SamplingProfiler.Proofs.Interleaving.Turn
import SamplingProfiler.Proofs.Log.Table

namespace SamplingProfiler

variable {ε : Type}

/-! ### New logs -/

/-- A log that was made is the empty log of its dimensions, and its frames fit a block. -/
theorem newLog_eq_ok {settings : LogSettings} {hasher : Hasher} {log : BacktraceLog}
    (h : settings.newLog hasher = .ok log) :
    log = .empty hasher settings.capacity settings.depth ∧
      fitsBlock (BacktraceLog.rowsFor settings.capacity * BacktraceLog.depthFor settings.depth)
        = true := by
  unfold LogSettings.newLog BacktraceLog.create at h
  dsimp only at h
  split at h
  · cases h
  · split at h
    · rename_i hfits
      exact ⟨(Except.ok.inj h).symm, hfits⟩
    · cases h

theorem BacktraceLog.isEmpty_empty (hasher : Hasher) (capacity depth : Nat) :
    (empty hasher capacity depth).isEmpty = true := by
  simp [isEmpty, len, BacktraceLog.capacity, empty]

/-- A log that was made and recorded into.  The key that stands for reclamation in its
profile fits a block. -/
structure Sound (log : BacktraceLog) : Prop where
  wellFormed : log.WellFormed
  fits : fitsBlock (max 1 log.depth) = true

theorem sound_of_newLog {settings : LogSettings} {hasher : Hasher} {log : BacktraceLog}
    (h : settings.newLog hasher = .ok log) : Sound log := by
  obtain ⟨rfl, hfits⟩ := newLog_eq_ok h
  refine ⟨BacktraceLog.wellFormed_empty _ _ _, ?_⟩
  have hrows : 1 ≤ BacktraceLog.rowsFor settings.capacity := Nat.le_max_left _ _
  have hdepth : 1 ≤ BacktraceLog.depthFor settings.depth := Nat.le_max_left _ _
  have hle := Nat.mul_le_mul_right (BacktraceLog.depthFor settings.depth) hrows
  have hbytes := Nat.mul_le_mul_right frameBytes hle
  unfold fitsBlock at hfits ⊢
  rw [decide_eq_true_eq] at hfits ⊢
  show max 1 (BacktraceLog.depthFor settings.depth) * frameBytes ≤ maxBlockBytes
  rw [Nat.max_eq_right hdepth]
  rw [Nat.one_mul] at hbytes
  exact Nat.le_trans hbytes hfits

theorem Fresh.sound {v : View} {log : BacktraceLog} (h : Fresh v log) : Sound log := by
  obtain ⟨settings, hasher, -, hlog⟩ := h
  exact sound_of_newLog hlog

theorem Sound.record {log : BacktraceLog} (h : Sound log) (source : BacktraceLog.Source)
    (weight : Weight) : Sound (log.record source weight) := by
  refine ⟨(h.wellFormed.record source weight).1, ?_⟩
  rw [(BacktraceLog.sameMake_record log source weight).2]
  exact h.fits

theorem Fresh.isEmpty {v : View} {log : BacktraceLog} (h : Fresh v log) :
    log.isEmpty = true := by
  obtain ⟨settings, hasher, -, hlog⟩ := h
  rw [(newLog_eq_ok hlog).1]
  exact BacktraceLog.isEmpty_empty _ _ _

theorem Fresh.key_eq {v : View} {log : BacktraceLog} (h : Fresh v log) :
    log.hasher.key = v.drawn := by
  obtain ⟨settings, hasher, hkey, hlog⟩ := h
  rw [(newLog_eq_ok hlog).1]
  exact hkey

/-! ### Custody

A sample that is being captured has taken the log out of its sampler, so a log is looked for in two
places.  It is never in both.  And where neither has one, the sampler is stopped or a start is about
to make one.
-/

/-- The logs in the custody of a sampler. -/
def View.custody (v : View) : List BacktraceLog := v.live.log?.toList ++ v.held.map Prod.fst

/-- The logs in the custody of a sampler: its live log, or else the one that is being
recorded into. -/
def Weave.custody (kind : SamplerKind) (w : Weave ε) : List BacktraceLog := (w.view kind).custody

/-- The log of a sampler is in one place. -/
structure Shelved (v : View) : Prop where
  /-- If it is in use, one operation holds it, -/
  held_inUse : v.live = .inUse → ∃ entry, v.held = [entry]
  /-- and else none does. -/
  held_free : v.live ≠ .inUse → v.held = []

namespace Shelved

variable {v : View}

/-- A log that is not in use is the only one in custody, if there is one. -/
theorem custody_free (ok : Shelved v) (hlive : v.live ≠ .inUse) :
    v.custody = v.live.log?.toList := by
  unfold View.custody
  rw [ok.held_free hlive, List.map_nil, List.append_nil]

theorem custody_absent (ok : Shelved v) (hlive : v.live = .absent) : v.custody = [] := by
  rw [ok.custody_free (by simp [hlive]), hlive]
  rfl

theorem custody_ready (ok : Shelved v) {log : BacktraceLog} (hlive : v.live = .ready log) :
    v.custody = [log] := by
  rw [ok.custody_free (by simp [hlive]), hlive]
  rfl

theorem live_ne_inUse (ok : Shelved v) (hheld : v.held = []) : v.live ≠ .inUse := by
  intro hlive
  obtain ⟨entry, hentry⟩ := ok.held_inUse hlive
  rw [hheld] at hentry
  cases hentry

/-- A log that is held is in use, and it is the only one in custody. -/
theorem custody_held (ok : Shelved v) {entry : BacktraceLog × Weight}
    {held : List (BacktraceLog × Weight)} (hheld : v.held = entry :: held) :
    v.live = .inUse ∧ held = [] ∧ v.custody = [entry.1] := by
  have hlive : v.live = .inUse := by
    by_contra hlive
    rw [ok.held_free hlive] at hheld
    cases hheld
  obtain ⟨only, honly⟩ := ok.held_inUse hlive
  rw [honly] at hheld
  obtain ⟨rfl, rfl⟩ := List.cons.inj hheld
  refine ⟨hlive, rfl, ?_⟩
  unfold View.custody
  rw [hlive, honly]
  rfl

end Shelved

/-- What holds of a sampler at every time. -/
structure Custody (v : View) : Prop where
  /-- If the log is in use, one operation holds it, -/
  held_inUse : v.live = .inUse → ∃ entry, v.held = [entry]
  /-- and else none does. -/
  held_free : v.live ≠ .inUse → v.held = []
  /-- A running sampler has a log, or a start is about to make one. -/
  started : v.running = true → v.live = .absent → 0 < v.starts
  sound : ∀ log ∈ v.custody, Sound log

section

variable {kind : SamplerKind} {v v' : View} {d : Deed}

theorem Custody.shelved (ok : Custody v) : Shelved v := ⟨ok.held_inUse, ok.held_free⟩

theorem Custody.custody_free (ok : Custody v) (hlive : v.live ≠ .inUse) :
    v.custody = v.live.log?.toList :=
  ok.shelved.custody_free hlive

theorem Custody.custody_absent (ok : Custody v) (hlive : v.live = .absent) : v.custody = [] :=
  ok.shelved.custody_absent hlive

theorem Custody.custody_ready (ok : Custody v) {log : BacktraceLog} (hlive : v.live = .ready log) :
    v.custody = [log] :=
  ok.shelved.custody_ready hlive

theorem Custody.live_ne_inUse (ok : Custody v) (hheld : v.held = []) : v.live ≠ .inUse :=
  ok.shelved.live_ne_inUse hheld

theorem Custody.custody_held (ok : Custody v) {entry : BacktraceLog × Weight}
    {held : List (BacktraceLog × Weight)} (hheld : v.held = entry :: held) :
    v.live = .inUse ∧ held = [] ∧ v.custody = [entry.1] :=
  ok.shelved.custody_held hheld

/-- The arrival of a sample leaves the log in custody. -/
theorem Arrival.custody {weight : Weight} (h : Arrival v weight v') (ok : Custody v) :
    Custody v' ∧ v'.custody = v.custody ∧ v'.drawn = v.drawn := by
  cases h with
  | ignored => exact ⟨ok, rfl, rfl⟩
  | dropped => exact ⟨⟨ok.held_inUse, ok.held_free, ok.started, ok.sound⟩, rfl, rfl⟩
  | @held log hlive =>
      have hcustody : v.custody = [log] := ok.custody_ready hlive
      have hfree : v.held = [] := ok.held_free (by simp [hlive])
      have hcustody' : View.custody { v with live := .inUse, held := (log, weight) :: v.held }
          = v.custody := by
        rw [hcustody]
        simp [View.custody, hfree, LiveLog.log?]
      refine ⟨⟨fun _ => ⟨_, congrArg _ hfree⟩, fun h => absurd rfl h, fun _ h => ?_, ?_⟩,
        hcustody', rfl⟩
      · cases h
      · rw [hcustody']
        exact ok.sound

/-- The log that a step hands over. -/
def Deed.returned (d : Deed) : List BacktraceLog := (d.exported.bind (·.log)).toList

/-- An export hands over the logs in custody. -/
private theorem Custody.returned_eq (ok : Custody v) (hlive : v.live ≠ .inUse) {depth : Nat}
    (hdepth : ∀ old ∈ v.live.log?, old.depth = depth) :
    Deed.returned { exported := snapshotOf kind depth v.live.log? v.reclaimed v.dropped }
      = v.custody := by
  have hcustody := ok.custody_free hlive
  unfold Deed.returned snapshotOf
  rw [hcustody]
  cases hlog : v.live.log? with
  | none =>
      dsimp only
      split <;> rfl
  | some old =>
      have hfits : fitsBlock (max 1 depth) = true := by
        rw [← hdepth old (by rw [hlog]; rfl)]
        exact (ok.sound old (by rw [hcustody, hlog]; exact List.mem_singleton_self old)).fits
      rw [if_pos (.inr hfits)]
      rfl

/-- A sampler with a log that can take a sample. -/
private theorem Custody.of_ready {log : BacktraceLog} (hlive : v.live = .ready log)
    (hheld : v.held = []) (hsound : Sound log) :
    Custody v ∧ v.custody = [log] := by
  have hcustody : v.custody = [log] := by
    unfold View.custody
    rw [hlive, hheld]
    rfl
  refine ⟨⟨fun h => ?_, fun _ => hheld, fun _ h => ?_, fun log' hlog' => ?_⟩, hcustody⟩
  · rw [hlive] at h
    cases h
  · rw [hlive] at h
    cases h
  · rw [hcustody] at hlog'
    rw [List.mem_singleton.mp hlog']
    exact hsound

def View.keys (v : View) : List Nat := v.custody.map (·.hasher.key)

/-- The keys of the logs that a step hands over. -/
def Deed.keys (d : Deed) : List Nat := d.returned.map (·.hasher.key)

/-- The logs in custody stay there or are handed over, and at most one comes, with the key
that is drawn. -/
structure Passes (v : View) (d : Deed) (v' : View) : Prop where
  drawn_le : v.drawn ≤ v'.drawn
  keys_eq : ∃ fresh, (fresh = [] ∨ fresh = [v.drawn] ∧ v'.drawn = v.drawn + 1) ∧
    d.keys ++ v'.keys = v.keys ++ fresh

private theorem Passes.of_custody (hd : d.returned = []) (hdrawn : v.drawn ≤ v'.drawn)
    (hcustody : v'.custody = v.custody) : Passes v d v' := by
  refine ⟨hdrawn, [], .inl rfl, ?_⟩
  unfold Deed.keys View.keys
  rw [hd, hcustody, List.append_nil]
  rfl

/-- A turn keeps custody, and passes the logs on. -/
theorem Turn.custody (h : Turn kind v d v') (ok : Custody v) : Custody v' ∧ Passes v d v' := by
  cases h with
  | rest hdrawn => exact ⟨⟨ok.1, ok.2, ok.3, ok.4⟩, .of_custody rfl hdrawn rfl⟩
  | ask => exact ⟨⟨ok.1, ok.2, ok.3, ok.4⟩, .of_custody rfl (Nat.le_refl _) rfl⟩
  | reclaim => exact ⟨⟨ok.1, ok.2, ok.3, ok.4⟩, .of_custody rfl (Nat.le_refl _) rfl⟩
  | answered _ _ harrival =>
      obtain ⟨hok, hcustody, hdrawn⟩ := harrival.custody ⟨ok.1, ok.2, ok.3, ok.4⟩
      exact ⟨hok, .of_custody rfl (Nat.le_of_eq hdrawn.symm) hcustody⟩
  | ticked _ _ harrival =>
      obtain ⟨hok, hcustody, hdrawn⟩ := harrival.custody ok
      exact ⟨hok, .of_custody rfl (Nat.le_of_eq hdrawn.symm) hcustody⟩
  | allocated _ _ harrival =>
      obtain ⟨hok, hcustody, hdrawn⟩ := harrival.custody ok
      exact ⟨hok, .of_custody rfl (Nat.le_of_eq hdrawn.symm) hcustody⟩
  | @write log weight held source hheld =>
      obtain ⟨-, rfl, hcustody⟩ := ok.custody_held hheld
      have hsound : Sound log :=
        ok.sound log (by rw [hcustody]; exact List.mem_singleton_self log)
      have hhasher := (BacktraceLog.sameMake_record log source weight).1
      obtain ⟨hok, hcustody'⟩ := Custody.of_ready (v := { v with
        live := .ready (log.record source weight), held := [] }) rfl rfl
        (hsound.record source weight)
      refine ⟨hok, Nat.le_refl _, [], .inl rfl, ?_⟩
      unfold View.keys
      rw [hcustody, hcustody', List.map_singleton, hhasher]
      rfl
  | raise hrun hlive =>
      exact ⟨⟨ok.1, ok.2, fun _ _ => Nat.succ_pos _, ok.4⟩, .of_custody rfl (Nat.le_refl _) rfl⟩
  | resumed hrun hlive =>
      exact ⟨⟨ok.1, ok.2, fun _ h => absurd h hlive, ok.4⟩, .of_custody rfl (Nat.le_refl _) rfl⟩
  | spare _ hlive hdrawn =>
      exact ⟨⟨ok.1, ok.2, fun _ h => absurd h hlive, ok.4⟩, .of_custody rfl hdrawn rfl⟩
  | @install starts interval log hstarts hlive hlog =>
      have hheld : v.held = [] := ok.held_free (by simp [hlive])
      obtain ⟨hok, hcustody'⟩ := Custody.of_ready (v := { v with
        live := .ready log, interval := interval, reclaimed := 0, starts := starts
        drawn := v.drawn + 1 }) rfl hheld hlog.sound
      refine ⟨hok, Nat.le_succ _, [v.drawn], .inr ⟨rfl, rfl⟩, ?_⟩
      unfold View.keys
      rw [ok.custody_absent hlive, hcustody', List.map_singleton, hlog.key_eq]
      rfl
  | lower =>
      exact ⟨⟨ok.1, ok.2, fun h => absurd h Bool.false_ne_true, ok.4⟩,
        .of_custody rfl (Nat.le_refl _) rfl⟩
  | @replace log depth hrun hlive hlog hdepth =>
      have hheld : v.held = [] := ok.held_free hlive
      obtain ⟨hok, hcustody'⟩ := Custody.of_ready (v := { v with
        live := .ready log, dropped := 0, reclaimed := 0, drawn := v.drawn + 1 })
        rfl hheld hlog.sound
      refine ⟨hok, Nat.le_succ _, [v.drawn], .inr ⟨rfl, rfl⟩, ?_⟩
      unfold View.keys Deed.keys
      rw [ok.returned_eq hlive hdepth, hcustody', List.map_singleton, hlog.key_eq]
  | @remove depth drawn hrun hlive hdrawn hdepth =>
      have hcustody' : View.custody { v with
          live := .absent, dropped := 0, reclaimed := 0, drawn := drawn } = [] := by
        unfold View.custody
        rw [ok.held_free hlive]
        rfl
      refine ⟨⟨nofun, fun _ => ok.held_free hlive, fun h => ?_, ?_⟩, hdrawn, [], .inl rfl, ?_⟩
      · exact absurd (hrun.symm.trans h) Bool.false_ne_true
      · rw [hcustody']
        exact nofun
      · unfold View.keys Deed.keys
        rw [ok.returned_eq hlive hdepth, hcustody']
        rfl

/-- No log was or is in custody twice, and all of them have drawn their keys. -/
structure Known (gone : List Nat) (v : View) : Prop where
  nodup : (gone ++ v.keys).Nodup
  lt_drawn : ∀ key ∈ gone ++ v.keys, key < v.drawn

/-- The logs that are passed on are known, and none is forgotten. -/
theorem Passes.known {gone : List Nat} (h : Passes v d v') (hknown : Known gone v) :
    Known (gone ++ d.keys) v' ∧ ∀ key ∈ gone ++ v.keys, key ∈ gone ++ d.keys ++ v'.keys := by
  obtain ⟨fresh, hfresh, hkeys⟩ := h.keys_eq
  have hall : gone ++ d.keys ++ v'.keys = gone ++ v.keys ++ fresh := by
    rw [List.append_assoc, hkeys, List.append_assoc]
  refine ⟨⟨?_, ?_⟩, ?_⟩
  · rw [hall]
    rcases hfresh with hnil | ⟨hone, -⟩
    · rw [hnil, List.append_nil]
      exact hknown.nodup
    · rw [hone, List.nodup_append]
      refine ⟨hknown.nodup, List.nodup_singleton _, fun key hkey other hother => ?_⟩
      have := hknown.lt_drawn key hkey
      rw [List.mem_singleton.mp hother]
      omega
  · rw [hall]
    intro key hkey
    rcases List.mem_append.mp hkey with hold | hnew
    · exact Nat.lt_of_lt_of_le (hknown.lt_drawn key hold) h.drawn_le
    · rcases hfresh with hnil | ⟨hone, hdrawn⟩
      · rw [hnil] at hnew
        cases hnew
      · rw [hone] at hnew
        rw [List.mem_singleton.mp hnew, hdrawn]
        exact Nat.lt_succ_self _
  · intro key hkey
    rw [hall]
    exact List.mem_append_left _ hkey

end

/-! ### Runs

The keys of the logs handed over so far are carried along the run, as `gone`.  A step takes a key
from custody to these, or brings one that is drawn for the first time.  So no key comes twice, and
none gets lost.
-/

section

variable {kind : SamplerKind}

/-- The logs that are handed over in a run. -/
def returned (kind : SamplerKind) (os : List (Occurrence ε)) : List BacktraceLog :=
  os.filterMap fun o => (o.exported kind).bind (·.log)

/-- The keys of the logs that are handed over in a run. -/
def returnedKeys (kind : SamplerKind) (os : List (Occurrence ε)) : List Nat :=
  (returned kind os).map (·.hasher.key)

theorem returnedKeys_cons (o : Occurrence ε) (os : List (Occurrence ε)) :
    returnedKeys kind (o :: os) = (o.deed kind).keys ++ returnedKeys kind os := by
  unfold returnedKeys returned Deed.keys Deed.returned
  rw [List.filterMap_cons]
  show _ = ((o.exported kind).bind (·.log)).toList.map _ ++ _
  cases (o.exported kind).bind (·.log) <;> rfl

/-- A calm run keeps custody, and forgets no log. -/
theorem Weave.Run.custody {w w' : Weave ε} {os : List (Occurrence ε)} (h : Weave.Run w os w')
    (hcalm : ∀ o ∈ os, o.Calm) {gone : List Nat} (ok : Custody (w.view kind))
    (hknown : Known gone (w.view kind)) :
    Custody (w'.view kind) ∧ Known (gone ++ returnedKeys kind os) (w'.view kind) ∧
      (∀ key ∈ gone ++ (w.view kind).keys,
        key ∈ gone ++ returnedKeys kind os ++ (w'.view kind).keys) ∧
      ∀ o ∈ os, ∀ key ∈ (o.after.view kind).keys,
        key ∈ gone ++ returnedKeys kind os ++ (w'.view kind).keys := by
  induction h generalizing gone with
  | nil w =>
      have hnone : gone ++ returnedKeys kind ([] : List (Occurrence ε)) = gone :=
        List.append_nil gone
      rw [hnone]
      exact ⟨ok, hknown, fun key hkey => hkey, fun o ho => by cases ho⟩
  | @cons w₁ w₂ w₃ event r os first rest ih =>
      have hfirst := hcalm _ List.mem_cons_self
      obtain ⟨hok, hpasses⟩ := (first.turn hfirst kind).custody ok
      obtain ⟨hnext, hkept⟩ := hpasses.known hknown
      obtain ⟨hok', hknown', hkept', hafter⟩ :=
        ih (fun o ho => hcalm o (List.mem_cons_of_mem _ ho)) hok hnext
      rw [returnedKeys_cons, ← List.append_assoc]
      refine ⟨hok', hknown', fun key hkey => hkept' key (hkept key hkey), ?_⟩
      intro o ho key hkey
      rcases List.mem_cons.mp ho with heq | hmem
      · rw [heq] at hkey
        exact hkept' key (List.mem_append_right _ hkey)
      · exact hafter o hmem key hkey

/-- A process that has done nothing has nothing in custody. -/
theorem custody_idle {config : Config} {stackCapacity : Nat} {reportsReclaims : Bool}
    {hashers : HashFamily} {host : ε} {p : Process ε}
    (hidle : Process.idle config stackCapacity reportsReclaims hashers host = .ok p) :
    Custody ((⟨p, []⟩ : Weave ε).view kind) ∧ Known [] ((⟨p, []⟩ : Weave ε).view kind) := by
  have hp := Process.eq_of_idle hidle
  have hlive : ((⟨p, []⟩ : Weave ε).view kind).live = .absent := by
    rw [hp]
    cases kind <;> rfl
  have hrunning : ((⟨p, []⟩ : Weave ε).view kind).running = false := by
    rw [hp]
    cases kind <;> rfl
  have hcustody : ((⟨p, []⟩ : Weave ε).view kind).custody = [] := by
    unfold View.custody
    rw [hlive]
    rfl
  have hkeys : ((⟨p, []⟩ : Weave ε).view kind).keys = [] := by
    unfold View.keys
    rw [hcustody]
    rfl
  refine ⟨⟨fun h => ?_, fun _ => rfl, fun h => ?_, fun log hlog => ?_⟩, ⟨?_, ?_⟩⟩
  · rw [hlive] at h
    cases h
  · rw [hrunning] at h
    cases h
  · rw [hcustody] at hlog
    cases hlog
  · rw [hkeys]
    exact List.nodup_nil
  · rw [hkeys]
    exact nofun

/-- What an export leaves: a running sampler has an empty log, and a stopped one has none. -/
theorem Turn.exported_leaves {v v' : View} {d : Deed} (h : Turn kind v d v') {snapshot : Snapshot}
    (hexported : d.exported = some snapshot) :
    v'.live ≠ .inUse ∧ (v'.running = true ↔ v'.live ≠ .absent) ∧
      ∀ log, v'.live = .ready log → log.isEmpty = true := by
  cases h with
  | @replace log depth hrun hlive hlog hdepth =>
      refine ⟨nofun, ⟨fun _ => nofun, fun _ => hrun⟩, fun log' hlog' => ?_⟩
      cases hlog'
      exact hlog.isEmpty
  | @remove depth drawn hrun =>
      refine ⟨nofun, ⟨fun h => ?_, fun h => absurd rfl h⟩, nofun⟩
      exact absurd (hrun.symm.trans h) Bool.false_ne_true
  | _ => cases hexported

/-- Whatever interrupts what, as long as no fault passes through an operation, no log is
missing memory and nothing waits for a log in use:
a running sampler has a log, unless a start is about to make one;
an export leaves an empty log in a running sampler and none in a stopped one;
and a log that was ever installed is in the custody of its sampler or has been handed over,
once and not both. -/
theorem custody_of_logs {config : Config} {stackCapacity : Nat} {reportsReclaims : Bool}
    {hashers : HashFamily} {host : ε} {p : Process ε} {os : List (Occurrence ε)} {w : Weave ε}
    (hidle : Process.idle config stackCapacity reportsReclaims hashers host = .ok p)
    (hrun : Weave.Run ⟨p, []⟩ os w) (hcalm : ∀ o ∈ os, o.Calm) :
    ((w.process.sampler kind).running = true → (w.process.sampler kind).live ≠ .absent ∨
      ∃ s ∈ w.suspended, s.starts kind = true)
    ∧ (∀ o ∈ os, ∀ snapshot ∈ o.exported kind,
        let left := o.after.process.sampler kind
        left.live ≠ .inUse ∧ (left.running = true ↔ left.live ≠ .absent) ∧
          ∀ log, left.live = .ready log → log.isEmpty = true)
    ∧ ∀ o ∈ os, ∀ log, (o.after.process.sampler kind).live = .ready log →
        (returnedKeys kind os).count log.hasher.key
          + ((w.custody kind).map (·.hasher.key)).count log.hasher.key = 1 := by
  obtain ⟨hfirst, hnone⟩ := @custody_idle ε kind _ _ _ _ _ _ hidle
  obtain ⟨hok, hknown, -, hafter⟩ := hrun.custody hcalm hfirst hnone
  refine ⟨fun hrunning => ?_, fun o ho snapshot hsnapshot => ?_, fun o ho log hlog => ?_⟩
  · by_cases hlive : (w.process.sampler kind).live = .absent
    · exact .inr (List.countP_pos_iff.mp (hok.started hrunning hlive))
    · exact .inl hlive
  · exact ((hrun.step_of_mem ho).turn (hcalm o ho) kind).exported_leaves hsnapshot
  · have hkey : log.hasher.key ∈ (o.after.view kind).keys := by
      refine List.mem_map.mpr ⟨log, List.mem_append_left _ ?_, rfl⟩
      rw [show (o.after.view kind).live = _ from hlog]
      exact List.mem_singleton_self log
    have hmem := hafter o ho _ hkey
    have hnodup := hknown.nodup
    rw [List.nil_append] at hmem hnodup
    have hcount := List.count_eq_one_of_mem hnodup hmem
    rw [List.count_append] at hcount
    exact hcount

/-- For instance, an export may install a log while the log of a start is being made: the one
that the start makes is not installed. -/
theorem custody_of_logs_exported_while_starting :
    ∃ (p : Process Unit) (os : List (Occurrence Unit)) (w : Weave Unit),
      Process.idle { logCapacity := 1, maxStackDepth := 1 } 1 false .mixing () = .ok p
      ∧ Weave.Run ⟨p, []⟩ os w ∧ (∀ o ∈ os, o.Calm) ∧ os.length = 4
      ∧ (w.process.sampler .memory).running = true
      ∧ ((w.process.sampler .memory).live ≠ .absent
        ∨ ∃ s ∈ w.suspended, s.starts .memory = true)
      ∧ ∀ o ∈ os, ∀ log, (o.after.process.sampler .memory).live = .ready log →
        (returnedKeys .memory os).count log.hasher.key
          + ((w.custody .memory).map (·.hasher.key)).count log.hasher.key = 1 := by
  obtain ⟨p, hidle⟩ : ∃ p : Process Unit,
      Process.idle { logCapacity := 1, maxStackDepth := 1 } 1 false .mixing () = .ok p := ⟨_, rfl⟩
  have hp := Process.eq_of_idle hidle
  generalize hplay : Weave.play (⟨p, []⟩ : Weave Unit)
    [.call (.start .memory), .call (.exportKind .memory), .resume, .resume] = play
  have hrun : Weave.Run ⟨p, []⟩ play.1 play.2 := by
    rw [← hplay]
    exact Weave.run_play _ _
  have hcalm : play.1.all Occurrence.isCalm = true := by
    rw [← hplay, hp]
    decide +kernel
  have hcalm' : ∀ o ∈ play.1, o.Calm := fun o ho =>
    Occurrence.calm_of_isCalm (List.all_eq_true.mp hcalm o ho)
  have hlength : play.1.length = 4 := by
    rw [← hplay, hp]
    rfl
  have hrunning : (play.2.process.sampler .memory).running = true := by
    rw [← hplay, hp]
    rfl
  obtain ⟨hstarted, -, hcount⟩ := @custody_of_logs _ .memory _ _ _ _ _ _ _ _ hidle hrun hcalm'
  exact ⟨p, _, _, hidle, hrun, hcalm', hlength, hrunning, hstarted hrunning, hcount⟩

end

end SamplingProfiler
