import Ambit.AuditHistory

/-! The audit log when file operations fail. `record` appends the entry in memory before it rotates
the file and appends the line, so a call whose file operation fails throws and leaves its entry
behind. -/

namespace Ambit

/-- One call of `record`, with the fate of its file operations. -/
structure RecordCall where
  io : AuditIo
  id : String
  entry : AuditEntryInput
  now : Int

inductive LogAction where
  | record (call : RecordCall)
  | restart

section
variable (p : Platform) (cfg : AuditConfig)

def AuditLog.call (log : AuditLog) (call : RecordCall) : Except Err AuditLogEntry × AuditLog :=
  log.record p cfg call.io call.id call.entry call.now

def AuditLog.act (log : AuditLog) : LogAction → AuditLog
  | .record call => (log.call p cfg call).2
  | .restart => .construct cfg log.files

/-- The machine of a persisted log whose file operations may fail. -/
def logMachine (files : AuditDirectory) : Machine AuditLog LogAction where
  init := .construct cfg files
  step := AuditLog.act p cfg

/-- The entries of a log opened on a directory, after any calls of `record`. -/
def recorded (files : AuditDirectory) (calls : List RecordCall) : List AuditLogEntry :=
  ((logMachine p cfg files).run (calls.map .record)).entries

end

variable {p : Platform} {cfg : AuditConfig} {files : AuditDirectory} {log : AuditLog}

/-- What `record` does to the entries in memory: a rejected call leaves them, every other call
appends its entry, whatever happens to the files. -/
theorem AuditLog.call_entries (log : AuditLog) (call : RecordCall) :
    (log.call p cfg call).2.entries =
      if call.entry.lacksReason then log.entries
      else log.entries ++ [log.entryOf p call.id call.entry call.now] := by
  rw [AuditLog.call, AuditLog.record]
  split
  · rfl
  · simp only
    have hentries :=
      (log.push (log.entryOf p call.id call.entry call.now)).rotateIfNeeded_entries cfg call.io
    split
    · rename_i hrotate
      rwa [hrotate] at hentries
    · rename_i hrotate
      rw [hrotate] at hentries
      split <;> exact hentries

theorem Chained.call (h : Chained p log.entries) (call : RecordCall) :
    Chained p (log.call p cfg call).2.entries := by
  rw [AuditLog.call_entries]
  split
  · exact h
  · exact h.snoc_entryOf ..

theorem chained_recorded (hfresh : FreshDirectory cfg files) (calls : List RecordCall) :
    Chained p (recorded p cfg files calls) := by
  induction calls using List.reverseRecOn with
  | nil =>
    obtain ⟨-, -, hentries⟩ := AuditLog.keptAs_construct_of_fresh hfresh
    rw [recorded, List.map_nil, Machine.run_nil, logMachine, hentries]
    exact Chained.nil p
  | append_singleton calls call ih =>
    rw [recorded, List.map_append, List.map_singleton, Machine.run_snoc]
    exact Chained.call ih call

/-! ## Failing calls -/

/-- The call renames the active file. -/
def AuditLog.Rotates (cfg : AuditConfig) (log : AuditLog) : Prop :=
  cfg.maxLinesPerSegment ≤ log.currentSegmentLines ∧ (log.files.get cfg.activeName).isSome

/-- A file operation of the call fails: the rename, if there is one, or the append. -/
def LogAction.Fails (cfg : AuditConfig) (log : AuditLog) : LogAction → Prop
  | .record call => call.entry.lacksReason = false ∧
      (log.Rotates cfg ∧ call.io.renamed = false ∨ call.io.appended = false)
  | .restart => False

instance (cfg : AuditConfig) (log : AuditLog) : Decidable (log.Rotates cfg) :=
  inferInstanceAs (Decidable (_ ∧ _))

instance (cfg : AuditConfig) (log : AuditLog) : (a : LogAction) → Decidable (a.Fails cfg log)
  | .record _ => inferInstanceAs (Decidable (_ ∧ _))
  | .restart => inferInstanceAs (Decidable False)

namespace AuditLog

theorem rotateIfNeeded_of_not_rotates (h : ¬ log.Rotates cfg) (io : AuditIo) :
    log.rotateIfNeeded cfg io = log.rotateIfNeeded cfg .ok := by
  rw [rotateIfNeeded, rotateIfNeeded]
  split
  · rfl
  · rename_i hle
    have hnone : log.files.get cfg.activeName = none := by
      by_contra hsome
      exact h ⟨Nat.not_lt.mp hle, Option.isSome_iff_ne_none.mpr hsome⟩
    rw [hnone]

theorem rotateIfNeeded_of_renamed {io : AuditIo} (h : io.renamed = true) :
    log.rotateIfNeeded cfg io = log.rotateIfNeeded cfg .ok := by
  rw [rotateIfNeeded, rotateIfNeeded, h]
  rfl

theorem rotateIfNeeded_fst_of_rotates {io : AuditIo} (h : log.Rotates cfg)
    (hio : io.renamed = false) : (log.rotateIfNeeded cfg io).1 = false := by
  obtain ⟨lines, hlines⟩ := Option.isSome_iff_exists.mp h.2
  rw [rotateIfNeeded, if_neg (Nat.not_lt.mpr h.1), hlines]
  simp [hio]

theorem rotateIfNeeded_ok_fst : (log.rotateIfNeeded cfg .ok).1 = true := by
  rw [rotateIfNeeded]
  split
  · rfl
  · split <;> rfl

/-- A call none of whose file operations fails is a call that no failure can reach. -/
theorem call_of_not_fails {call : RecordCall} (h : ¬ (LogAction.record call).Fails cfg log) :
    log.call p cfg call = log.record p cfg .ok call.id call.entry call.now := by
  rw [AuditLog.call, record, record]
  cases hreason : call.entry.lacksReason with
  | true => rfl
  | false =>
    have hio : ¬ (log.Rotates cfg ∧ call.io.renamed = false ∨ call.io.appended = false) :=
      fun hfail => h ⟨hreason, hfail⟩
    obtain ⟨hrename, happend⟩ := not_or.mp hio
    have hrotate : log.rotateIfNeeded cfg call.io = log.rotateIfNeeded cfg .ok := by
      by_cases hrotates : log.Rotates cfg
      · apply rotateIfNeeded_of_renamed
        by_contra hnot
        exact hrename ⟨hrotates, Bool.eq_false_iff.mpr hnot⟩
      · exact rotateIfNeeded_of_not_rotates hrotates call.io
    have happended : call.io.appended = true := by simpa using happend
    simp only [rotateIfNeeded_push, hrotate, happended]
    rfl

theorem call_fst_of_fails {call : RecordCall} (h : (LogAction.record call).Fails cfg log) :
    (log.call p cfg call).1 = .error .io := by
  obtain ⟨hreason, hfail⟩ := h
  rw [AuditLog.call, record, hreason]
  simp only [Bool.false_eq_true, if_false, rotateIfNeeded_push]
  rcases hfail with ⟨hrotates, hio⟩ | hio
  · rw [rotateIfNeeded_fst_of_rotates hrotates hio]
  · cases (log.rotateIfNeeded cfg call.io).1 <;> simp [hio]

end AuditLog

/-- An accepted call throws only if one of its file operations fails. -/
theorem AuditLog.call_fst_of_not_fails {call : RecordCall} (hreason : call.entry.lacksReason = false)
    (h : ¬ (LogAction.record call).Fails cfg log) :
    (log.call p cfg call).1 = .ok (log.entryOf p call.id call.entry call.now) := by
  have hrotate : (log.rotateIfNeeded cfg .ok).1 = true := AuditLog.rotateIfNeeded_ok_fst
  rw [AuditLog.call_of_not_fails h, AuditLog.record, hreason]
  simp only [Bool.false_eq_true, if_false, AuditLog.rotateIfNeeded_push, hrotate]
  rfl

/-! ## Damage -/

/-- The entry that a call returned. -/
def LogAction.returned (p : Platform) (cfg : AuditConfig) (log : AuditLog) :
    LogAction → Option AuditLogEntry
  | .record call => (log.call p cfg call).1.toOption
  | .restart => none

/-- A call that throws leaves the entries as they were. -/
def LogAction.LeavesEntries (p : Platform) (cfg : AuditConfig) (log : AuditLog) : LogAction → Prop
  | .record call => ∀ e, (log.call p cfg call).1 = .error e →
      (log.call p cfg call).2.entries = log.entries
  | .restart => True

/-- No call that threw left a trace, and a log opened on the files verifies and holds the entries
of the calls that returned. -/
def Undamaged (p : Platform) (cfg : AuditConfig) (files : AuditDirectory)
    (acts : List LogAction) : Prop :=
  let reopened := AuditLog.construct cfg ((logMachine p cfg files).run acts).files
  (logMachine p cfg files).Meets (fun log a => a.LeavesEntries p cfg log) acts ∧
    (reopened.verify p).valid = true ∧
    reopened.entries = (logMachine p cfg files).outputs (fun log a => a.returned p cfg log) acts

/-- No file operation of the run fails. -/
def NoFailure (p : Platform) (cfg : AuditConfig) (files : AuditDirectory)
    (acts : List LogAction) : Prop :=
  (logMachine p cfg files).Meets (fun log a => ¬ a.Fails cfg log) acts

/-- A kept log whose entries form a chain. -/
structure AuditLog.Intact (p : Platform) (cfg : AuditConfig) (log : AuditLog) : Prop where
  kept : log.Kept cfg
  chained : Chained p log.entries

/-- A step that does not fail: the log stays intact and grows by what the call returned. -/
theorem AuditLog.Intact.act (h : log.Intact p cfg) {a : LogAction} (ha : ¬ a.Fails cfg log) :
    (log.act p cfg a).Intact p cfg ∧
      (log.act p cfg a).entries = log.entries ++ (a.returned p cfg log).toList := by
  cases a with
  | restart =>
    rw [AuditLog.act, h.kept.construct]
    exact ⟨h, by simp [LogAction.returned]⟩
  | record call =>
    have hcall := AuditLog.call_of_not_fails (p := p) ha
    simp only [AuditLog.act, LogAction.returned, hcall]
    cases hreason : call.entry.lacksReason with
    | true =>
      rw [AuditLog.record_of_lacksReason hreason]
      exact ⟨h, by simp [Except.toOption]⟩
    | false =>
      obtain ⟨segments, hkept⟩ := h.kept
      obtain ⟨log', segments', hrec, hentries, hkept', -⟩ :=
        hkept.record (p := p) hreason call.id call.now
      rw [hrec]
      refine ⟨⟨⟨segments', hkept'⟩, ?_⟩, hentries⟩
      rw [hentries]
      exact h.chained.snoc_entryOf ..

theorem intact_run (hfresh : FreshDirectory cfg files) {acts : List LogAction}
    (h : NoFailure p cfg files acts) :
    ((logMachine p cfg files).run acts).Intact p cfg ∧
      ((logMachine p cfg files).run acts).entries =
        (logMachine p cfg files).outputs (fun log a => a.returned p cfg log) acts := by
  induction acts using List.reverseRecOn with
  | nil =>
    obtain ⟨hkept, -, hentries⟩ := AuditLog.keptAs_construct_of_fresh hfresh
    exact ⟨⟨⟨[], hkept⟩, hentries.symm ▸ Chained.nil p⟩, hentries⟩
  | append_singleton acts a ih =>
    obtain ⟨hacts, ha⟩ := Machine.meets_snoc.mp h
    obtain ⟨hintact, hreturned⟩ := ih hacts
    obtain ⟨hintact', hentries⟩ := hintact.act ha
    rw [Machine.run_snoc, Machine.outputs_snoc, ← hreturned]
    exact ⟨hintact', hentries⟩

/-- A step keeps its promise exactly when none of its file operations fails. -/
theorem LogAction.leavesEntries_iff {a : LogAction} :
    a.LeavesEntries p cfg log ↔ ¬ a.Fails cfg log := by
  cases a with
  | restart => simp [LogAction.LeavesEntries, LogAction.Fails]
  | record call =>
    constructor
    · intro hleaves hfails
      have hentries := hleaves .io (AuditLog.call_fst_of_fails hfails)
      rw [AuditLog.call_entries, hfails.1] at hentries
      simp at hentries
    · intro hfails e he
      cases hreason : call.entry.lacksReason with
      | true => rw [AuditLog.call_entries, if_pos hreason]
      | false =>
        rw [AuditLog.call_fst_of_not_fails hreason hfails] at he
        cases he

/-- **Failed appends.** The runs that leave no damage are exactly those in which no file
operation fails: the first call whose rename or append fails leaves its entry in memory. -/
theorem undamaged_iff_noFailure (p : Platform) (cfg : AuditConfig) (files : AuditDirectory)
    (hfresh : FreshDirectory cfg files) (acts : List LogAction) :
    Undamaged p cfg files acts ↔ NoFailure p cfg files acts := by
  constructor
  · rintro ⟨hleaves, -⟩
    exact hleaves.mono fun _ _ => LogAction.leavesEntries_iff.mp
  · intro h
    obtain ⟨hintact, hentries⟩ := intact_run hfresh h
    refine ⟨h.mono fun _ _ => LogAction.leavesEntries_iff.mpr, ?_⟩
    rw [hintact.kept.construct]
    exact ⟨verifyAuditChain_valid_iff.mpr hintact.chained, hentries⟩

def sampleInput : AuditEntryInput :=
  { subject := "agent-42", action := "email:send", decision := .allowed }

def sampleCall (id : String) (appended : Bool) : LogAction :=
  .record { io := ⟨true, appended⟩, id, entry := sampleInput, now := 0 }

theorem undamaged_iff_noFailure_sample :
    Undamaged samplePlatform sampleEnv.audit .empty [sampleCall "1" true, .restart] :=
  (undamaged_iff_noFailure samplePlatform sampleEnv.audit .empty
    ⟨rfl, by simp [OrderedMap.keys, OrderedMap.empty]⟩ [sampleCall "1" true, .restart]).mpr
    (Machine.meets_of_check (by decide +kernel))

/-- The append of the first of two calls fails: its entry stays in memory, the second entry is
linked to it, and the log opened on the files does not verify. -/
theorem not_undamaged :
    let machine := logMachine samplePlatform sampleEnv.audit .empty
    let failing := machine.run [sampleCall "1" false]
    let after := machine.run [sampleCall "1" false, sampleCall "2" true]
    failing.entries.map (·.id) = ["1"] ∧
    ((AuditLog.construct sampleEnv.audit after.files).verify samplePlatform).valid = false ∧
    ¬ Undamaged samplePlatform sampleEnv.audit .empty [sampleCall "1" false, sampleCall "2" true] := by
  refine ⟨by decide +kernel, by decide +kernel, fun h => ?_⟩
  have hinvalid : ((AuditLog.construct sampleEnv.audit ((logMachine samplePlatform sampleEnv.audit
      .empty).run [sampleCall "1" false, sampleCall "2" true]).files).verify samplePlatform).valid =
        false := by decide +kernel
  rw [h.2.1] at hinvalid
  cases hinvalid

end Ambit
