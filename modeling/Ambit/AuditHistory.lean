import Ambit.AuditSegments
import Ambit.Lib.Machine
import Ambit.SamplePlatform

/-! The audit log over its whole life: any calls of `record`, any rotations, restarts at any point,
and crashes between a rotation and the append after it. `AuditLog.Kept` is the invariant: the
files hold the entries in order, full segments first. A kept log reopens as itself. -/

namespace Ambit

/-- The entries in memory are the lines on disk: the archived segments, then the active file. -/
structure AuditLog.KeptAs (cfg : AuditConfig) (log : AuditLog)
    (segments : List (List AuditLogEntry)) : Prop where
  layout : Layout cfg log.files segments
  entries_eq : log.entries = segments.flatten ++ fileLines log.files cfg.activeName
  lines_eq : log.currentSegmentLines = (fileLines log.files cfg.activeName).length

/-- Every archived segment is full, and the active file is not over-full. -/
structure AuditLog.Full (cfg : AuditConfig) (log : AuditLog)
    (segments : List (List AuditLogEntry)) : Prop where
  segments_eq : ∀ segment ∈ segments, segment.length = cfg.maxLinesPerSegment
  active_le : (fileLines log.files cfg.activeName).length ≤ cfg.maxLinesPerSegment

def AuditLog.Kept (cfg : AuditConfig) (log : AuditLog) : Prop := ∃ segments, log.KeptAs cfg segments

/-- A data directory before the first start: no active file, no name of a segment. -/
structure FreshDirectory (cfg : AuditConfig) (files : AuditDirectory) : Prop where
  noActive : files.get cfg.activeName = none
  noSegment : ∀ name ∈ files.keys, cfg.archiveSegmentIndex name = none

/-- All file operations succeed. -/
def AuditIo.ok : AuditIo := ⟨true, true⟩

namespace AuditLog

variable {p : Platform} {cfg : AuditConfig} {log : AuditLog} {files : AuditDirectory}
  {segments : List (List AuditLogEntry)}

theorem KeptAs.construct (h : log.KeptAs cfg segments) :
    AuditLog.construct cfg log.files = log := by
  have hentries := h.layout.construct_entries.trans h.entries_eq.symm
  have hlines := h.lines_eq.symm
  cases log
  simp only [AuditLog.construct, AuditLog.mk.injEq] at hentries hlines ⊢
  exact ⟨hentries, hlines, trivial⟩

/-- A restart changes nothing: the files of a kept log reopen as the log itself. -/
theorem Kept.construct (h : log.Kept cfg) : AuditLog.construct cfg log.files = log :=
  let ⟨_, h⟩ := h; h.construct

theorem keptAs_construct_of_fresh (h : FreshDirectory cfg files) :
    (AuditLog.construct cfg files).KeptAs cfg [] ∧ (AuditLog.construct cfg files).Full cfg [] ∧
      (AuditLog.construct cfg files).entries = [] := by
  have hlayout : Layout cfg files [] := by
    refine ⟨fun i hi => absurd hi (Nat.not_lt_zero i), fun name n hname hn => ?_⟩
    rw [h.noSegment name hname] at hn
    cases hn
  have hactive : fileLines files cfg.activeName = [] := by simp [fileLines, h.noActive]
  have hentries := hlayout.construct_entries
  rw [hactive, List.flatten_nil, List.append_nil] at hentries
  refine ⟨⟨hlayout, ?_, rfl⟩, ⟨by simp, by simp [AuditLog.construct, hactive]⟩, hentries⟩
  exact hentries.trans (by simp [AuditLog.construct, hactive])

/-- A rotation of a kept log either leaves it as it is, with room in the active file, or archives
the active file. -/
theorem KeptAs.rotateIfNeeded_cases (h : log.KeptAs cfg segments) :
    (log.rotateIfNeeded cfg .ok = (true, log) ∧
      (log.currentSegmentLines < cfg.maxLinesPerSegment ∨ cfg.maxLinesPerSegment = 0)) ∨
    ∃ lines, log.files.get cfg.activeName = some lines ∧
      cfg.maxLinesPerSegment ≤ lines.length ∧
      log.rotateIfNeeded cfg .ok = (true, { log with
        files := (log.files.erase cfg.activeName).set (cfg.nextArchiveSegmentName log.files) lines
        currentSegmentLines := 0 }) := by
  have hlines := h.lines_eq
  rw [rotateIfNeeded]
  split
  · rename_i hlt
    exact .inl ⟨rfl, .inl hlt⟩
  · rename_i hge
    cases hactive : log.files.get cfg.activeName with
    | none =>
      -- the counter is the number of lines, so here it is already zero
      simp only [fileLines, hactive, Option.getD_none, List.length_nil] at hlines
      obtain ⟨entries, count, files⟩ := log
      simp only at hlines
      subst hlines
      exact .inl ⟨rfl, .inr (Nat.le_zero.mp (Nat.not_lt.mp hge))⟩
    | some lines =>
      simp only [fileLines, hactive, Option.getD_some] at hlines
      exact .inr ⟨lines, rfl, by omega, rfl⟩

/-- The log after a rotation is kept, with the archived file as a new segment. -/
theorem KeptAs.rotated (h : log.KeptAs cfg segments) {lines : List AuditLogEntry}
    (hactive : log.files.get cfg.activeName = some lines) :
    KeptAs cfg { log with
      files := (log.files.erase cfg.activeName).set (cfg.nextArchiveSegmentName log.files) lines
      currentSegmentLines := 0 } (segments ++ [lines]) := by
  have hempty := h.layout.rotate_active lines
  refine ⟨h.layout.rotate lines, ?_, ?_⟩
  · show log.entries = _
    rw [h.entries_eq]
    simp [fileLines, hactive, hempty]
  · simp [fileLines, hempty]

@[simp] theorem push_files (entry : AuditLogEntry) : (log.push entry).files = log.files := rfl

theorem fileLines_appendActive (entry : AuditLogEntry) :
    fileLines (log.appendActive cfg entry).files cfg.activeName =
      fileLines log.files cfg.activeName ++ [entry] := by
  simp [appendActive, fileLines]

/-- An append to the active file, of the entry pushed in memory, keeps the log. -/
theorem KeptAs.append (h : log.KeptAs cfg segments) (entry : AuditLogEntry) :
    ((log.push entry).appendActive cfg entry).KeptAs cfg segments := by
  refine ⟨h.layout.set_active _, ?_, ?_⟩
  · show log.entries ++ [entry] = _
    rw [fileLines_appendActive, push_files, h.entries_eq, List.append_assoc]
  · show log.currentSegmentLines + 1 = _
    rw [fileLines_appendActive, push_files, h.lines_eq, List.length_append, List.length_singleton]

/-- Rotation looks at the files and the counter only. -/
theorem rotateIfNeeded_push (entry : AuditLogEntry) (io : AuditIo) :
    (log.push entry).rotateIfNeeded cfg io =
      ((log.rotateIfNeeded cfg io).1, (log.rotateIfNeeded cfg io).2.push entry) := by
  by_cases hlt : log.currentSegmentLines < cfg.maxLinesPerSegment
  · simp [rotateIfNeeded, push, hlt]
  · cases hactive : log.files.get cfg.activeName with
    | none => simp [rotateIfNeeded, push, hlt, hactive]
    | some lines => cases hio : io.renamed <;> simp [rotateIfNeeded, push, hlt, hactive, hio]

/-- After a rotation of a kept log there is a kept log with the same entries; if the segments were
full, they still are, and the active file has room. -/
theorem KeptAs.rotate (h : log.KeptAs cfg segments) :
    ∃ log' segments', log.rotateIfNeeded cfg .ok = (true, log') ∧ log'.entries = log.entries ∧
      log'.KeptAs cfg segments' ∧
      (1 ≤ cfg.maxLinesPerSegment → log.Full cfg segments → log'.Full cfg segments' ∧
        (fileLines log'.files cfg.activeName).length < cfg.maxLinesPerSegment) := by
  have hlines := h.lines_eq
  rcases h.rotateIfNeeded_cases with ⟨heq, hroom⟩ | ⟨lines, hactive, hle, heq⟩
  · exact ⟨log, segments, heq, rfl, h, fun hmax hfull => ⟨hfull, by omega⟩⟩
  · refine ⟨_, segments ++ [lines], heq, rfl, h.rotated hactive, fun hmax hfull => ?_⟩
    have hempty := h.layout.rotate_active lines
    have hactive_le := hfull.active_le
    simp only [fileLines, hactive, Option.getD_some] at hactive_le
    refine ⟨⟨fun segment hsegment => ?_, by simp [fileLines, hempty]⟩, ?_⟩
    · rcases List.mem_append.mp hsegment with hs | hs
      · exact hfull.segments_eq segment hs
      · rw [List.mem_singleton.mp hs]
        omega
    · simp [fileLines, hempty]
      omega

theorem record_of_lacksReason {entry : AuditEntryInput} (hreason : entry.lacksReason = true)
    (io : AuditIo) (id : String) (now : Int) :
    log.record p cfg io id entry now =
      (.error (.missingReasonCode (missingReasonMessage entry.decision)), log) := by
  simp [record, hreason]

/-- A `record` call with a reason, when no file operation fails, appends the sealed entry in
memory and on disk. -/
theorem KeptAs.record (h : log.KeptAs cfg segments) {entry : AuditEntryInput}
    (hreason : entry.lacksReason = false) (id : String) (now : Int) :
    ∃ log' segments', log.record p cfg .ok id entry now = (.ok (log.entryOf p id entry now), log') ∧
      log'.entries = log.entries ++ [log.entryOf p id entry now] ∧ log'.KeptAs cfg segments' ∧
      (1 ≤ cfg.maxLinesPerSegment → log.Full cfg segments → log'.Full cfg segments') := by
  obtain ⟨log₁, segments', hrotate, hentries, hkept, hfull⟩ := h.rotate
  let full := log.entryOf p id entry now
  refine ⟨(log₁.push full).appendActive cfg full, segments', ?_, ?_, hkept.append full, ?_⟩
  · simp only [AuditLog.record, hreason, Bool.false_eq_true, if_false, rotateIfNeeded_push, hrotate]
    rfl
  · show log₁.entries ++ [full] = _
    rw [hentries]
  · intro hmax hlog
    obtain ⟨hfull', hroom⟩ := hfull hmax hlog
    refine ⟨hfull'.segments_eq, ?_⟩
    rw [fileLines_appendActive, push_files, List.length_append, List.length_singleton]
    exact hroom

end AuditLog

/-! ## Histories -/

/-- What happens to a persisted log. A `crash` is a `record` call whose process dies after the
rotation, before the append; the next process opens the log again. Each process has a threshold of its
own. -/
inductive AuditAction where
  | record (id : String) (entry : AuditEntryInput) (now : Int)
  | restart (maxLinesPerSegment : Nat)
  | crash (id : String) (entry : AuditEntryInput) (now : Int) (maxLinesPerSegment : Nat)

/-- The configuration and the log of the process, with the entries whose append has completed. -/
structure AuditHistory where
  cfg : AuditConfig
  log : AuditLog
  appended : List AuditLogEntry

/-- A new process with the threshold, on the files. -/
def AuditHistory.reopen (s : AuditHistory) (files : AuditDirectory) (maxLinesPerSegment : Nat) :
    AuditHistory :=
  let cfg := { s.cfg with maxLinesPerSegment }
  { s with cfg, log := .construct cfg files }

def AuditHistory.step (p : Platform) (s : AuditHistory) : AuditAction → AuditHistory
  | .record id entry now =>
    match s.log.record p s.cfg .ok id entry now with
    | (.ok full, log) => { s with log, appended := s.appended ++ [full] }
    | (.error _, log) => { s with log }
  | .restart maxLinesPerSegment => s.reopen s.log.files maxLinesPerSegment
  | .crash id entry now maxLinesPerSegment =>
    if entry.lacksReason then s.reopen s.log.files maxLinesPerSegment
    else
      let rotated := ((s.log.push (s.log.entryOf p id entry now)).rotateIfNeeded s.cfg .ok).2
      s.reopen rotated.files maxLinesPerSegment

/-- The machine of all histories that start in a directory. -/
def auditMachine (p : Platform) (cfg : AuditConfig) (files : AuditDirectory) :
    Machine AuditHistory AuditAction where
  init := ⟨cfg, .construct cfg files, []⟩
  step := AuditHistory.step p

/-- The inputs that the log accepts and whose `record` call runs to its end. -/
def acceptedInput : AuditAction → Option AuditEntryInput
  | .record _ entry _ => if entry.lacksReason then none else some entry
  | _ => none

/-- The threshold of the process that the action starts. -/
def AuditAction.threshold : AuditAction → Option Nat
  | .record _ _ _ => none
  | .restart maxLinesPerSegment | .crash _ _ _ maxLinesPerSegment => some maxLinesPerSegment

/-- Every process has the threshold of the first. -/
def ConstantThreshold (cfg : AuditConfig) (acts : List AuditAction) : Prop :=
  ∀ a ∈ acts, ∀ n ∈ a.threshold, n = cfg.maxLinesPerSegment

/-- What holds of the log after every history. -/
structure AuditHistory.Invariant (p : Platform) (cfg : AuditConfig) (acts : List AuditAction)
    (s : AuditHistory) : Prop where
  names : { s.cfg with maxLinesPerSegment := cfg.maxLinesPerSegment } = cfg
  constant : ConstantThreshold cfg acts → s.cfg = cfg
  kept : ∃ segments, s.log.KeptAs s.cfg segments ∧
    (1 ≤ cfg.maxLinesPerSegment → ConstantThreshold cfg acts → s.log.Full cfg segments)
  entries_eq : s.log.entries = s.appended
  chained : Chained p s.appended
  reasons : ∀ entry ∈ s.appended, entry.lacksReason = false
  accepted : s.appended.map (·.toAuditEntryInput) = acts.filterMap acceptedInput

theorem ConstantThreshold.of_snoc {cfg : AuditConfig} {acts : List AuditAction} {a : AuditAction}
    (h : ConstantThreshold cfg (acts ++ [a])) : ConstantThreshold cfg acts :=
  fun b hb => h b (List.mem_append_left _ hb)

theorem ConstantThreshold.last {cfg : AuditConfig} {acts : List AuditAction} {a : AuditAction}
    (h : ConstantThreshold cfg (acts ++ [a])) {n : Nat} (hn : a.threshold = some n) :
    n = cfg.maxLinesPerSegment :=
  h a (List.mem_append_right _ (List.mem_singleton_self a)) n hn

namespace AuditHistory

variable {p : Platform} {cfg : AuditConfig} {files : AuditDirectory} {acts : List AuditAction}
  {s : AuditHistory}

/-- A process that opens the files of a kept log, without an entry added, keeps the invariant: where the
files are does not depend on the threshold. -/
theorem Invariant.reopen (h : s.Invariant p cfg acts) {a : AuditAction} {n : Nat}
    (haccepted : acceptedInput a = none) (hthreshold : a.threshold = some n) {log : AuditLog}
    {segments : List (List AuditLogEntry)} (hlog : log.KeptAs s.cfg segments)
    (hfull : 1 ≤ cfg.maxLinesPerSegment → ConstantThreshold cfg acts → log.Full cfg segments)
    (hentries : log.entries = s.log.entries) :
    (s.reopen log.files n).Invariant p cfg (acts ++ [a]) := by
  have hreopened : AuditLog.construct { s.cfg with maxLinesPerSegment := n } log.files = log :=
    hlog.construct
  have hkept : log.KeptAs { s.cfg with maxLinesPerSegment := n } segments :=
    ⟨⟨hlog.layout.segment, hlog.layout.complete⟩, hlog.entries_eq, hlog.lines_eq⟩
  rw [AuditHistory.reopen, hreopened]
  refine ⟨h.names, fun hconstant => ?_, ⟨segments, hkept, fun hmax hconstant => ?_⟩,
    hentries.trans h.entries_eq, h.chained, h.reasons, ?_⟩
  · rw [hconstant.last hthreshold]
    exact h.names
  · exact hfull hmax hconstant.of_snoc
  · simp [List.filterMap_append, haccepted, h.accepted]

theorem Invariant.step (h : s.Invariant p cfg acts) (a : AuditAction) :
    (s.step p a).Invariant p cfg (acts ++ [a]) := by
  obtain ⟨segments, hkept, hfull⟩ := h.kept
  cases a with
  | restart n => exact h.reopen rfl rfl hkept hfull rfl
  | record id entry now =>
    cases hreason : entry.lacksReason with
    | true =>
      simp only [AuditHistory.step, AuditLog.record_of_lacksReason hreason]
      refine ⟨h.names, fun hconstant => h.constant hconstant.of_snoc,
        ⟨segments, hkept, fun hmax hconstant => hfull hmax hconstant.of_snoc⟩, h.entries_eq, h.chained,
        h.reasons, ?_⟩
      simp [List.filterMap_append, acceptedInput, hreason, h.accepted]
    | false =>
      obtain ⟨log', segments', hrec, hentries, hkept', hfull'⟩ :=
        hkept.record (p := p) hreason id now
      simp only [AuditHistory.step, hrec]
      refine ⟨h.names, fun hconstant => h.constant hconstant.of_snoc,
        ⟨segments', hkept', fun hmax hconstant => ?_⟩, by rw [hentries, h.entries_eq], ?_, ?_, ?_⟩
      · have hcfg := h.constant hconstant.of_snoc
        rw [hcfg] at hfull'
        exact hfull' hmax (hfull hmax hconstant.of_snoc)
      · rw [← h.entries_eq]
        exact Chained.snoc_entryOf (h.entries_eq ▸ h.chained) ..
      · intro e he
        rcases List.mem_append.mp he with he | he
        · exact h.reasons e he
        · rw [List.mem_singleton.mp he]
          exact hreason
      · simp [List.filterMap_append, acceptedInput, hreason, h.accepted, AuditLog.entryOf]
  | crash id entry now n =>
    rw [AuditHistory.step]
    split
    · exact h.reopen rfl rfl hkept hfull rfl
    · obtain ⟨log', segments', hrotate, hentries, hkept', hfull'⟩ := hkept.rotate
      have hfiles : ((s.log.push (s.log.entryOf p id entry now)).rotateIfNeeded s.cfg .ok).2.files =
          log'.files := by
        rw [AuditLog.rotateIfNeeded_push, hrotate]
        rfl
      simp only [hfiles]
      refine h.reopen rfl rfl hkept' (fun hmax hconstant => ?_) hentries
      rw [h.constant hconstant] at hfull'
      exact (hfull' hmax (hfull hmax hconstant)).1

theorem invariant_run (hfresh : FreshDirectory cfg files) (acts : List AuditAction) :
    ((auditMachine p cfg files).run acts).Invariant p cfg acts := by
  induction acts using List.reverseRecOn with
  | nil =>
    obtain ⟨hkept, hfull, hentries⟩ := AuditLog.keptAs_construct_of_fresh hfresh
    exact ⟨rfl, fun _ => rfl, ⟨[], hkept, fun _ _ => hfull⟩, hentries, Chained.nil p,
      by simp [auditMachine], rfl⟩
  | append_singleton acts a ih =>
    rw [Machine.run_snoc]
    exact ih.step a

end AuditHistory

/-- **The audit log across rotation and restart.** After every history of `record` calls,
restarts, and crashes between a rotation and its append, each process with a threshold of its own, the
log in memory and a log opened on the files both hold exactly the entries whose append completed, in
order, and verify; these are the accepted inputs; a rejected record changes nothing; and every denial
has a reason. As long as the threshold stays the same, every archived segment is full and the active
file never exceeds it. -/
theorem auditLog_rotation_restart (p : Platform) (cfg : AuditConfig) (files : AuditDirectory)
    (hfresh : FreshDirectory cfg files) (acts : List AuditAction) :
    let s := (auditMachine p cfg files).run acts
    (s.log.entries = s.appended ∧
      ∀ n, (s.reopen s.log.files n).log.entries = s.appended) ∧
    ((s.log.verify p).valid = true ∧
      ∀ n, ((s.reopen s.log.files n).log.verify p).valid = true) ∧
    s.appended.map (·.toAuditEntryInput) = acts.filterMap acceptedInput ∧
    (∀ id entry now e log, s.log.record p s.cfg .ok id entry now = (.error e, log) →
      log.entries = s.log.entries ∧ log.files = s.log.files) ∧
    (∀ entry ∈ s.appended, entry.decision ∈ denialDecisions →
      ∃ reason, entry.reasonCode = some reason ∧ isBlank reason = false) ∧
    (1 ≤ cfg.maxLinesPerSegment → ConstantThreshold cfg acts →
      (∀ segment ∈ cfg.scanArchivedSegments s.log.files,
        (fileLines s.log.files segment.1).length = cfg.maxLinesPerSegment) ∧
      (fileLines s.log.files cfg.activeName).length ≤ cfg.maxLinesPerSegment) := by
  intro s
  have h : s.Invariant p cfg acts := AuditHistory.invariant_run hfresh acts
  obtain ⟨segments, hkept, hfull⟩ := h.kept
  have hreopened : ∀ n, (s.reopen s.log.files n).log = s.log := fun n => hkept.construct
  have hverify : (s.log.verify p).valid = true :=
    verifyAuditChain_valid_iff.mpr (h.entries_eq ▸ h.chained)
  refine ⟨⟨h.entries_eq, fun n => ?_⟩, ⟨hverify, fun n => ?_⟩, h.accepted, ?_, ?_,
    fun hmax hconstant => ?_⟩
  · rw [hreopened, h.entries_eq]
  · rw [hreopened]
    exact hverify
  · intro id entry now e log hrec
    cases hreason : entry.lacksReason with
    | true =>
      rw [AuditLog.record_of_lacksReason hreason] at hrec
      obtain rfl := congrArg Prod.snd hrec
      exact ⟨rfl, rfl⟩
    | false =>
      obtain ⟨log', segments', hok, -⟩ := hkept.record (p := p) hreason id now
      rw [hok] at hrec
      cases hrec
  · intro entry hentry hdenial
    have hreason := h.reasons entry hentry
    cases hcode : entry.reasonCode with
    | none => simp [AuditEntryInput.lacksReason, hdenial, hcode] at hreason
    | some reason =>
      refine ⟨reason, rfl, ?_⟩
      simpa [AuditEntryInput.lacksReason, hdenial, hcode] using hreason
  · rw [h.constant hconstant] at hkept
    have hfull := hfull hmax hconstant
    refine ⟨fun segment hsegment => ?_, hfull.active_le⟩
    rw [hkept.layout.scan_eq] at hsegment
    obtain ⟨i, hi, rfl⟩ := List.mem_map.mp hsegment
    rw [List.mem_range] at hi
    simp only [fileLines, hkept.layout.segment i hi, Option.getD_some]
    exact hfull.segments_eq _ (List.getElem_mem hi)

/-- Twelve entries in segments of one line: the eleventh segment's name sorts before the second's. The
processes after the first have other thresholds. -/
def sampleAuditConfig : AuditConfig := ⟨"audit-log", ".jsonl", 1⟩

def sampleAuditActions : List AuditAction :=
  (List.range 12).map (fun n => .record (toString n)
    { subject := "agent-42", action := "email:send", decision := .allowed } n) ++
  [.restart 3, .record "x" { subject := "a", action := "b", decision := .denied } 12,
    .crash "y" { subject := "agent-42", action := "email:send", decision := .allowed } 13 2]

theorem auditLog_rotation_restart_sample :
    let s := (auditMachine samplePlatform sampleAuditConfig .empty).run sampleAuditActions
    (s.reopen s.log.files 1).log.entries = s.appended ∧ (s.log.verify samplePlatform).valid = true :=
  have h := auditLog_rotation_restart samplePlatform sampleAuditConfig .empty
    ⟨rfl, by simp [OrderedMap.keys, OrderedMap.empty]⟩ sampleAuditActions
  ⟨h.1.2 1, h.2.1.1⟩

end Ambit
