import Ambit.AuditFailures
import Ambit.AuditLines
import Ambit.AuditTampering
import Ambit.JsonlStore
import Ambit.Lib.Simulation

/-! `auditLog.ts` on the bytes of its files. The entries that stand for the lines of a file elsewhere are
what its bytes are read back to: the log on the bytes takes every step that the log on entries takes,
with the same answers, and is what that leaves on disk. -/

namespace Ambit

open Json

/-- The files of a directory, byte for byte. -/
abbrev ByteDirectory := OrderedMap String Text

/-! ## The log -/

section
variable (cfg : AuditConfig)

/-- `scanArchivedSegments` on the names of a directory. -/
def AuditConfig.scanNames (names : List String) : List (String × Nat) :=
  (names.filterMap fun name => (cfg.archiveSegmentIndex name).map (name, ·)).insertionSort
    fun a b => a.2 ≤ b.2

/-- `nextArchiveSegmentPath` -/
def AuditConfig.nextName (names : List String) : String :=
  match (cfg.scanNames names).getLast? with
  | some segment => cfg.segmentName (segment.2 + 1)
  | none => cfg.segmentName 1

end

def countPhysicalLines : Option Text → Nat
  | none => 0
  | some file => ((file.splitOn 0x0A).filter fun line => !isBlankLine line).length

/-- A call of `record`, and how much of its line a failing append leaves in the file. -/
structure PersistedCall extends RecordCall where
  written : Nat := 0

inductive PersistedAction where
  | record (call : PersistedCall)
  | restart

/-- The audit log with `persistTo`. -/
structure PersistedLog where
  entries : List AuditLogEntry
  currentSegmentLines : Nat
  files : ByteDirectory

namespace PersistedLog

variable (p : Platform) (order : MemberOrder) (cfg : AuditConfig)

def construct (files : ByteDirectory) : PersistedLog where
  entries := (cfg.scanNames files.keys).flatMap (fun segment =>
      rehydrateJsonLines reviveAuditLogEntry (files.get segment.1)) ++
    rehydrateJsonLines reviveAuditLogEntry (files.get cfg.activeName)
  currentSegmentLines := countPhysicalLines (files.get cfg.activeName)
  files

/-- `#rotateIfNeeded`; the flag says whether the rename succeeded. -/
def rotateIfNeeded (io : AuditIo) (log : PersistedLog) : Bool × PersistedLog :=
  if log.currentSegmentLines < cfg.maxLinesPerSegment then (true, log)
  else
    match log.files.get cfg.activeName with
    | none => (true, { log with currentSegmentLines := 0 })
    | some bytes =>
      if io.renamed then
        (true, { log with
          files := (log.files.erase cfg.activeName).set (cfg.nextName log.files.keys) bytes
          currentSegmentLines := 0 })
      else (false, log)

/-- `computeEntryHash`: the digest of the bytes. -/
def entryHash (c : AuditContent) : String := p.sha256 (ofBytes (c.line order))

/-- The entry that `record` builds. -/
def entryOf (log : PersistedLog) (id : String) (entry : AuditEntryInput) (now : Int) :
    AuditLogEntry :=
  let content : AuditContent :=
    { entry with id, occurredAt := now, previousHash := log.entries.getLast?.map (·.hash) }
  { content with hash := entryHash p order content }

def push (log : PersistedLog) (entry : AuditLogEntry) : PersistedLog :=
  { log with entries := log.entries ++ [entry] }

/-- A failing append that has come as far as the bytes `written`, if any. -/
def appendTorn (written : Text) (log : PersistedLog) : PersistedLog :=
  if written = [] then log
  else { log with
    files := log.files.set cfg.activeName ((log.files.get cfg.activeName).getD [] ++ written) }

/-- `appendJsonLine` on the active file. -/
def appendActive (entry : AuditLogEntry) (log : PersistedLog) : PersistedLog :=
  { log with
    files := log.files.set cfg.activeName
      ((appendJsonLine (log.files.get cfg.activeName) (.object (entry.members order))).getD [])
    currentSegmentLines := log.currentSegmentLines + 1 }

def record (log : PersistedLog) (call : PersistedCall) : Except Err AuditLogEntry × PersistedLog :=
  if call.entry.lacksReason then
    (.error (.missingReasonCode (missingReasonMessage call.entry.decision)), log)
  else
    let full := log.entryOf p order call.id call.entry call.now
    match (log.push full).rotateIfNeeded cfg call.io with
    | (false, log) => (.error .io, log)
    | (true, log) =>
      if call.io.appended then (.ok full, log.appendActive order cfg full)
      else
        let line := stringify (.object (full.members order)) ++ [0x0A]
        (.error .io, log.appendTorn cfg (line.take call.written))

def act (log : PersistedLog) : PersistedAction → PersistedLog
  | .record call => (log.record p order cfg call).2
  | .restart => .construct cfg log.files

/-- What a call answers. -/
def answer (log : PersistedLog) : PersistedAction → Option (Except Err AuditLogEntry)
  | .record call => some (log.record p order cfg call).1
  | .restart => none

end PersistedLog

/-- The log over its life, on a directory that is empty at first. -/
def persistedMachine (p : Platform) (order : MemberOrder) (cfg : AuditConfig) :
    Machine PersistedLog PersistedAction where
  init := .construct cfg .empty
  step := PersistedLog.act p order cfg

/-- The platform on which the hash of an entry is that of the bytes of its members. -/
def Platform.writing (p : Platform) (order : MemberOrder) : Platform :=
  { p with stringify := fun c => ofBytes (c.line order) }

/-- The call, without the bytes. -/
def PersistedAction.logAction : PersistedAction → LogAction
  | .record call => .record call.toRecordCall
  | .restart => .restart

/-- The call is made at a time that a `Date` can hold, and its append leaves no torn line. -/
structure PersistedCall.Untorn (call : PersistedCall) : Prop where
  time : IsoDate.IsTime call.now
  whole : call.io.appended = false → call.written = 0

def AuditLog.answer (p : Platform) (cfg : AuditConfig) (log : AuditLog) :
    LogAction → Option (Except Err AuditLogEntry)
  | .record call => some (log.call p cfg call).1
  | .restart => none

/-! ## The bytes of entries -/

/-- The bytes of a file with these entries. -/
def entryLines (order : MemberOrder) (entries : List AuditLogEntry) : Text :=
  objectLines (entries.map (·.members order))

/-- A log of entries as it is on disk. -/
def AuditLog.persisted (order : MemberOrder) (log : AuditLog) : PersistedLog :=
  ⟨log.entries, log.currentSegmentLines, log.files.mapValues (entryLines order)⟩

/-- The entry was made at a time that a `Date` can hold, and has the hash of its bytes. -/
structure AuditLogEntry.Written (p : Platform) (order : MemberOrder) (e : AuditLogEntry) : Prop where
  time : IsoDate.IsTime e.occurredAt
  hash : e.hash = PersistedLog.entryHash p order e.toAuditContent

section
variable {p : Platform} {order : MemberOrder} {cfg : AuditConfig}

theorem rehydrate_entryLines {entries : List AuditLogEntry} (h : ∀ e ∈ entries, e.Written p order) :
    rehydrateJsonLines reviveAuditLogEntry (some (entryLines order entries)) = entries := by
  have hrevive : ∀ e ∈ entries, reviveAuditLogEntry (.object (e.members order)) = some e :=
    fun e he => reviveAuditLogEntry_members order (h e he).time
  rw [@rehydrate_objectLines AuditLogEntry reviveAuditLogEntry (some (entryLines order entries))
    (entries.map (·.members order)) rfl, List.filterMap_map]
  exact (List.filterMap_congr hrevive).trans List.filterMap_some

theorem countPhysicalLines_entryLines (entries : List AuditLogEntry) :
    countPhysicalLines (some (entryLines order entries)) = entries.length := by
  have hlines : ((entries.map (·.members order)).map fun ms => stringify (.object ms)).filter
      (fun line => !isBlankLine line) =
        (entries.map (·.members order)).map fun ms => stringify (.object ms) := by
    refine List.filter_eq_self.mpr fun line hline => ?_
    obtain ⟨ms, -, rfl⟩ := List.mem_map.mp hline
    rw [stringify_object_not_blank]
    rfl
  rw [countPhysicalLines, entryLines, splitOn_objectLines, List.filter_append, hlines]
  simp [isBlankLine]

theorem rehydrate_persisted {files : AuditDirectory} (h : FilesHold (AuditLogEntry.Written p order) files)
    (name : String) : rehydrateJsonLines reviveAuditLogEntry
      ((files.mapValues (entryLines order)).get name) = fileLines files name := by
  rw [OrderedMap.get_mapValues, fileLines]
  cases hname : files.get name with
  | none => rfl
  | some lines => exact rehydrate_entryLines (h.of_get hname)

theorem countPhysicalLines_persisted (files : AuditDirectory) (name : String) :
    countPhysicalLines ((files.mapValues (entryLines order)).get name) =
      (fileLines files name).length := by
  rw [OrderedMap.get_mapValues, fileLines]
  cases files.get name with
  | none => rfl
  | some lines => exact countPhysicalLines_entryLines lines

/-! ## The steps -/

theorem construct_persisted {files : AuditDirectory}
    (h : FilesHold (AuditLogEntry.Written p order) files) :
    PersistedLog.construct cfg (files.mapValues (entryLines order)) =
      (AuditLog.construct cfg files).persisted order := by
  unfold PersistedLog.construct AuditLog.construct AuditLog.persisted
  simp only [rehydrate_persisted h, countPhysicalLines_persisted, OrderedMap.keys_mapValues]
  rfl

theorem rotateIfNeeded_persisted (log : AuditLog) (io : AuditIo) :
    (log.persisted order).rotateIfNeeded cfg io =
      ((log.rotateIfNeeded cfg io).1, (log.rotateIfNeeded cfg io).2.persisted order) := by
  unfold PersistedLog.rotateIfNeeded AuditLog.rotateIfNeeded
  have hget : (log.persisted order).files.get cfg.activeName =
      (log.files.get cfg.activeName).map (entryLines order) := OrderedMap.get_mapValues _ _ _
  have hkeys : (log.persisted order).files.keys = log.files.keys := OrderedMap.keys_mapValues _ _
  rw [hget, hkeys]
  show (if log.currentSegmentLines < cfg.maxLinesPerSegment then _ else _) = _
  by_cases hlines : log.currentSegmentLines < cfg.maxLinesPerSegment
  · rw [if_pos hlines, if_pos hlines]
  · rw [if_neg hlines, if_neg hlines]
    cases log.files.get cfg.activeName with
    | none => rfl
    | some lines =>
      cases io.renamed with
      | false => rfl
      | true =>
        simp only [Option.map_some, if_true, AuditLog.persisted, OrderedMap.mapValues_set,
          OrderedMap.mapValues_erase]
        rfl

theorem appendActive_persisted (log : AuditLog) (entry : AuditLogEntry) :
    (log.persisted order).appendActive order cfg entry =
      (log.appendActive cfg entry).persisted order := by
  have hfile : ((log.persisted order).files.get cfg.activeName).getD [] =
      entryLines order (fileLines log.files cfg.activeName) := by
    show ((log.files.mapValues (entryLines order)).get cfg.activeName).getD [] = _
    rw [OrderedMap.get_mapValues, fileLines]
    cases log.files.get cfg.activeName <;> rfl
  have happended := appendJsonLine_objectLines hfile (entry.members order)
  unfold PersistedLog.appendActive AuditLog.appendActive AuditLog.persisted
  rw [OrderedMap.mapValues_set]
  simp only [entryLines, List.map_append, List.map_cons, List.map_nil]
  rw [← happended]
  rfl

variable (p order cfg) in
theorem record_persisted (log : AuditLog) {call : PersistedCall} (hcall : call.Untorn) :
    (log.persisted order).record p order cfg call =
      ((log.call (p.writing order) cfg call.toRecordCall).1,
        (log.call (p.writing order) cfg call.toRecordCall).2.persisted order) := by
  unfold PersistedLog.record AuditLog.call AuditLog.record
  cases call.entry.lacksReason with
  | true => rfl
  | false =>
    have hentry : (log.persisted order).entryOf p order call.id call.entry call.now =
      log.entryOf (p.writing order) call.id call.entry call.now := rfl
    have hpush : ∀ entry, (log.persisted order).push entry = (log.push entry).persisted order :=
      fun _ => rfl
    simp only [Bool.false_eq_true, if_false, hentry, hpush, rotateIfNeeded_persisted]
    generalize (log.push (log.entryOf (p.writing order) call.id call.entry call.now)).rotateIfNeeded
      cfg call.io = rotated
    obtain ⟨renamed, log'⟩ := rotated
    cases renamed with
    | false => rfl
    | true =>
      cases happended : call.io.appended with
      | false =>
        simp only [hcall.whole happended, List.take_zero, Bool.false_eq_true, if_false]
        exact congrArg (Prod.mk _) (if_pos rfl)
      | true => exact congrArg (Prod.mk _) (appendActive_persisted log' _)

end

/-! ## Every run -/

/-- The bytes can be checked as they are: each line is an object whose last member is the hash of the
bytes of the object without it. -/
def Checkable (p : Platform) (bytes : Text) : Prop :=
  ∀ line ∈ bytes.splitOn 0x0A, line ≠ [] → ∃ members hash,
    line = stringify (.object (members ++ [(utf8 "hash", text hash)])) ∧
      hash = p.sha256 (ofBytes (stringify (.object members)))

theorem checkable_entryLines {p : Platform} {order : MemberOrder} {entries : List AuditLogEntry}
    (h : ∀ e ∈ entries, e.Written p order) : Checkable p (entryLines order entries) := by
  intro line hline hne
  rw [entryLines, splitOn_objectLines] at hline
  rcases List.mem_append.mp hline with hline | hline
  · obtain ⟨ms, hms, rfl⟩ := List.mem_map.mp hline
    obtain ⟨e, he, rfl⟩ := List.mem_map.mp hms
    refine ⟨members (e.toAuditContent.fields order), e.hash, ?_, (h e he).hash⟩
    rw [AuditLogEntry.members, AuditLogEntry.fields, members, List.filterMap_append]
    rfl
  · exact absurd (List.mem_singleton.mp hline) hne

/-- Step for step the log on the bytes is what the log of entries leaves on disk, and answers like it. -/
theorem persisted_run (p : Platform) (order : MemberOrder) (cfg : AuditConfig)
    (acts : List PersistedAction) (h : ∀ call, PersistedAction.record call ∈ acts → call.Untorn) :
    ((persistedMachine p order cfg).run acts =
        ((logMachine (p.writing order) cfg .empty).run (acts.map (·.logAction))).persisted order ∧
      FilesHold (AuditLogEntry.Written p order)
        ((logMachine (p.writing order) cfg .empty).run (acts.map (·.logAction))).files) ∧
      (persistedMachine p order cfg).outputs (PersistedLog.answer p order cfg) acts =
        (logMachine (p.writing order) cfg .empty).outputs (AuditLog.answer (p.writing order) cfg)
          (acts.map (·.logAction)) := by
  have hempty : FilesHold (AuditLogEntry.Written p order) .empty := fun name entry he => by cases he
  induction acts using List.reverseRecOn with
  | nil => exact ⟨⟨construct_persisted hempty, hempty⟩, rfl⟩
  | append_singleton acts a ih =>
    obtain ⟨⟨hrun, hfiles⟩, hanswers⟩ := ih fun call hcall => h call (List.mem_append_left _ hcall)
    have hlast : ∀ call, a = .record call → call.Untorn := by
      rintro call rfl
      exact h call (List.mem_append_right _ (List.mem_singleton_self _))
    rw [List.map_append, List.map_singleton, Machine.run_snoc, Machine.run_snoc, Machine.outputs_snoc,
      Machine.outputs_snoc, hanswers, hrun]
    cases a with
    | restart => exact ⟨⟨construct_persisted hfiles, hfiles⟩, rfl⟩
    | record call =>
      have hcall := hlast call rfl
      have hrecord := record_persisted p order cfg
        ((logMachine (p.writing order) cfg .empty).run (acts.map (·.logAction))) hcall
      refine ⟨⟨congrArg Prod.snd hrecord, hfiles.record ⟨hcall.time, rfl⟩⟩, ?_⟩
      exact congrArg (fun answer => _ ++ [answer]) (congrArg Prod.fst hrecord)

/-- **The log on the bytes is the log of entries**: whichever renames and appends fail, as long as no
append leaves a part of its line, and wherever the process restarts, it goes through the same states,
which are on disk as lines of their entries, and gives the same answers; and each line of each file is
sealed by the hash that it carries. -/
theorem audit_files_refine (p : Platform) (order : MemberOrder) (cfg : AuditConfig)
    (acts : List PersistedAction) (h : ∀ call, PersistedAction.record call ∈ acts → call.Untorn) :
    (persistedMachine p order cfg).run acts =
        ((logMachine (p.writing order) cfg .empty).run (acts.map (·.logAction))).persisted order ∧
      (persistedMachine p order cfg).outputs (PersistedLog.answer p order cfg) acts =
        (logMachine (p.writing order) cfg .empty).outputs (AuditLog.answer (p.writing order) cfg)
          (acts.map (·.logAction)) ∧
      ∀ name bytes, ((persistedMachine p order cfg).run acts).files.get name = some bytes →
        Checkable p bytes := by
  obtain ⟨⟨hrun, hfiles⟩, hanswers⟩ := persisted_run p order cfg acts h
  refine ⟨hrun, hanswers, fun name bytes hbytes => ?_⟩
  rw [hrun] at hbytes
  have hget := OrderedMap.get_mapValues (entryLines order)
    ((logMachine (p.writing order) cfg .empty).run (acts.map (·.logAction))).files name
  obtain ⟨lines, hlines, rfl⟩ := Option.map_eq_some_iff.mp (hget.symm.trans hbytes)
  exact checkable_entryLines (hfiles.of_get hlines)

/-- The members in the order of the type. -/
def sampleOrder : MemberOrder := ⟨AuditEntryInput.fields, fun _ => .refl _⟩

/-- The append of the second of two calls fails, and the process restarts. -/
def sampleFailing : List PersistedAction :=
  [.record { io := .ok, id := "1", entry := sampleInput, now := 0 },
    .record { io := ⟨true, false⟩, id := "2", entry := sampleInput, now := 0 }, .restart]

theorem audit_files_refine_sample :
    (persistedMachine samplePlatform sampleOrder sampleEnv.audit).run sampleFailing =
      ((logMachine (samplePlatform.writing sampleOrder) sampleEnv.audit .empty).run
        (sampleFailing.map (·.logAction))).persisted sampleOrder := by
  have huntorn : ∀ call, PersistedAction.record call ∈ sampleFailing → call.Untorn := by
    intro call hcall
    simp only [sampleFailing, List.mem_cons, PersistedAction.record.injEq, reduceCtorEq,
      List.not_mem_nil, or_false] at hcall
    rcases hcall with rfl | rfl
    · exact ⟨by decide, fun _ => rfl⟩
    · exact ⟨by decide, fun _ => rfl⟩
  exact (audit_files_refine samplePlatform sampleOrder sampleEnv.audit sampleFailing huntorn).1

end Ambit
