import Ambit.Platform
import Ambit.Lib.OrderedMap
import Ambit.Lib.HashChain
import Mathlib.Data.List.Sort

/-! `auditLog.ts`: the hash-chained audit log with its rotated segment files. A file is the list of
its complete lines, each identified with the entry it parses back to; the directory maps file
names to files. -/

namespace Ambit

/-- The parts of the active file's path and the rotation threshold. The active file is
`<base><ext>`, its archived segments are `<base>.<n><ext>`. -/
structure AuditConfig where
  base : String
  ext : String
  maxLinesPerSegment : Nat

abbrev AuditDirectory := OrderedMap String (List AuditLogEntry)

structure AuditLog where
  entries : List AuditLogEntry
  currentSegmentLines : Nat
  files : AuditDirectory

/-- Whether the file operations of one `record` call succeed. -/
structure AuditIo where
  renamed : Bool
  appended : Bool

structure ChainVerification where
  valid : Bool
  brokenAtId : Option String
  entriesChecked : Nat
  deriving DecidableEq

section
variable (p : Platform)

def computeEntryHash (entry : AuditContent) : String := p.sha256 (p.stringify entry)

/-- The loop of `verifyAuditChain`, from an expected previous hash. -/
def verifyAuditChainFrom (entriesChecked : Nat) :
    Option String → List AuditLogEntry → ChainVerification
  | _, [] => { valid := true, brokenAtId := none, entriesChecked }
  | expectedPrevious, entry :: rest =>
    if entry.previousHash ≠ expectedPrevious ∨
        computeEntryHash p entry.toAuditContent ≠ entry.hash then
      { valid := false, brokenAtId := some entry.id, entriesChecked }
    else verifyAuditChainFrom entriesChecked (some entry.hash) rest

def verifyAuditChain (entries : List AuditLogEntry) : ChainVerification :=
  verifyAuditChainFrom p entries.length none entries

end

/-- `DENIAL_DECISIONS` -/
def denialDecisions : List Decision := [.denied, .requestDenied, .requestDecisionRejected]

/-- A denial without a reason code, or with a blank one. -/
def AuditEntryInput.lacksReason (entry : AuditEntryInput) : Bool :=
  entry.decision ∈ denialDecisions && (entry.reasonCode.all isBlank)

def missingReasonMessage (decision : Decision) : String :=
  "a \"" ++ decision.text ++ "\" audit entry must include a reasonCode — REQ-010 requires every " ++
    "denied action to record a distinct reason, not just be logged as denied"

/-! ## Segment files -/

namespace AuditConfig

variable (cfg : AuditConfig)

def activeName : String := cfg.base ++ cfg.ext

def segmentName (n : Nat) : String := cfg.base ++ "." ++ toString n ++ cfg.ext

/-- `archiveSegmentPattern`: the number in `<base>.<digits><ext>`, if the name has that form. -/
def archiveSegmentIndex (name : String) : Option Nat :=
  let pre := cfg.base.toList ++ ['.']
  let suf := cfg.ext.toList
  let digits := (name.toList.drop pre.length).take (name.toList.length - pre.length - suf.length)
  if digits ≠ [] ∧ digits.all Char.isDigit ∧ name.toList = pre ++ digits ++ suf then
    some (Nat.ofDigitChars 10 digits 0)
  else none

/-- The archived segments of a directory, by ascending number. -/
def scanArchivedSegments (files : AuditDirectory) : List (String × Nat) :=
  (files.keys.filterMap fun name => (cfg.archiveSegmentIndex name).map (name, ·)).insertionSort
    fun a b => a.2 ≤ b.2

def nextArchiveSegmentName (files : AuditDirectory) : String :=
  match (cfg.scanArchivedSegments files).getLast? with
  | some segment => cfg.segmentName (segment.2 + 1)
  | none => cfg.segmentName 1

end AuditConfig

/-- The lines of a file; a missing file has none. -/
def fileLines (files : AuditDirectory) (name : String) : List AuditLogEntry :=
  (files.get name).getD []

/-! ## The log -/

namespace AuditLog

variable (p : Platform) (cfg : AuditConfig)

/-- The constructor: archived segments by number, then the active file. -/
def construct (files : AuditDirectory) : AuditLog where
  entries := (cfg.scanArchivedSegments files).flatMap (fun segment => fileLines files segment.1) ++
    fileLines files cfg.activeName
  currentSegmentLines := (fileLines files cfg.activeName).length
  files

/-- `#rotateIfNeeded`; the flag says whether the rename succeeded. -/
def rotateIfNeeded (io : AuditIo) (log : AuditLog) : Bool × AuditLog :=
  if log.currentSegmentLines < cfg.maxLinesPerSegment then (true, log)
  else
    match log.files.get cfg.activeName with
    | none => (true, { log with currentSegmentLines := 0 })
    | some lines =>
      if io.renamed then
        (true, { log with
          files := (log.files.erase cfg.activeName).set (cfg.nextArchiveSegmentName log.files) lines
          currentSegmentLines := 0 })
      else (false, log)

/-- `appendJsonLine` on the active file. -/
def appendActive (entry : AuditLogEntry) (log : AuditLog) : AuditLog :=
  { log with
    files := log.files.set cfg.activeName (fileLines log.files cfg.activeName ++ [entry])
    currentSegmentLines := log.currentSegmentLines + 1 }

/-- The entry that `record` builds. -/
def entryOf (log : AuditLog) (id : String) (entry : AuditEntryInput) (now : Int) : AuditLogEntry :=
  let content : AuditContent :=
    { entry with id, occurredAt := now, previousHash := log.entries.getLast?.map (·.hash) }
  { content with hash := computeEntryHash p content }

def push (log : AuditLog) (entry : AuditLogEntry) : AuditLog :=
  { log with entries := log.entries ++ [entry] }

def record (io : AuditIo) (id : String) (entry : AuditEntryInput) (now : Int) (log : AuditLog) :
    Except Err AuditLogEntry × AuditLog :=
  if entry.lacksReason then
    (.error (.missingReasonCode (missingReasonMessage entry.decision)), log)
  else
    let full := log.entryOf p id entry now
    match (log.push full).rotateIfNeeded cfg io with
    | (false, log) => (.error .io, log)
    | (true, log) =>
      if io.appended then (.ok full, log.appendActive cfg full) else (.error .io, log)

def verify (log : AuditLog) : ChainVerification := verifyAuditChain p log.entries

/-- The log over an empty directory. -/
def empty : AuditLog := ⟨[], 0, .empty⟩

end AuditLog

/-! ## What a call does to the entries -/

theorem AuditLog.rotateIfNeeded_entries (log : AuditLog) (cfg : AuditConfig) (io : AuditIo) :
    (log.rotateIfNeeded cfg io).2.entries = log.entries := by
  rw [rotateIfNeeded]
  split
  · rfl
  · split
    · rfl
    · split <;> rfl

theorem AuditLog.rotateIfNeeded_renamed (log : AuditLog) (cfg : AuditConfig) (io : AuditIo)
    (h : io.renamed = true) : (log.rotateIfNeeded cfg io).1 = true := by
  rw [rotateIfNeeded]
  split
  · rfl
  · split
    · rfl
    · rfl

/-- One `record` call that is not refused. -/
theorem AuditLog.record_spec (p : Platform) (cfg : AuditConfig) (log : AuditLog) (io : AuditIo)
    (id : String) {entry : AuditEntryInput} (hreason : entry.lacksReason = false) (now : Int) :
    ∃ full : AuditLogEntry, full.toAuditEntryInput = entry ∧
      (log.record p cfg io id entry now).2.entries = log.entries ++ [full] ∧
      ((log.record p cfg io id entry now).1 = .ok full ∨
        (log.record p cfg io id entry now).1 = .error .io) ∧
      (io.renamed = true → (log.record p cfg io id entry now).1 =
        if io.appended then .ok full else .error .io) := by
  have hrotated := AuditLog.rotateIfNeeded_renamed (log.push (log.entryOf p id entry now)) cfg io
  have hentries := AuditLog.rotateIfNeeded_entries (log.push (log.entryOf p id entry now)) cfg io
  refine ⟨log.entryOf p id entry now, rfl, ?_⟩
  rw [record, if_neg (by rw [hreason]; exact Bool.false_ne_true)]
  dsimp only
  generalize (log.push (log.entryOf p id entry now)).rotateIfNeeded cfg io = rotated at hrotated hentries ⊢
  obtain ⟨ready, log'⟩ := rotated
  cases ready with
  | false => exact ⟨hentries, .inr rfl, fun h => absurd (hrotated h) Bool.false_ne_true⟩
  | true =>
    cases happended : io.appended with
    | true => exact ⟨hentries, .inl rfl, fun _ => rfl⟩
    | false => exact ⟨hentries, .inr rfl, fun _ => rfl⟩

/-! ## The chain -/

/-- Every entry is linked to the one before it and carries the hash of its content. -/
def Chained (p : Platform) : List AuditLogEntry → Prop :=
  HashChain.Valid (·.previousHash) (·.hash) (fun e => computeEntryHash p e.toAuditContent) none

theorem verifyAuditChainFrom_valid_iff {p : Platform} {n : Nat} {prev : Option String}
    {entries : List AuditLogEntry} :
    (verifyAuditChainFrom p n prev entries).valid = true ↔
      HashChain.Valid (·.previousHash) (·.hash) (fun e => computeEntryHash p e.toAuditContent)
        prev entries := by
  induction entries generalizing prev with
  | nil => simp [verifyAuditChainFrom, HashChain.Valid]
  | cons entry rest ih =>
    rw [verifyAuditChainFrom, HashChain.Valid]
    split
    · rename_i h
      simp only [Bool.false_eq_true, false_iff]
      rintro ⟨hprev, hhash, -⟩
      exact h.elim (· hprev) (· hhash)
    · rename_i h
      obtain ⟨hprev, hhash⟩ := not_or.mp h
      rw [ih]
      simp [not_not.mp hprev, not_not.mp hhash]

/-- `verify()` reports valid exactly on the chained logs. -/
theorem verifyAuditChain_valid_iff {p : Platform} {entries : List AuditLogEntry} :
    (verifyAuditChain p entries).valid = true ↔ Chained p entries :=
  verifyAuditChainFrom_valid_iff

theorem Chained.nil (p : Platform) : Chained p [] := trivial

/-- The entry `record` builds extends the chain. -/
theorem Chained.snoc_entryOf {p : Platform} {log : AuditLog} (h : Chained p log.entries)
    (id : String) (entry : AuditEntryInput) (now : Int) :
    Chained p (log.entries ++ [log.entryOf p id entry now]) := by
  refine HashChain.valid_snoc .. |>.mpr ⟨h, ?_, rfl⟩
  simp only [AuditLog.entryOf, HashChain.tip]
  cases log.entries.getLast? <;> rfl

end Ambit
