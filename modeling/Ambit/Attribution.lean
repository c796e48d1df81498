import Ambit.RecordInvariants

/-! Who is behind the entries of the audit log: every entry about what an operator or an agent did
names one that some call was made for, and no other entry names an actor. -/

namespace Ambit

/-- The entries of the log, in memory and in its files. -/
def AuditLog.Lists (P : AuditEntryInput → Prop) (log : AuditLog) : Prop :=
  (∀ entry ∈ log.entries, P entry.toAuditEntryInput) ∧
    ∀ name, ∀ entry ∈ fileLines log.files name, P entry.toAuditEntryInput

section
variable {P : AuditEntryInput → Prop} {log : AuditLog}

theorem AuditLog.Lists.mono {Q : AuditEntryInput → Prop} (h : log.Lists P)
    (hPQ : ∀ entry, P entry → Q entry) : log.Lists Q :=
  ⟨fun entry he => hPQ _ (h.1 entry he), fun name entry he => hPQ _ (h.2 name entry he)⟩

/-- A call of `record` lists its entry, or nothing new. -/
theorem AuditLog.Lists.call (h : log.Lists P) {call : RecordCall} (hentry : P call.entry)
    (p : Platform) (cfg : AuditConfig) : (log.call p cfg call).2.Lists P := by
  have hfiles : FilesHold (fun entry => P entry.toAuditEntryInput) log.files := h.2
  refine ⟨fun e he => ?_, hfiles.record hentry⟩
  rw [AuditLog.call_entries] at he
  split at he
  · exact h.1 e he
  · rcases List.mem_append.mp he with he | he
    · exact h.1 e he
    · cases List.mem_singleton.mp he
      exact hentry

theorem AuditLog.Lists.construct (h : log.Lists P) (cfg : AuditConfig) :
    (AuditLog.construct cfg log.files).Lists P := by
  refine ⟨fun e he => ?_, h.2⟩
  rcases List.mem_append.mp he with he | he
  · obtain ⟨segment, -, he⟩ := List.mem_flatMap.mp he
    exact h.2 _ e he
  · exact h.2 _ e he

end

/-- Every entry of the log is attributed to one of these parties. -/
def attribution (env : Env) (operators : Option String → Prop) (agents : String → Prop) :
    RecordInvariant env operators agents where
  holds w := w.auditLog.Lists (AuditEntryInput.AttributedTo operators agents)
  unrecorded w w' h hsame := by
    rw [hsame.auditLog]
    exact h
  logged _ _ hentry h := h.call hentry _ _
  tokenSaved _ _ _ h := h
  requestSaved _ _ _ h := h
  policySaved _ _ _ h := h
  identitySaved _ _ _ h := h
  ruleSaved _ _ _ h := h
  restarted _ h := h.construct env.audit

theorem AuditLog.Lists.empty {P : AuditEntryInput → Prop} : AuditLog.empty.Lists P := by
  refine ⟨?_, ?_⟩
  · rintro entry ⟨⟩
  · rintro name entry ⟨⟩

end Ambit
