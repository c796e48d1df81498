import Ambit.FaultyRuns
import Ambit.RecordInvariants

/-! The data directory in runs on a disk whose operations fail as a whole: whatever is written, rotated,
refused or read back, the files of the stores and of the log only grow at their end. -/

namespace Ambit

open Effect

variable {env : Env} {κ : Type}

namespace World

/-- The entries that a restart reads back. -/
def filedEntries (env : Env) (w : World) : List AuditLogEntry :=
  (AuditLog.construct env.audit w.auditLog.files).entries

/-- The files of the log are numbered segments, without a gap, and the active file. -/
def LaidOut (env : Env) (w : World) : Prop := ∃ segments, Layout env.audit w.auditLog.files segments

/-- What the files of `w` hold comes first in those of `w'`. -/
structure Extends (env : Env) (w w' : World) : Prop where
  entries : w.filedEntries env <+: w'.filedEntries env
  tokens : w.tokenStore.lines <+: w'.tokenStore.lines
  requests : w.requestStore.lines <+: w'.requestStore.lines
  policies : w.policyStore.lines <+: w'.policyStore.lines
  identities : w.agentIdentityStore.lines <+: w'.agentIdentityStore.lines
  rules : w.redactionRuleStore.lines <+: w'.redactionRuleStore.lines

/-- A step that leaves the log laid out and extends the files. -/
def Advances (env : Env) (w w' : World) : Prop := w.LaidOut env → w'.LaidOut env ∧ w.Extends env w'

theorem Extends.refl (w : World) : w.Extends env w :=
  ⟨List.prefix_rfl, List.prefix_rfl, List.prefix_rfl, List.prefix_rfl, List.prefix_rfl, List.prefix_rfl⟩

theorem Extends.trans {w₁ w₂ w₃ : World} (h : w₁.Extends env w₂) (h' : w₂.Extends env w₃) :
    w₁.Extends env w₃ where
  entries := h.entries.trans h'.entries
  tokens := h.tokens.trans h'.tokens
  requests := h.requests.trans h'.requests
  policies := h.policies.trans h'.policies
  identities := h.identities.trans h'.identities
  rules := h.rules.trans h'.rules

end World

/-! ## The log -/

section
variable {p : Platform} {cfg : AuditConfig} {log : AuditLog} {segments : List (List AuditLogEntry)}

/-- A rotation, whether it is due, succeeds or fails, moves no entry. -/
theorem Layout.rotateIfNeeded (h : Layout cfg log.files segments) (io : AuditIo) :
    ∃ segments', Layout cfg (log.rotateIfNeeded cfg io).2.files segments' ∧
      segments'.flatten ++ fileLines (log.rotateIfNeeded cfg io).2.files cfg.activeName =
        segments.flatten ++ fileLines log.files cfg.activeName := by
  rw [AuditLog.rotateIfNeeded]
  split
  · exact ⟨segments, h, rfl⟩
  cases hactive : log.files.get cfg.activeName with
  | none => exact ⟨segments, h, rfl⟩
  | some lines =>
    dsimp only
    split
    · have hempty : fileLines ((log.files.erase cfg.activeName).set
          (cfg.nextArchiveSegmentName log.files) lines) cfg.activeName = [] := by
        rw [fileLines, h.rotate_active]
        rfl
      refine ⟨segments ++ [lines], h.rotate lines, ?_⟩
      rw [hempty, fileLines, hactive]
      simp
    · exact ⟨segments, h, rfl⟩

/-- A call of `record` leaves the entries in the files where they are, and its own behind them if it
returns. -/
theorem Layout.call (h : Layout cfg log.files segments) (call : RecordCall) :
    ∃ segments' added, Layout cfg (log.call p cfg call).2.files segments' ∧
      segments'.flatten ++ fileLines (log.call p cfg call).2.files cfg.activeName =
        segments.flatten ++ fileLines log.files cfg.activeName ++ added ∧
      ∀ entry, (log.call p cfg call).1 = .ok entry →
        entry ∈ added ∧ entry.toAuditEntryInput = call.entry := by
  obtain ⟨segments', hlayout, hentries⟩ := h.rotateIfNeeded call.io
  rw [AuditLog.call, AuditLog.record]
  split
  · exact ⟨segments, [], h, by simp, fun entry he => by cases he⟩
  simp only [AuditLog.rotateIfNeeded_push]
  generalize log.rotateIfNeeded cfg call.io = rotated at hlayout hentries
  obtain ⟨renamed, log'⟩ := rotated
  dsimp only at hlayout hentries ⊢
  cases renamed with
  | false => exact ⟨segments', [], hlayout, by simpa using hentries, fun entry he => by cases he⟩
  | true =>
    cases call.io.appended with
    | false => exact ⟨segments', [], hlayout, by simpa using hentries, fun entry he => by cases he⟩
    | true =>
      refine ⟨segments', [log.entryOf p call.id call.entry call.now], hlayout.set_active _, ?_, ?_⟩
      · rw [← hentries, List.append_assoc]
        exact congrArg (segments'.flatten ++ ·) (AuditLog.fileLines_appendActive _)
      · rintro entry ⟨⟩
        exact ⟨List.mem_singleton_self _, rfl⟩

end

/-! ## The steps -/

namespace World

variable {w w' : World}

theorem filedEntries_eq {segments : List (List AuditLogEntry)}
    (h : Layout env.audit w.auditLog.files segments) :
    w.filedEntries env = segments.flatten ++ fileLines w.auditLog.files env.audit.activeName :=
  h.construct_entries

/-- A step of the stores, which does not come near the files of the log. -/
theorem Advances.of_log (hlog : w'.auditLog = w.auditLog)
    (htokens : w.tokenStore.lines <+: w'.tokenStore.lines)
    (hrequests : w.requestStore.lines <+: w'.requestStore.lines)
    (hpolicies : w.policyStore.lines <+: w'.policyStore.lines)
    (hidentities : w.agentIdentityStore.lines <+: w'.agentIdentityStore.lines)
    (hrules : w.redactionRuleStore.lines <+: w'.redactionRuleStore.lines) : w.Advances env w' := by
  rintro ⟨segments, h⟩
  refine ⟨⟨segments, hlog ▸ h⟩, ?_, htokens, hrequests, hpolicies, hidentities, hrules⟩
  rw [filedEntries, filedEntries, hlog]

theorem Advances.of_same (h : w.SameFiles w') : w.Advances env w' :=
  .of_log h.auditLog (by rw [h.tokenStore]) (by rw [h.requestStore]) (by rw [h.policyStore])
    (by rw [h.agentIdentityStore]) (by rw [h.redactionRuleStore])

/-- A call of `record`; its entry is in the files if it returns. -/
theorem advances_logged (w : World) (call : RecordCall) : w.Advances env
    { w with auditLog := (w.auditLog.call env.toPlatform env.audit call).2 } := by
  rintro ⟨segments, h⟩
  obtain ⟨segments', added, hlayout, hentries, -⟩ := h.call (p := env.toPlatform) call
  refine ⟨⟨segments', hlayout⟩, ?_, List.prefix_rfl, List.prefix_rfl, List.prefix_rfl,
    List.prefix_rfl, List.prefix_rfl⟩
  rw [filedEntries_eq h, filedEntries_eq hlayout, hentries]
  exact List.prefix_append _ _

theorem prefix_save {α : Type} {key : α → String} {image : α → α} (appended : Bool)
    (j : Journal String α) (a : α) : j.lines <+: (j.save key image appended a).lines := by
  cases appended with
  | false => exact List.prefix_rfl
  | true => exact List.prefix_append _ _

/-- A restart reads the files and leaves them. -/
theorem advances_restart (w : World) : w.Advances env (w.restart env) := by
  rintro ⟨segments, h⟩
  exact ⟨⟨segments, h⟩, List.prefix_rfl, List.prefix_rfl, List.prefix_rfl, List.prefix_rfl,
    List.prefix_rfl, List.prefix_rfl⟩

end World

/-! ## What lasts -/

/-- The invariants of calls that anybody may make. -/
abbrev Lasting (env : Env) := RecordInvariant env (fun _ => True) (fun _ => True)

theorem Call.madeFor_anyone (call : Call) : call.MadeFor (fun _ => True) (fun _ => True) := by
  cases call <;> trivial

/-- What holds of the files, and goes on to hold when they are extended, lasts. -/
def lasting (env : Env) (P : World → Prop) (hP : ∀ w w', w.Extends env w' → P w → P w') :
    Lasting env :=
  have hstep : ∀ w w', w.Advances env w' → w.LaidOut env ∧ P w → w'.LaidOut env ∧ P w' :=
    fun w w' hadvances h => ⟨(hadvances h.1).1, hP w w' (hadvances h.1).2 h.2⟩
  { holds := fun w => w.LaidOut env ∧ P w
    unrecorded := fun w w' h hsame => hstep w w' (.of_same hsame) h
    logged := fun w call _ => hstep w _ (w.advances_logged call)
    tokenSaved := fun w appended t => hstep w _ (.of_log rfl (World.prefix_save appended _ t)
      List.prefix_rfl List.prefix_rfl List.prefix_rfl List.prefix_rfl)
    requestSaved := fun w appended r => hstep w _ (.of_log rfl List.prefix_rfl
      (World.prefix_save appended _ r) List.prefix_rfl List.prefix_rfl List.prefix_rfl)
    policySaved := fun w appended policy => hstep w _ (.of_log rfl List.prefix_rfl List.prefix_rfl
      (World.prefix_save appended _ policy) List.prefix_rfl List.prefix_rfl)
    identitySaved := fun w appended identity => hstep w _ (.of_log rfl List.prefix_rfl List.prefix_rfl
      List.prefix_rfl (World.prefix_save appended _ identity) List.prefix_rfl)
    ruleSaved := fun w appended rule => hstep w _ (.of_log rfl List.prefix_rfl List.prefix_rfl
      List.prefix_rfl List.prefix_rfl (World.prefix_save appended _ rule))
    restarted := fun w => hstep w _ w.advances_restart }

/-! ## Runs -/

section
variable {I : Lasting env} {c : Config κ}

theorem RecordInvariant.faulty_step (h : c.Upholds I.calls) (a : FaultyAction κ) :
    ((faultyMachine κ env).step c a).Upholds I.calls := by
  cases a with
  | process a => exact (I.calls.exec h a fun _ call _ => call.madeFor_anyone).1
  | disk faults =>
    exact ⟨I.unrecorded _ _ h.world ⟨rfl, rfl, rfl, rfl, rfl, rfl⟩, h.frames⟩

/-- What lasts, once it holds, holds after any more actions. -/
theorem RecordInvariant.faulty_run (pre : List (FaultyAction κ))
    (h : I.holds ((faultyMachine κ env).run pre).world) (post : List (FaultyAction κ)) :
    I.holds ((faultyMachine κ env).run (pre ++ post)).world := by
  suffices H : ((faultyMachine κ env).run (pre ++ post)).Upholds I.calls from H.world
  induction post using List.reverseRecOn with
  | nil =>
    rw [List.append_nil]
    refine ⟨h, fun x _ => ?_⟩
    cases x.frame <;> trivial
  | append_singleton post a ih =>
    rw [← List.append_assoc, Machine.run_snoc]
    exact RecordInvariant.faulty_step ih a

/-- What holds of an empty directory, and lasts, holds in every run. -/
theorem RecordInvariant.faulty_reachable (h : I.holds .initial) (acts : List (FaultyAction κ)) :
    I.holds ((faultyMachine κ env).run acts).world :=
  I.faulty_run [] (I.boot h) acts

end

theorem laidOut_initial : World.initial.LaidOut env := by
  refine ⟨[], ?_, ?_⟩
  · intro i h
    cases h
  · intro name n h
    cases h

theorem laidOut_run (acts : List (FaultyAction κ)) :
    ((faultyMachine κ env).run acts).world.LaidOut env :=
  ((lasting env (fun _ => True) fun _ _ _ h => h).faulty_reachable ⟨laidOut_initial, trivial⟩ acts).1

/-- **The data directory is append-only**: what the files of the stores and of the log hold at some
point of a run they hold, in the same order and before anything else, at every later point, whichever
file operations fail (each as a whole, with no part of a line written) and however often the process is
restarted. -/
theorem directory_append_only (env : Env) (pre post : List (FaultyAction κ)) :
    ((faultyMachine κ env).run pre).world.Extends env
      ((faultyMachine κ env).run (pre ++ post)).world := by
  have hlasting := (lasting env (((faultyMachine κ env).run pre).world.Extends env)
    fun _ _ h' h => h.trans h').faulty_run pre ⟨laidOut_run pre, .refl _⟩ post
  exact hlasting.2

end Ambit
