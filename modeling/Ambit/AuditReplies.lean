import Ambit.DataDirectory
import Ambit.HandlerCalls
import Ambit.HttpRoutes

/-! What the application says of its audit log. Whenever its two routes are asked, in any run, they read
one log: it only grows, it verifies, and it is the log on disk. -/

namespace Ambit

open Effect

/-! ## The log goes on -/

section
variable {p : Platform} {cfg : AuditConfig}

/-- A chain passes the check, all of its entries. -/
theorem Chained.verify_eq {log : AuditLog} (h : Chained p log.entries) :
    log.verify p = ⟨true, none, log.entries.length⟩ := by
  have hfrom : ∀ {n : ℕ} {prev : Option String} {entries : List AuditLogEntry},
      (verifyAuditChainFrom p n prev entries).valid = true →
        verifyAuditChainFrom p n prev entries = ⟨true, none, n⟩ := by
    intro n prev entries
    induction entries generalizing prev with
    | nil => exact fun _ => rfl
    | cons entry rest ih =>
      rw [verifyAuditChainFrom]
      split
      · exact fun h => by cases h
      · exact ih
  exact hfrom (verifyAuditChain_valid_iff.mpr h)

theorem AuditLog.prefix_call (log : AuditLog) (call : RecordCall) :
    log.entries <+: (log.call p cfg call).2.entries := by
  rw [AuditLog.call_entries]
  split
  · exact List.prefix_rfl
  · exact List.prefix_append _ _

end

variable {env : Env} {κ : Type}

/-- The log is a chain that goes on from these entries. -/
def goesOn (env : Env) (read : List AuditLogEntry) :
    RecordPredicate env (fun _ => True) (fun _ => True) where
  holds w := Chained env.toPlatform w.auditLog.entries ∧ read <+: w.auditLog.entries
  unrecorded w w' h hsame := by
    rw [hsame.auditLog]
    exact h
  logged w call _ h := ⟨h.1.call call, h.2.trans (w.auditLog.prefix_call call)⟩
  tokenSaved _ _ _ h := h
  requestSaved _ _ _ h := h
  policySaved _ _ _ h := h
  identitySaved _ _ _ h := h
  ruleSaved _ _ _ h := h

/-- Each action keeps such a predicate, if a restart does that finds on disk what it left in memory. -/
theorem RecordPredicate.sound_exec {I : RecordPredicate env (fun _ => True) (fun _ => True)}
    (hrestart : ∀ w, w.Sound env → I.holds w → I.holds (w.restart env)) {c : Config κ}
    (hc : c.Sound env) (h : I.holds c.world) (a : Action κ) : I.holds (c.exec env a).1.world := by
  have hframe : ∀ f : Frame, f.MadeFor fun _ => True := by
    intro f
    cases f <;> trivial
  cases a with
  | call client call =>
    exact (leaves_settle (wp_startCall_respected h call.madeFor_anyone)).world
  | resume i downstream =>
    simp only [Config.exec]
    cases c.inflight[i]? with
    | none => exact h
    | some x => exact (leaves_settle (wp_resumeFrame_respected downstream h (hframe x.frame))).world
  | clock t => exact I.unrecorded _ _ h ⟨rfl, rfl, rfl, rfl, rfl, rfl⟩
  | restart => exact I.boot (hrestart _ hc.world h)

theorem goesOn_restart (read : List AuditLogEntry) (w : World) (hw : w.Sound env)
    (h : (goesOn env read).holds w) : (goesOn env read).holds (w.restart env) := by
  have hlog : (w.restart env).auditLog = w.auditLog := hw.kept.construct
  show Chained env.toPlatform (w.restart env).auditLog.entries ∧ _ <+: (w.restart env).auditLog.entries
  rw [hlog]
  exact h

/-- The log goes on from what it held. -/
theorem goesOn_run (read : List AuditLogEntry) {pre : List (Action κ)}
    (h : (goesOn env read).holds ((processMachine κ env).run pre).world) (post : List (Action κ)) :
    (goesOn env read).holds ((processMachine κ env).run (pre ++ post)).world := by
  induction post using List.reverseRecOn with
  | nil =>
    rw [List.append_nil]
    exact h
  | append_singleton post a ih =>
    rw [← List.append_assoc, Machine.run_snoc]
    exact RecordPredicate.sound_exec (goesOn_restart read) (Config.sound_run _) ih a

theorem chained_run (acts : List (Action κ)) :
    Chained env.toPlatform ((processMachine κ env).run acts).world.auditLog.entries := by
  have hinitial : (goesOn env []).holds (World.initial.boot env) :=
    (goesOn env []).boot ⟨Chained.nil _, List.nil_prefix⟩
  exact (@goesOn_run env κ [] [] hinitial acts).1

theorem server_chained (acts : List ServerAction) :
    Chained env.toPlatform ((serverMachine env).run acts).world.auditLog.entries := by
  rw [server_run]
  exact chained_run _

theorem server_prefix (acts more : List ServerAction) :
    ((serverMachine env).run acts).world.auditLog.entries <+:
      ((serverMachine env).run (acts ++ more)).world.auditLog.entries := by
  rw [server_run, server_run, processTrace, processTrace, Machine.trace_append]
  exact (goesOn_run _ ⟨chained_run _, List.prefix_rfl⟩ _).2

/-! ## What is said of it -/

def Body.aboutLog : Body → Bool
  | .auditLog _ | .verification _ => true
  | _ => false

/-- What the body says of the log it says of the log with these entries, which verifies. -/
def Body.Reports (body : Body) (entries : List AuditLogEntry) : Prop :=
  body = .auditLog entries ∨ body = .verification ⟨true, none, entries.length⟩

theorem Body.Reads.reports {body : Body} {log : AuditLog} (h : body.Reads env log)
    (habout : body.aboutLog = true) (hlog : Chained env.toPlatform log.entries) :
    body.Reports log.entries := by
  cases body with
  | auditLog entries =>
    rw [show entries = _ from h]
    exact .inl rfl
  | verification result =>
    rw [show result = _ from h, hlog.verify_eq]
    exact .inr rfl
  | _ => cases habout

/-- What a handler sends when its calls have ended says nothing of the log. -/
theorem follow_not_aboutLog {ran : Config Exchange × Option (Settled Exchange)} {reply : Reply}
    (h : (follow env ran).2 = some reply) {body : Body} (hbody : reply.response.body = some body) :
    body.aboutLog = false := by
  have htells : ∀ {w : World} {call : Call} {outcome : Outcome},
      (respond w call outcome).body = some body → body.aboutLog = false := by
    intro w call outcome hrespond
    have h := respond_tells body hrespond
    cases body with
    | auditLog | verification => exact h.elim
    | _ => rfl
  obtain ⟨c, output⟩ := ran
  cases output with
  | none => cases h
  | some s =>
    simp only [follow] at h
    cases hnext : s.client.next c.world s.call s.outcome with
    | none =>
      rw [hnext] at h
      cases h
      exact htells hbody
    | some next =>
      rw [hnext] at h
      obtain ⟨s', -, rfl⟩ := Option.map_eq_some_iff.mp h
      exact htells hbody

/-- A response about the log is one to a request that comes in, and tells of the log at that time. -/
theorem serve_reports {c : Config Exchange} (hlog : Chained env.toPlatform c.world.auditLog.entries)
    {a : ServerAction} {reply : Reply} (h : (serve env c a).2 = some reply) {body : Body}
    (hbody : reply.response.body = some body) (habout : body.aboutLog = true) :
    body.Reports c.world.auditLog.entries := by
  have hfollow : ∀ {ran}, (follow env ran).2 = some reply → body.Reports c.world.auditLog.entries := by
    intro ran hran
    rw [follow_not_aboutLog hran hbody] at habout
    cases habout
  cases a with
  | arrive a =>
    have hmakes := @handle_makes env a c.world
    simp only [serve] at h
    cases hhandle : a.handle env c.world with
    | inl response =>
      rw [hhandle] at h hmakes
      cases h
      obtain ⟨other, hother, -, hreads⟩ := hmakes
      cases hbody.symm.trans hother
      exact hreads.reports habout hlog
    | inr next =>
      rw [hhandle] at h
      exact hfollow h
  | resume i downstream => exact hfollow h
  | clock | restart => cases h

/-! ## The runs of the application -/

def HttpReply.aboutLog (reply : HttpReply) : Bool :=
  match reply.body with
  | some (.routed body) => body.aboutLog
  | _ => false

/-- What the response says of the log, if it says anything. -/
def HttpReply.Reports (reply : HttpReply) (entries : List AuditLogEntry) : Prop :=
  ∃ body, reply.body = some (.routed body) ∧ body.Reports entries

theorem HttpReply.aboutLog_body {reply : HttpReply} (h : reply.aboutLog = true) :
    ∃ body, reply.body = some (.routed body) ∧ body.aboutLog = true := by
  unfold HttpReply.aboutLog at h
  split at h
  · next body hbody => exact ⟨body, hbody, h⟩
  · cases h

/-- What the application says of its log in a run: the log verifies, and is the one on disk; a response
about it is said of the log as it is when the response is sent; and what the log held at any time it
holds, in the same order and before anything else, at the end. -/
structure LogTold (env : ServerEnv) (acts : List HttpAction) : Prop where
  verifies : (((httpMachine env).run acts).process.world.auditLog.verify env.toPlatform).valid = true
  onDisk : AuditLog.construct env.audit ((httpMachine env).run acts).process.world.auditLog.files =
    ((httpMachine env).run acts).process.world.auditLog
  told : ∀ pre a post, acts = pre ++ a :: post → ∀ reply,
    (((httpMachine env).run pre).exec a).2 = some reply → reply.aboutLog = true →
      reply.Reports ((httpMachine env).run pre).process.world.auditLog.entries
  grows : ∀ pre post, acts = pre ++ post →
    ((httpMachine env).run pre).process.world.auditLog.entries <+:
      ((httpMachine env).run acts).process.world.auditLog.entries

/-- **The application speaks of one log**: what it answers, in any run, when it is asked for the entries
or to verify them, is said of the log as it then is, which verifies, is in memory and on disk alike, and
only grows. -/
theorem log_told_of (env : ServerEnv) (acts : List HttpAction) : LogTold env acts := by
  refine ⟨?_, ?_, ?_, ?_⟩
  · rw [http_process]
    exact verifyAuditChain_valid_iff.mpr (server_chained _)
  · rw [http_process, server_run]
    exact (Config.sound_run _).world.kept.construct
  · rintro pre a post rfl reply hreply habout
    obtain ⟨body, hbody, hbodyAbout⟩ := HttpReply.aboutLog_body habout
    have hrouted : reply.routed = true := by rw [HttpReply.routed, hbody]
    obtain ⟨b, routed, hserve, hshows⟩ := HttpServer.exec_shows hreply hrouted
    have hchained : Chained env.toPlatform
        ((httpMachine env).run pre).process.world.auditLog.entries := by
      rw [http_process]
      exact server_chained _
    exact ⟨body, hbody, serve_reports hchained hserve (hshows.routed_body hbody) hbodyAbout⟩
  · rintro pre post rfl
    rw [http_process, http_process, Simulation.trace, Simulation.trace, Machine.trace_append]
    exact server_prefix _ _

end Ambit
