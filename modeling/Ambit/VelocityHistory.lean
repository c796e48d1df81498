import Ambit.IdempotentSubmission
import Ambit.SamplePlatform
import Ambit.Untouched

/-! `anomalyDetector.ts`: the pruned buffers against the complete history, and which submissions of
`requestToken` count. -/

namespace Ambit

theorem JsNumber.lt_of_le {x y : ℤ} {c : JsNumber} (hle : x ≤ y)
    (h : (JsNumber.finite y).lt c = true) : (JsNumber.finite x).lt c = true := by
  cases c with
  | finite q =>
    have hcast : (x : ℚ) ≤ y := Rat.intCast_le_intCast.mpr hle
    exact decide_eq_true (hcast.trans_lt (of_decide_eq_true h))
  | infinity => rfl
  | negInfinity => cases h
  | nan => cases h

namespace AnomalyDetector

variable {cfg : AnomalyDetectorConfig}

/-- A call of `check`. -/
structure Check where
  subject : String
  scope : List String
  time : Int

/-- The earlier check is less than the velocity window before `now`. -/
def Fresh (cfg : AnomalyDetectorConfig) (now time : Int) : Bool :=
  (JsNumber.finite (now - time : Int)).lt cfg.velocityWindowMs

/-- The result of a check with the complete history at hand. -/
def reference (cfg : AnomalyDetectorConfig) (history : List Check) (check : Check) :
    AnomalyResult :=
  let earlier := history.countP fun c => c.subject = check.subject ∧ Fresh cfg check.time c.time
  let broad := if cfg.maxScopeBreadth.lt (.finite check.scope.length) then ["scope_too_broad"] else []
  let fast := if cfg.maxRequestsPerWindow.lt (.finite (1 + earlier : ℕ)) then ["high_velocity"] else []
  { anomalous := broad ++ fast ≠ [], signals := broad ++ fast }

/-- A detector as it is constructed, and any checks. -/
def machine (cfg : AnomalyDetectorConfig) : Machine AnomalyDetector Check where
  init := ⟨.empty⟩
  step detector check := (detector.check cfg check.subject check.scope check.time).2

def resultAfter (cfg : AnomalyDetectorConfig) (history : List Check) (check : Check) :
    AnomalyResult :=
  (((machine cfg).run history).check cfg check.subject check.scope check.time).1

/-- The times of the checks of a subject. -/
def timesOf (subject : String) (history : List Check) : List Int :=
  (history.filter (·.subject = subject)).map (·.time)

/-- The buffer of a subject. -/
def recent (detector : AnomalyDetector) (subject : String) : List Int :=
  (detector.recentBySubject.get subject).getD []

section
variable {history : List Check} {detector : AnomalyDetector} {check : Check} {now : Int}

theorem timesOf_snoc {subject : String} : timesOf subject (history ++ [check]) =
    timesOf subject history ++ (if check.subject = subject then [check.time] else []) := by
  rw [timesOf, timesOf, List.filter_append, List.map_append, List.filter_singleton]
  by_cases h : check.subject = subject
  · simp [h]
  · simp [h]

/-- What is not fresh now is not fresh later. -/
theorem fresh_of_le {later time : Int} (hle : now ≤ later) (h : Fresh cfg later time = true) :
    Fresh cfg now time = true :=
  JsNumber.lt_of_le (by omega) h

theorem recent_check {subject : String} :
    ((machine cfg).step detector check).recent subject =
      if subject = check.subject then
        (detector.recent subject).filter (Fresh cfg check.time) ++ [check.time]
      else detector.recent subject := by
  show ((detector.recentBySubject.set check.subject _).get subject).getD [] = _
  rw [OrderedMap.get_set]
  split
  · next heq =>
    rw [heq]
    rfl
  · rfl

/-- Nothing that was discarded could matter: at every later time the fresh times in a buffer are the
fresh times of all checks of its subject. -/
theorem filter_recent {subject : String} (hclock : (history.map (·.time)).Pairwise (· ≤ ·))
    (hnow : ∀ check ∈ history, check.time ≤ now) :
    (((machine cfg).run history).recent subject).filter (Fresh cfg now) =
      (timesOf subject history).filter (Fresh cfg now) := by
  induction history using List.reverseRecOn generalizing now with
  | nil => rfl
  | append_singleton history check ih =>
    rw [List.map_append, List.pairwise_append] at hclock
    obtain ⟨hclock, -, hlast⟩ := hclock
    have hlast : ∀ c ∈ history, c.time ≤ check.time := fun c hc =>
      hlast c.time (List.mem_map_of_mem hc) check.time (List.mem_singleton_self _)
    have hle := hnow check (List.mem_append_right _ (List.mem_singleton_self _))
    have ih := ih hclock fun c hc => (hlast c hc).trans hle
    rw [Machine.run_snoc, recent_check, timesOf_snoc]
    by_cases hsubject : subject = check.subject
    · have hpruned : ∀ times : List ℤ, (times.filter (Fresh cfg check.time)).filter (Fresh cfg now) =
          times.filter (Fresh cfg now) := by
        intro times
        rw [List.filter_filter]
        refine List.filter_congr fun t _ => ?_
        cases hfresh : Fresh cfg now t with
        | true => rw [fresh_of_le hle hfresh, Bool.and_true]
        | false => rw [Bool.false_and]
      rw [if_pos hsubject, if_pos hsubject.symm, List.filter_append, List.filter_append, hpruned, ih]
    · rw [if_neg hsubject, if_neg (Ne.symm hsubject), List.append_nil, ih]

theorem countP_eq_length (history : List Check) (check : Check) :
    history.countP (fun c => c.subject = check.subject ∧ Fresh cfg check.time c.time) =
      ((timesOf check.subject history).filter (Fresh cfg check.time)).length := by
  rw [timesOf, List.filter_map, List.length_map, List.filter_filter, ← List.countP_eq_length_filter]
  refine List.countP_congr fun c _ => ?_
  simp [and_comm]

/-- A check has the result that the complete history gives it. -/
theorem resultAfter_eq (hclock : ((history ++ [check]).map (·.time)).Pairwise (· ≤ ·)) :
    resultAfter cfg history check = reference cfg history check := by
  rw [List.map_append, List.pairwise_append] at hclock
  obtain ⟨hclock, -, hlast⟩ := hclock
  have hrecent : (((machine cfg).run history).recent check.subject).filter (Fresh cfg check.time) =
      (timesOf check.subject history).filter (Fresh cfg check.time) :=
    filter_recent hclock fun c hc =>
      hlast c.time (List.mem_map_of_mem hc) check.time (List.mem_singleton_self _)
  have hlength : (((((machine cfg).run history).recentBySubject.get check.subject).getD []).filter
      (fun t => (JsNumber.finite (check.time - t : Int)).lt cfg.velocityWindowMs) ++
        [check.time]).length =
      1 + history.countP fun c => c.subject = check.subject ∧ Fresh cfg check.time c.time := by
    rw [countP_eq_length, ← hrecent, List.length_append, List.length_singleton, add_comm]
    rfl
  unfold resultAfter AnomalyDetector.check reference
  simp only [hlength, List.length_pos_iff]

/-- What is remembered of a subject are the checks of that subject. -/
theorem recent_filter {subject : String} : ((machine cfg).run history).recent subject =
    ((machine cfg).run (history.filter (·.subject = subject))).recent subject := by
  induction history using List.reverseRecOn with
  | nil => rfl
  | append_singleton history check ih =>
    rw [Machine.run_snoc, recent_check, List.filter_append, List.filter_singleton]
    by_cases hsubject : subject = check.subject
    · rw [if_pos hsubject, decide_eq_true hsubject.symm, cond_true, Machine.run_snoc, recent_check,
        if_pos hsubject, ih]
    · rw [if_neg hsubject, decide_eq_false (Ne.symm hsubject), cond_false, List.append_nil, ih]

theorem resultAfter_congr {history' : List Check}
    (h : ((machine cfg).run history).recent check.subject =
      ((machine cfg).run history').recent check.subject) :
    resultAfter cfg history check = resultAfter cfg history' check := by
  unfold recent at h
  unfold resultAfter AnomalyDetector.check
  simp only [h]

end

/-- What the checks of a run come to: each has the result that the complete history gives it, and the
checks of other subjects do not matter to it. -/
structure VelocityExact (cfg : AnomalyDetectorConfig) (checks : List Check) : Prop where
  result : ∀ before check after, checks = before ++ check :: after →
    resultAfter cfg before check = reference cfg before check
  separate : ∀ before check,
    resultAfter cfg before check = resultAfter cfg (before.filter (·.subject = check.subject)) check

theorem velocityExact {checks : List Check} (hclock : (checks.map (·.time)).Pairwise (· ≤ ·)) :
    VelocityExact cfg checks := by
  refine ⟨fun before check after hchecks => ?_, fun before check => resultAfter_congr recent_filter⟩
  rw [hchecks, List.append_cons, List.map_append, List.pairwise_append] at hclock
  exact resultAfter_eq hclock.1

end AnomalyDetector

/-! ## Submissions -/

open Effect AnomalyDetector

variable {κ : Type} {env : Env} {w w' : World} {request : SubmittedRequest}
  {primaryApprover : Option String} {now : Int}

/-- The part of `submitRequest` before the check. -/
def recordSubmission (env : Env) (request : SubmittedRequest) (primaryApprover : Option String)
    (now : Int) : Op PendingRequest := do
  let id ← draw env.randomUUID
  let pending : PendingRequest :=
    { subject := request.subject, scope := request.scope, ttlSeconds := request.ttlSeconds,
      parentTokenId := request.parentTokenId, id, status := .pending, requestedAt := now,
      idempotencyKey := request.idempotencyKey, assignedApprover := primaryApprover }
  RequestStore.save pending
  auditRecord env
    { requestId := some pending.id, subject := request.subject, action := "request_token",
      decision := .requestSubmitted } now
  return pending

/-- The part of `submitRequest` after the check. -/
def reportAnomaly (env : Env) (request : SubmittedRequest) (pending : PendingRequest)
    (anomaly : AnomalyResult) (now : Int) : Op PendingRequest := do
  (if anomaly.anomalous then
    auditRecord env
      { requestId := some pending.id, subject := request.subject, action := "anomaly_check",
        decision := .anomalyDetected,
        reasonCode := some (String.intercalate "," anomaly.signals) } now
  else pure ())
  return pending

theorem submitRequest_eq : submitRequest env request primaryApprover now = (do
    let pending ← recordSubmission env request primaryApprover now
    let anomaly ← checkAnomaly env request.subject request.scope now
    reportAnomaly env request pending anomaly now) := by
  simp only [submitRequest, recordSubmission, reportAnomaly, bind_assoc, pure_bind]

/-- The check that a submission makes. -/
def SubmittedRequest.check (request : SubmittedRequest) (now : Int) : Check :=
  ⟨request.subject, request.scope, now⟩

/-- `requestToken` with a detector that keeps the complete history. -/
def requestTokenReferring (env : Env) (history : List Check) (request : SubmittedRequest)
    (primaryApprover : Option String) (now : Int) : Op PendingRequest := do
  match existingRequest (← get) request with
  | some existing => return existing
  | none =>
    let pending ← recordSubmission env request primaryApprover now
    modify fun w => { w with
      anomalyDetector := (machine env.anomaly).run (history ++ [request.check now]) }
    reportAnomaly env request pending (reference env.anomaly history (request.check now)) now

/-- The submission is new, and is recorded before the check. -/
def Counts (env : Env) (w : World) (request : SubmittedRequest) (primaryApprover : Option String)
    (now : Int) : Prop :=
  existingRequest w request = none ∧
    (Effect.result (recordSubmission env request primaryApprover now) w).isOk = true

instance : Decidable (Counts env w request primaryApprover now) :=
  inferInstanceAs (Decidable (_ ∧ _))

/-- The checks since the process was started, after an action: a submission that counts adds one. -/
def Config.checks (env : Env) (c : Config κ) (history : List Check) : Action κ → List Check
  | .restart => []
  | .call _ (.requestToken request primaryApprover now) =>
    if Counts env c.world request primaryApprover now then history ++ [request.check now]
    else history
  | _ => history

/-! ## The detector is left alone by everything else -/

def DetectorKept (w w' : World) : Prop := w'.anomalyDetector = w.anomalyDetector

instance : UncountedEffects DetectorKept where
  refl _ := rfl
  trans _ _ _ h h' := Eq.trans h' h
  logged _ _ _ _ _ := rfl
  breaker _ _ := rfl
  endpoints _ _ := rfl

instance : IdentitySaves DetectorKept where
  identities _ _ _ := rfl

instance : RuleSaves DetectorKept where
  rules _ _ _ := rfl

instance : RequestSaves DetectorKept where
  requests _ _ _ _ := rfl

theorem detectorKept_tokenStore_save (t : Token) : Along DetectorKept (TokenStore.save env t) :=
  along_execute (along_saveRecord fun _ _ _ => rfl)

theorem detectorKept_policyStore_save (policy : Policy) :
    Along DetectorKept (PolicyStore.save env policy) :=
  along_execute (along_saveRecord fun _ _ _ => rfl)

theorem detectorKept_issue (frame : IssueFrame) : Along DetectorKept (frame.resume env) :=
  Along.bind along_draw fun _ => Along.bind (detectorKept_tokenStore_save _) fun _ => Along.pure

theorem detectorKept_startCall (call : Call)
    (hcall : ∀ request primaryApprover now, call ≠ .requestToken request primaryApprover now) :
    Along DetectorKept (startCall env call) := by
  refine along_startCall_of detectorKept_policyStore_save (fun tokenId reasonCode now actor => ?_) call
    fun request primaryApprover now h => absurd h (hcall request primaryApprover now)
  exact along_revokeToken (fun _ _ _ _ => .inl fun _ _ => detectorKept_tokenStore_save _) _ _ _ _

theorem detectorKept_resumeFrame (downstream : Downstream) (frame : Frame) :
    Along DetectorKept (resumeFrame env downstream frame) :=
  along_resumeFrame detectorKept_issue downstream frame fun f _ => f.along_resume

theorem detectorKept_recordSubmission :
    Along DetectorKept (recordSubmission env request primaryApprover now) :=
  Along.bind along_draw fun _ => Along.bind (along_requestStore_save _) fun _ =>
    Along.bind (along_auditRecord _ _) fun _ => Along.pure

theorem detectorKept_reportAnomaly (pending : PendingRequest) (anomaly : AnomalyResult) :
    Along DetectorKept (reportAnomaly env request pending anomaly now) :=
  Along.bind (Along.ite (along_auditRecord _ _) Along.pure) fun _ => Along.pure

/-! ## The detector of a run -/

theorem checkAnomaly_run (subject : String) (scope : List String) (now : Int) :
    checkAnomaly env subject scope now w =
      .ok (w.anomalyDetector.check env.anomaly subject scope now).1
        { w with anomalyDetector := (w.anomalyDetector.check env.anomaly subject scope now).2 } := rfl

theorem requestToken_of_new (h : existingRequest w request = none) :
    requestToken env request primaryApprover now w = submitRequest env request primaryApprover now w := by
  show (match existingRequest w request with
    | some existing => pure existing
    | none => submitRequest env request primaryApprover now : Op PendingRequest) w = _
  rw [h]

section
variable {history : List Check} (hdetector : w.anomalyDetector = (machine env.anomaly).run history)
include hdetector

/-- A submission that counts adds its check; one that does not leaves the detector as it is. -/
theorem detector_requestToken :
    (after (requestToken env request primaryApprover now) w).anomalyDetector =
      (machine env.anomaly).run
        (if Counts env w request primaryApprover now then history ++ [request.check now]
        else history) := by
  cases hexisting : existingRequest w request with
  | some existing =>
    have hcounts : ¬ Counts env w request primaryApprover now :=
      fun h => by cases hexisting.symm.trans h.1
    rw [after, requestToken_existing hexisting, if_neg hcounts]
    exact hdetector
  | none =>
    rw [after, requestToken_of_new hexisting, submitRequest_eq]
    have hkept : DetectorKept w (after (recordSubmission env request primaryApprover now) w) :=
      detectorKept_recordSubmission w
    cases hrecord : recordSubmission env request primaryApprover now w with
    | error err w₁ =>
      have hcounts : ¬ Counts env w request primaryApprover now := by
        intro h
        have hok := h.2
        rw [Effect.result, hrecord] at hok
        cases hok
      rw [bind_of_error hrecord, if_neg hcounts]
      rw [after, hrecord] at hkept
      exact Eq.trans hkept hdetector
    | ok pending w₁ =>
      have hcounts : Counts env w request primaryApprover now := by
        refine ⟨hexisting, ?_⟩
        rw [Effect.result, hrecord]
        rfl
      rw [after, hrecord] at hkept
      rw [bind_of_ok hrecord, bind_of_ok (checkAnomaly_run _ _ _), if_pos hcounts, Machine.run_snoc]
      refine (detectorKept_reportAnomaly pending _ _).trans ?_
      show (w₁.anomalyDetector.check env.anomaly request.subject request.scope now).2 = _
      rw [show w₁.anomalyDetector = w.anomalyDetector from hkept, hdetector]
      rfl

/-- `requestToken` does what it does with the complete history. -/
theorem requestToken_eq (hclock : ((history ++ [request.check now]).map (·.time)).Pairwise (· ≤ ·)) :
    requestToken env request primaryApprover now w =
      requestTokenReferring env history request primaryApprover now w := by
  cases hexisting : existingRequest w request with
  | some existing =>
    rw [requestToken_existing hexisting]
    show _ = (match existingRequest w request with
      | some existing => pure existing
      | none => _ : Op PendingRequest) w
    rw [hexisting]
    rfl
  | none =>
    rw [requestToken_of_new hexisting, submitRequest_eq]
    show _ = (match existingRequest w request with
      | some existing => pure existing
      | none => _ : Op PendingRequest) w
    rw [hexisting]
    have hkept : DetectorKept w (after (recordSubmission env request primaryApprover now) w) :=
      detectorKept_recordSubmission w
    cases hrecord : recordSubmission env request primaryApprover now w with
    | error err w₁ =>
      dsimp only
      rw [bind_of_error hrecord, bind_of_error hrecord]
    | ok pending w₁ =>
      rw [after, hrecord] at hkept
      dsimp only
      rw [bind_of_ok hrecord, bind_of_ok hrecord, bind_of_ok (checkAnomaly_run _ _ _)]
      rw [show w₁.anomalyDetector = (machine env.anomaly).run history from Eq.trans hkept hdetector,
        ← resultAfter_eq hclock, Machine.run_snoc]
      rfl

end

/-- The runs of the process, with the checks since it was started. -/
def watched (κ : Type) (env : Env) : Machine (Config κ × List Check) (Action κ) where
  init := (.initial env, [])
  step s a := (s.1.step env a, s.1.checks env s.2 a)

/-- The checks since the process was started. -/
def checksOf (env : Env) (acts : List (Action κ)) : List Check := ((watched κ env).run acts).2

theorem watched_run (acts : List (Action κ)) :
    (watched κ env).run acts = ((processMachine κ env).run acts, checksOf env acts) := by
  refine Prod.ext ?_ rfl
  induction acts using List.reverseRecOn with
  | nil => rfl
  | append_singleton acts a ih =>
    rw [Machine.run_snoc]
    show Config.step env ((watched κ env).run acts).1 a = _
    rw [ih, Machine.run_snoc]
    rfl

theorem checksOf_snoc (acts : List (Action κ)) (a : Action κ) : checksOf env (acts ++ [a]) =
    ((processMachine κ env).run acts).checks env (checksOf env acts) a := by
  rw [checksOf, Machine.run_snoc, watched_run]
  rfl

theorem detector_step {c : Config κ} {history : List Check}
    (h : c.world.anomalyDetector = (machine env.anomaly).run history) (a : Action κ) :
    (c.step env a).world.anomalyDetector = (machine env.anomaly).run (c.checks env history a) := by
  cases a with
  | call client call =>
    rw [Config.step, Config.exec, Config.settle_world]
    by_cases hcall : ∃ request primaryApprover now, call = .requestToken request primaryApprover now
    · obtain ⟨request, primaryApprover, now, rfl⟩ := hcall
      exact (congrArg World.anomalyDetector after_synchronously).trans (detector_requestToken h)
    · have hother : ∀ request primaryApprover now, call ≠ .requestToken request primaryApprover now :=
        fun request primaryApprover now heq => hcall ⟨request, primaryApprover, now, heq⟩
      have hchecks : c.checks env history (.call client call) = history := by
        cases call with
        | requestToken request primaryApprover now => exact absurd rfl (hother _ _ _)
        | _ => rfl
      rw [hchecks]
      exact (detectorKept_startCall call hother c.world).trans h
  | resume i downstream =>
    show (c.exec env (.resume i downstream)).1.world.anomalyDetector = (machine env.anomaly).run history
    rw [Config.exec]
    cases c.inflight[i]? with
    | none => exact h
    | some e =>
      dsimp only
      rw [Config.settle_world]
      exact (detectorKept_resumeFrame downstream e.frame c.world).trans h
  | clock t => exact h
  | restart => exact related_boot (R := DetectorKept) (c.world.restart env)

theorem detector_run (acts : List (Action κ)) :
    ((processMachine κ env).run acts).world.anomalyDetector =
      (machine env.anomaly).run (checksOf env acts) := by
  induction acts using List.reverseRecOn with
  | nil => exact related_boot (R := DetectorKept) World.initial
  | append_singleton acts a ih =>
    rw [Machine.run_snoc, checksOf_snoc]
    exact detector_step ih a

/-- What a submission comes to after a run: a retry is answered with the request that is there and
does not count; a new one is checked against all that counted since the process was started. -/
structure SubmissionsCounted (env : Env) (acts : List (Action κ)) : Prop where
  retried : ∀ client request primaryApprover now existing,
    existingRequest ((processMachine κ env).run acts).world request = some existing →
    let a : Action κ := .call client (.requestToken request primaryApprover now)
    ((processMachine κ env).run acts).exec env a =
        ((processMachine κ env).run acts, some ⟨client, .requestToken request primaryApprover now,
          .request existing⟩) ∧
      checksOf env (acts ++ [a]) = checksOf env acts
  submitted : ∀ request primaryApprover now,
    ((checksOf env acts ++ [request.check now]).map (·.time)).Pairwise (· ≤ ·) →
    requestToken env request primaryApprover now ((processMachine κ env).run acts).world =
      requestTokenReferring env (checksOf env acts) request primaryApprover now
        ((processMachine κ env).run acts).world

theorem submissionsCounted (acts : List (Action κ)) : SubmissionsCounted env acts := by
  refine ⟨fun client request primaryApprover now existing hexisting => ⟨?_, ?_⟩,
    fun request primaryApprover now hclock => requestToken_eq (detector_run acts) hclock⟩
  · have hrun : startCall env (.requestToken request primaryApprover now)
        ((processMachine κ env).run acts).world =
        .ok (.returned (.request existing)) ((processMachine κ env).run acts).world :=
      bind_of_ok (requestToken_existing hexisting primaryApprover now)
    rw [Config.exec, hrun]
    rfl
  · rw [checksOf_snoc]
    exact if_neg fun h => by cases hexisting.symm.trans h.1

/-- **The pruned buffers are as good as the complete history**, in any run of checks and for the
submissions of any run of the process. -/
theorem velocity_exact {checks : List Check} (hclock : (checks.map (·.time)).Pairwise (· ≤ ·))
    (env : Env) (acts : List (Action κ)) :
    VelocityExact env.anomaly checks ∧ SubmissionsCounted env acts :=
  ⟨velocityExact hclock, submissionsCounted acts⟩

/-- Three checks of one subject at the edges of a window, and a submission that is sent again. -/
theorem velocity_exact_sample :
    VelocityExact sampleEnv.anomaly [⟨"agent-42", [], 0⟩, ⟨"agent-42", [], 1⟩, ⟨"agent-42", [], 60000⟩] ∧
      SubmissionsCounted sampleEnv (κ := Unit) [.call () (.requestToken
        { subject := "agent-42", scope := ["email:send"], ttlSeconds := .finite 60,
          idempotencyKey := some "key-1" } none 0)] :=
  velocity_exact (by decide) sampleEnv _

end Ambit
