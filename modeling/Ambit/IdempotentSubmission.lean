import Ambit.SecretDelivery

/-! Submissions with an idempotency key: a subject's key names at most one request, whatever else
happens to the request, and the log has one entry about its submission. -/

namespace Ambit

open Effect

/-- A submission entry of the request `i`. -/
def submits (i : String) (e : AuditEntryInput) : Bool :=
  e.requestId = some i ∧ e.decision = .requestSubmitted

theorem submits_eq_true {i : String} {e : AuditEntryInput} :
    submits i e = true ↔ e.requestId = some i ∧ e.decision = .requestSubmitted := by
  simp [submits]

/-- The request is for the subject's key. -/
def PendingRequest.IsFor (r : PendingRequest) (subject key : String) : Prop :=
  r.subject = subject ∧ r.idempotencyKey = some key

instance (r : PendingRequest) (subject key : String) : Decidable (r.IsFor subject key) :=
  inferInstanceAs (Decidable (_ ∧ _))

theorem PendingRequest.Agrees.isFor {a b : PendingRequest} (h : a.Agrees b) {subject key : String} :
    b.IsFor subject key ↔ a.IsFor subject key := by
  rw [PendingRequest.IsFor, PendingRequest.IsFor, h.subject_eq, h.idempotencyKey_eq]

/-! ## In the ledger -/

namespace Ledger

variable {p : Platform} {L : Ledger} {e : Event} {i : String}

/-- A request after an event is a new one, or agrees with what was stored before. -/
theorem Enabled.request_from (he : L.Enabled p e) {r' : PendingRequest}
    (hr' : (L.after e).requests i = some r') :
    (e = .submitted r' ∧ r'.id = i) ∨ ∃ r, L.requests i = some r ∧ r.Agrees r' := by
  rcases after_requests hr' with ⟨hwritten, rfl⟩ | ⟨-, r, hr, rfl⟩
  · cases e with
    | submitted r =>
      cases hwritten
      exact .inl ⟨rfl, rfl⟩
    | approved pending =>
      cases hwritten
      obtain ⟨current, hcurrent, hagrees⟩ := he.1
      exact .inr ⟨current, hcurrent, hagrees.symm.trans ⟨rfl, rfl, rfl, rfl⟩⟩
    | denied pending =>
      cases hwritten
      exact .inr ⟨pending, he.1, rfl, rfl, rfl, rfl⟩
    | escalated pending =>
      cases hwritten
      exact .inr ⟨pending, he.1, rfl, rfl, rfl, rfl⟩
    | claimed r =>
      cases hwritten
      exact .inr ⟨r, he.1, rfl, rfl, rfl, rfl⟩
    | _ => cases hwritten
  · exact .inr ⟨r, hr, agrees_changedRequest e r⟩

/-- The request is new under its subject and key. -/
def SubmitsNew (L : Ledger) : Event → Prop
  | .submitted r => ∀ i r' subject key, L.requests i = some r' → r'.IsFor subject key →
      r.IsFor subject key → key = ""
  | _ => True

/-- No two requests are for the same subject and key. -/
def KeysUnique (L : Ledger) : Prop :=
  ∀ i j r r' subject key, L.requests i = some r → L.requests j = some r' → r.IsFor subject key →
    r'.IsFor subject key → key ≠ "" → i = j

theorem KeysUnique.after (h : L.KeysUnique) (he : L.Enabled p e) (hnew : L.SubmitsNew e) :
    (L.after e).KeysUnique := by
  intro i j r r' subject key hr hr' hfor hfor' hne
  rcases he.request_from hr with ⟨rfl, hi⟩ | ⟨r₀, hr₀, hagrees⟩
  · rcases he.request_from hr' with ⟨he', hj⟩ | ⟨r₁, hr₁, hagrees⟩
    · cases he'
      exact hi.symm.trans hj
    · exact absurd (hnew j r₁ subject key hr₁ (hagrees.isFor.mp hfor') hfor) hne
  · rcases he.request_from hr' with ⟨rfl, hj⟩ | ⟨r₁, hr₁, hagrees'⟩
    · exact absurd (hnew i r₀ subject key hr₀ (hagrees.isFor.mp hfor) hfor') hne
    · exact h i j r₀ r₁ subject key hr₀ hr₁ (hagrees.isFor.mp hfor) (hagrees'.isFor.mp hfor') hne

/-- The event that writes a submission entry. -/
theorem submission_of_mem_entries {a : AuditEntryInput} (ha : a ∈ e.entries)
    (hdecision : a.decision = .requestSubmitted) :
    ∃ r, e = .submitted r ∧ a = submissionEntry r := by
  cases e with
  | noted | denied | restarted => cases ha
  | submitted r => exact ⟨r, rfl, List.mem_singleton.mp ha⟩
  | revoked r =>
    obtain ⟨t, -, rfl⟩ := List.mem_map.mp ha
    cases hdecision
  | _ =>
    cases List.mem_singleton.mp ha
    cases hdecision

/-- A stored request has one submission entry, and an id that is not stored has none. -/
def SubmittedOnce (L : Ledger) : Prop :=
  ∀ i, L.log.countP (submits i) = if (L.requests i).isSome then 1 else 0

theorem SubmittedOnce.after (h : L.SubmittedOnce) (he : L.Enabled p e) :
    (L.after e).SubmittedOnce := by
  intro i
  have hcount : (L.after e).log.countP (submits i) =
      L.log.countP (submits i) + e.entries.countP (submits i) := List.countP_append
  rw [hcount, h i]
  by_cases hsubmits : ∃ r, e = .submitted r ∧ r.id = i
  · obtain ⟨r, rfl, rfl⟩ := hsubmits
    have hstored : (L.after (.submitted r)).requests r.id = some r := written_stored rfl
    simp [he.1, hstored, Event.entries, submissionEntry, submits]
  · have hzero : e.entries.countP (submits i) = 0 := by
      refine List.countP_eq_zero.mpr fun a ha hsub => ?_
      obtain ⟨hid, hdecision⟩ := submits_eq_true.mp hsub
      obtain ⟨r, rfl, rfl⟩ := submission_of_mem_entries ha hdecision
      exact hsubmits ⟨r, rfl, Option.some.inj hid⟩
    have hsame : ((L.after e).requests i).isSome = (L.requests i).isSome := by
      cases hr : L.requests i with
      | some r =>
        obtain ⟨r', hr', -⟩ := he.request_stays hr
        rw [hr', Option.isSome_some, Option.isSome_some]
      | none =>
        cases hr' : (L.after e).requests i with
        | none => rfl
        | some r' =>
          rcases he.request_from hr' with ⟨rfl, hid⟩ | ⟨r, hr₀, -⟩
          · exact absurd ⟨r', rfl, hid⟩ hsubmits
          · cases hr.symm.trans hr₀
    rw [hzero, hsame, Nat.add_zero]

end Ledger

/-! ## In the process -/

variable {κ : Type} {env : Env} {c : Config κ} {acts : List (Action κ)}

theorem requestToken_existing {w : World} {request : SubmittedRequest} {found : PendingRequest}
    (h : existingRequest w request = some found) (primaryApprover : Option String) (now : Int) :
    requestToken env request primaryApprover now w = .ok found w := by
  refine run_of_wp (wp_requestToken (fun found' hfound => ?_) fun hnew => ?_)
  · cases h.symm.trans hfound
    exact ⟨rfl, rfl⟩
  · cases h.symm.trans hnew

/-- A request that no retry would find is new under its subject and key. -/
theorem isNew_of_existingRequest {w : World} {request : SubmittedRequest}
    (h : existingRequest w request = none) {i key : String} {r : PendingRequest}
    (hr : w.ledger.requests i = some r) (hfor : r.IsFor request.subject key)
    (hkey : request.idempotencyKey = some key) : key = "" := by
  by_contra hne
  rw [existingRequest, hkey, truthy_eq_some.mpr ⟨rfl, hne⟩, Option.bind_some,
    findByIdempotencyKey, List.find?_eq_none] at h
  have hmem : r ∈ w.requestStore.live.values := OrderedMap.mem_values_iff.mpr ⟨i, hr⟩
  exact h r hmem (by simpa [PendingRequest.IsFor] using hfor)

/-- A submission is new: a retry finds the request that the first attempt stored. -/
theorem Config.Advances.submitsNew {a : Action κ} {e : Event}
    (hadv : c.Advances env a e (c.exec env a)) : c.world.ledger.SubmitsNew e := by
  cases e with
  | submitted r =>
    cases a with
    | call client call =>
      obtain ⟨outcome, -, request, primaryApprover, now, rfl, hr, -⟩ := hadv.explains
      have hnone : existingRequest c.world request = none := by
        cases hfound : existingRequest c.world request with
        | none => rfl
        | some found =>
          -- the call would leave the world as it is, and not store the request
          exfalso
          have hrun : startCall env (.requestToken request primaryApprover now) c.world =
              .ok (.returned (.request found)) c.world := by
            show EStateM.bind (requestToken env request primaryApprover now)
              (fun a => pure (Progress.returned (Outcome.request a))) c.world = _
            rw [EStateM.bind, requestToken_existing hfound]
            rfl
          have hledger := hadv.ledger_eq
          rw [Config.exec, hrun] at hledger
          have hstored : (c.world.ledger.after (.submitted r)).requests r.id = some r :=
            Ledger.written_stored rfl
          have hnew : c.world.ledger.requests r.id = none := hadv.enabled.1
          rw [← hledger] at hstored
          cases hnew.symm.trans hstored
      intro i r' subject key hr' hfor hfor'
      rw [hr] at hfor'
      obtain ⟨rfl, hkey⟩ := hfor'
      exact isNew_of_existingRequest hnone hr' hfor hkey
    | resume =>
      obtain ⟨-, -, he⟩ | ⟨x, outcome, hx, -, hf⟩ := hadv.explains
      · cases he
      · exact hf.elim
    | clock => cases hadv.explains.2
    | restart => cases hadv.explains.2
  | _ => trivial

/-- What holds of the requests of every reachable state. -/
structure SubmissionsSound (L : Ledger) : Prop where
  unique : L.KeysUnique
  once : L.SubmittedOnce

theorem submissionsSound_run (acts : List (Action κ)) :
    SubmissionsSound ((processMachine κ env).run acts).world.ledger := by
  refine ledger_invariant acts ?_ fun c a e hadvances h => ?_
  · exact ⟨(fun i j r r' _ _ hr => by cases hr), fun i => rfl⟩
  · exact ⟨h.unique.after hadvances.enabled hadvances.submitsNew, h.once.after hadvances.enabled⟩

/-- What became of a request later in the run. -/
theorem request_stays_run (acts more : List (Action κ)) {i : String} {r : PendingRequest}
    (hr : ((processMachine κ env).run acts).world.ledger.requests i = some r) :
    ∃ r', ((processMachine κ env).run (acts ++ more)).world.ledger.requests i = some r' ∧
      r.Agrees r' := by
  induction more using List.reverseRecOn with
  | nil =>
    rw [List.append_nil]
    exact ⟨r, hr, .refl r⟩
  | append_singleton more a ih =>
    obtain ⟨r₁, hr₁, hagrees⟩ := ih
    obtain ⟨e, hadv⟩ := (@Config.sound_run env _ (acts ++ more)).exec a
    obtain ⟨r₂, hr₂, hagrees'⟩ := hadv.enabled.request_stays hr₁
    refine ⟨r₂, ?_, hagrees.trans hagrees'⟩
    rw [← List.append_assoc, Machine.run_snoc]
    show (((processMachine κ env).run (acts ++ more)).exec env a).1.world.ledger.requests i = some r₂
    rw [hadv.ledger_eq]
    exact hr₂

/-- `requestToken` was called for the subject and the key. -/
def Reached (acts : List (Action κ)) (subject key : String) : Prop :=
  ∃ client request primaryApprover now,
    Action.call client (.requestToken request primaryApprover now) ∈ acts ∧
    request.subject = subject ∧ request.idempotencyKey = some key

instance (acts : List (Action κ)) (subject key : String) : Decidable (Reached acts subject key) :=
  decidable_of_iff (acts.any fun
    | .call _ (.requestToken request _ _) =>
      request.subject = subject ∧ request.idempotencyKey = some key
    | _ => false) <| by
    rw [List.any_eq_true]
    constructor
    · rintro ⟨a, hmem, h⟩
      split at h
      · rename_i client request primaryApprover now
        obtain ⟨hsubject, hkey⟩ := of_decide_eq_true h
        exact ⟨client, request, primaryApprover, now, hmem, hsubject, hkey⟩
      · cases h
    · rintro ⟨client, request, primaryApprover, now, hmem, hsubject, hkey⟩
      exact ⟨_, hmem, decide_eq_true ⟨hsubject, hkey⟩⟩

/-- A `requestToken` call with a key leaves a request for its subject and key. -/
theorem requestToken_leaves {w : World} (h : w.Sound env) {request : SubmittedRequest}
    {key : String} (hkey : request.idempotencyKey = some key) (hne : key ≠ "")
    (primaryApprover : Option String) (now : Int) :
    wp (requestToken env request primaryApprover now) (fun _ w' =>
      ∃ r, w'.ledger.requests r.id = some r ∧ r.IsFor request.subject key) w := by
  refine wp_requestToken (fun found hfound => ?_) fun _ => ?_
  · obtain ⟨i, hi, hsubject, hfoundKey, -⟩ := existingRequest_eq_some hfound
    obtain rfl : found.id = i := h.requests.keyed _ _ hi
    rw [hkey, truthy_eq_some.mpr ⟨rfl, hne⟩] at hfoundKey
    exact ⟨found, hi, hsubject, hfoundKey.symm⟩
  · refine wp_mono (submitRequest_spec h request primaryApprover now) fun r w' hr => ?_
    refine ⟨request.pending primaryApprover now (env.randomUUID w.supply), ?_, rfl, hkey⟩
    rw [hr.1.ledger_eq]
    exact Ledger.written_stored rfl

theorem stored_of_reached {subject key : String} (h : Reached acts subject key) (hne : key ≠ "") :
    ∃ i r, ((processMachine κ env).run acts).world.ledger.requests i = some r ∧
      r.IsFor subject key := by
  obtain ⟨client, request, primaryApprover, now, hmem, rfl, hkey⟩ := h
  obtain ⟨pre, post, rfl⟩ := List.append_of_mem hmem
  have hc := @Config.sound_run env _ pre
  have hleaves := requestToken_leaves hc.world hkey hne primaryApprover now
  have hstored : ∃ r, ((processMachine κ env).run
      (pre ++ [.call client (.requestToken request primaryApprover now)])).world.ledger.requests
        r.id = some r ∧ r.IsFor request.subject key := by
    rw [Machine.run_snoc]
    show ∃ r, (Config.settle client _ _ (startCall env _ _)).1.world.ledger.requests r.id = some r ∧ _
    have hstart : wp (startCall env (.requestToken request primaryApprover now)) (fun _ w' =>
        ∃ r, w'.ledger.requests r.id = some r ∧ r.IsFor request.subject key)
          ((processMachine κ env).run pre).world := by
      refine wp_bind (wp_mono hleaves fun r w' hr => ?_)
      cases r with
      | ok => exact wp_pure hr
      | error => exact hr
    cases hrun : startCall env (.requestToken request primaryApprover now)
        ((processMachine κ env).run pre).world with
    | ok progress w' =>
      cases progress with
      | returned => exact wp_ok hstart hrun
      | awaiting => exact wp_ok hstart hrun
    | error => exact wp_error hstart hrun
  obtain ⟨r, hr, hfor⟩ := hstored
  obtain ⟨r', hr', hagrees⟩ := @request_stays_run _ env _ post _ _ hr
  rw [List.append_assoc] at hr'
  exact ⟨r.id, r', hr', hagrees.isFor.mpr hfor⟩

/-- The submission entries of the requests that are for the subject and the key. -/
def World.submissions (w : World) (subject key : String) : Nat :=
  w.auditLog.entries.countP fun e => e.decision = .requestSubmitted ∧
    ∃ r ∈ e.requestId.bind w.requestStore.live.get, r.IsFor subject key

/-- A key that names a request has one submission entry. -/
theorem World.submissions_eq_one {w : World} (h : SubmissionsSound w.ledger) {i subject key : String}
    {r : PendingRequest} (hr : w.ledger.requests i = some r) (hfor : r.IsFor subject key)
    (hne : key ≠ "") : w.submissions subject key = 1 := by
  have honce := h.once i
  rw [hr, Option.isSome_some, if_pos rfl] at honce
  rw [← honce, World.submissions]
  show _ = ((w.auditLog.entries.map _).filter AuditEntryInput.noteworthy).countP (submits i)
  rw [List.countP_filter, List.countP_map]
  refine List.countP_congr fun e _ => ?_
  simp only [Function.comp, Bool.and_eq_true, decide_eq_true_eq, submits_eq_true]
  constructor
  · rintro ⟨hdecision, r', hr', hfor'⟩
    obtain ⟨j, hj, hr'⟩ := Option.bind_eq_some_iff.mp hr'
    obtain rfl : j = i := h.unique j i r' r subject key hr' hr hfor' hfor hne
    exact ⟨⟨hj, hdecision⟩, by simp [AuditEntryInput.noteworthy, hdecision]⟩
  · rintro ⟨⟨hid, hdecision⟩, -⟩
    refine ⟨hdecision, r, ?_, hfor⟩
    rw [hid]
    exact hr

/-! ## What submissions answer -/

theorem Call.of_answers_request {call : Call} {r : PendingRequest} (h : call.Answers (.request r)) :
    ∃ request primaryApprover now, call = .requestToken request primaryApprover now := by
  cases call with
  | requestToken request primaryApprover now => exact ⟨request, primaryApprover, now, rfl⟩
  | _ => exact h.elim

/-- The request that a submission answers with is its subject's, under the key that it gave, and is
stored. -/
def AnswersSubmission (L : Ledger) (call : Call) (pending : PendingRequest) : Prop :=
  ∃ request primaryApprover now, call = .requestToken request primaryApprover now ∧
    pending.subject = request.subject ∧
    (∀ key, truthy request.idempotencyKey = some key → pending.idempotencyKey = some key) ∧
    ∃ r, L.requests pending.id = some r ∧ pending.Agrees r

theorem AnswersSubmission.after {p : Platform} {L : Ledger} {e : Event} {call : Call}
    {pending : PendingRequest} (h : AnswersSubmission L call pending) (he : L.Enabled p e) :
    AnswersSubmission (L.after e) call pending := by
  obtain ⟨request, primaryApprover, now, hcall, hsubject, hkey, r, hr, hagrees⟩ := h
  obtain ⟨r', hr', hagrees'⟩ := he.request_stays hr
  exact ⟨request, primaryApprover, now, hcall, hsubject, hkey, r', hr', hagrees.trans hagrees'⟩

theorem Config.Advances.answersSubmission (hc : c.Sound env) {a : Action κ} {e : Event}
    {next : Config κ × Option (Settled κ)} (hadv : c.Advances env a e next) {s : Settled κ}
    (hs : next.2 = some s) {pending : PendingRequest} (houtcome : s.outcome = .request pending) :
    AnswersSubmission (c.world.ledger.after e) s.call pending := by
  have hanswers := hadv.answers s hs
  rw [houtcome] at hanswers
  obtain ⟨request, primaryApprover, now, hcall⟩ := Call.of_answers_request hanswers
  have hexplains := hadv.explains
  rw [hs] at hexplains
  cases a with
  | call client call =>
    obtain ⟨outcome, hout, hexplains⟩ := hexplains
    obtain ⟨o, rfl, rfl⟩ := Option.map_eq_some_iff.mp hout.symm
    obtain rfl : call = .requestToken request primaryApprover now := hcall
    obtain rfl : o = .request pending := houtcome
    cases e with
    | noted =>
      obtain ⟨-, hrequest⟩ := hexplains _ rfl
      obtain ⟨_, _, _, hsame, hfound⟩ := hrequest pending rfl
      cases hsame
      obtain ⟨i, hi, hsubject, hkey, -⟩ := existingRequest_eq_some hfound
      obtain rfl : pending.id = i := hc.world.requests.keyed _ _ hi
      refine AnswersSubmission.after ⟨request, primaryApprover, now, rfl, hsubject, ?_, pending, hi,
        .refl pending⟩ hadv.enabled
      exact fun key htruthy => hkey.symm.trans htruthy
    | submitted r =>
      obtain ⟨_, _, _, hsame, hr, hreturns⟩ := hexplains
      cases hsame
      obtain rfl := hreturns pending rfl
      refine ⟨request, primaryApprover, now, rfl, ?_, ?_, pending, ?_, .refl pending⟩
      · rw [hr]
        rfl
      · intro key htruthy
        rw [hr]
        exact (truthy_eq_some.mp htruthy).1
      · exact Ledger.written_stored rfl
    | denied =>
      obtain ⟨_, _, _, hdenies, -⟩ := hexplains
      cases hdenies
    | escalated =>
      obtain ⟨_, _, hescalates⟩ := hexplains
      cases hescalates
    | claimed =>
      obtain ⟨_, hclaims, -⟩ := hexplains
      cases hclaims
    | revoked => cases hexplains
    | _ => exact hexplains.elim
  | resume i downstream =>
    obtain ⟨-, hout, -⟩ | ⟨x, outcome, hx, hout, -⟩ := hexplains
    · cases hout
    · obtain ⟨o, -, rfl⟩ := Option.map_eq_some_iff.mp hout.symm
      exact (hc.not_submitting (List.mem_of_getElem? hx) request primaryApprover now hcall).elim
  | clock => cases hexplains.1
  | restart => cases hexplains.1

/-- Whatever a call of a run answered, it is an answer of the call; and a request that it answered
with is one that the call submitted, and is still stored. -/
theorem answers_run (acts : List (Action κ)) : ∀ s ∈ settledCalls env acts,
    s.call.Answers s.outcome ∧ ∀ pending, s.outcome = .request pending →
      AnswersSubmission ((processMachine κ env).run acts).world.ledger s.call pending := by
  induction acts using List.reverseRecOn with
  | nil => exact fun s hs => (List.not_mem_nil hs).elim
  | append_singleton acts a ih =>
    have hc := @Config.sound_run env _ acts
    obtain ⟨e, hadv⟩ := hc.exec a
    have hledger : ((processMachine κ env).run (acts ++ [a])).world.ledger =
        ((processMachine κ env).run acts).world.ledger.after e := by
      rw [Machine.run_snoc]
      exact hadv.ledger_eq
    rw [hledger, settledCalls_snoc]
    intro s hs
    rcases List.mem_append.mp hs with hold | hnew
    · obtain ⟨hanswers, hsubmission⟩ := ih s hold
      exact ⟨hanswers, fun pending hpending => (hsubmission pending hpending).after hadv.enabled⟩
    · have hs := Option.mem_toList.mp hnew
      exact ⟨hadv.answers s hs, fun pending hpending => hadv.answersSubmission hc hs hpending⟩

/-! ## On the server -/

/-- `response.ok` -/
def Response.ok (r : Response) : Bool := 200 ≤ r.status ∧ r.status < 300

theorem Response.ofError_not_ok (err : Err) : (Response.ofError err).ok = false := by
  cases err <;> rfl

theorem Response.ofFailure_not_ok (call : Call) (err : Err) :
    (Response.ofFailure call err).ok = false := by
  unfold Response.ofFailure
  split <;> first | rfl | exact Response.ofError_not_ok _

variable {sc : Config Exchange}

/-- The call that a submission's handler makes: it authenticates, and then submits for the subject
that it has authenticated. -/
def Exchange.Submits (x : Exchange) (key : Option String) : Call → Prop
  | .authenticateAgent _ => True
  | .requestToken request _ _ => x.agentIdentity = some request.subject ∧ request.idempotencyKey = key
  | _ => False

theorem Exchange.next_submits {w : World} {x x' : Exchange} {call call' : Call} {outcome : Outcome}
    (h : x.next w call outcome = some (x', call')) (hcall : ∀ down, call ≠ .simulateOutage down)
    {scope : Option (List String)} {ttlSeconds : Option JsNumber} {key : Option String}
    (hroute : x'.arrival.route = .submit scope ttlSeconds key) : x'.Submits key call' := by
  unfold Exchange.next at h
  split at h
  · dsimp only at h
    split at h
    · rename_i hsubmit
      cases h
      cases hsubmit.symm.trans hroute
      exact ⟨rfl, rfl⟩
    · rename_i hclaim
      cases h
      cases hclaim.symm.trans hroute
    · cases h
  · split at h
    · rename_i happrove _
      cases h
      cases happrove.symm.trans hroute
    · rename_i hdeny _
      cases h
      cases hdeny.symm.trans hroute
    · cases h
  · exact absurd rfl (hcall _)
  · cases h

/-- A handler keeps the request that it handles. -/
theorem Exchange.next_arrival {w : World} {x x' : Exchange} {call call' : Call} {outcome : Outcome}
    (h : x.next w call outcome = some (x', call')) : x'.arrival = x.arrival := by
  unfold Exchange.next at h
  split at h
  · dsimp only at h
    split at h <;> cases h <;> rfl
  · split at h <;> cases h <;> rfl
  · cases h
    rfl
  · cases h

/-- Whether a handler that makes a call keeps the request `a`. -/
def Handled.IsOf (a : Arrival) : Handled → Prop
  | .inl _ => True
  | .inr (x, _) => x.arrival = a

theorem Arrival.requireSession_isOf (a : Arrival) {f : Exchange → String → Handled}
    (hf : ∀ x username, x.arrival = a → (f x username).IsOf a) : (a.requireSession f).IsOf a := by
  unfold Arrival.requireSession
  split
  · trivial
  · split <;> trivial
  · split
    · trivial
    · exact hf _ _ rfl

theorem handle_isOf (a : Arrival) (w : World) : (a.handle env w).IsOf a := by
  unfold Arrival.handle
  split
  · trivial
  split
  · trivial
  cases a.route with
  | submit | claimSecret =>
    dsimp only
    unfold Arrival.requireAgentCredential
    split
    · trivial
    · rfl
  | showRequest id =>
    dsimp only
    split <;> trivial
  | login username password totpCode matched =>
    dsimp only
    split
    · trivial
    split
    · split <;> rfl
    · trivial
  | registerAgent | deny | revoke | createPolicy | createRedactionRule =>
    refine a.requireSession_isOf fun x username hx => ?_
    split
    · exact hx
    · trivial
  | listAgents => exact a.requireSession_isOf fun x username hx => trivial
  | approve | modifyPolicy => exact a.requireSession_isOf fun x username hx => hx
  | enforce | delegate | access | mockEndpointDown | simulateOutage =>
    dsimp only
    split <;> trivial
  | _ => trivial

theorem handle_arrival {a : Arrival} {w : World} {x : Exchange} {call : Call}
    (h : a.handle env w = .inr (x, call)) : x.arrival = a := by
  have hof := @handle_isOf env a w
  rw [h] at hof
  exact hof

/-- A submission is refused at once, or begins with the authentication of its agent. -/
theorem handle_submit (env : Env) (w : World) {a : Arrival} {scope : Option (List String)}
    {ttlSeconds : Option JsNumber} {key : Option String}
    (hroute : a.route = .submit scope ttlSeconds key) :
    (∃ response, a.handle env w = .inl response ∧ response.ok = false) ∨
      ∃ credential, a.handle env w = .inr ({ arrival := a }, .authenticateAgent credential) := by
  unfold Arrival.handle
  split
  · exact .inl ⟨_, rfl, rfl⟩
  split
  · exact .inl ⟨_, rfl, rfl⟩
  rw [hroute]
  dsimp only
  unfold Arrival.requireAgentCredential
  split
  · exact .inl ⟨_, rfl, rfl⟩
  · exact .inr ⟨_, rfl⟩

/-- The calls that are made for a submission. -/
theorem pieces_submits (hc : sc.Sound env) {a : ServerAction} {x : Exchange} {call : Call}
    (h : Action.call x call ∈ pieces env sc a) {scope : Option (List String)}
    {ttlSeconds : Option JsNumber} {key : Option String}
    (hroute : x.arrival.route = .submit scope ttlSeconds key) : x.Submits key call := by
  have hfollow : ∀ ran : Config Exchange × Option (Settled Exchange),
      (∀ s ∈ ran.2, s.client.arrival = x.arrival → ∀ down, s.call ≠ .simulateOutage down) →
      Action.call x call ∈ followUp ran → x.Submits key call := by
    intro ran hran hmem
    obtain ⟨⟨x', call'⟩, hnext, hcall⟩ := Option.map_eq_some_iff.mp (Option.mem_toList.mp hmem)
    obtain ⟨s, hs, hnext⟩ := Option.bind_eq_some_iff.mp hnext
    cases hcall
    exact Exchange.next_submits hnext (hran s hs (Exchange.next_arrival hnext).symm) hroute
  cases a with
  | arrive a =>
    simp only [pieces] at h
    cases hhandle : a.handle env sc.world with
    | inl response =>
      rw [hhandle] at h
      cases h
    | inr next =>
      rw [hhandle] at h
      obtain ⟨x', call'⟩ := next
      -- the first call of a submission authenticates
      have hfirst : x'.arrival = x.arrival → ∃ credential, call' = .authenticateAgent credential := by
        intro harrival
        rw [← harrival, handle_arrival hhandle] at hroute
        rcases handle_submit env sc.world hroute with ⟨_, hinl, -⟩ | ⟨_, hinr⟩
        · cases hinl.symm.trans hhandle
        · cases hinr.symm.trans hhandle
          exact ⟨_, rfl⟩
      rcases List.mem_cons.mp h with hcall | hmem
      · cases hcall
        obtain ⟨credential, rfl⟩ := hfirst rfl
        trivial
      · refine hfollow _ (fun s hs harrival down hdown => ?_) hmem
        obtain ⟨hclient, hcall⟩ := Config.settle_settled.1 s hs
        rw [hclient] at harrival
        obtain ⟨credential, rfl⟩ := hfirst harrival
        cases hcall.symm.trans hdown
  | resume i downstream =>
    rcases List.mem_cons.mp h with hcall | hmem
    · cases hcall
    · refine hfollow _ (fun s hs _ down hdown => ?_) hmem
      simp only [Config.exec] at hs
      split at hs
      · cases hs
      · rename_i y hy
        obtain ⟨-, hcall⟩ := Config.settle_settled.1 s hs
        have hawaits := (hc.frames y (List.mem_of_getElem? hy)).awaits
        rw [← hcall, hdown] at hawaits
        exact hawaits
  | clock | restart => cases List.mem_singleton.mp h

/-- The response to a submission that is `ok` is the request of the agent under the key, which is
stored. -/
structure Reply.Submitted (reply : Reply) (L : Ledger) (key : Option String)
    (pending : PendingRequest) : Prop where
  body_eq : reply.response.body = some (.request pending)
  agent : reply.exchange.agentIdentity = some pending.subject
  key_eq : ∀ k, truthy key = some k → pending.idempotencyKey = some k
  stored : ∃ r, L.requests pending.id = some r ∧ pending.Agrees r

/-- A reply is sent at once, or answers a call of the run. -/
theorem reply_cases {acts : List ServerAction} {reply : Reply} (h : reply ∈ replies env acts) :
    (∃ arrival w response, .arrive arrival ∈ acts ∧ Arrival.handle arrival env w = .inl response ∧
      reply = ⟨{ arrival }, response⟩) ∨
    ∃ s ∈ settledCalls env (processTrace env acts), reply.Answers s := by
  induction acts using List.reverseRecOn with
  | nil => cases h
  | append_singleton acts a ih =>
    rw [replies_snoc] at h
    rw [settledCalls_trace]
    rcases List.mem_append.mp h with h | h
    · refine (ih h).imp ?_ fun ⟨s, hs, hanswers⟩ => ⟨s, List.mem_append_left _ hs, hanswers⟩
      exact fun ⟨arrival, w, response, harrived, hreply⟩ =>
        ⟨arrival, w, response, List.mem_append_left _ harrived, hreply⟩
    · rcases serve_replies (Option.mem_toList.mp h) with ⟨arrival, response, rfl, hhandle, hreply⟩ | hs
      · refine .inl ⟨arrival, _, response, ?_, hhandle, hreply⟩
        exact List.mem_append_right _ (List.mem_singleton.mpr rfl)
      · obtain ⟨front, s, hsettled, hanswers⟩ := hs
        refine .inr ⟨s, List.mem_append_right _ ?_, hanswers⟩
        rw [hsettled]
        exact List.mem_append_right _ (List.mem_singleton.mpr rfl)

/-- **A submission that succeeds answers with the one stored request** of its agent and key. -/
theorem reply_submitted {acts : List ServerAction} {reply : Reply} (h : reply ∈ replies env acts)
    {scope : Option (List String)} {ttlSeconds : Option JsNumber} {key : Option String}
    (hroute : reply.exchange.arrival.route = .submit scope ttlSeconds key)
    (hok : reply.response.ok = true) :
    ∃ pending, reply.Submitted ((serverMachine env).run acts).world.ledger key pending := by
  rcases reply_cases h with ⟨arrival, w, response, -, hhandle, rfl⟩ | ⟨s, hs, hclient, w, hresponse⟩
  · rcases handle_submit env w hroute with ⟨response', hinl, hnot⟩ | ⟨_, hinr⟩
    · cases hinl.symm.trans hhandle
      rw [hnot] at hok
      cases hok
    · cases hinr.symm.trans hhandle
  · have hmakes : s.client.Submits key s.call := by
      obtain ⟨pre, a, post, -, hpiece⟩ := Machine.mem_trace (started_of_settled hs)
      rw [← hclient] at hpiece ⊢
      exact pieces_submits (Config.sound_server pre) hpiece hroute
    obtain ⟨hanswers, hsubmission⟩ := @answers_run _ env (processTrace env acts) s hs
    rw [hresponse] at hok
    obtain ⟨client, call, outcome⟩ := s
    cases outcome with
    | request pending =>
      obtain ⟨request, primaryApprover, now, hcall, hsubject, hkey, hstored⟩ :=
        hsubmission pending rfl
      obtain rfl : call = .requestToken request primaryApprover now := hcall
      obtain ⟨hagent, hrequestKey⟩ := hmakes
      rw [server_run]
      refine ⟨pending, ⟨?_, ?_, ?_, hstored⟩⟩
      · rw [hresponse]
        rfl
      · rw [hclient, hsubject]
        exact hagent
      · intro k hk
        exact hkey k (hrequestKey ▸ hk)
    | failed err =>
      have hfailed : respond w call (.failed err) = .ofFailure call err := by cases call <;> rfl
      rw [hfailed, Response.ofFailure_not_ok] at hok
      cases hok
    | identity identity =>
      cases call with
      | authenticateAgent =>
        cases identity <;> cases hok
      | requestToken => exact hanswers.elim
      | _ => exact hmakes.elim
    | _ =>
      cases call with
      | authenticateAgent => exact hanswers.elim
      | requestToken => exact hanswers.elim
      | _ => exact hmakes.elim

end Ambit
