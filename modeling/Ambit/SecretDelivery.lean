import Ambit.SamplePlatform
import Ambit.SecretCustody
import Ambit.Server

/-! Delivery of the secrets of approved tokens over HTTP. A response that carries a secret is the
outcome of the last call of its handler, so what custody says of the calls holds of the responses.
The one leak is a submission that is retried: the stored request comes back with the secret. -/

namespace Ambit

variable {env : Env} {c : Config Exchange}

/-- The token secrets that a response carries. -/
def Body.tokenSecrets : Body → List String
  | .request pending => pending.tokenSecret.toList
  | .requests pending => pending.flatMap fun r => r.tokenSecret.toList
  | .claimed _ secret => [secret]
  | .delegated _ secret => [secret]
  | _ => []

def Response.tokenSecrets (r : Response) : List String := r.body.toList.flatMap Body.tokenSecrets

def Reply.tokenSecrets (r : Reply) : List String := r.response.tokenSecrets

/-! ## Responses and calls -/

theorem Response.ofError_tokenSecrets (err : Err) : (Response.ofError err).tokenSecrets = [] := by
  cases err <;> rfl

theorem Response.ofFailure_tokenSecrets (call : Call) (err : Err) :
    (Response.ofFailure call err).tokenSecrets = [] := by
  unfold Response.ofFailure
  split
  all_goals first | rfl | exact Response.ofError_tokenSecrets _

/-- A response carries the secrets that its call hands out, and no other. -/
theorem respond_tokenSecrets (w : World) (call : Call) (outcome : Outcome) :
    (respond w call outcome).tokenSecrets = outcome.tokenSecrets := by
  cases outcome with
  | failed err => exact Response.ofFailure_tokenSecrets call err
  | identity identity => cases identity <;> rfl
  | delegation decision => cases decision <;> rfl
  | lineage lineage => cases lineage <;> rfl
  | token => cases call <;> rfl
  | policy => cases call <;> rfl
  | done =>
    cases call with
    | recordLogin username matched now => cases matched <;> rfl
    | _ => rfl
  | request => exact List.append_nil _
  | _ => rfl

/-! ## Handlers -/

/-- Whether a handler responds without a secret, or makes a first call that claims none. -/
def Handled.Reticent : Handled → Prop
  | .inl response => response.tokenSecrets = []
  | .inr (_, .claimTokenSecret _ _ _) => False
  | .inr _ => True

theorem Arrival.requireSession_reticent (a : Arrival) {f : Exchange → String → Handled}
    (hf : ∀ x username, (f x username).Reticent) : (a.requireSession f).Reticent := by
  unfold Arrival.requireSession
  split
  · rfl
  · split <;> rfl
  · split
    · rfl
    · exact hf _ _

theorem Arrival.requireAgentCredential_reticent (a : Arrival) :
    a.requireAgentCredential.Reticent := by
  unfold Arrival.requireAgentCredential
  split
  · rfl
  · trivial

/-- The routes that read show no secret: a pending request holds none, and the route of a single
request leaves it out. -/
theorem handle_reticent (hc : c.Sound env) (a : Arrival) : (a.handle env c.world).Reticent := by
  have hpending : ((pendingRequests c.world).flatMap fun r => r.tokenSecret.toList) = [] := by
    refine List.flatMap_eq_nil_iff.mpr fun r hr => ?_
    obtain ⟨hmem, hstatus⟩ := List.mem_filter.mp hr
    obtain ⟨i, hi⟩ := OrderedMap.mem_values_iff.mp hmem
    have hlinked := hc.linked.requests.linked i r hi
    rw [(hlinked.of_pending (of_decide_eq_true hstatus)).2]
    rfl
  unfold Arrival.handle
  split
  · rfl
  split
  · rfl
  cases a.route with
  | submit | claimSecret => exact a.requireAgentCredential_reticent
  | listRequests => exact (List.append_nil _).trans hpending
  | showRequest id =>
    dsimp only
    cases c.world.requestStore.live.get id <;> rfl
  | login username password totpCode matched =>
    dsimp only
    split
    · rfl
    split
    · split <;> trivial
    · rfl
  | registerAgent | deny | revoke | createPolicy | createRedactionRule =>
    refine a.requireSession_reticent fun x username => ?_
    split <;> trivial
  | listAgents => exact a.requireSession_reticent fun x username => rfl
  | approve | modifyPolicy => exact a.requireSession_reticent fun x username => trivial
  | enforce | delegate | access | mockEndpointDown | simulateOutage =>
    dsimp only
    split <;> trivial
  | _ => trivial

/-- The claim that a handler goes on to make is of its route's request, for the agent that has
authenticated. -/
theorem Exchange.next_claims {w : World} {x x' : Exchange} {call : Call} {outcome : Outcome}
    {requestId subject : String} {now : Int}
    (h : x.next w call outcome = some (x', .claimTokenSecret requestId subject now)) :
    x'.arrival.route = .claimSecret requestId ∧ x'.agentIdentity = some subject := by
  unfold Exchange.next at h
  split at h
  · dsimp only at h
    split at h
    · cases h
    · rename_i hroute
      cases h
      exact ⟨hroute, rfl⟩
    · cases h
  · split at h <;> cases h
  · cases h
  · cases h

/-! ## A step of the server -/

/-- The calls that the pieces of an action end. -/
def settledBy (env : Env) (c : Config Exchange) (acts : List (Action Exchange)) :
    List (Settled Exchange) :=
  (processMachine Exchange env).outputsFrom (fun c a => (c.exec env a).2) c acts

theorem settledCalls_trace (acts : List ServerAction) (a : ServerAction) :
    settledCalls env (processTrace env (acts ++ [a])) = settledCalls env (processTrace env acts) ++
      settledBy env ((serverMachine env).run acts) (pieces env ((serverMachine env).run acts) a) := by
  rw [processTrace, Machine.trace_snoc, settledCalls, Machine.outputs_append, settledCalls,
    server_run, processTrace, settledBy]

/-- The response is what its handler sends when the call has ended. -/
def Reply.Answers (reply : Reply) (s : Settled Exchange) : Prop :=
  reply.exchange = s.client ∧ ∃ w, reply.response = respond w s.call s.outcome

/-- A handler responds with the last call that it made. -/
theorem follow_answers {ran : Config Exchange × Option (Settled Exchange)} {reply : Reply}
    (h : (follow env ran).2 = some reply) : ∃ front s,
    ran.2.toList ++ settledBy env ran.1 (followUp ran) = front ++ [s] ∧ reply.Answers s := by
  obtain ⟨c, output⟩ := ran
  cases output with
  | none => cases h
  | some s =>
    simp only [follow, followUp, Option.bind_some] at h ⊢
    cases hnext : s.client.next c.world s.call s.outcome with
    | none =>
      rw [hnext] at h
      cases h
      exact ⟨[], s, rfl, rfl, _, rfl⟩
    | some next =>
      rw [hnext] at h
      obtain ⟨s', hs', rfl⟩ := Option.map_eq_some_iff.mp h
      refine ⟨[s], s', ?_, rfl, _, rfl⟩
      simp only [settledBy, Option.map_some, Option.toList_some, Machine.outputsFrom, hs',
        List.append_nil]

/-- A response is sent at once, or answers the last call that its handler made. -/
theorem serve_replies {a : ServerAction} {reply : Reply} (h : (serve env c a).2 = some reply) :
    (∃ arrival response, a = .arrive arrival ∧ arrival.handle env c.world = .inl response ∧
      reply = ⟨{ arrival }, response⟩) ∨
    ∃ front s, settledBy env c (pieces env c a) = front ++ [s] ∧ reply.Answers s := by
  cases a with
  | arrive a =>
    simp only [serve, pieces] at h ⊢
    cases hhandle : a.handle env c.world with
    | inl response =>
      rw [hhandle] at h
      cases h
      exact .inl ⟨a, response, rfl, hhandle, rfl⟩
    | inr next =>
      rw [hhandle] at h
      exact .inr (follow_answers h)
  | resume i downstream => exact .inr (follow_answers h)
  | clock | restart => cases h

theorem serve_answers (hc : c.Sound env) {a : ServerAction} {reply : Reply}
    (h : (serve env c a).2 = some reply) : reply.tokenSecrets = [] ∨
      ∃ front s, settledBy env c (pieces env c a) = front ++ [s] ∧ reply.Answers s := by
  rcases serve_replies h with ⟨arrival, response, rfl, hhandle, rfl⟩ | hanswers
  · have hreticent := handle_reticent hc arrival
    rw [hhandle] at hreticent
    exact .inl hreticent
  · exact .inr hanswers

/-- A claim is made by its route, for the agent that has authenticated. -/
theorem pieces_claims (hc : c.Sound env) {a : ServerAction} {x : Exchange}
    {requestId subject : String} {now : Int}
    (h : Action.call x (.claimTokenSecret requestId subject now) ∈ pieces env c a) :
    x.arrival.route = .claimSecret requestId ∧ x.agentIdentity = some subject := by
  have hfollow : ∀ ran : Config Exchange × Option (Settled Exchange),
      Action.call x (.claimTokenSecret requestId subject now) ∈ followUp ran →
      x.arrival.route = .claimSecret requestId ∧ x.agentIdentity = some subject := by
    intro ran hmem
    obtain ⟨next, hnext, hcall⟩ := Option.map_eq_some_iff.mp (Option.mem_toList.mp hmem)
    obtain ⟨s, -, hnext⟩ := Option.bind_eq_some_iff.mp hnext
    obtain ⟨x', call⟩ := next
    cases hcall
    exact Exchange.next_claims hnext
  cases a with
  | arrive a =>
    have hreticent := handle_reticent hc a
    simp only [pieces] at h
    cases hhandle : a.handle env c.world with
    | inl response =>
      rw [hhandle] at h
      cases h
    | inr next =>
      rw [hhandle] at h hreticent
      obtain ⟨x', call⟩ := next
      rcases List.mem_cons.mp h with hcall | hmem
      · cases hcall
        exact hreticent.elim
      · exact hfollow _ hmem
  | resume i downstream =>
    rcases List.mem_cons.mp h with hcall | hmem
    · cases hcall
    · exact hfollow _ hmem
  | clock | restart => cases List.mem_singleton.mp h

/-! ## Runs of the server -/

theorem replies_snoc (acts : List ServerAction) (a : ServerAction) :
    replies env (acts ++ [a]) =
      replies env acts ++ (serve env ((serverMachine env).run acts) a).2.toList :=
  Machine.outputs_snoc

theorem Config.sound_server (acts : List ServerAction) : ((serverMachine env).run acts).Sound env := by
  rw [server_run]
  exact Config.sound_run _

/-- The secrets that responses carry were handed out by calls, once each. -/
theorem replies_handedOut (acts : List ServerAction) :
    ((replies env acts).flatMap Reply.tokenSecrets).Sublist
      (handedOut (settledCalls env (processTrace env acts))) := by
  refine Machine.run_induction (P := fun acts => ((replies env acts).flatMap
    Reply.tokenSecrets).Sublist (handedOut (settledCalls env (processTrace env acts)))) acts
    (List.Sublist.refl _) fun acts a ih => ?_
  rw [replies_snoc, settledCalls_trace, handedOut, List.flatMap_append, List.flatMap_append]
  refine ih.append ?_
  cases hreply : (serve env ((serverMachine env).run acts) a).2 with
  | none => exact List.nil_sublist _
  | some reply =>
    rw [Option.toList_some, List.flatMap_singleton]
    obtain hnone | ⟨front, s, hsettled, -, w, hresponse⟩ :=
      serve_answers (Config.sound_server acts) hreply
    · rw [hnone]
      exact List.nil_sublist _
    · rw [hsettled, List.flatMap_append, List.flatMap_singleton, Reply.tokenSecrets, hresponse,
        respond_tokenSecrets]
      exact List.sublist_append_right _ _

/-- A response that carries a secret answers a call of the run. -/
theorem answers_of_mem_replies {acts : List ServerAction} {reply : Reply}
    (h : reply ∈ replies env acts) (hsecrets : reply.tokenSecrets ≠ []) :
    ∃ s ∈ settledCalls env (processTrace env acts), reply.Answers s := by
  induction acts using List.reverseRecOn with
  | nil => cases h
  | append_singleton acts a ih =>
    rw [replies_snoc] at h
    rw [settledCalls_trace]
    rcases List.mem_append.mp h with h | h
    · obtain ⟨s, hs, hanswers⟩ := ih h
      exact ⟨s, List.mem_append_left _ hs, hanswers⟩
    · obtain hnone | ⟨front, s, hsettled, hanswers⟩ :=
        serve_answers (Config.sound_server acts) (Option.mem_toList.mp h)
      · exact absurd hnone hsecrets
      · refine ⟨s, List.mem_append_right _ ?_, hanswers⟩
        rw [hsettled]
        exact List.mem_append_right _ (List.mem_singleton.mpr rfl)

/-- The request `requestId` has held the secret of the token `tokenId` that its approval issued. -/
def SecretOf (env : Env) (acts : List ServerAction) (requestId tokenId secret : String) : Prop :=
  ∃ pre post r, acts = pre ++ post ∧
    ((serverMachine env).run pre).world.requestStore.live.get requestId = some r ∧
    r.tokenId = some tokenId ∧ r.tokenSecret = some secret

theorem SecretOf.wasHeld {acts : List ServerAction} {requestId tokenId secret : String}
    (h : SecretOf env acts requestId tokenId secret) :
    WasHeld env (processTrace env acts) requestId tokenId secret := by
  obtain ⟨pre, post, r, rfl, hr, htoken, hsecret⟩ := h
  refine ⟨processTrace env pre, (serverMachine env).traceFrom (pieces env)
    ((serverMachine env).run pre) post, ?_, r, ?_, htoken, hsecret⟩
  · exact Machine.trace_append pre post
  · rw [← server_run]
    exact hr

/-- The `token_secret_claimed` entries of a token. -/
def claimEntries (w : World) (tokenId : String) : ℕ :=
  w.auditLog.entries.countP fun e => isClaimOf tokenId e.toAuditEntryInput

theorem claimEntries_eq (w : World) (tokenId : String) :
    claimEntries w tokenId = w.ledger.log.countP (isClaimOf tokenId) := by
  show _ = ((w.auditLog.entries.map _).filter _).countP _
  rw [List.countP_filter, List.countP_map, claimEntries]
  refine List.countP_congr fun e _ => ?_
  constructor
  · intro hclaim
    obtain ⟨-, hdecision⟩ := of_decide_eq_true hclaim
    have hnote : e.toAuditEntryInput.noteworthy = true := by
      simp [AuditEntryInput.noteworthy, hdecision]
    exact Bool.and_eq_true_iff.mpr ⟨hclaim, hnote⟩
  · exact fun h => (Bool.and_eq_true_iff.mp h).1

/-- The response claims the secret for the subject that submitted the request, and the claim is
logged once. -/
structure Reply.Delivers (reply : Reply) (w : World) (requestId tokenId secret : String) : Prop where
  route : reply.exchange.arrival.route = .claimSecret requestId
  subject : ∃ r, w.requestStore.live.get requestId = some r ∧
    reply.exchange.agentIdentity = some r.subject
  response : reply.response = .json 200 (.claimed tokenId secret)
  logged : claimEntries w tokenId = 1

/-- The secrets of approved tokens are delivered at most once: at most one response of the run
carries the secret, and it is the one that claims it. -/
structure DeliveredOnce (env : Env) (acts : List ServerAction) : Prop where
  once : ∀ requestId tokenId secret, SecretOf env acts requestId tokenId secret →
    (replies env acts).countP (fun reply => secret ∈ reply.tokenSecrets) ≤ 1
  claimed : ∀ requestId tokenId secret, SecretOf env acts requestId tokenId secret →
    ∀ reply ∈ replies env acts, secret ∈ reply.tokenSecrets →
      reply.Delivers ((serverMachine env).run acts).world requestId tokenId secret

/-- No submission that is processed along the run finds a stored request that holds a secret. -/
def RetriesFindNoSecret (env : Env) (acts : List ServerAction) : Prop :=
  (processMachine Exchange env).Meets Config.FindsNoSecret (processTrace env acts)

/-- An element of a duplicate-free concatenation stands in one of the parts only. -/
theorem countP_mem_le_one {α β : Type} [DecidableEq β] {f : α → List β} {l : List α}
    (h : (l.flatMap f).Nodup) (b : β) : l.countP (fun a => b ∈ f a) ≤ 1 := by
  induction l with
  | nil => exact Nat.zero_le 1
  | cons a l ih =>
    rw [List.flatMap_cons] at h
    obtain ⟨-, hrest, hapart⟩ := List.nodup_append.mp h
    by_cases hmem : b ∈ f a
    · have hzero : l.countP (fun a => b ∈ f a) = 0 := by
        refine List.countP_eq_zero.mpr fun a' ha' hb => ?_
        exact hapart b hmem b (List.mem_flatMap.mpr ⟨a', ha', of_decide_eq_true hb⟩) rfl
      rw [List.countP_cons, hzero, if_pos (decide_eq_true hmem)]
    · rw [List.countP_cons, if_neg (by simpa using hmem)]
      exact ih hrest

/-- **A token's secret is delivered at most once.** In a run of requests whose retried submissions
find no secret, every secret of an approved token is in at most one response: the one that claims
it for the subject that submitted the request. -/
theorem deliveredOnce_of_retriesFindNoSecret {acts : List ServerAction}
    (h : RetriesFindNoSecret env acts) : DeliveredOnce env acts where
  once requestId tokenId secret _ := by
    refine countP_mem_le_one ((custody_run h).nodup.sublist ?_) secret
    exact (replies_handedOut acts).trans (List.sublist_append_right _ _)
  claimed requestId tokenId secret hsecret reply hreply hmem := by
    have hcustody := custody_run h
    obtain ⟨s, hs, hexchange, w, hresponse⟩ :=
      answers_of_mem_replies hreply (List.ne_nil_of_mem hmem)
    have hhanded : secret ∈ s.outcome.tokenSecrets := by
      rwa [Reply.tokenSecrets, hresponse, respond_tokenSecrets] at hmem
    obtain ⟨houtcome, hlogged, r, now, hr, hcall⟩ :=
      hcustody.claimed requestId tokenId secret hsecret.wasHeld s hs hhanded
    have hstarted := started_of_settled hs
    rw [hcall] at hstarted
    obtain ⟨pre, a, post, -, hpiece⟩ := Machine.mem_trace hstarted
    obtain ⟨hroute, hagent⟩ := pieces_claims (Config.sound_server pre) hpiece
    rw [← server_run] at hr hlogged
    refine ⟨hexchange ▸ hroute, ⟨r, hr, hexchange ▸ hagent⟩, ?_, ?_⟩
    · rw [hresponse, hcall, houtcome]
      rfl
    · have honce := hcustody.claims.once tokenId
      rw [← server_run] at honce
      rw [claimEntries_eq]
      omega

/-! ## A retried submission -/

def sampleOperator (route : Route) : ServerAction :=
  .arrive { route, authorization := some "Bearer session", session := .valid "alice" }

def sampleAgent (route : Route) : ServerAction :=
  .arrive { route, authorization := some "Bearer id-2.secret-3" }

def sampleSubmission : Route := .submit (some ["a"]) (some (.finite 60)) (some "key")

/-- An agent registers and submits a request, which is approved. -/
def sampleApproved : List ServerAction :=
  [sampleOperator (.registerAgent (some "agent")), .resume 0 .responded,
   sampleAgent sampleSubmission, .resume 0 .responded,
   sampleOperator (.approve "id-6" none), .resume 0 .responded]

/-- The agent claims the secret, and retries the claim and the submission. -/
def sampleClaimed : List ServerAction :=
  sampleApproved ++ [sampleAgent (.claimSecret "id-6"), .resume 0 .responded,
    sampleAgent (.claimSecret "id-6"), .resume 0 .responded,
    sampleAgent sampleSubmission, .resume 0 .responded]

theorem deliveredOnce_of_retriesFindNoSecret_sample : DeliveredOnce sampleEnv sampleClaimed :=
  deliveredOnce_of_retriesFindNoSecret (Machine.meets_of_check (by decide +kernel))

/-- The agent retries the submission before it claims the secret. -/
def sampleRetried : List ServerAction :=
  sampleApproved ++ [sampleAgent sampleSubmission, .resume 0 .responded,
    sampleAgent (.claimSecret "id-6"), .resume 0 .responded]

/-- The retried submission returns the stored request, with the secret. -/
theorem not_deliveredOnce : ¬ DeliveredOnce sampleEnv sampleRetried := by
  intro h
  have hstored : (((serverMachine sampleEnv).run sampleApproved).world.requestStore.live.get
      "id-6").map (fun r => (r.tokenId, r.tokenSecret)) = some (some "id-10", some "secret-8") := by
    decide +kernel
  obtain ⟨r, hr, hfields⟩ := Option.map_eq_some_iff.mp hstored
  have hsecret : SecretOf sampleEnv sampleRetried "id-6" "id-10" "secret-8" :=
    ⟨sampleApproved, _, r, rfl, hr, congrArg Prod.fst hfields, congrArg Prod.snd hfields⟩
  have htwo : (replies sampleEnv sampleRetried).countP
      (fun reply => "secret-8" ∈ reply.tokenSecrets) = 2 := by decide +kernel
  have hone := h.once _ _ _ hsecret
  rw [htwo] at hone
  exact absurd hone (by decide)

end Ambit
