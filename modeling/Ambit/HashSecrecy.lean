import Ambit.HashSteps
import Ambit.SecretDelivery

/-! What the server sends does not depend on secret hashes, and carries none, but for one route: the
one that approves a request sends the whole record of the new token. -/

namespace Ambit

open Effect

variable {env : Env} {c c' : Config Exchange}

/-! ## Handlers -/

theorem Arrival.handle_unhashed (a : Arrival) (w : World) :
    a.handle env w.unhashed = a.handle env w := by
  obtain ⟨route, authorization, session, toggleKey, malformed, overLimit, settings, connection⟩ := a
  cases route with
  | listTokens =>
    have hvalues : w.unhashed.tokenStore.live.values = w.tokenStore.live.values.map Token.unhashed :=
      OrderedMap.values_mapValues ..
    simp only [Arrival.handle, hvalues, List.map_map]
    rfl
  | listAgents =>
    have hvalues : w.unhashed.agentIdentityStore.live.values =
        w.agentIdentityStore.live.values.map AgentIdentity.unhashed :=
      OrderedMap.values_mapValues ..
    simp only [Arrival.handle, hvalues, List.map_map]
    rfl
  | _ => rfl

theorem Exchange.next_unhashed (w : World) (x : Exchange) (call : Call) (o : Outcome) :
    x.next w.unhashed call o.unhashed = x.next w call o := by
  cases o with
  | identity i =>
    cases i with
    | none => cases call <;> rfl
    | some => cases call <;> rfl
  | done => cases call <;> rfl
  | _ => cases call <;> rfl

/-- What a finished call hands back is not the token of an approval. -/
def Settled.Tokenless {κ : Type} (s : Settled κ) : Prop :=
  ∀ input t, s.call = .approveRequest input → s.unhashed.outcome ≠ .token t

theorem respond_unhashed {s : Settled Exchange} (w : World) (h : s.Tokenless) :
    respond w.unhashed s.call s.unhashed.outcome = respond w s.call s.outcome := by
  obtain ⟨x, call, o⟩ := s
  cases o with
  | token t =>
    cases call with
    | approveRequest input => exact absurd rfl (h input t.unhashed rfl)
    | _ => rfl
  | delegation decision => cases decision <;> cases call <;> rfl
  | lineage l =>
    cases l with
    | none => cases call <;> rfl
    | some l =>
      have hchain : (l.chain.map Token.unhashed).map withoutSecretHash =
          l.chain.map withoutSecretHash := List.map_map ..
      have hlineage : respond w.unhashed call (Outcome.lineage (some l)).unhashed =
          .json 200 (.lineage ((l.chain.map Token.unhashed).map withoutSecretHash) l.origin) := by
        cases call <;> rfl
      refine hlineage.trans ?_
      rw [hchain]
      cases call <;> rfl
  | identity i => cases i <;> cases call <;> rfl
  | _ => cases call <;> rfl

/-- The fields `secretHash` of a body. -/
def Body.secretHashes : Body → List String
  | .token t => [t.secretHash]
  | _ => []

def Response.secretHashes (response : Response) : List String :=
  response.body.elim [] Body.secretHashes

theorem respond_hashless {s : Settled Exchange} (w : World) (h : s.Tokenless) :
    (respond w s.call s.outcome).secretHashes = [] := by
  obtain ⟨x, call, o⟩ := s
  cases o with
  | token t =>
    cases call with
    | approveRequest input => exact absurd rfl (h input t.unhashed rfl)
    | _ => rfl
  | failed err => cases call <;> cases err <;> rfl
  | done =>
    cases call with
    | recordLogin username matched => cases matched <;> rfl
    | _ => rfl
  | delegation decision => cases decision <;> cases call <;> rfl
  | lineage l => cases l <;> cases call <;> rfl
  | identity i => cases i <;> cases call <;> rfl
  | _ => cases call <;> rfl

/-- A response that is sent at once carries no hash. -/
def Handled.Hashless : Handled → Prop
  | .inl response => response.secretHashes = []
  | .inr _ => True

@[simp] theorem Handled.hashless_error (status : ℕ) (message : String) :
    Handled.Hashless (.inl (.error status message)) := rfl

@[simp] theorem Handled.hashless_call (next : Exchange × Call) : Handled.Hashless (.inr next) := trivial

theorem Handled.hashless_ite {p : Prop} [Decidable p] {x y : Handled} (hx : x.Hashless)
    (hy : y.Hashless) : Handled.Hashless (if p then x else y) := by
  split
  · exact hx
  · exact hy

theorem Arrival.requireSession_hashless (a : Arrival) {handle : Exchange → String → Handled}
    (h : ∀ x username, (handle x username).Hashless) : (a.requireSession handle).Hashless := by
  unfold Arrival.requireSession
  cases a.session with
  | unconfigured => exact rfl
  | invalid => exact Handled.hashless_ite rfl rfl
  | valid username => exact Handled.hashless_ite rfl (h _ username)

theorem Arrival.handle_hashless (a : Arrival) (w : World) : (a.handle env w).Hashless := by
  refine Handled.hashless_ite rfl (Handled.hashless_ite rfl ?_)
  cases a.route with
  | login =>
    refine Handled.hashless_ite rfl ?_
    split
    · split <;> exact Handled.hashless_call _
    · exact Handled.hashless_error _ _
  | registerAgent | deny | revoke | createPolicy | createRedactionRule =>
    exact a.requireSession_hashless fun _ _ => by split <;> simp
  | approve | modifyPolicy => exact a.requireSession_hashless fun _ _ => Handled.hashless_call _
  | listAgents => exact a.requireSession_hashless fun _ _ => rfl
  | submit | claimSecret => exact Handled.hashless_ite rfl trivial
  | enforce | delegate | access | mockEndpointDown | simulateOutage => simp only []; split <;> simp
  | showRequest =>
    simp only []
    split
    · exact Handled.hashless_error _ _
    · exact rfl
  | lineage | customerData => exact Handled.hashless_call _
  | listRequests | showCircuitBreaker | listTokens | listPolicies | listRedactionRules | auditLog
  | verifyAuditLog => exact rfl

/-! ## Steps of the server -/

/-- What the step is about to find of a hash. -/
def ServerAction.check (env : Env) (c : Config Exchange) : ServerAction → Option Bool
  | .resume i _ => c.check env i
  | _ => none

/-- The step goes on with an approval, and the breaker lets it through to the end. -/
def Config.Approves (env : Env) (c : Config Exchange) : ServerAction → Prop
  | .resume i _ => ∃ x f, c.inflight[i]? = some x ∧ x.frame = .approve f ∧ ¬ c.world.Rejects env
  | _ => False

/-- A call that has just started does not answer an approval. -/
theorem exec_call_tokenless (c : Config Exchange) (x : Exchange) (call : Call) :
    ∀ s ∈ (c.exec env (.call x call)).2, s.Tokenless := by
  rintro ⟨client, call', outcome⟩ hs input t rfl
  obtain ⟨-, rfl⟩ := Config.settle_settled.1 _ hs
  simp only [Config.exec, startCall] at hs
  cases hrun : approveRequest env input c.world with
  | ok frame w =>
    rw [bind_of_ok hrun] at hs
    cases hs
  | error err w =>
    rw [bind_of_error hrun] at hs
    cases hs
    exact Outcome.noConfusion

variable {ran ran' : Config Exchange × Option (Settled Exchange)}

/-- Where no approval is answered, the responses are the same. -/
theorem EndsAlike.responses (h : EndsAlike ran ran') (hless : ∀ s ∈ ran.2, s.Tokenless) :
    ran.2.map (fun s => respond ran.1.world s.call s.outcome) =
      ran'.2.map fun s => respond ran'.1.world s.call s.outcome := by
  obtain ⟨c, output⟩ := ran
  obtain ⟨c', output'⟩ := ran'
  obtain ⟨hc, houtput⟩ := h
  rcases option_cases houtput with ⟨rfl, rfl⟩ | ⟨s, s', rfl, rfl, hs⟩
  · rfl
  · have hw : c.world.unhashed = c'.world.unhashed := world_unhashed hc
    have hcall : s.call = s'.call := (congrArg Settled.call hs :)
    have hless' : s'.Tokenless := by
      intro input t hcall'
      rw [← hs]
      exact hless s rfl input t (hcall.trans hcall')
    refine congrArg some ?_
    show respond c.world s.call s.outcome = respond c'.world s'.call s'.outcome
    rw [← respond_unhashed c.world (hless s rfl), ← respond_unhashed c'.world hless', hw, hcall, hs]

/-- A handler goes on alike. -/
theorem EndsAlike.follow (h : EndsAlike ran ran') :
    (follow env ran).1.unhashed = (follow env ran').1.unhashed ∧
      ((∀ s ∈ ran.2, s.Tokenless) →
        (follow env ran).2.map Reply.response = (follow env ran').2.map Reply.response) := by
  have hresponses := h.responses
  obtain ⟨c, output⟩ := ran
  obtain ⟨c', output'⟩ := ran'
  obtain ⟨hc, houtput⟩ := h
  rcases option_cases houtput with ⟨rfl, rfl⟩ | ⟨s, s', rfl, rfl, hs⟩
  · exact ⟨hc, fun _ => rfl⟩
  have hc : c.unhashed = c'.unhashed := hc
  have hclient : s.client = s'.client := (congrArg Settled.client hs :)
  have hcall : s.call = s'.call := (congrArg Settled.call hs :)
  have houtcome : s.outcome.unhashed = s'.outcome.unhashed := (congrArg Settled.outcome hs :)
  have hnext : s.client.next c.world s.call s.outcome =
      s'.client.next c'.world s'.call s'.outcome := by
    rw [← Exchange.next_unhashed c.world, ← Exchange.next_unhashed c'.world, world_unhashed hc,
      hclient, hcall, houtcome]
  simp only [Ambit.follow, hnext]
  cases s'.client.next c'.world s'.call s'.outcome with
  | none => exact ⟨hc, hresponses⟩
  | some next =>
    obtain ⟨x, call⟩ := next
    have hran := endsAlike_exec env hc (.call x call) fun _ _ h => by cases h
    refine ⟨hran.config, fun _ => ?_⟩
    simp only [Option.map_map]
    exact hran.responses (exec_call_tokenless c x call)

/-- A call that is resumed does not answer an approval, unless the step approves. -/
theorem Config.Sound.exec_resume_tokenless (hc : c.Sound env) {i : ℕ} {downstream : Downstream}
    (h : ¬ c.Approves env (.resume i downstream)) :
    ∀ s ∈ (c.exec env (.resume i downstream)).2, s.Tokenless := by
  rintro ⟨client, call, outcome⟩ hs input t rfl
  simp only [Config.exec] at hs
  cases hx : c.inflight[i]? with
  | none =>
    rw [hx] at hs
    cases hs
  | some x =>
    rw [hx] at hs
    obtain ⟨-, hcall⟩ := Config.settle_settled.1 _ hs
    obtain ⟨hawaits, hholds⟩ := hc.frames x (List.mem_of_getElem? hx)
    obtain ⟨client', call', frame⟩ := x
    obtain rfl : Call.approveRequest input = call' := hcall
    cases frame with
    | approve f =>
      have hrejects : c.world.Rejects env := by
        by_contra hadmits
        exact h ⟨_, f, hx, rfl, hadmits⟩
      have hspec := f.resume_spec hc.world hholds.read hholds.id_eq hholds.issue
      simp only [resumeFrame, synchronously] at hs
      cases hrun : f.resume env c.world with
      | ok token w =>
        obtain ⟨-, -, hr⟩ | ⟨hadmits, -⟩ := wp_ok hspec hrun
        · cases hr
        · exact absurd hrejects hadmits
      | error err w =>
        rw [bind_of_error hrun] at hs
        cases hs
        exact Outcome.noConfusion
    | _ => exact hawaits.elim

theorem Config.Sound.served (hc : c.Sound env) (a : ServerAction) : (serve env c a).1.Sound env := by
  have hsteps : ∀ acts : List (Action Exchange), (acts.foldl (Config.step env) c).Sound env := by
    intro acts
    induction acts using List.reverseRecOn with
    | nil => exact hc
    | append_singleton acts b ih =>
      rw [List.foldl_concat]
      obtain ⟨e, hadvances⟩ := ih.exec b
      exact hadvances.sound
  rw [serve_fst]
  exact hsteps _

/-- **A step of the server ends alike**, with the same response unless it approves. -/
theorem Config.Sound.served_alike (hc : c.Sound env) (h : c.unhashed = c'.unhashed) {a : ServerAction}
    (hcheck : a.check env c = a.check env c') :
    (serve env c a).1.unhashed = (serve env c' a).1.unhashed ∧
      (¬ c.Approves env a →
        (serve env c a).2.map Reply.response = (serve env c' a).2.map Reply.response) := by
  cases a with
  | arrive a =>
    have hhandle : a.handle env c.world = a.handle env c'.world := by
      rw [← a.handle_unhashed, ← a.handle_unhashed c'.world, world_unhashed h]
    simp only [serve, hhandle]
    cases a.handle env c'.world with
    | inl response => exact ⟨h, fun _ => rfl⟩
    | inr next =>
      obtain ⟨x, call⟩ := next
      have hran := endsAlike_exec env h (.call x call) fun _ _ h => by cases h
      exact ⟨hran.follow.1, fun _ => hran.follow.2 (exec_call_tokenless c x call)⟩
  | resume i downstream =>
    have hran := endsAlike_exec env h (.resume i downstream) fun j _ hj => by
      cases hj
      exact hcheck
    exact ⟨hran.follow.1, fun happroves => hran.follow.2 (hc.exec_resume_tokenless happroves)⟩
  | clock t =>
    exact ⟨(endsAlike_exec env h (.clock t) fun _ _ h => by cases h).config, fun _ => rfl⟩
  | restart =>
    exact ⟨(endsAlike_exec env h .restart fun _ _ h => by cases h).config, fun _ => rfl⟩

/-- An approval that goes through is answered with the token that it stores. -/
theorem serve_approve {i : ℕ} (downstream : Downstream) {x : InFlight Exchange} {f : ApproveFrame}
    (hw : c.world.Sound env) (hx : c.inflight[i]? = some x) (hframe : x.frame = .approve f)
    (hcall : x.call = .approveRequest f.input)
    (hf : f.Sound env c.world.ledger c.world.supply) (hadmits : ¬ c.world.Rejects env) :
    ∃ id, (serve env c (.resume i downstream)).2.map Reply.response =
      some (.json 200 (.token (f.issue.token env id))) := by
  have hspec := f.resume_spec hw hf.read hf.id_eq hf.issue
  obtain ⟨client, call, frame⟩ := x
  obtain rfl : frame = .approve f := hframe
  obtain rfl : call = .approveRequest f.input := hcall
  cases hrun : f.resume env c.world with
  | error err w =>
    obtain ⟨-, hrejects, -⟩ | ⟨-, id, -, hr⟩ := wp_error hspec hrun
    · exact absurd hrejects hadmits
    · cases hr
  | ok t w =>
    obtain ⟨-, -, hr⟩ | ⟨-, id, -, hr⟩ := wp_ok hspec hrun
    · cases hr
    · obtain rfl : t = f.issue.token env id := Except.ok.inj hr
      refine ⟨id, ?_⟩
      simp only [serve, Config.exec, hx, resumeFrame, synchronously, bind_of_ok hrun]
      rfl

/-! ## What leaves the server -/

/-- The response to the step carries no secret hash. -/
def Config.SendsNoHash (env : Env) (c : Config Exchange) (a : ServerAction) : Prop :=
  ∀ reply ∈ (serve env c a).2, reply.response.secretHashes = []

/-- A state with other hashes cannot be told from this one by the response to the step, unless the
step finds another answer where it checks one. -/
def Config.HidesHashes (env : Env) (c : Config Exchange) (a : ServerAction) : Prop :=
  ∀ c' : Config Exchange, c'.unhashed = c.unhashed → a.check env c' = a.check env c →
    (serve env c' a).2.map Reply.response = (serve env c a).2.map Reply.response

/-- What a handler sends after a piece of its call carries no hash, if it does not answer an approval. -/
theorem follow_hashless (hless : ∀ s ∈ ran.2, s.Tokenless) :
    ∀ reply ∈ (follow env ran).2, reply.response.secretHashes = [] := by
  obtain ⟨c, output⟩ := ran
  cases output with
  | none => exact fun reply hreply => by cases hreply
  | some s =>
    simp only [follow]
    cases s.client.next c.world s.call s.outcome with
    | none =>
      intro reply hreply
      cases hreply
      exact respond_hashless c.world (hless s rfl)
    | some next =>
      obtain ⟨x, call⟩ := next
      intro reply hreply
      obtain ⟨s', hs', rfl⟩ := Option.map_eq_some_iff.mp hreply
      exact respond_hashless _ (exec_call_tokenless c x call s' hs')

theorem Config.Sound.sendsNoHash (hc : c.Sound env) {a : ServerAction} (h : ¬ c.Approves env a) :
    c.SendsNoHash env a := by
  cases a with
  | arrive a =>
    have hhandle : (a.handle env c.world).Hashless := a.handle_hashless c.world
    unfold Config.SendsNoHash
    simp only [serve]
    cases hnext : a.handle env c.world with
    | inl response =>
      rw [hnext] at hhandle
      intro reply hreply
      cases hreply
      exact hhandle
    | inr next => exact follow_hashless (exec_call_tokenless c next.1 next.2)
  | resume i downstream => exact follow_hashless (hc.exec_resume_tokenless h)
  | clock | restart => exact fun reply hreply => by cases hreply

/-- The suspended approval of a token with another hash. -/
def ApproveFrame.resalted (f : ApproveFrame) : ApproveFrame :=
  { f with issue := { f.issue with salt := 0 :: f.issue.salt } }

theorem ApproveFrame.Sound.resalted {L : Ledger} {supply : ℕ} {f : ApproveFrame}
    (h : f.Sound env L supply) : f.resalted.Sound env L supply where
  read := h.read
  id_eq := h.id_eq
  status_eq := h.status_eq
  eligible := h.eligible
  issue := { h.issue with salt_ne := List.cons_ne_nil _ _ }

/-- The state with another hash on its way. -/
def Config.resalted (c : Config Exchange) (i : ℕ) (x : InFlight Exchange) (f : ApproveFrame) :
    Config Exchange :=
  { c with inflight := c.inflight.set i { x with frame := .approve f.resalted } }

theorem Config.resalted_unhashed {i : ℕ} {x : InFlight Exchange} {f : ApproveFrame}
    (hx : c.inflight[i]? = some x) (hframe : x.frame = .approve f) :
    (c.resalted i x f).unhashed = c.unhashed := by
  obtain ⟨client, call, frame⟩ := x
  obtain rfl : frame = .approve f := hframe
  obtain ⟨hi, hget⟩ := List.getElem?_eq_some_iff.mp hx
  refine Config.unhashed_eq rfl ?_
  show (c.inflight.set i _).map InFlight.unhashed = _
  have hsame : InFlight.unhashed ⟨client, call, .approve f.resalted⟩ =
      InFlight.unhashed ⟨client, call, .approve f⟩ := rfl
  rw [List.map_set, hsame, ← hget, ← List.map_set, List.set_getElem_self]

theorem Call.Awaits.approve {call : Call} {f : ApproveFrame} (h : call.Awaits (.approve f)) :
    call = .approveRequest f.input := by
  cases call with
  | approveRequest => exact congrArg Call.approveRequest h.symm
  | _ => exact h.elim

/-- A step that approves shows the hash of the new token. -/
theorem Config.Sound.shows (hc : c.Sound env) {a : ServerAction} (h : c.Approves env a) :
    ¬ c.SendsNoHash env a ∧ ¬ c.HidesHashes env a := by
  cases a with
  | resume i downstream =>
    obtain ⟨x, f, hx, hframe, hadmits⟩ := h
    obtain ⟨hawaits, hholds⟩ := hc.frames x (List.mem_of_getElem? hx)
    rw [hframe] at hawaits hholds
    have hcall := hawaits.approve
    obtain ⟨id, hsent⟩ := serve_approve downstream hc.world hx hframe hcall hholds hadmits
    refine ⟨fun hnone => ?_, fun hhides => ?_⟩
    · obtain ⟨reply, hreply, hresponse⟩ := Option.map_eq_some_iff.mp hsent
      have hempty := hnone reply hreply
      rw [hresponse] at hempty
      cases hempty
    · have hi := (List.getElem?_eq_some_iff.mp hx).1
      let y : InFlight Exchange := { x with frame := .approve f.resalted }
      have hy : (c.resalted i x f).inflight[i]? = some y := List.getElem?_set_self hi
      have hcall' : y.call = .approveRequest f.resalted.input := hcall
      have hworld : (c.resalted i x f).world.Sound env := hc.world
      have hcheck : (ServerAction.resume i downstream).check env (c.resalted i x f) =
          (ServerAction.resume i downstream).check env c := by
        simp only [ServerAction.check, Config.check, hy, hx, hframe, Option.bind_some, Frame.check, y]
      have hframe' : f.resalted.Sound env (c.resalted i x f).world.ledger
          (c.resalted i x f).world.supply := ApproveFrame.Sound.resalted hholds
      obtain ⟨id', hsent'⟩ := serve_approve downstream hworld hy rfl hcall' hframe' hadmits
      have hsame := hhides _ (Config.resalted_unhashed hx hframe) hcheck
      rw [hsent, hsent'] at hsame
      have htokens : f.resalted.issue.token env id' = f.issue.token env id := by
        injections
      have hsalts := salt_of_hashPassword _ (congrArg Token.secretHash htokens)
      exact List.cons_ne_self _ _ hsalts
  | _ => exact h.elim

/-- The responses to actions taken from a state on. -/
def responsesFrom (env : Env) (c : Config Exchange) (acts : List ServerAction) : List Response :=
  ((serverMachine env).outputsFrom (fun c a => (serve env c a).2) c acts).map Reply.response

/-- Taken from the one state or the other, no action approves, and each that checks a hash finds the
same. -/
def Config.ChecksAlike (env : Env) (c c' : Config Exchange) (acts : List ServerAction) : Prop :=
  ∀ pre a post, acts = pre ++ a :: post →
    let d := pre.foldl (serverMachine env).step c
    ¬ d.Approves env a ∧ a.check env d = a.check env (pre.foldl (serverMachine env).step c')

theorem responsesFrom_cons (a : ServerAction) (acts : List ServerAction) : responsesFrom env c (a :: acts) =
    ((serve env c a).2.map Reply.response).toList ++ responsesFrom env (serve env c a).1 acts := by
  unfold responsesFrom
  rw [Machine.outputsFrom, List.map_append]
  cases (serve env c a).2 <;> rfl

/-- Responses along a run do not depend on hashes. -/
theorem Config.Sound.responsesFrom_alike (hc : c.Sound env) (h : c.unhashed = c'.unhashed)
    {acts : List ServerAction} (hacts : c.ChecksAlike env c' acts) :
    responsesFrom env c acts = responsesFrom env c' acts := by
  induction acts generalizing c c' with
  | nil => rfl
  | cons a acts ih =>
    obtain ⟨happroves, hcheck⟩ := hacts [] a acts rfl
    obtain ⟨hnext, hresponse⟩ := hc.served_alike h hcheck
    have hrest := ih (hc.served a) hnext fun pre b post hb => hacts (a :: pre) b post (by rw [hb]; rfl)
    rw [responsesFrom_cons, responsesFrom_cons, hresponse happroves, hrest]

/-- **The secret hashes stay in the server but for approvals**: a response to any other step carries
none and depends on none, and so do the responses along any run from there on. -/
theorem secretHashes_stay_iff (acts : List ServerAction) :
    let c := (serverMachine env).run acts
    (∀ a, (c.SendsNoHash env a ↔ ¬ c.Approves env a) ∧
      (c.HidesHashes env a ↔ ¬ c.Approves env a)) ∧
    ∀ c' more, c.unhashed = c'.unhashed → c.ChecksAlike env c' more →
      responsesFrom env c more = responsesFrom env c' more := by
  intro c
  have hc : c.Sound env := by
    have hrun := @Config.sound_run env Exchange (processTrace env acts)
    rwa [← server_run] at hrun
  refine ⟨fun a => ⟨⟨fun hsends happroves => (hc.shows happroves).1 hsends, hc.sendsNoHash⟩,
    fun hhides happroves => (hc.shows happroves).2 hhides, fun happroves c' h hcheck => ?_⟩,
    fun c' more h hmore => hc.responsesFrom_alike h hmore⟩
  exact ((hc.served_alike h.symm hcheck.symm).2 happroves).symm

/-- The response to an approval has the hash of the new token. -/
theorem not_secretHashes_stay :
    ¬ ∀ acts a, ((serverMachine sampleEnv).run acts).SendsNoHash sampleEnv a := by
  intro h
  have hsent : (serve sampleEnv ((serverMachine sampleEnv).run (sampleApproved.take 5))
      (.resume 0 .responded)).2.map (fun reply => reply.response.secretHashes.length) = some 1 := by
    decide +kernel
  obtain ⟨reply, hreply, hlength⟩ := Option.map_eq_some_iff.mp hsent
  rw [h _ _ reply hreply] at hlength
  cases hlength

end Ambit
