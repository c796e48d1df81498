import Ambit.ApprovedUses
import Ambit.FieldRedaction
import Ambit.StandardRule

/-! The customers' personal data at the routes. What a response shows of them is what the rule that the
server made leaves for the token, and each personal field that it shows goes back to an approval of the
scope that the rule requires. -/

namespace Ambit

open Effect

variable {env : Env} {κ : Type} {w : World} {L : Ledger} {input : CustomerAccessInput}
  {result : RedactionResult}

/-! ## One access -/

/-- The result is what the first rule leaves of the customer's record for the stored token. -/
def Discloses (env : Env) (L : Ledger) (input : CustomerAccessInput) (result : RedactionResult) : Prop :=
  ∃ record token, env.customerRegistry input.customerId = some record ∧
    L.tokens input.tokenId = some token ∧ result = applyRedaction record (firstRule env) token.scope

theorem Discloses.after {p : Platform} {e : Event} (h : Discloses env L input result)
    (he : L.Enabled p e) : Discloses env (L.after e) input result := by
  obtain ⟨record, token, hrecord, htoken, hresult⟩ := h
  have hsame := Ledger.sameTerms_changedToken e input.tokenId token
  refine ⟨record, _, hrecord, he.token_stays htoken, ?_⟩
  rw [hsame.scope_eq]
  exact hresult

/-- What an access to customer data ends with, if it ends with data. -/
def DisclosesIn (env : Env) (L : Ledger) (input : CustomerAccessInput)
    (r : Except Err CustomerDataAccessResult) : Prop :=
  ∀ data fields, r = .ok (.data data fields) → Discloses env L input ⟨data, fields⟩

theorem wp_customerDataAfter_discloses (hrules : w.RulesSound env)
    (hid : input.redactionRuleId = (firstRule env).id) {token : Token}
    (htoken : w.ledger.tokens input.tokenId = some token) (decision : EnforcementDecision) :
    wp (customerDataAfter env input decision) (fun r _ => DisclosesIn env w.ledger input r) w := by
  cases decision with
  | denied => exact wp_pure fun _ _ h => by cases h
  | allowed =>
    cases hrecord : env.customerRegistry input.customerId with
    | none =>
      simp only [customerDataAfter, hrecord]
      refine wp_bind (wp_any fun r w' => ?_)
      cases r with
      | error => exact fun _ _ h => by cases h
      | ok => exact wp_pure fun _ _ h => by cases h
    | some record =>
      have hrule : w.redactionRuleStore.live.get input.redactionRuleId = some (firstRule env) := by
        rw [hid]
        exact hrules.get_first
      refine wp_congr (customerDataAfter_ruled hrecord hrule) (wp_bind ?_)
      refine wp_mono (TokenStore.wp_get_found input.tokenId) fun r w' hfound => ?_
      cases r with
      | error => exact fun _ _ h => by cases h
      | ok found =>
        obtain rfl : found = some token := hfound.trans htoken
        refine wp_bind (wp_any fun r w'' => ?_)
        cases r with
        | error => exact fun _ _ h => by cases h
        | ok =>
          refine wp_pure fun data fields h => ?_
          cases h
          exact ⟨record, token, hrecord, htoken, rfl⟩

theorem CustomerAccessFrame.wp_resume_discloses {frame : CustomerAccessFrame} (hrules : w.RulesSound env)
    (hid : frame.input.redactionRuleId = (firstRule env).id) {token : Token}
    (htoken : w.ledger.tokens frame.input.tokenId = some token) :
    wp (frame.resume env) (fun r _ => DisclosesIn env w.ledger frame.input r) w := by
  have hreads : Along AccessReadsKept (frame.enforce.resume env) := frame.enforce.along_resume
  have hrulesKept : Along RulesKept (frame.enforce.resume env) := frame.enforce.along_resume
  refine wp_bind (wp_mono (wp_and (hreads.wp w) (hrulesKept.wp w)) fun r w' ⟨hreads, hkept⟩ => ?_)
  cases r with
  | error => exact fun _ _ h => by cases h
  | ok decision =>
    have hledger : w'.ledger.tokens = w.ledger.tokens := by
      funext i
      exact congrArg (fun store : Journal String Token => store.live.get i) hreads.1
    have hafter := wp_customerDataAfter_discloses (hrules.kept hkept) hid (hledger ▸ htoken) decision
    refine wp_mono hafter fun r w'' h data fields hr => ?_
    obtain ⟨record, token, hrecord, htoken, hresult⟩ := h data fields hr
    exact ⟨record, token, hrecord, hledger ▸ htoken, hresult⟩

/-- Without an await an access ends without data. -/
theorem wp_accessCustomerData_denies :
    wp (accessCustomerData env input) (fun r _ => ∀ data fields, r ≠ .ok (.returned (.data data fields))) w := by
  refine wp_bind (wp_mono (wp_enforceToken_denies ..) fun r w' hdenies => ?_)
  rcases r with err | decision | frame
  · exact fun _ _ h => by cases h
  · cases decision with
    | allowed => exact absurd rfl (hdenies _ rfl)
    | denied => exact wp_bind (wp_pure (wp_pure fun _ _ h => by cases h))
  · exact wp_pure fun _ _ h => by cases h

/-! ## Along every run -/

/-- The call discloses, if it ends with customer data. -/
def Call.Discloses (env : Env) (L : Ledger) (call : Call) (outcome : Outcome) : Prop :=
  ∀ input data fields, call = .accessCustomerData input →
    input.redactionRuleId = (firstRule env).id → outcome = .customer (.data data fields) →
      Ambit.Discloses env L input ⟨data, fields⟩

theorem startCall_discloses (call : Call) :
    wp (startCall env call)
      (Upheld (fun _ => True) (fun _ => True) fun outcome _ => call.Discloses env L outcome) w := by
  cases call with
  | accessCustomerData input =>
    refine wp_map_upheld (wp_mono wp_accessCustomerData_denies fun r w' hdenies => ⟨trivial, ?_⟩)
    rcases r with err | result | frame
    · trivial
    · rintro input' data fields - - h
      cases h
      exact absurd rfl (hdenies data fields)
    · trivial
  | _ =>
    refine wp_any fun r w' => ⟨trivial, fun _ _ => trivial, fun outcome _ => ?_⟩
    exact fun _ _ _ h => by cases h

variable {c : Config κ}

/-- An action discloses what the first rule leaves. -/
theorem Config.exec_discloses (hc : c.Sound env) (hremembers : c.Remembers env c.world.ledger)
    (hrules : c.world.RulesSound env) (a : Action κ) :
    ∀ s ∈ (c.exec env a).2, s.call.Discloses env c.world.ledger s.outcome := by
  intro s hs input data fields hcall hid houtcome
  -- the token is there, as the access is permitted
  obtain ⟨-, hpermits⟩ := (hremembers.exec hc a).2 s hs (by rw [houtcome]; rfl)
  rw [hcall] at hpermits
  obtain ⟨token, htoken, -, -⟩ := hpermits input.use (List.mem_singleton_self _)
  have hsettle : ∀ {client : κ} {call : Call} {inflight : List (InFlight κ)}
      {x : Op (Progress Frame Outcome)},
      wp x (Upheld (fun _ => True) (fun _ => True) fun outcome _ =>
        call.Discloses env c.world.ledger outcome) c.world →
      s ∈ (Config.settle client call inflight (x c.world)).2 →
        Discloses env c.world.ledger input ⟨data, fields⟩ := by
    intro client call inflight x hx hs
    obtain ⟨hsame, ⟨err, herr⟩ | hdiscloses⟩ := (leaves_settle hx).outcome s hs
    · cases houtcome.symm.trans herr
    · exact hdiscloses input data fields (hsame.symm.trans hcall) hid houtcome
  cases a with
  | call client call => exact hsettle (startCall_discloses call) hs
  | resume i downstream =>
    simp only [Config.exec] at hs
    cases hx : c.inflight[i]? with
    | none =>
      rw [hx] at hs
      cases hs
    | some x =>
      rw [hx] at hs
      have hmem := List.mem_of_getElem? hx
      have hawaits := (hc.frames x hmem).awaits
      have hremembers := hremembers x hmem
      have hcall' : x.call = .accessCustomerData input := (Config.settle_settled.1 s hs).2.symm.trans hcall
      refine hsettle ?_ hs
      rw [hcall'] at hawaits hremembers ⊢
      cases hframe : x.frame with
      | customer frame =>
        rw [hframe] at hremembers
        obtain ⟨hinput, -⟩ := hremembers
        cases hinput
        refine wp_synchronously_upheld (wp_mono (frame.wp_resume_discloses hrules hid htoken)
          fun r w' h => ⟨trivial, ?_⟩)
        cases r with
        | error => trivial
        | ok result =>
          rintro _ data fields ⟨⟩ - hresult
          cases hresult
          exact h data fields rfl
      | _ =>
        rw [hframe] at hawaits
        exact hawaits.elim
  | clock | restart => cases hs

/-- **Customer data are disclosed under the first rule**, along every run. -/
theorem disclosed_run (acts : List (Action κ)) : ∀ s ∈ settledCalls env acts,
    s.call.Discloses env ((processMachine κ env).run acts).world.ledger s.outcome := by
  induction acts using List.reverseRecOn with
  | nil => exact fun s hs => by cases hs
  | append_singleton acts a ih =>
    have hc : ((processMachine κ env).run acts).Sound env := Config.sound_run acts
    obtain ⟨e, hadvances⟩ := hc.exec a
    have hexec := Config.exec_discloses hc (heeded_run acts).waiting (rulesSound_run acts) a
    intro s hs input data fields hcall hid houtcome
    rw [Machine.run_snoc]
    show Discloses env (((processMachine κ env).run acts).exec env a).1.world.ledger _ _
    rw [hadvances.ledger_eq]
    rw [settledCalls_snoc] at hs
    rcases List.mem_append.mp hs with hs | hs
    · exact (ih s hs input data fields hcall hid houtcome).after hadvances.enabled
    · exact (hexec s (Option.mem_toList.mp hs) input data fields hcall hid houtcome).after
        hadvances.enabled

/-! ## At the routes -/

variable {acts : List ServerAction}

/-- Customer data are asked for under the first rule. -/
theorem trace_firstRule (acts : List ServerAction) : ∀ x call,
    Action.call x call ∈ processTrace env acts → ∀ input, call = .accessCustomerData input →
      input.redactionRuleId = (firstRule env).id := by
  refine trace_calls (P := fun _ _ call => ∀ input, call = .accessCustomerData input →
    input.redactionRuleId = (firstRule env).id) (fun _ _ _ _ h => h) ?_ ?_ acts
  · intro acts arrival x call hhandle input hcall
    have hrules : ((serverMachine env).run acts).world.RulesSound env := by
      rw [server_run]
      exact rulesSound_run _
    have hmakes := @handle_makes env arrival ((serverMachine env).run acts).world
    rw [hhandle, hcall] at hmakes
    obtain ⟨harrival, -, hmakes⟩ := hmakes
    have hroute := hmakes.asks.1
    rw [harrival] at hroute
    unfold Arrival.handle at hhandle
    rw [hroute] at hhandle
    split at hhandle
    · cases hhandle
    split at hhandle
    · cases hhandle
    · cases hhandle
      have hinput := Call.accessCustomerData.inj hcall
      exact (congrArg CustomerAccessInput.redactionRuleId hinput).symm.trans hrules.defaultRuleId_eq
  · rintro acts s w x call - - hnext input rfl
    unfold Exchange.next at hnext
    split at hnext
    · dsimp only at hnext
      split at hnext <;> cases hnext
    · split at hnext <;> cases hnext
    · cases hnext
    · cases hnext

/-- A response with customer data shows what the first rule leaves for the token that the request
presents. -/
theorem reply_discloses {reply : Reply} (h : reply ∈ replies env acts) {data : CustomerRecord}
    {fields : List String} (hbody : reply.response.body = some (.customer (.data data fields))) :
    ∃ input, reply.exchange.arrival.route = .customerData input.tokenId input.customerId ∧
      reply.exchange.arrival.uses = [⟨input.tokenId, reply.exchange.arrival.bearerToken, customerReadAction⟩] ∧
      Discloses env ((serverMachine env).run acts).world.ledger input ⟨data, fields⟩ := by
  rcases reply_cases h with ⟨arrival, w, response, -, hhandle, rfl⟩ | ⟨s, hs, hclient, w, hresponse⟩
  · have hmakes := @handle_makes env arrival w
    rw [hhandle] at hmakes
    obtain ⟨other, hother, honce, -⟩ := hmakes
    cases hbody.symm.trans hother
    cases honce
  · rw [hresponse] at hbody
    have houtcome : s.outcome = .customer (.data data fields) := respond_tells _ hbody
    have hanswers := (answers_run _ s hs).1
    have hstarted := started_of_settled hs
    have hdisclosed := disclosed_run _ s hs
    have hmakes := trace_makes acts _ _ hstarted
    have hfirst := trace_firstRule acts _ _ hstarted
    cases hcall : s.call with
    | accessCustomerData input =>
      rw [hcall] at hmakes
      refine ⟨input, ?_, ?_, ?_⟩
      · rw [hclient]
        exact hmakes.asks.1
      · rw [hclient, hmakes.asks.uses_eq (List.cons_ne_nil _ _), ← hmakes.asks.2]
        rfl
      · rw [server_run]
        exact hdisclosed input data fields hcall (hfirst input hcall) houtcome
    | _ =>
      rw [hcall, houtcome] at hanswers
      exact hanswers.elim

/-! ## In the application -/

section
variable (env : ServerEnv) (acts : List HttpAction)

/-- What is shown of a record with a token: its fields, of which those that are listed as redacted hold
the mask and the others their values, and each personal one among these by a use of the token that is
sanctioned. -/
structure ShowsRecord (tokenId bearerToken : String) (record : CustomerRecord)
    (result : RedactionResult) : Prop where
  keys : result.data.keys = record.keys
  masked : ∀ field ∈ result.redactedFields, result.data.get field = some redactionMask
  shown : ∀ field value, field ∉ result.redactedFields → result.data.get field = some value →
    record.get field = some value ∧ ∀ requiredScope,
      (field, requiredScope) ∈ standardRule.sensitiveFields →
        Sanctioned env acts ⟨tokenId, bearerToken, requiredScope⟩

end

theorem hasField_own {record : CustomerRecord} {field : String} (hfield : hasField record field = true)
    (hinherited : field ∉ inheritedFields) : record.get field ≠ none := by
  rw [hasField, decide_eq_false hinherited, Bool.or_false] at hfield
  exact Option.isSome_iff_ne_none.mp hfield

section
variable {env : ServerEnv} {acts : List HttpAction}

theorem showsRecord {record : CustomerRecord} {token : Token} {tokenId bearerToken : String}
    (h : ∀ scope ∈ token.scope, Sanctioned env acts ⟨tokenId, bearerToken, scope⟩) :
    ShowsRecord env acts tokenId bearerToken record
      (applyRedaction record (firstRule env.toEnv) token.scope) := by
  have hnames : ∀ e ∈ standardRule.sensitiveFields, e.1 ∉ inheritedFields := by decide
  have hredacts : Redacts token.scope standardRule.sensitiveFields record
      (applyRedaction record (firstRule env.toEnv) token.scope).data :=
    redacts_foldl standardRule.sensitiveFields ⟨record, []⟩ fun e he _ hfield =>
      hasField_own hfield (hnames e he)
  refine ⟨hredacts.keys, fun field hfield => ?_, fun field value hfield hvalue => ?_⟩
  · obtain ⟨⟨requiredScope, hlisted, hscope⟩, hhas⟩ := mem_redactedFields.mp hfield
    exact hredacts.masked field requiredScope hlisted hscope
      (hasField_own hhas (hnames _ hlisted))
  · have hheld : ∀ requiredScope, (field, requiredScope) ∈ standardRule.sensitiveFields →
        requiredScope ∈ token.scope := by
      intro requiredScope hlisted
      by_contra hscope
      refine hfield (mem_redactedFields.mpr ⟨⟨requiredScope, hlisted, hscope⟩, ?_⟩)
      have hkey : field ∈ record.keys := hredacts.keys ▸ OrderedMap.mem_keys_iff.mpr ⟨value, hvalue⟩
      obtain ⟨own, hown⟩ := OrderedMap.mem_keys_iff.mp hkey
      rw [hasField, hown]
      rfl
    refine ⟨?_, fun requiredScope hlisted => h _ (hheld requiredScope hlisted)⟩
    rw [← hredacts.kept field hheld]
    exact hvalue

variable (env acts)

/-- **No personal data without approval**: in every run, each response with customer data answers a
request for them that came to its route, shows the customer's record redacted, and shows a personal
field only with a token that goes back to a request for the scope of that field, submitted by an agent
with its credential and approved by an operator with a session. -/
theorem personal_data_sanctioned : ∀ reply ∈ routedReplies env acts, ∀ data fields,
    reply.body = some (.routed (.customer (.data data fields))) →
    Routed env acts fun a => a.connection = reply.connection ∧
      ∃ tokenId customerId record, a.route = .customerData tokenId customerId ∧
        env.customerRegistry customerId = some record ∧
        ShowsRecord env acts tokenId a.bearerToken record ⟨data, fields⟩ := by
  intro reply hreply data fields hbody
  obtain ⟨routed, hrouted, hshows⟩ := Simulation.exists_mem_outputs (routedReplies_shown acts) hreply
  have hroutedBody := hshows.routed_body hbody
  obtain ⟨input, hroute, huses, record, token, hrecord, htoken, hresult⟩ :=
    reply_discloses hrouted hroutedBody
  obtain ⟨hne, hpermits⟩ := reply_permitted hrouted hroutedBody rfl
  rw [huses] at hpermits
  obtain ⟨token', htoken', -, hverify⟩ := hpermits _ (List.mem_singleton_self _)
  obtain rfl : token' = token := Option.some.inj (htoken'.symm.trans htoken)
  refine routed_of_arrive (reply_arrived hrouted) (fun hanonymous => hne hanonymous.uses_eq)
    ⟨hshows.connection.symm, input.tokenId, input.customerId, record, hroute, hrecord, ?_⟩
  rw [hresult]
  exact showsRecord fun scope hscope => sanctioned_of_permits ⟨token', htoken', hscope, hverify⟩

end

/-! ## A run -/

def sampleCustomerEnv : ServerEnv := { sampleShortEnv with customerRegistry := sampleRegistry "123" }

/-- An agent asks for a customer's data with their number, is approved, and reads them. -/
def sampleShown : List HttpAction :=
  sampleGranted [customerReadAction, "customer:read:ssn"] ⟨.customerData "id-11" "cust", rfl⟩

/-- The customer's number, if the response shows customer data. -/
def HttpReply.ssn (reply : HttpReply) : Option String :=
  match reply.body with
  | some (.routed (.customer (.data data _))) => data.get "ssn"
  | _ => none

theorem personal_data_sanctioned_sample : ∃ reply ∈ routedReplies sampleCustomerEnv sampleShown,
    reply.ssn = some "123" ∧ Routed sampleCustomerEnv sampleShown fun a =>
      a.connection = reply.connection ∧ ∃ tokenId customerId record data fields,
        a.route = .customerData tokenId customerId ∧
        sampleCustomerEnv.customerRegistry customerId = some record ∧
        ShowsRecord sampleCustomerEnv sampleShown tokenId a.bearerToken record ⟨data, fields⟩ := by
  have hany : (routedReplies sampleCustomerEnv sampleShown).any (·.ssn = some "123") = true := by
    decide +kernel
  obtain ⟨reply, hreply, hssn⟩ := List.any_eq_true.mp hany
  have hssn := of_decide_eq_true hssn
  refine ⟨reply, hreply, hssn, ?_⟩
  unfold HttpReply.ssn at hssn
  split at hssn
  · next data fields hbody =>
    obtain ⟨pre, act, post, hacts, request, a, hact, hroutes, hconnection, tokenId, customerId, record,
      hroute, hrecord, hshows⟩ :=
      personal_data_sanctioned sampleCustomerEnv sampleShown reply hreply data fields hbody
    exact ⟨pre, act, post, hacts, request, a, hact, hroutes, hconnection, tokenId, customerId, record, data,
      fields, hroute, hrecord, hshows⟩
  · cases hssn

end Ambit
