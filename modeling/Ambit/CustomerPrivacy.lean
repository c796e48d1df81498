import Ambit.FieldRedaction
import Ambit.Lib.Simulation
import Ambit.Server

/-! Two deployments of the server whose customers differ in the values of some fields. Whatever is
asked of them, they go through the same states, write the same log and send the same responses, but for
the values of these fields in customer data, and there only where the response does not list the field
as redacted. -/

namespace Ambit

open Effect

variable {env : Env} {w : World} {P : String → Prop} {registry registry' : String → Option CustomerRecord}

/-! ## What may differ -/

/-- The results list the same fields as redacted, and the data differ in other fields in `P` only. -/
structure RedactionResult.Alike (P : String → Prop) (result result' : RedactionResult) : Prop where
  redactedFields : result'.redactedFields = result.redactedFields
  data : result.data.AgreesOff (fun field => P field ∧ field ∉ result.redactedFields) result'.data

/-- The accesses ended the same, but for values in `P` that are not listed as redacted. -/
inductive CustomerDataAccessResult.Alike (P : String → Prop) :
    CustomerDataAccessResult → CustomerDataAccessResult → Prop
  | data {data data' : CustomerRecord} {fields : List String}
      (h : data.AgreesOff (fun field => P field ∧ field ∉ fields) data') :
      Alike P (.data data fields) (.data data' fields)
  | denied (reasonCode : CustomerDenialReason) (message : String) :
      Alike P (.denied reasonCode message) (.denied reasonCode message)

inductive Outcome.Alike (P : String → Prop) : Outcome → Outcome → Prop
  | customer {result result' : CustomerDataAccessResult} (h : result.Alike P result') :
      Alike P (.customer result) (.customer result')
  | same (outcome : Outcome) : Alike P outcome outcome

inductive Body.Alike (P : String → Prop) : Body → Body → Prop
  | customer {result result' : CustomerDataAccessResult} (h : result.Alike P result') :
      Alike P (.customer result) (.customer result')
  | same (body : Body) : Alike P body body

/-- The same request is answered, with a response that is the same but for such data. -/
structure Reply.Alike (P : String → Prop) (reply reply' : Reply) : Prop where
  exchange : reply'.exchange = reply.exchange
  status : reply'.response.status = reply.response.status
  body : Option.Rel (Body.Alike P) reply.response.body reply'.response.body

/-- The registries know the same customers, whose records differ in the values of fields in `P`
only. -/
structure RegistriesAlike (P : String → Prop) (registry registry' : String → Option CustomerRecord) :
    Prop where
  known : ∀ customerId, registry customerId = none ↔ registry' customerId = none
  agree : ∀ customerId record record', registry customerId = some record →
    registry' customerId = some record' → record.AgreesOff P record'

theorem CustomerDataAccessResult.Alike.refl (result : CustomerDataAccessResult) :
    result.Alike P result := by
  cases result with
  | data data fields => exact .data ⟨rfl, fun _ _ => rfl⟩
  | denied reasonCode message => exact .denied reasonCode message

theorem Reply.Alike.refl (reply : Reply) : reply.Alike P reply := by
  refine ⟨rfl, rfl, ?_⟩
  cases reply.response.body with
  | none => exact .none
  | some body => exact .some (.same body)

/-! ## One record -/

/-- Masking a field leaves it out of those that may differ. -/
theorem RedactionResult.Alike.redactField {result result' : RedactionResult}
    (h : result.Alike P result') (tokenScope : List String) (entry : String × String) :
    (redactField tokenScope result entry).Alike P (redactField tokenScope result' entry) := by
  obtain ⟨name, requiredScope⟩ := entry
  unfold Ambit.redactField
  rw [hasField_congr h.data name]
  split
  · refine ⟨congrArg (· ++ [name]) h.redactedFields, agreesOff_assignField (h.data.mono ?_) _⟩
    rintro field ⟨hP, hnot⟩
    by_cases hname : field = name
    · exact .inl hname
    · refine .inr ⟨hP, fun hmem => ?_⟩
      rcases List.mem_append.mp hmem with hmem | hmem
      · exact hnot hmem
      · exact hname (List.mem_singleton.mp hmem)
  · exact h

theorem applyRedaction_alike {record record' : CustomerRecord} (h : record.AgreesOff P record')
    (rule : RedactionRule) (tokenScope : List String) :
    (applyRedaction record rule tokenScope).Alike P (applyRedaction record' rule tokenScope) := by
  rw [applyRedaction_eq, applyRedaction_eq]
  have hstart : RedactionResult.Alike P ⟨record, []⟩ ⟨record', []⟩ :=
    ⟨rfl, h.mono fun _ hP => ⟨hP, List.not_mem_nil⟩⟩
  generalize (⟨record, []⟩ : RedactionResult) = result at hstart ⊢
  generalize (⟨record', []⟩ : RedactionResult) = result' at hstart ⊢
  induction rule.sensitiveFields generalizing result result' with
  | nil => exact hstart
  | cons entry todo ih => exact ih _ _ (hstart.redactField tokenScope entry)

/-! ## The access -/

/-- Two runs end in the same state, with the same exception or with values in the relation. -/
inductive EndAlike {α : Type} (S : α → α → Prop) :
    EStateM.Result Err World α → EStateM.Result Err World α → Prop
  | ok {a b : α} (w : World) : S a b → EndAlike S (.ok a w) (.ok b w)
  | error (err : Err) (w : World) : EndAlike S (.error err w) (.error err w)

section
variable {α β : Type} {S : α → α → Prop} {T : β → β → Prop}

theorem EndAlike.of_eq (hS : ∀ a, S a a) {r r' : EStateM.Result Err World α} (h : r' = r) :
    EndAlike S r r' := by
  rw [h]
  cases r with
  | ok a w => exact .ok w (hS a)
  | error err w => exact .error err w

/-- What two programs do behind the same first part. -/
theorem EndAlike.behind {x : Op α} {f g : α → Op β} (h : ∀ a w, EndAlike T (f a w) (g a w)) (w : World) :
    EndAlike T ((x >>= f) w) ((x >>= g) w) := by
  cases hx : x w with
  | ok a w' =>
    rw [bind_of_ok hx, bind_of_ok hx]
    exact h a w'
  | error err w' =>
    rw [bind_of_error hx, bind_of_error hx]
    exact .error err w'

theorem EndAlike.map {x y : Op α} {f : α → β} (h : EndAlike S (x w) (y w))
    (hf : ∀ a b, S a b → T (f a) (f b)) :
    EndAlike T ((do return f (← x) : Op β) w) ((do return f (← y) : Op β) w) := by
  cases hx : x w with
  | ok a w' =>
    cases hy : y w with
    | ok b w'' =>
      rw [hx, hy] at h
      cases h with
      | ok _ hab =>
        rw [bind_of_ok hx, bind_of_ok hy]
        exact .ok w' (hf a b hab)
    | error =>
      rw [hx, hy] at h
      cases h
  | error err w' =>
    cases hy : y w with
    | ok =>
      rw [hx, hy] at h
      cases h
    | error =>
      rw [hx, hy] at h
      cases h
      rw [bind_of_error hx, bind_of_error hy]
      exact .error err w'

end

theorem disclose_alike {record record' : CustomerRecord} (h : record.AgreesOff P record')
    (input : CustomerAccessInput) (rule : RedactionRule) (token : Option Token) (w : World) :
    EndAlike (CustomerDataAccessResult.Alike P) (disclose env input record rule token w)
      (disclose env input record' rule token w) := by
  have hredacted := applyRedaction_alike h rule (token.elim [] (·.scope))
  unfold disclose
  simp only [hredacted.redactedFields]
  exact EndAlike.behind (fun _ w' => .ok w' (.data hredacted.data)) w

/-- Behind the gateway. -/
theorem customerDataAfter_alike (h : RegistriesAlike P registry registry') (input : CustomerAccessInput)
    (decision : EnforcementDecision) (w : World) :
    EndAlike (CustomerDataAccessResult.Alike P)
      (customerDataAfter (env.withRegistry registry) input decision w)
      (customerDataAfter (env.withRegistry registry') input decision w) := by
  have hsame := @EndAlike.of_eq CustomerDataAccessResult (CustomerDataAccessResult.Alike P)
    CustomerDataAccessResult.Alike.refl
  cases decision with
  | denied => exact hsame rfl
  | allowed =>
    cases hrecord : registry input.customerId with
    | none =>
      have hrecord' := (h.known _).mp hrecord
      simp only [customerDataAfter, Env.withRegistry, hrecord, hrecord']
      exact hsame rfl
    | some record =>
      obtain ⟨record', hrecord'⟩ : ∃ record', registry' input.customerId = some record' := by
        refine Option.ne_none_iff_exists'.mp fun hnone => ?_
        rw [(h.known _).mpr hnone] at hrecord
        cases hrecord
      cases hrule : w.redactionRuleStore.live.get input.redactionRuleId with
      | none =>
        rw [customerDataAfter_unruled hrecord hrule, customerDataAfter_unruled hrecord' hrule]
        exact hsame rfl
      | some rule =>
        rw [customerDataAfter_ruled hrecord hrule, customerDataAfter_ruled hrecord' hrule]
        exact EndAlike.behind (fun token => disclose_alike (h.agree _ _ _ hrecord hrecord') input rule token) w

theorem CustomerAccessFrame.resume_alike (h : RegistriesAlike P registry registry')
    (frame : CustomerAccessFrame) (w : World) :
    EndAlike (CustomerDataAccessResult.Alike P) (frame.resume (env.withRegistry registry) w)
      (frame.resume (env.withRegistry registry') w) :=
  EndAlike.behind (customerDataAfter_alike h frame.input) w

/-! ## The other calls -/

theorem cascadeRevokeAux_registry (now : Int) (actor : Option String) (fuel : ℕ) :
    cascadeRevokeAux (env.withRegistry registry) now actor fuel = cascadeRevokeAux env now actor fuel := by
  induction fuel with
  | zero => rfl
  | succ fuel ih =>
    funext parentId
    unfold cascadeRevokeAux
    rw [ih]
    rfl

theorem lineageChain_registry (fuel : ℕ) :
    lineageChain (env.withRegistry registry) fuel = lineageChain env fuel := by
  induction fuel with
  | zero => rfl
  | succ fuel ih =>
    funext current chain
    unfold lineageChain
    rw [ih]
    rfl

/-- No call depends on the customers when it starts. -/
theorem startCall_registry (registry : String → Option CustomerRecord) (call : Call) (w : World) :
    startCall (env.withRegistry registry) call w = startCall env call w := by
  cases call with
  | accessCustomerData input =>
    exact bind_of_run (accessCustomerData_registry registry input w)
  | revokeToken tokenId reasonCode now actor =>
    simp only [startCall, revokeToken, cascadeRevoke, cascadeRevokeAux_registry]
    rfl
  | getTokenLineage tokenId =>
    simp only [startCall, getTokenLineage, lineageChain_registry]
    rfl
  | _ => rfl

/-- What ends a call, or where it stops. -/
inductive Progress.Alike (P : String → Prop) : Progress Frame Outcome → Progress Frame Outcome → Prop
  | returned {outcome outcome' : Outcome} (h : outcome.Alike P outcome') :
      Alike P (.returned outcome) (.returned outcome')
  | same (progress : Progress Frame Outcome) : Alike P progress progress

/-- A suspended call goes on alike. -/
theorem resumeFrame_alike (h : RegistriesAlike P registry registry') (downstream : Downstream)
    (frame : Frame) (w : World) :
    EndAlike (Progress.Alike P) (resumeFrame (env.withRegistry registry) downstream frame w)
      (resumeFrame (env.withRegistry registry') downstream frame w) := by
  have hsame := @EndAlike.of_eq _ (Progress.Alike P) Progress.Alike.same
  cases frame with
  | customer frame => exact EndAlike.map (frame.resume_alike h w) fun _ _ h => .returned (.customer h)
  | access frame => cases frame <;> exact hsame rfl
  | delegate frame => cases frame <;> exact hsame rfl
  | _ => exact hsame rfl

/-! ## Along every run -/

/-- The same call has ended, alike. -/
structure Settled.Alike {κ : Type} (P : String → Prop) (s s' : Settled κ) : Prop where
  client : s'.client = s.client
  call : s'.call = s.call
  outcome : s.outcome.Alike P s'.outcome

/-- The configurations are the same, and so are the calls that have ended but for customer data. -/
structure RanAlike {κ : Type} (P : String → Prop) (ran ran' : Config κ × Option (Settled κ)) : Prop where
  config : ran'.1 = ran.1
  settled : Option.Rel (Settled.Alike P) ran.2 ran'.2

theorem RanAlike.refl {κ : Type} (ran : Config κ × Option (Settled κ)) : RanAlike P ran ran := by
  obtain ⟨c, settled⟩ := ran
  refine ⟨rfl, ?_⟩
  cases settled with
  | none => exact .none
  | some s => exact .some ⟨rfl, rfl, .same s.outcome⟩

theorem Config.settle_alike {κ : Type} {client : κ} {call : Call} {inflight : List (InFlight κ)}
    {r r' : EStateM.Result Err World (Progress Frame Outcome)} (h : EndAlike (Progress.Alike P) r r') :
    RanAlike P (Config.settle client call inflight r) (Config.settle client call inflight r') := by
  cases h with
  | error err w => exact .refl _
  | ok w h =>
    cases h with
    | returned h => exact ⟨rfl, .some ⟨rfl, rfl, h⟩⟩
    | same => exact .refl _

/-- An action of the process does the same. -/
theorem Config.exec_alike {κ : Type} (h : RegistriesAlike P registry registry') (c : Config κ)
    (a : Action κ) :
    RanAlike P (c.exec (env.withRegistry registry) a) (c.exec (env.withRegistry registry') a) := by
  cases a with
  | call client call =>
    simp only [Config.exec, startCall_registry]
    exact .refl _
  | resume i downstream =>
    simp only [Config.exec]
    cases c.inflight[i]? with
    | none => exact .refl _
    | some x => exact Config.settle_alike (resumeFrame_alike h downstream x.frame c.world)
  | clock t => exact .refl _
  | restart => exact .refl _

/-- Customer data end their handler. -/
theorem Outcome.Alike.next {outcome outcome' : Outcome} (h : outcome.Alike P outcome') (x : Exchange)
    (w : World) (call : Call) : x.next w call outcome' = x.next w call outcome := by
  cases h with
  | customer => cases call <;> rfl
  | same => rfl

theorem Outcome.Alike.respond {outcome outcome' : Outcome} (h : outcome.Alike P outcome')
    (x : Exchange) (w : World) (call : Call) :
    Reply.Alike P ⟨x, respond w call outcome⟩ ⟨x, respond w call outcome'⟩ := by
  cases h with
  | customer h => cases call <;> exact ⟨rfl, rfl, .some (.customer h)⟩
  | same => exact .refl _

theorem replies_alike {settled settled' : Option (Settled Exchange)}
    (h : Option.Rel (Settled.Alike P) settled settled') (w : World) :
    Option.Rel (Reply.Alike P) (settled.map fun s => ⟨s.client, respond w s.call s.outcome⟩)
      (settled'.map fun s => ⟨s.client, respond w s.call s.outcome⟩) := by
  cases h with
  | none => exact .none
  | @some s s' h =>
    simp only [Option.map_some, h.client, h.call]
    exact .some (h.outcome.respond s.client w s.call)

/-- What a handler does after a piece of its call. -/
theorem follow_alike (h : RegistriesAlike P registry registry')
    {ran ran' : Config Exchange × Option (Settled Exchange)} (hran : RanAlike P ran ran') :
    (follow (env.withRegistry registry') ran').1 = (follow (env.withRegistry registry) ran).1 ∧
      Option.Rel (Reply.Alike P) (follow (env.withRegistry registry) ran).2
        (follow (env.withRegistry registry') ran').2 := by
  obtain ⟨c, settled⟩ := ran
  obtain ⟨c', settled'⟩ := ran'
  obtain ⟨hconfig, hsettled⟩ := hran
  obtain rfl : c = c' := Eq.symm hconfig
  cases hsettled with
  | none => exact ⟨rfl, .none⟩
  | @some s s' hs =>
    obtain ⟨client, call, outcome⟩ := s
    obtain ⟨client', call', outcome'⟩ := s'
    obtain ⟨hclient, hcall, houtcome⟩ := hs
    obtain rfl : client = client' := hclient.symm
    obtain rfl : call = call' := hcall.symm
    replace houtcome : outcome.Alike P outcome' := houtcome
    simp only [follow, houtcome.next]
    cases client.next c.world call outcome with
    | none => exact ⟨rfl, .some (houtcome.respond client c.world call)⟩
    | some next =>
      obtain ⟨x, call⟩ := next
      have hexec : RanAlike P (c.exec (env.withRegistry registry) (.call x call))
        (c.exec (env.withRegistry registry') (.call x call)) := Config.exec_alike h c _
      refine ⟨hexec.config, ?_⟩
      dsimp only
      rw [hexec.config]
      exact replies_alike hexec.settled _

theorem serve_alike (h : RegistriesAlike P registry registry') (c : Config Exchange) (a : ServerAction) :
    (serve (env.withRegistry registry') c a).1 = (serve (env.withRegistry registry) c a).1 ∧
      Option.Rel (Reply.Alike P) (serve (env.withRegistry registry) c a).2
        (serve (env.withRegistry registry') c a).2 := by
  cases a with
  | arrive a =>
    have hhandle : a.handle (env.withRegistry registry') c.world =
      a.handle (env.withRegistry registry) c.world := rfl
    simp only [serve, hhandle]
    cases a.handle (env.withRegistry registry) c.world with
    | inl response => exact ⟨rfl, .some (.refl _)⟩
    | inr next => exact follow_alike h (Config.exec_alike h c _)
  | resume i downstream => exact follow_alike h (Config.exec_alike h c _)
  | clock t => exact ⟨rfl, .none⟩
  | restart => exact ⟨rfl, .none⟩

/-- **Redacted data stay private.** With two registries that differ in the values of fields in `P` only,
each run comes to the same state with the same log, and sends the same responses, but for values of
these fields that the response does not list as redacted. -/
theorem redacted_values_private (h : RegistriesAlike P registry registry') (acts : List ServerAction) :
    (serverMachine (env.withRegistry registry)).run acts =
        (serverMachine (env.withRegistry registry')).run acts ∧
      List.Forall₂ (Reply.Alike P) (replies (env.withRegistry registry) acts)
        (replies (env.withRegistry registry') acts) := by
  have hboot : ∀ w : World, w.boot (env.withRegistry registry) = w.boot (env.withRegistry registry') :=
    fun _ => rfl
  apply Machine.run_in_step (I := Eq) (R := Reply.Alike P)
  · exact congrArg (Config.mk · []) (hboot .initial)
  · rintro c _ a - rfl
    have hserve := @serve_alike env P registry registry' h c a
    exact ⟨hserve.1.symm, hserve.2⟩

/-! ## Two registries -/

def sampleAsked (bearerToken : String) (route : Route) : List ServerAction :=
  [.arrive { route, authorization := some ("Bearer " ++ bearerToken), session := .valid "alice" },
   .resume 0 .responded]

/-- An agent is registered, submits a request that is approved, and reads a customer's data. -/
def sampleRead : List ServerAction :=
  sampleAsked "session" (.registerAgent (some "agent")) ++
    sampleAsked "id-2.secret-3" (.submit (some [customerReadAction]) (some (.finite 60)) none) ++
    sampleAsked "session" (.approve "id-6" none) ++ sampleAsked "secret-8" (.customerData "id-10" "cust")

theorem sampleRegistry_alike (ssn ssn' : String) :
    RegistriesAlike (· = "ssn") (sampleRegistry ssn) (sampleRegistry ssn') := by
  unfold sampleRegistry
  refine ⟨fun customerId => ?_, fun customerId record record' hrecord hrecord' => ?_⟩
  · split
    · exact iff_of_false nofun nofun
    · exact Iff.rfl
  · split at hrecord
    · next hcustomer =>
      rw [if_pos hcustomer] at hrecord'
      cases hrecord
      cases hrecord'
      exact ⟨rfl, fun field hfield => by rw [sampleCustomer, sampleCustomer,
        OrderedMap.get_set_of_ne _ _ hfield, OrderedMap.get_set_of_ne _ _ hfield]⟩
    · cases hrecord

theorem redacted_values_private_sample :
    List.Forall₂ (Reply.Alike (· = "ssn")) (replies (sampleEnv.withRegistry (sampleRegistry "1")) sampleRead)
      (replies (sampleEnv.withRegistry (sampleRegistry "2")) sampleRead) :=
  (redacted_values_private (sampleRegistry_alike "1" "2") sampleRead).2

end Ambit
