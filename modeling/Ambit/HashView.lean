import Ambit.Server
import Ambit.Lib.Alike

/-! The state without its secret hashes. Each operation, started in two states that differ only in
the hashes that are stored, or that are still to be computed, ends alike; where it checks a hash,
if the two checks come to the same. -/

namespace Ambit

open Effect

/-! ## Records and states without hashes -/

def Token.unhashed (t : Token) : Token := { t with secretHash := "" }

def AgentIdentity.unhashed (i : AgentIdentity) : AgentIdentity := { i with secretHash := "" }

def World.unhashed (w : World) : World :=
  { w with
    tokenStore := w.tokenStore.map Token.unhashed
    agentIdentityStore := w.agentIdentityStore.map AgentIdentity.unhashed }

/-- What a suspended issuance holds of the hash is the salt. -/
def IssueFrame.unhashed (f : IssueFrame) : IssueFrame := { f with salt := [] }

def ApproveFrame.unhashed (f : ApproveFrame) : ApproveFrame := { f with issue := f.issue.unhashed }

def EnforceFrame.unhashed (f : EnforceFrame) : EnforceFrame := { f with token := f.token.unhashed }

def DelegateFrame.unhashed : DelegateFrame → DelegateFrame
  | .verifying input parent => .verifying input parent.unhashed
  | .issuing input issue => .issuing input issue.unhashed

def AccessFrame.unhashed : AccessFrame → AccessFrame
  | .enforcing input f => .enforcing input f.unhashed
  | f => f

def CustomerAccessFrame.unhashed (f : CustomerAccessFrame) : CustomerAccessFrame :=
  { f with enforce := f.enforce.unhashed }

def RegisterFrame.unhashed (f : RegisterFrame) : RegisterFrame := { f with salt := [] }

def AuthenticateFrame.unhashed (f : AuthenticateFrame) : AuthenticateFrame :=
  { f with identity := f.identity.unhashed }

def Frame.unhashed : Frame → Frame
  | .approve f => .approve f.unhashed
  | .delegate f => .delegate f.unhashed
  | .enforce f => .enforce f.unhashed
  | .access f => .access f.unhashed
  | .customer f => .customer f.unhashed
  | .register f => .register f.unhashed
  | .authenticate f => .authenticate f.unhashed

def IssuedToken.unhashed (i : IssuedToken) : IssuedToken := { i with token := i.token.unhashed }

def TokenLineage.unhashed (l : TokenLineage) : TokenLineage :=
  { l with chain := l.chain.map Token.unhashed }

def DelegationDecision.unhashed : DelegationDecision → DelegationDecision
  | .approved token secret => .approved token.unhashed secret
  | .denied reasonCode => .denied reasonCode

def Outcome.unhashed : Outcome → Outcome
  | .token t => .token t.unhashed
  | .delegation decision => .delegation decision.unhashed
  | .lineage l => .lineage (l.map TokenLineage.unhashed)
  | .registered i credential => .registered i.unhashed credential
  | .identity i => .identity (i.map AgentIdentity.unhashed)
  | outcome => outcome

/-! ## The world -/

variable {env : Env} {α γ : Type}

/-- Whatever is read of two states apart from their hashes is the same. -/
theorem World.agree {w w' : World} (h : w.unhashed = w'.unhashed) (f : World → α) :
    f w.unhashed = f w'.unhashed := congrArg f h

theorem alike_now : Alike World.unhashed id now now :=
  Alike.bind Alike.get fun _ _ h => Alike.pure (World.agree h World.clock)

theorem alike_draw (value : ℕ → α) : Alike World.unhashed id (draw value) (draw value) :=
  Alike.bind Alike.get fun _ _ h =>
    Alike.bind_id (Alike.set (World.agree h fun u => { u with supply := u.supply + 1 }))
      fun _ => Alike.pure (World.agree h fun u => value u.supply)

theorem alike_auditRecord (entry : AuditEntryInput) (now : Int) :
    Alike World.unhashed id (auditRecord env entry now) (auditRecord env entry now) := by
  intro w w' h
  have hlog : w.auditLog = w'.auditLog := World.agree h World.auditLog
  have hsupply : w.supply = w'.supply := World.agree h World.supply
  have hfaults : w.faults = w'.faults := World.agree h World.faults
  simp only [auditRecord, hlog, hsupply, hfaults]
  generalize w'.auditLog.record env.toPlatform env.audit _ _ _ _ = recorded
  generalize w'.supply + 1 = supply
  generalize (nextFault (nextFault w'.faults).2).2 = faults
  obtain ⟨result, log⟩ := recorded
  have hstate := World.agree h fun u =>
    { u with auditLog := log, supply := supply, faults := faults }
  cases result with
  | ok => exact congrArg (EStateM.Result.ok ()) hstate
  | error err => exact congrArg (EStateM.Result.error err) hstate

theorem alike_onStateChange (change : CircuitStateChange) :
    Alike World.unhashed id (onStateChange env change) (onStateChange env change) := by
  refine Alike.bind_id alike_now fun now => ?_
  cases change.target with
  | opened | closed => exact alike_auditRecord _ _
  | halfOpen => exact Alike.pure rfl

theorem alike_breakerTransition
    (transition : CircuitBreaker → CircuitBreaker × Option CircuitStateChange) :
    Alike World.unhashed id (breakerTransition env transition) (breakerTransition env transition) := by
  refine Alike.bind Alike.get fun w w' h => ?_
  have hbreaker : w.storeCircuitBreaker = w'.storeCircuitBreaker :=
    World.agree h World.storeCircuitBreaker
  rw [hbreaker]
  obtain ⟨b, change⟩ := transition w'.storeCircuitBreaker
  refine Alike.bind_id (Alike.set
    (World.agree h fun u => { u with storeCircuitBreaker := b })) fun _ => ?_
  cases change with
  | none => exact Alike.pure rfl
  | some change => exact alike_onStateChange change

theorem alike_execute {f : α → γ} {fn fn' : Op α} (hfn : Alike World.unhashed f fn fn') :
    Alike World.unhashed f (execute env fn) (execute env fn') := by
  refine Alike.bind Alike.get fun w w' h => ?_
  have hbreaker : w.storeCircuitBreaker = w'.storeCircuitBreaker :=
    World.agree h World.storeCircuitBreaker
  have hclock : w.clock = w'.clock := World.agree h World.clock
  simp only [hbreaker, hclock]
  refine Alike.ite Iff.rfl Alike.throw ?_
  generalize hprobe : (if w'.storeCircuitBreaker.state = .opened then
    { w'.storeCircuitBreaker with state := CircuitState.halfOpen } else w'.storeCircuitBreaker) = probe
  refine Alike.bind_id (Alike.set
    (World.agree h fun u => { u with storeCircuitBreaker := probe, clock := w'.clock })) fun _ => ?_
  have hsuccess : Alike World.unhashed id (breakerTransition env CircuitBreaker.onSuccess)
      (breakerTransition env CircuitBreaker.onSuccess) := alike_breakerTransition _
  have hadmitted := Alike.attempt (Alike.ite (c := w'.storeCircuitBreaker.simulatingOutage = true)
    Iff.rfl (Alike.throw (e := .circuitOpen "simulated outage"))
    (Alike.bind hfn fun a b hab =>
      Alike.bind_id hsuccess fun _ => Alike.pure (a := a) (b := b) hab))
  refine Alike.bind hadmitted fun outcome outcome' houtcome => ?_
  cases outcome with
  | ok a =>
    cases outcome' with
    | ok b => exact Alike.pure (Except.ok.inj houtcome)
    | error => cases houtcome
  | error err =>
    cases outcome' with
    | ok => cases houtcome
    | error err' =>
      cases houtcome
      exact Alike.bind_id (alike_breakerTransition _) fun _ => Alike.throw

theorem alike_saveRecord {ρ : Type} {key : ρ → String} {image : ρ → ρ}
    {store : World → Journal String ρ} {put : World → Journal String ρ → World} {record record' : ρ}
    (hput : ∀ w w' faults appended, w.unhashed = w'.unhashed →
      (put { w with faults := faults } ((store w).save key image appended record)).unhashed =
        (put { w' with faults := faults } ((store w').save key image appended record')).unhashed) :
    Alike World.unhashed id (saveRecord key image store put record)
      (saveRecord key image store put record') := by
  intro w w' h
  have hfaults : w.faults = w'.faults := World.agree h World.faults
  have hstate := hput w w' (nextFault w'.faults).2 (!(nextFault w'.faults).1) h
  simp only [saveRecord, hfaults]
  cases hfails : (nextFault w'.faults).1 with
  | true =>
    rw [hfails] at hstate
    exact congrArg (EStateM.Result.error Err.io) hstate
  | false =>
    rw [hfails] at hstate
    exact congrArg (EStateM.Result.ok ()) hstate

/-! ## The stores -/

theorem alike_tokenStore_save {t t' : Token} (ht : t.unhashed = t'.unhashed) :
    Alike World.unhashed id (TokenStore.save env t) (TokenStore.save env t') := by
  refine alike_execute (alike_saveRecord fun w w' faults appended h => ?_)
  have hkey : ∀ t : Token, t.unhashed.id = t.id := fun _ => rfl
  have himage : ∀ t : Token, t.image.unhashed = t.unhashed.image := fun _ => rfl
  have hsaved : (w.tokenStore.save Token.id Token.image appended t).map Token.unhashed =
      (w'.tokenStore.save Token.id Token.image appended t').map Token.unhashed :=
    Journal.map_save_congr hkey himage appended (World.agree h World.tokenStore) ht
  have hrest := World.agree h fun u => { u with
    faults := faults
    tokenStore := (w'.tokenStore.save Token.id Token.image appended t').map Token.unhashed }
  refine Eq.trans ?_ hrest
  exact congrArg (fun s => { w.unhashed with faults := faults, tokenStore := s }) hsaved

theorem tokenStore_get_unhashed {w w' : World} (h : w.unhashed = w'.unhashed) (id : String) :
    (w.tokenStore.live.get id).map Token.unhashed = (w'.tokenStore.live.get id).map Token.unhashed := by
  have hget := World.agree h fun u => u.tokenStore.live.get id
  simpa [World.unhashed, Journal.map] using hget

theorem alike_tokenStore_get (id : String) : Alike World.unhashed (Option.map Token.unhashed)
    (TokenStore.get env id) (TokenStore.get env id) :=
  alike_execute (Alike.bind Alike.get fun _ _ h => Alike.pure (tokenStore_get_unhashed h id))

theorem alike_requestStore_save (r : PendingRequest) :
    Alike World.unhashed id (RequestStore.save r) (RequestStore.save r) :=
  alike_saveRecord fun _ _ faults appended h => World.agree h fun u =>
    { u with
      faults := faults
      requestStore := u.requestStore.save PendingRequest.id PendingRequest.image appended r }

theorem alike_requestStore_get (requestId : String) :
    Alike World.unhashed id (RequestStore.get requestId) (RequestStore.get requestId) :=
  Alike.bind Alike.get fun _ _ h => Alike.pure (World.agree h fun u => u.requestStore.live.get requestId)

theorem alike_policyStore_save (policy : Policy) :
    Alike World.unhashed id (PolicyStore.save env policy) (PolicyStore.save env policy) :=
  alike_execute (alike_saveRecord fun _ _ faults appended h => World.agree h fun u =>
    { u with
      faults := faults
      policyStore := u.policyStore.save Policy.id Policy.image appended policy })

theorem alike_policyStore_get (policyId : String) :
    Alike World.unhashed id (PolicyStore.get env policyId) (PolicyStore.get env policyId) :=
  alike_execute (Alike.bind Alike.get fun _ _ h =>
    Alike.pure (World.agree h fun u => u.policyStore.live.get policyId))

theorem alike_redactionRuleStore_save (rule : RedactionRule) :
    Alike World.unhashed id (RedactionRuleStore.save rule) (RedactionRuleStore.save rule) :=
  alike_saveRecord fun _ _ faults appended h => World.agree h fun u =>
    { u with
      faults := faults
      redactionRuleStore := u.redactionRuleStore.save RedactionRule.id (fun r => r) appended rule }

theorem alike_agentIdentityStore_save {i i' : AgentIdentity} (hi : i.unhashed = i'.unhashed) :
    Alike World.unhashed id (AgentIdentityStore.save i) (AgentIdentityStore.save i') := by
  refine alike_saveRecord fun w w' faults appended h => ?_
  have hkey : ∀ i : AgentIdentity, i.unhashed.id = i.id := fun _ => rfl
  have himage : ∀ i : AgentIdentity, ((fun i => i) i).unhashed = (fun i => i) i.unhashed :=
    fun _ => rfl
  have hsaved : (w.agentIdentityStore.save AgentIdentity.id (fun i => i) appended i).map
      AgentIdentity.unhashed =
      (w'.agentIdentityStore.save AgentIdentity.id (fun i => i) appended i').map
        AgentIdentity.unhashed :=
    Journal.map_save_congr hkey himage appended (World.agree h World.agentIdentityStore) hi
  have hrest := World.agree h fun u => { u with
    faults := faults
    agentIdentityStore := (w'.agentIdentityStore.save AgentIdentity.id (fun i => i) appended i').map
      AgentIdentity.unhashed }
  refine Eq.trans ?_ hrest
  exact congrArg (fun s => { w.unhashed with faults := faults, agentIdentityStore := s }) hsaved

end Ambit
