import Ambit.HashBlind
import Ambit.Refinement

/-! The process, stepping in two states that differ only in secret hashes: every piece of every call
ends alike in both, and so does every step. -/

namespace Ambit

open Effect

variable {env : Env} {α γ κ : Type}

/-! ## Calls -/

theorem alike_synchronously {f : α → γ} {x y : Op α} {outcome : α → Outcome}
    (h : Alike World.unhashed f x y)
    (houtcome : ∀ a b, f a = f b → (outcome a).unhashed = (outcome b).unhashed) :
    Alike World.unhashed (Progress.map Frame.unhashed Outcome.unhashed)
      (synchronously x outcome) (synchronously y outcome) :=
  Alike.bind h fun a b hab => Alike.pure (congrArg Progress.returned (houtcome a b hab))

theorem hashBlind_synchronously {x : Op α} {outcome : α → Outcome} (h : HashBlind x) :
    Alike World.unhashed (Progress.map Frame.unhashed Outcome.unhashed)
      (synchronously x outcome) (synchronously x outcome) :=
  alike_synchronously h fun _ _ hab => congrArg (fun a => (outcome a).unhashed) hab

theorem alike_progress {φ : Type} {f : φ → φ} {g : α → γ} {x y : Op (Progress φ α)}
    {onFrame : φ → Frame} {onValue : α → Outcome} (h : Alike World.unhashed (Progress.map f g) x y)
    (hframe : ∀ a b, f a = f b → (onFrame a).unhashed = (onFrame b).unhashed)
    (hvalue : ∀ a b, g a = g b → (onValue a).unhashed = (onValue b).unhashed) :
    Alike World.unhashed (Progress.map Frame.unhashed Outcome.unhashed)
      (do return (← x).map onFrame onValue) (do return (← y).map onFrame onValue) := by
  refine Alike.bind h fun p p' hp => Alike.pure ?_
  cases p with
  | returned a =>
    cases p' with
    | returned b => exact congrArg Progress.returned (hvalue a b (Progress.returned.inj hp))
    | awaiting => cases hp
  | awaiting a =>
    cases p' with
    | returned => cases hp
    | awaiting b => exact congrArg Progress.awaiting (hframe a b (Progress.awaiting.inj hp))

/-- A call gets alike far. -/
theorem alike_startCall (call : Call) :
    Alike World.unhashed (Progress.map Frame.unhashed Outcome.unhashed)
      (startCall env call) (startCall env call) := by
  cases call with
  | requestToken => exact hashBlind_synchronously hashBlind_requestToken
  | approveRequest => exact Alike.bind_id hashBlind_approveRequest fun _ => Alike.pure rfl
  | denyRequest => exact hashBlind_synchronously hashBlind_denyRequest
  | checkRequestTimeout => exact hashBlind_synchronously hashBlind_checkRequestTimeout
  | claimTokenSecret => exact hashBlind_synchronously hashBlind_claimTokenSecret
  | delegateToken =>
    exact alike_progress alike_delegateToken (fun _ _ h => congrArg Frame.delegate h)
      fun _ _ h => congrArg Outcome.delegation h
  | enforceToken =>
    exact alike_progress (alike_enforceToken _ _ _ _) (fun _ _ h => congrArg Frame.enforce h)
      fun _ _ h => congrArg Outcome.enforcement h
  | accessMockEndpoint =>
    exact alike_progress alike_accessMockEndpoint (fun _ _ h => congrArg Frame.access h)
      fun _ _ h => congrArg Outcome.access h
  | accessCustomerData =>
    exact alike_progress alike_accessCustomerData (fun _ _ h => congrArg Frame.customer h)
      fun _ _ h => congrArg Outcome.customer h
  | revokeToken =>
    exact alike_synchronously (alike_revokeToken _ _ _ _) fun _ _ h => congrArg Outcome.token h
  | getTokenLineage =>
    refine Alike.bind Alike.get fun w w' h => ?_
    rw [length_values_unhashed h]
    exact alike_synchronously (alike_getTokenLineage _ _) fun _ _ h => congrArg Outcome.lineage h
  | createPolicy => exact hashBlind_synchronously hashBlind_createPolicy
  | modifyPolicy => exact hashBlind_synchronously hashBlind_modifyPolicy
  | createRedactionRule => exact hashBlind_synchronously hashBlind_createRedactionRule
  | registerAgentIdentity =>
    exact Alike.bind_id hashBlind_registerAgentIdentity fun _ => Alike.pure rfl
  | authenticateAgent =>
    exact alike_progress alike_authenticateAgent (fun _ _ h => congrArg Frame.authenticate h)
      fun _ _ h => congrArg Outcome.identity h
  | recordLogin =>
    exact hashBlind_synchronously
      (Alike.ite Iff.rfl (alike_auditRecord _ _) (alike_auditRecord _ _))
  | simulateOutage down =>
    exact hashBlind_synchronously (Alike.modify fun w w' h => World.agree h fun u =>
      { u with storeCircuitBreaker := u.storeCircuitBreaker.simulateOutage down })
  | recordOutageToggle => exact hashBlind_synchronously (alike_auditRecord _ _)
  | setDown system down =>
    exact hashBlind_synchronously (Alike.modify fun w w' h => World.agree h fun u =>
      { u with mockEndpoints := if down then system :: u.mockEndpoints.filter (· ≠ system)
          else u.mockEndpoints.filter (· ≠ system) })

/-- What a suspended call is about to find of the hash that it holds. -/
def Frame.check (env : Env) : Frame → Option Bool
  | .enforce f => some (f.possessed env)
  | .access (.enforcing _ f) => some (f.possessed env)
  | .customer f => some (f.enforce.possessed env)
  | .delegate (.verifying input parent) =>
    some (verifyPassword env.toPlatform input.providedParentSecret parent.secretHash)
  | .authenticate f => some (verifyPassword env.toPlatform f.secret f.identity.secretHash)
  | _ => none

/-- A suspended call gets alike far, if it finds the same of the hash that it holds. -/
theorem alike_resumeFrame {downstream : Downstream} {f f' : Frame} (h : f.unhashed = f'.unhashed)
    (hcheck : f.check env = f'.check env) :
    Alike World.unhashed (Progress.map Frame.unhashed Outcome.unhashed)
      (resumeFrame env downstream f) (resumeFrame env downstream f') := by
  cases f with
  | approve f =>
    cases f' with
    | approve f' =>
      exact alike_synchronously (ApproveFrame.alike_resume (Frame.approve.inj h))
        fun _ _ h => congrArg Outcome.token h
    | _ => cases h
  | delegate f =>
    cases f' with
    | delegate f' =>
      refine alike_progress (DelegateFrame.alike_resume (Frame.delegate.inj h) ?_)
        (fun _ _ h => congrArg Frame.delegate h) fun _ _ h => congrArg Outcome.delegation h
      rintro input parent parent' rfl rfl
      exact Option.some.inj hcheck
    | _ => cases h
  | enforce f =>
    cases f' with
    | enforce f' =>
      exact alike_synchronously
        (EnforceFrame.alike_resume (Frame.enforce.inj h) (Option.some.inj hcheck))
        fun _ _ h => congrArg Outcome.enforcement h
    | _ => cases h
  | access f =>
    cases f' with
    | access f' =>
      refine alike_progress (AccessFrame.alike_resume (Frame.access.inj h) ?_)
        (fun _ _ h => congrArg Frame.access h) fun _ _ h => congrArg Outcome.access h
      rintro input e e' rfl rfl
      exact Option.some.inj hcheck
    | _ => cases h
  | customer f =>
    cases f' with
    | customer f' =>
      exact alike_synchronously
        (CustomerAccessFrame.alike_resume (Frame.customer.inj h) (Option.some.inj hcheck))
        fun _ _ h => congrArg Outcome.customer h
    | _ => cases h
  | register f =>
    cases f' with
    | register f' =>
      refine alike_synchronously (RegisterFrame.alike_resume (Frame.register.inj h)) ?_
      rintro ⟨i, credential⟩ ⟨i', credential'⟩ h
      obtain ⟨hi, rfl⟩ := Prod.mk.inj h
      exact congrArg (Outcome.registered · credential) hi
    | _ => cases h
  | authenticate f =>
    cases f' with
    | authenticate f' =>
      refine Alike.pure (congrArg (fun i => Progress.returned (Outcome.identity i)) ?_)
      exact AuthenticateFrame.resume_unhashed (Frame.authenticate.inj h) (Option.some.inj hcheck)
    | _ => cases h

/-! ## Steps of the process -/

def InFlight.unhashed (x : InFlight κ) : InFlight κ := { x with frame := x.frame.unhashed }

def Config.unhashed (c : Config κ) : Config κ :=
  ⟨c.world.unhashed, c.inflight.map InFlight.unhashed⟩

def Settled.unhashed (s : Settled κ) : Settled κ := { s with outcome := s.outcome.unhashed }

/-- Two steps with the same end, apart from hashes. -/
structure EndsAlike (ran ran' : Config κ × Option (Settled κ)) : Prop where
  config : ran.1.unhashed = ran'.1.unhashed
  settled : ran.2.map Settled.unhashed = ran'.2.map Settled.unhashed

/-- What the suspended call is about to find of a hash. -/
def Config.check (env : Env) (c : Config κ) (i : ℕ) : Option Bool :=
  c.inflight[i]?.bind fun x => x.frame.check env

theorem Config.unhashed_eq {c c' : Config κ} (hw : c.world.unhashed = c'.world.unhashed)
    (hinflight : c.inflight.map InFlight.unhashed = c'.inflight.map InFlight.unhashed) :
    c.unhashed = c'.unhashed := by
  rw [Config.unhashed, hw, hinflight]
  rfl

theorem endsAlike_settle {client : κ} {call : Call} {inflight inflight' : List (InFlight κ)}
    {r r' : EStateM.Result Err World (Progress Frame Outcome)}
    (hinflight : inflight.map InFlight.unhashed = inflight'.map InFlight.unhashed)
    (h : seen World.unhashed (Progress.map Frame.unhashed Outcome.unhashed) r =
      seen World.unhashed (Progress.map Frame.unhashed Outcome.unhashed) r') :
    EndsAlike (Config.settle client call inflight r) (Config.settle client call inflight' r') := by
  rcases seen_eq_cases h with ⟨p, p', w, w', rfl, rfl, hp, hw⟩ | ⟨err, w, w', rfl, rfl, hw⟩
  · cases p with
    | returned outcome =>
      cases p' with
      | awaiting => cases hp
      | returned outcome' =>
        have houtcome : outcome.unhashed = outcome'.unhashed := Progress.returned.inj hp
        refine ⟨Config.unhashed_eq hw hinflight, ?_⟩
        exact congrArg (fun o => some (Settled.mk client call o)) houtcome
    | awaiting frame =>
      cases p' with
      | returned => cases hp
      | awaiting frame' =>
        have hframe : frame.unhashed = frame'.unhashed := Progress.awaiting.inj hp
        refine ⟨Config.unhashed_eq hw ?_, rfl⟩
        show (inflight ++ [_]).map InFlight.unhashed = (inflight' ++ [_]).map InFlight.unhashed
        rw [List.map_append, List.map_append, hinflight]
        exact congrArg (fun f => _ ++ [InFlight.mk client call f]) hframe
  · exact ⟨Config.unhashed_eq hw hinflight, rfl⟩

theorem inflight_unhashed {c c' : Config κ} (h : c.unhashed = c'.unhashed) :
    c.inflight.map InFlight.unhashed = c'.inflight.map InFlight.unhashed :=
  congrArg Config.inflight h

theorem world_unhashed {c c' : Config κ} (h : c.unhashed = c'.unhashed) :
    c.world.unhashed = c'.world.unhashed := congrArg Config.world h

theorem restart_unhashed {w w' : World} (h : w.unhashed = w'.unhashed) :
    (w.restart env).unhashed = (w'.restart env).unhashed := by
  have hrestart : ∀ u : World, (u.restart env).unhashed = u.unhashed.restart env := by
    intro u
    have htokens : (u.tokenStore.reopen Token.id).map Token.unhashed =
        (u.tokenStore.map Token.unhashed).reopen Token.id :=
      Journal.map_reopen (f := Token.unhashed) (fun _ => rfl) _
    have hagents : (u.agentIdentityStore.reopen AgentIdentity.id).map AgentIdentity.unhashed =
        (u.agentIdentityStore.map AgentIdentity.unhashed).reopen AgentIdentity.id :=
      Journal.map_reopen (f := AgentIdentity.unhashed) (fun _ => rfl) _
    exact congrArg₂ (fun tokens agents => { u.restart env with
      tokenStore := tokens, agentIdentityStore := agents }) htokens hagents
  rw [hrestart, hrestart, h]

theorem boot_unhashed {w w' : World} (h : w.unhashed = w'.unhashed) :
    (w.boot env).unhashed = (w'.boot env).unhashed := by
  unfold World.boot
  have hboot : HashBlind (defaultRedactionRule env) := hashBlind_defaultRedactionRule
  rcases seen_eq_cases (hboot w w' h) with ⟨a, b, t, t', hx, hy, -, ht⟩ | ⟨e, t, t', hx, hy, ht⟩
  · rw [hx, hy]
    exact ht
  · rw [hx, hy]
    exact ht

/-- **A step of the process ends alike**, if the call that it resumes finds the same of a hash. -/
theorem endsAlike_exec (env : Env) {c c' : Config κ} (h : c.unhashed = c'.unhashed) (a : Action κ)
    (hcheck : ∀ i downstream, a = .resume i downstream → c.check env i = c'.check env i) :
    EndsAlike (c.exec env a) (c'.exec env a) := by
  cases a with
  | call client call =>
    exact endsAlike_settle (inflight_unhashed h) (alike_startCall call _ _ (world_unhashed h))
  | resume i downstream =>
    have hcheck := hcheck i downstream rfl
    have hx : (c.inflight[i]?).map InFlight.unhashed = (c'.inflight[i]?).map InFlight.unhashed := by
      rw [← List.getElem?_map, ← List.getElem?_map, inflight_unhashed h]
    simp only [Config.exec]
    rcases option_cases hx with ⟨hi, hi'⟩ | ⟨x, x', hi, hi', hxx⟩
    · rw [hi, hi']
      exact ⟨h, rfl⟩
    · rw [hi, hi']
      simp only [Config.check, hi, hi', Option.bind_some] at hcheck
      obtain ⟨client, call, frame⟩ := x
      obtain ⟨client', call', frame'⟩ := x'
      obtain ⟨rfl, rfl, hframe⟩ := InFlight.mk.inj hxx
      refine endsAlike_settle ?_ (alike_resumeFrame hframe hcheck _ _ (world_unhashed h))
      rw [← List.eraseIdx_map, ← List.eraseIdx_map, inflight_unhashed h]
  | clock t =>
    have hinflight := inflight_unhashed h
    refine ⟨Config.unhashed_eq ?_ hinflight, rfl⟩
    exact World.agree (world_unhashed h) fun u => { u with clock := t }
  | restart =>
    exact ⟨Config.unhashed_eq (boot_unhashed (restart_unhashed (world_unhashed h))) rfl, rfl⟩

end Ambit
