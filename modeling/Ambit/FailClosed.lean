import Ambit.GatedCalls
import Ambit.RevocationRecords

/-! Failing closed: wherever in a run, and at whichever await of a call, an outage begins, an access
that the breaker rejects ends its call, and the call has changed no record. -/

namespace Ambit

open Effect

variable {env : Env} {w : World} {κ : Type} {c : Config κ} {a : Action κ} {call : Call}
  {x : Op (Progress Frame Outcome)}

/-! ## Accesses -/

/-- A breaker that counts a failure and lets every access through. -/
def CircuitBreaker.failedOnce : CircuitBreaker where
  state := .closed
  consecutiveFailures := 1
  openedAt := 0
  simulatingOutage := false

/-- The piece of a call makes an access to a guarded store: nothing but an access that succeeds lets
a breaker forget a failure. -/
def MakesAccess (x : Op (Progress Frame Outcome)) (w : World) : Prop :=
  (after x (w.withBreaker .failedOnce)).storeCircuitBreaker.consecutiveFailures = 0

theorem makesAccess_iff {asks : Prop} (h : wp x (Gated env (w.withBreaker .failedOnce) call asks)
    (w.withBreaker .failedOnce)) : MakesAccess x w ↔ asks := by
  cases wp_iff.mp h with
  | aside hasks hr =>
    refine iff_of_false (fun haccess => ?_) hasks
    cases haccess.symm.trans hr.breaker
  | admitted hasks _ hr => exact iff_of_true hr.breaker.2.1 hasks
  | turnedAway _ hrejects =>
    have hadmits : ¬ (w.withBreaker .failedOnce).Rejects env := by
      simp [World.Rejects, World.CoolingDown, World.withBreaker, CircuitBreaker.failedOnce]
    exact absurd hrejects hadmits

namespace Config

/-- The call whose piece an action runs, and the piece. -/
def piece (env : Env) (c : Config κ) : Action κ → Option (Call × Op (Progress Frame Outcome))
  | .call _ call => some (call, startCall env call)
  | .resume i downstream =>
    c.inflight[i]?.map fun e => (e.call, resumeFrame env downstream e.frame)
  | .clock _ | .restart => none

/-- The breaker rejects an access of the action: it does so from its start on, as the outage is
switched, and the time passes, between the pieces. -/
def TurnsAway (env : Env) (c : Config κ) (a : Action κ) : Prop :=
  c.world.Rejects env ∧ ∃ call x, c.piece env a = some (call, x) ∧ MakesAccess x c.world

/-- No call will throw a rejection of an earlier access again. -/
def Calm (c : Config κ) : Prop := ∀ e ∈ c.inflight, e.frame.Calm

theorem exec_of_piece (hpiece : c.piece env a = some (call, x)) : ∃ client inflight,
    c.exec env a = settle client call inflight (x c.world) ∧ inflight ⊆ c.inflight := by
  cases a with
  | call client started =>
    cases hpiece
    exact ⟨client, c.inflight, rfl, fun _ h => h⟩
  | resume i downstream =>
    obtain ⟨e, he, hpair⟩ := Option.map_eq_some_iff.mp hpiece
    cases hpair
    refine ⟨e.client, c.inflight.eraseIdx i, ?_, fun _ => List.mem_of_mem_eraseIdx⟩
    simp only [exec, he]
  | clock | restart => cases hpiece

theorem exec_of_no_piece (hpiece : c.piece env a = none) : (c.exec env a).2 = none := by
  cases a with
  | call => cases hpiece
  | resume i downstream => simp only [exec, Option.map_eq_none_iff.mp hpiece]
  | clock | restart => rfl

theorem settle_output {client : κ} {inflight : List (InFlight κ)} :
    (settle client call inflight (x w)).2 = (outcomeOf (result x w)).map (⟨client, call, ·⟩) := by
  unfold settle result
  rcases x w with ⟨_ | _, _⟩ | _ <;> rfl

theorem settle_inflight {client : κ} {inflight : List (InFlight κ)} {e : InFlight κ}
    (he : e ∈ (settle client call inflight (x w)).1.inflight) :
    e ∈ inflight ∨ result x w = .ok (.awaiting e.frame) := by
  unfold result
  rcases hrun : x w with ⟨_ | frame, _⟩ | _ <;> rw [hrun] at he
  · exact .inl he
  · rcases List.mem_append.mp he with he | he
    · exact .inl he
    · cases List.mem_singleton.mp he
      exact .inr rfl
  · exact .inl he

/-- What the piece of an action comes to. -/
theorem piece_gated (hsound : c.Sound env) (hcalm : c.Calm)
    (hpiece : c.piece env a = some (call, x)) :
    wp x (Gated env c.world call (MakesAccess x c.world)) c.world := by
  have hfaultless : c.world.Faultless := hsound.world.faults
  have hprobed : (c.world.withBreaker .failedOnce).Faultless := hfaultless
  cases a with
  | call client started =>
    cases hpiece
    have hasks : call.AsksStore (c.world.withBreaker .failedOnce) ↔ call.AsksStore c.world := by
      cases call <;> exact Iff.rfl
    rw [(makesAccess_iff (startCall_gated hprobed call)).trans hasks]
    exact startCall_gated hfaultless call
  | resume i downstream =>
    obtain ⟨e, he, hpair⟩ := Option.map_eq_some_iff.mp hpiece
    cases hpair
    have hmem := List.mem_of_getElem? he
    have hawaits := (hsound.frames e hmem).awaits
    have hasks : e.frame.AsksStore env (c.world.withBreaker .failedOnce) ↔
        e.frame.AsksStore env c.world := by
      rcases e.frame with _ | (_ | _) | _ | (_ | _ | _) | _ | _ | _ <;> exact Iff.rfl
    rw [(makesAccess_iff (resumeFrame_gated hprobed downstream hawaits (hcalm e hmem))).trans hasks]
    exact resumeFrame_gated hfaultless downstream hawaits (hcalm e hmem)
  | clock | restart => cases hpiece

theorem Calm.next (h : c.Calm) (hsound : c.Sound env) (a : Action κ) : (c.step env a).Calm := by
  cases hpiece : c.piece env a with
  | some piece =>
    obtain ⟨call, x⟩ := piece
    obtain ⟨client, inflight, hexec, hsubset⟩ := exec_of_piece hpiece
    have hgated := wp_iff.mp (piece_gated hsound h hpiece)
    intro e he
    rw [step, hexec] at he
    rcases settle_inflight he with he | hawaits
    · exact h e (hsubset he)
    · rw [hawaits] at hgated
      cases hgated with
      | aside _ hr => exact hr.frames _ rfl
      | admitted _ _ hr => exact hr.frames _ rfl
      | turnedAway _ _ o ho => cases ho
  | none =>
    cases a with
    | call => cases hpiece
    | resume i downstream =>
      simp only [Config.step, exec, Option.map_eq_none_iff.mp hpiece]
      exact h
    | clock => exact h
    | restart => exact fun e he => absurd he List.not_mem_nil

theorem calm_run (acts : List (Action κ)) : ((processMachine κ env).run acts).Calm := by
  refine Machine.run_induction (P := fun acts => ((processMachine κ env).run acts).Calm) acts ?_ ?_
  · exact fun e he => absurd he List.not_mem_nil
  · intro acts a ih
    rw [Machine.run_snoc]
    exact ih.next (sound_run acts) a

end Config

/-! ## Awaits -/

/-- What a call has done that is suspended: no record is different, and an approval has logged
nothing. -/
def Call.Suspends (call : Call) (w w' : World) : Prop :=
  w.SameRecords w' ∧ match call with
    | .approveRequest _ => w'.trail = w.trail
    | _ => True

theorem wp_synchronously_ends {α : Type} {op : Op α} {outcome : α → Outcome} :
    wp (synchronously op outcome) (fun r _ => outcomeOf r ≠ none) w := by
  refine wp_bind (wp_any fun r w' => ?_)
  cases r with
  | ok value => exact wp_pure (Option.some_ne_none _)
  | error err => exact Option.some_ne_none _

/-- What an issuance reads leaves no entry of its own in the log. -/
theorem issueToken_trail {request : TokenRequest} {hasPolicyStore : Bool}
    {before : List AuditEntryInput} :
    Keeps (fun w => w.Faultless ∧ w.trail = before) (fun _ => True)
      (issueToken env request hasPolicyStore) := by
  have hrejected : ∀ {α : Type} {w : World}, w.Faultless → w.trail = before → ∀ message,
      Kept (fun w => w.Faultless ∧ w.trail = before) (fun _ => True)
        (.error (.circuitOpen message) : Except Err α) (w.rejected env) := fun hfaultless htrail _ =>
    kept_error ⟨hfaultless.rejected, World.trail_rejected.trans htrail⟩ trivial
  have haccessed : ∀ {α : Type} {w : World}, w.Faultless → w.trail = before → ∀ a : α,
      Kept (fun w => w.Faultless ∧ w.trail = before) (fun _ => True)
        (.ok a : Except Err α) (w.accessed env) := fun hfaultless htrail _ =>
    kept_ok ⟨hfaultless.accessed, World.trail_accessed.trans htrail⟩
  have hpolicies : ∀ policyId, Keeps (fun w => w.Faultless ∧ w.trail = before) (fun _ => True)
      (PolicyStore.get env policyId) := fun _ _ hw =>
    Faultless.policyStore_get hw.1 (fun _ => hrejected hw.1 hw.2) fun _ => haccessed hw.1 hw.2 _
  have htokens : ∀ id, Keeps (fun w => w.Faultless ∧ w.trail = before) (fun _ => True)
      (TokenStore.get env id) := fun _ _ hw =>
    Faultless.tokenStore_get hw.1 (fun _ => hrejected hw.1 hw.2) fun _ => haccessed hw.1 hw.2 _
  have hdraw : ∀ {α : Type} (value : ℕ → α), Keeps (fun w => w.Faultless ∧ w.trail = before)
      (fun _ => True) (draw value) := fun value =>
    Keeps.get_bind fun _ hw => Keeps.bind (Keeps.set hw) fun _ => Keeps.pure
  refine Keeps.bind (Keeps.throwIf trivial) fun _ => Keeps.bind (Keeps.throwIf trivial) fun _ =>
    Keeps.bind ?_ fun _ => Keeps.bind (Keeps.bind Keeps.get fun _ => Keeps.pure) fun issuedAt =>
      Keeps.bind ?_ fun parent => Keeps.bind (hdraw _) fun _ => Keeps.bind (hdraw _) fun _ => Keeps.pure
  · cases truthy request.policyId with
    | none => exact Keeps.pure
    | some policyId =>
      refine Keeps.bind (Keeps.throwIf trivial) fun _ => Keeps.bind (hpolicies policyId) fun found => ?_
      cases found with
      | none => exact Keeps.throw trivial
      | some policy => exact Keeps.bind (Keeps.throwIf trivial) fun _ => Keeps.throwIf trivial
  · cases truthy request.parentTokenId with
    | none => exact Keeps.pure
    | some parentTokenId => exact htokens parentTokenId

theorem approveRequest_suspends (h : w.Faultless) (input : ApprovalInput) :
    wp (approveRequest env input) (fun r w' => OnOk (fun _ => w'.trail = w.trail) r) w := by
  refine wp_bind (wp_mono (getPending_spec _ _) ?_)
  rintro r _ ⟨rfl, -⟩
  cases r with
  | error => trivial
  | ok pending =>
    refine wp_bind (wp_ite (fun _ => wp_pure ?_) fun _ => wp_bind (wp_any fun r _ => ?_))
    · refine wp_bind (wp_bind (wp_attempt (wp_mono (issueToken_trail _ ⟨h, rfl⟩) fun r w' hr => ?_)))
      cases r with
      | ok issue => exact wp_pure (wp_pure hr.state.2)
      | error err =>
        refine wp_bind (wp_any fun r _ => ?_)
        cases r with
        | ok => exact wp_throw trivial
        | error => trivial
    · cases r with
      | ok => exact wp_throw trivial
      | error => trivial

theorem startCall_suspends (h : w.Faultless) (call : Call) :
    wp (startCall env call) (fun r w' => outcomeOf r = none → call.Suspends w w') w := by
  have hends : ∀ {α : Type} {op : Op α} {outcome : α → Outcome} {call : Call},
      wp (synchronously op outcome) (fun r w' => outcomeOf r = none → call.Suspends w w') w :=
    wp_mono wp_synchronously_ends fun _ _ hr hnone => absurd hnone hr
  cases call with
  | approveRequest input =>
    have happrove : Along World.SameRecords (approveRequest env input) := along_approveRequest input
    refine wp_bind (wp_mono (wp_and (happrove.wp w) (approveRequest_suspends h input)) fun r w' hr => ?_)
    cases r with
    | ok frame => exact wp_pure fun _ => hr
    | error => exact fun hnone => absurd hnone (Option.some_ne_none _)
  | delegateToken input =>
    exact wp_mono ((along_map (along_delegateToken input) _ _).wp w) fun _ _ hrecords _ =>
      ⟨hrecords, trivial⟩
  | enforceToken tokenId secret action now =>
    exact wp_mono ((along_map (along_enforceToken tokenId secret action now) _ _).wp w)
      fun _ _ hrecords _ => ⟨hrecords, trivial⟩
  | accessMockEndpoint input =>
    exact wp_mono ((along_map (along_accessMockEndpoint input) _ _).wp w) fun _ _ hrecords _ =>
      ⟨hrecords, trivial⟩
  | accessCustomerData input =>
    exact wp_mono ((along_map (along_accessCustomerData input) _ _).wp w) fun _ _ hrecords _ =>
      ⟨hrecords, trivial⟩
  | registerAgentIdentity subject createdBy now =>
    exact wp_mono ((Along.bind (along_registerAgentIdentity subject createdBy now) fun _ =>
      Along.pure).wp w) fun _ _ hrecords _ => ⟨hrecords, trivial⟩
  | authenticateAgent credential =>
    exact wp_mono ((along_map (along_authenticateAgent credential) _ _).wp w) fun _ _ hrecords _ =>
      ⟨hrecords, trivial⟩
  | getTokenLineage => exact wp_bind (wp_get hends)
  | _ => exact hends

theorem delegate_suspends {frame : DelegateFrame} :
    wp (frame.resume env) (fun r w' => outcomeOf (r.map (·.map .delegate .delegation)) = none →
      w.SameRecords w') w := by
  cases frame with
  | verifying input parent =>
    simp only [DelegateFrame.resume]
    cases delegationDenial env input parent with
    | some reasonCode =>
      have hdenied : Along World.SameRecords (do
          return .returned (← denyDelegation env input reasonCode) :
            Op (Progress DelegateFrame DelegationDecision)) :=
        Along.bind (along_denyDelegation input reasonCode) fun _ => Along.pure
      exact wp_mono (hdenied.wp w) fun _ _ hrecords _ => hrecords
    | none =>
      have hissued : Along World.SameRecords (do
          let issue ← attempt (issueToken env input.tokenRequest false)
          catchCircuitOpen env input issue fun issue => return .awaiting (.issuing input issue)) :=
        Along.bind (Along.attempt (along_issueToken _ _)) fun issue =>
          along_catchCircuitOpen input issue fun _ => Along.pure
      exact wp_mono (hissued.wp w) fun _ _ hrecords _ => hrecords
  | issuing input issue =>
    refine wp_bind (wp_attempt (wp_any fun r w' => ?_))
    rcases r with (err | issued)
    · cases err with
      | circuitOpen =>
        refine wp_bind (wp_any fun r _ => ?_)
        cases r with
        | ok => exact wp_pure fun hnone => absurd hnone (Option.some_ne_none _)
        | error => exact fun hnone => absurd hnone (Option.some_ne_none _)
      | _ => exact wp_throw fun hnone => absurd hnone (Option.some_ne_none _)
    · refine wp_bind (wp_any fun r _ => ?_)
      cases r with
      | ok => exact wp_pure fun hnone => absurd hnone (Option.some_ne_none _)
      | error => exact fun hnone => absurd hnone (Option.some_ne_none _)

theorem resumeFrame_suspends (downstream : Downstream) {frame : Frame} (hawaits : call.Awaits frame) :
    wp (resumeFrame env downstream frame) (fun r w' => outcomeOf r = none → call.Suspends w w') w := by
  have hends : ∀ {α : Type} {op : Op α} {outcome : α → Outcome},
      wp (synchronously op outcome) (fun r w' => outcomeOf r = none → call.Suspends w w') w :=
    wp_mono wp_synchronously_ends fun _ _ hr hnone => absurd hnone hr
  cases frame with
  | approve | enforce | customer | register => exact hends
  | authenticate => exact wp_pure fun hnone => absurd hnone (Option.some_ne_none _)
  | delegate frame =>
    refine wp_mapped (wp_mono delegate_suspends fun r w' hr hnone => ⟨hr hnone, ?_⟩)
    cases call <;> first | exact hawaits.elim | trivial
  | access frame =>
    have hresumed : Along World.SameRecords (frame.resume env downstream) :=
      frame.along_resume downstream
    refine wp_mapped (wp_mono (hresumed.wp w) fun _ _ hrecords _ => ?_)
    refine ⟨hrecords, ?_⟩
    cases call <;> first | exact hawaits.elim | trivial

/-! ## Runs -/

/-- A revocation is performed for the token and all that active links lead to, or not at all. -/
inductive WholeOrNot (w : World) (id : String) (reasonCode : RevocationReason) (now : Int)
    (actor : Option String) : Outcome → World → Prop
  | not (err : Err) (w' : World) (htokens : w'.tokenStore = w.tokenStore)
      (htrail : w'.trail = w.trail) : WholeOrNot w id reasonCode now actor (.failed err) w'
  | whole (token : Token) (revoked : List Token) (w' : World)
      (htoken : w.tokenStore.live.get id = some token)
      (heffect : RevokedExactly w id reasonCode now actor revoked w') :
      WholeOrNot w id reasonCode now actor (.token (token.revoke now reasonCode)) w'

theorem revokeToken_wholeOrNot (h : w.Faultless) (hkeyed : w.Keyed) (id : String)
    (reasonCode : RevocationReason) (now : Int) (actor : Option String) :
    wp (startCall env (.revokeToken id reasonCode now actor)) (fun r w' =>
      ∃ o, outcomeOf r = some o ∧ WholeOrNot w id reasonCode now actor o w') w := by
  refine wp_bind ?_
  cases htoken : w.tokenStore.live.get id with
  | some token =>
    refine wp_mono (revokeToken_ends h hkeyed htoken) fun r w' hr => ?_
    cases hr with
    | rejected message w' _ htokens htrail => exact ⟨_, rfl, .not _ w' htokens htrail⟩
    | revoked revoked w' _ heffect =>
      obtain rfl : token.id = id := hkeyed _ _ htoken
      exact wp_pure ⟨_, rfl, .whole token revoked w' htoken heffect⟩
  | none =>
    refine wp_bind (Faultless.tokenStore_get h (fun _ message => ?_) fun _ => ?_)
    · exact ⟨_, rfl, .not _ _ (by simp) (by simp)⟩
    · rw [htoken]
      exact wp_throw ⟨_, rfl, .not _ _ (by simp) (by simp)⟩

/-- What the process does with an action while its store may be out of reach. -/
structure FailsClosed (env : Env) (c : Config κ) (a : Action κ) : Prop where
  /-- A rejected access ends its call. -/
  turnedAway : ∀ call x, c.piece env a = some (call, x) → c.TurnsAway env a → ∃ client o,
    (c.exec env a).2 = some ⟨client, call, o⟩ ∧ call.TurnedAway c.world o (c.step env a).world
  /-- No other call tells of an outage. -/
  told : ∀ s, (c.exec env a).2 = some s → (s.outcome.Unavailable ↔ c.TurnsAway env a)
  /-- Behind an access that was let through none is rejected. -/
  flows : ∀ call x, c.piece env a = some (call, x) → MakesAccess x c.world →
    ¬ c.TurnsAway env a → (c.step env a).world.storeCircuitBreaker.Flowing
  /-- No call has changed anything at its awaits. -/
  suspends : ∀ call x, c.piece env a = some (call, x) → (c.exec env a).2 = none →
    call.Suspends c.world (c.step env a).world
  cascades : ∀ client id reasonCode now actor, a = .call client (.revokeToken id reasonCode now actor) →
    ∃ o, (c.exec env a).2 = some ⟨client, .revokeToken id reasonCode now actor, o⟩ ∧
      WholeOrNot c.world id reasonCode now actor o (c.step env a).world

theorem Call.TurnedAway.unavailable {o : Outcome} {w' : World} (h : call.TurnedAway w o w') :
    o.Unavailable := by
  obtain ⟨-, h⟩ := h
  cases call with
  | enforceToken | delegateToken =>
    obtain rfl := h
    exact trivial
  | approveRequest =>
    obtain ⟨message, pending, rfl, -⟩ := h
    exact trivial
  | createPolicy | modifyPolicy | revokeToken =>
    obtain ⟨⟨message, rfl⟩, -⟩ := h
    exact trivial
  | _ => exact h

/-- **The process fails closed.** After every run, whatever the next action is, wherever in the run
outages began and ended and whichever calls are suspended. -/
theorem failsClosed (acts : List (Action κ)) (a : Action κ) :
    FailsClosed env ((processMachine κ env).run acts) a := by
  have hsound : ((processMachine κ env).run acts).Sound env := Config.sound_run acts
  have hcalm : ((processMachine κ env).run acts).Calm := Config.calm_run acts
  generalize (processMachine κ env).run acts = c at hsound hcalm ⊢
  have hended : ∀ {call x}, c.piece env a = some (call, x) → ∃ client,
      (c.exec env a).2 = (outcomeOf (result x c.world)).map (⟨client, call, ·⟩) ∧
        (c.step env a).world = after x c.world := by
    intro call x hpiece
    obtain ⟨client, inflight, hexec, -⟩ := Config.exec_of_piece hpiece
    refine ⟨client, ?_, ?_⟩
    · rw [hexec, Config.settle_output]
    · rw [Config.step, hexec, Config.settle_world]
  refine ⟨?_, ?_, ?_, ?_, ?_⟩
  · rintro call x hpiece ⟨hrejects, _, _, hpiece', haccess⟩
    cases hpiece.symm.trans hpiece'
    obtain ⟨client, houtput, hworld⟩ := hended hpiece
    cases wp_iff.mp (Config.piece_gated hsound hcalm hpiece) with
    | aside hasks => exact absurd haccess hasks
    | admitted _ hadmits => exact absurd hrejects hadmits
    | turnedAway _ _ o ho hturned =>
      rw [ho] at houtput
      exact ⟨client, o, houtput, hworld ▸ hturned⟩
  · intro s hs
    cases hpiece : c.piece env a with
    | none => cases (Config.exec_of_no_piece hpiece).symm.trans hs
    | some piece =>
      obtain ⟨call, x⟩ := piece
      obtain ⟨client, houtput, -⟩ := hended hpiece
      rw [hs] at houtput
      obtain ⟨o, ho, rfl⟩ := Option.map_eq_some_iff.mp houtput.symm
      have hpieces : c.TurnsAway env a ↔ c.world.Rejects env ∧ MakesAccess x c.world := by
        refine and_congr_right fun _ => ⟨?_, fun haccess => ⟨call, x, hpiece, haccess⟩⟩
        rintro ⟨_, _, hpiece', haccess⟩
        cases hpiece.symm.trans hpiece'
        exact haccess
      rw [hpieces]
      cases wp_iff.mp (Config.piece_gated hsound hcalm hpiece) with
      | aside hasks hr => exact iff_of_false (hr.available o ho) fun h => hasks h.2
      | admitted _ hadmits hr => exact iff_of_false (hr.available o ho) fun h => hadmits h.1
      | turnedAway hasks hrejects o' ho' hturned =>
        cases ho.symm.trans ho'
        exact iff_of_true hturned.unavailable ⟨hrejects, hasks⟩
  · intro call x hpiece haccess hnot
    obtain ⟨client, -, hworld⟩ := hended hpiece
    rw [hworld]
    cases wp_iff.mp (Config.piece_gated hsound hcalm hpiece) with
    | aside hasks => exact absurd haccess hasks
    | admitted _ _ hr => exact hr.breaker
    | turnedAway _ hrejects => exact absurd ⟨hrejects, call, x, hpiece, haccess⟩ hnot
  · intro call x hpiece hnone
    obtain ⟨client, houtput, hworld⟩ := hended hpiece
    have houtcome := Option.map_eq_none_iff.mp (houtput.symm.trans hnone)
    rw [hworld]
    cases a with
    | call client started =>
      cases hpiece
      exact wp_iff.mp (startCall_suspends hsound.world.faults call) houtcome
    | resume i downstream =>
      obtain ⟨e, he, hpair⟩ := Option.map_eq_some_iff.mp hpiece
      cases hpair
      have hawaits := (hsound.frames e (List.mem_of_getElem? he)).awaits
      exact wp_iff.mp (resumeFrame_suspends downstream hawaits) houtcome
    | clock | restart => cases hpiece
  · rintro client id reasonCode now actor rfl
    obtain ⟨o, ho, hwhole⟩ := wp_iff.mp (revokeToken_wholeOrNot hsound.world.faults
      hsound.world.tokens.keyed id reasonCode now actor)
    refine ⟨o, ?_, ?_⟩
    · refine Config.settle_output.trans ?_
      rw [ho]
      rfl
    · rw [Config.step, Config.exec, Config.settle_world]
      exact hwhole

end Ambit
