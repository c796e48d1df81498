import Ambit.CallInvariants
import Ambit.IdempotentSubmission
import Ambit.ScopeNarrowing

/-! What the process lets be done with a token: only what the stored token permits, on the strength
of its own secret, whatever else happens while the call waits. -/

namespace Ambit

open Effect

/-! ## Uses -/

/-- An action with a token, on the strength of a secret. -/
structure TokenUse where
  tokenId : String
  providedSecret : String
  action : String

def AccessInput.use (input : AccessInput) : TokenUse :=
  ⟨input.tokenId, input.providedSecret, input.action⟩

def CustomerAccessInput.use (input : CustomerAccessInput) : TokenUse :=
  ⟨input.tokenId, input.providedSecret, customerReadAction⟩

/-- A delegation uses every permission that it hands on. -/
def DelegationInput.uses (input : DelegationInput) : List TokenUse :=
  input.requestedScope.map fun action => ⟨input.parentTokenId, input.providedParentSecret, action⟩

def EnforceFrame.use (frame : EnforceFrame) : TokenUse :=
  ⟨frame.tokenId, frame.providedSecret, frame.action⟩

/-- What a call asks to be let do. -/
def Call.uses : Call → List TokenUse
  | .enforceToken tokenId providedSecret action _ => [⟨tokenId, providedSecret, action⟩]
  | .accessMockEndpoint input => [input.use]
  | .accessCustomerData input => [input.use]
  | .delegateToken input => input.uses
  | _ => []

/-- The call was let do what it asked for: at the endpoint it may have failed. -/
def Outcome.letsThrough : Outcome → Bool
  | .enforcement .allowed => true
  | .access (.success _) => true
  | .access .unreachable => true
  | .customer (.data _ _) => true
  | .delegation (.approved _ _) => true
  | _ => false

/-- The stored token has the action in its scope, and the secret opens it. -/
def Ledger.Permits (env : Env) (L : Ledger) (use : TokenUse) : Prop :=
  ∃ t, L.tokens use.tokenId = some t ∧ use.action ∈ t.scope ∧
    verifyPassword env.toPlatform use.providedSecret t.secretHash = true

variable {env : Env} {κ : Type} {L : Ledger} {w : World} {call : Call}

/-- What was permitted stays so, in scope and secret. -/
theorem Ledger.Permits.after {p : Platform} {e : Event} {use : TokenUse} (h : L.Permits env use)
    (he : L.Enabled p e) : (L.after e).Permits env use := by
  obtain ⟨t, ht, hscope, hverify⟩ := h
  have hsame := sameTerms_changedToken e use.tokenId t
  refine ⟨_, he.token_stays ht, ?_, ?_⟩
  · rw [hsame.scope_eq]
    exact hscope
  · rw [hsame.secretHash_eq]
    exact hverify

/-- The gateway allows what the ledger permits. -/
theorem EnforceFrame.Allows.permits {frame : EnforceFrame} (h : frame.Allows env)
    (hsound : frame.Sound L) : L.Permits env frame.use := by
  obtain ⟨⟨current, hcurrent, hagrees⟩, hid⟩ := hsound
  obtain ⟨-, hscope, -⟩ := decide_eq_allowed.mp h.2
  refine ⟨current, ?_, ?_, ?_⟩
  · rw [EnforceFrame.use, ← hid]
    exact hcurrent
  · rw [hagrees.scope_eq]
    exact hscope
  · rw [hagrees.secretHash_eq]
    exact h.1

/-- The call asks for something, and for nothing that is not permitted. -/
def Call.Permitted (env : Env) (L : Ledger) (call : Call) : Prop :=
  call.uses ≠ [] ∧ ∀ use ∈ call.uses, L.Permits env use

theorem Call.Permitted.after {p : Platform} {e : Event} (h : call.Permitted env L)
    (he : L.Enabled p e) : call.Permitted env (L.after e) :=
  ⟨h.1, fun use huse => (h.2 use huse).after he⟩

theorem Call.permitted_singleton {use : TokenUse} (hcall : call.uses = [use]) (h : L.Permits env use) :
    call.Permitted env L := by
  rw [Call.Permitted, hcall]
  exact ⟨List.cons_ne_nil _ _, List.forall_mem_singleton.mpr h⟩

/-- A delegation that is not denied is permitted. -/
theorem DelegationInput.permitted {input : DelegationInput} {parent : Token}
    (hread : L.HasRead parent) (hid : parent.id = input.parentTokenId)
    (h : delegationDenial env input parent = none) :
    (Call.delegateToken input).Permitted env L := by
  obtain ⟨current, hcurrent, hagrees⟩ := hread
  have hsubset := (delegationDenial_eq_none h hid).scope_subset
  unfold delegationDenial at h
  split at h
  · cases h
  next hverify =>
  split at h
  · cases h
  split at h
  · cases h
  next hne =>
  refine ⟨fun hnil => hne (List.map_eq_nil_iff.mp hnil), fun use huse => ?_⟩
  obtain ⟨action, haction, rfl⟩ := List.mem_map.mp huse
  refine ⟨current, hid ▸ hcurrent, ?_, ?_⟩
  · rw [hagrees.scope_eq]
    exact hsubset haction
  · rw [hagrees.secretHash_eq]
    simpa using hverify

/-! ## What a suspended call remembers -/

/-- A suspended call remembers its arguments, and behind the check that they are permitted. -/
def Call.Remembers (env : Env) (L : Ledger) (call : Call) : Frame → Prop
  | .enforce frame => call.uses = [frame.use]
  | .access (.enforcing input frame) => call = .accessMockEndpoint input ∧ frame.use = input.use
  | .access (.calling _ _) | .access (.sleeping _ _) => call.Permitted env L
  | .customer frame =>
    call = .accessCustomerData frame.input ∧ frame.enforce.use = frame.input.use
  | .delegate (.verifying input _) => call = .delegateToken input
  | .delegate (.issuing _ _) => call.Permitted env L
  | .approve _ | .register _ | .authenticate _ => True

theorem Call.Remembers.after {p : Platform} {e : Event} {frame : Frame}
    (h : call.Remembers env L frame) (he : L.Enabled p e) : call.Remembers env (L.after e) frame := by
  cases frame with
  | access frame =>
    cases frame with
    | enforcing => exact h
    | calling | sleeping => exact Call.Permitted.after h he
  | delegate frame =>
    cases frame with
    | verifying => exact h
    | issuing => exact Call.Permitted.after h he
  | enforce | customer | approve | register | authenticate => exact h

/-- A piece of the call lets nothing through but what the ledger permits. -/
abbrev Call.Heeds (env : Env) (L : Ledger) (call : Call) :
    Except Err (Progress Frame Outcome) → World → Prop :=
  Upheld (fun _ => True) (call.Remembers env L) fun outcome _ =>
    outcome.letsThrough = true → call.Permitted env L

section
variable {α : Type}

theorem wp_synchronously_heeds {op : Op α} {outcome : α → Outcome}
    (h : ∀ a, (outcome a).letsThrough = false) :
    wp (synchronously op outcome) (call.Heeds env L) w := by
  refine wp_synchronously_upheld (wp_any fun r w' => ⟨trivial, ?_⟩)
  cases r with
  | error err => trivial
  | ok a => exact fun hlets => Bool.noConfusion ((h a).symm.trans hlets)

theorem wp_awaiting_heeds {op : Op α} {onFrame : α → Frame}
    (h : ∀ a, call.Remembers env L (onFrame a)) :
    wp (do return Progress.awaiting (onFrame (← op))) (call.Heeds env L) w := by
  refine wp_bind (wp_any fun r w' => ?_)
  cases r with
  | error err => exact upheld_error trivial
  | ok a => exact wp_pure (upheld_awaiting trivial (h a))

end

/-! ## From the start to the first await -/

theorem startCall_heeds (h : w.Sound env) (call : Call) :
    wp (startCall env call) (call.Heeds env w.ledger) w := by
  cases call with
  | approveRequest | registerAgentIdentity => exact wp_awaiting_heeds fun _ => trivial
  | authenticateAgent credential =>
    refine wp_map_upheld (wp_any fun r w' => ⟨trivial, ?_⟩)
    rcases r with err | identity | frame
    · trivial
    · exact nofun
    · trivial
  | getTokenLineage => exact wp_bind (wp_get (wp_synchronously_heeds fun _ => rfl))
  | delegateToken input =>
    refine wp_map_upheld (wp_mono (delegateToken_spec h input) fun r w' ⟨_, hr⟩ => ⟨trivial, ?_⟩)
    rcases r with err | decision | frame
    · trivial
    · cases decision with
      | approved => exact hr.elim
      | denied => exact nofun
    · obtain ⟨parent, rfl, -⟩ := hr
      rfl
  | enforceToken tokenId providedSecret action now =>
    refine wp_map_upheld (wp_mono (enforceToken_spec h ..) fun r w' ⟨_, hr⟩ => ⟨trivial, ?_⟩)
    rcases r with err | decision | frame
    · trivial
    · cases decision with
      | allowed => exact absurd rfl hr
      | denied => exact nofun
    · show [_] = [frame.use]
      rw [EnforceFrame.use, hr.tokenId_eq, hr.providedSecret_eq, hr.action_eq]
  | accessMockEndpoint input =>
    refine wp_map_upheld (wp_bind (wp_mono (enforceToken_spec h ..) fun r w' ⟨_, hr⟩ => ?_))
    rcases r with err | decision | frame
    · exact ⟨trivial, trivial⟩
    · cases decision with
      | allowed => exact absurd rfl hr
      | denied => exact wp_pure ⟨trivial, nofun⟩
    · refine wp_pure ⟨trivial, rfl, ?_⟩
      rw [EnforceFrame.use, hr.tokenId_eq, hr.providedSecret_eq, hr.action_eq, AccessInput.use]
  | accessCustomerData input =>
    refine wp_map_upheld (wp_bind (wp_mono (enforceToken_spec h ..) fun r w' ⟨_, hr⟩ => ?_))
    rcases r with err | decision | frame
    · exact ⟨trivial, trivial⟩
    · cases decision with
      | allowed => exact absurd rfl hr
      | denied => exact wp_bind (wp_pure (wp_pure ⟨trivial, nofun⟩))
    · refine wp_pure ⟨trivial, rfl, ?_⟩
      show frame.use = input.use
      rw [EnforceFrame.use, hr.tokenId_eq, hr.providedSecret_eq, hr.action_eq, CustomerAccessInput.use]
  | _ => exact wp_synchronously_heeds fun _ => rfl

/-! ## From an await to the next -/

/-- Behind the gateway an access waits for the endpoint, or ends. -/
theorem Call.Permitted.pastGateway {r : Except Err (Progress AccessFrame AccessResult)} {w' : World}
    (hpermitted : call.Permitted env L) (h : OnOk (Progress.OnFrame AccessFrame.PastGateway) r) :
    OnOk (Progress.Meets (fun frame => call.Remembers env L (.access frame))
      (fun result _ => (Outcome.access result).letsThrough = true → call.Permitted env L) w') r := by
  rcases r with err | result | frame
  · trivial
  · exact fun _ => hpermitted
  · cases frame with
    | enforcing => exact h.elim
    | calling | sleeping => exact hpermitted

theorem wp_accessResume_heeds (h : w.Sound env) (downstream : Downstream) {frame : AccessFrame}
    (hpast : frame.PastGateway) (hpermitted : call.Permitted env L) :
    wp (resumeFrame env downstream (.access frame)) (call.Heeds env L) w :=
  wp_map_upheld (wp_mono (AccessFrame.resume_quietly hpast downstream w h) fun _ _ hr =>
    ⟨trivial, hpermitted.pastGateway hr.2⟩)

/-- A delegation that is denied hands on nothing. -/
theorem wp_denyDelegation_heeds (input : DelegationInput) (reasonCode : DelegationDenialReason) :
    wp (do return Progress.returned (← denyDelegation env input reasonCode))
      (fun r w' => True ∧ OnOk (Progress.Meets (fun frame => call.Remembers env L (.delegate frame))
        (fun decision _ => (Outcome.delegation decision).letsThrough = true → call.Permitted env L)
        w') r) w := by
  refine wp_bind (wp_bind (wp_any fun r w' => ?_))
  cases r with
  | error err => exact ⟨trivial, trivial⟩
  | ok => exact wp_pure (wp_pure ⟨trivial, nofun⟩)

theorem resumeFrame_heeds (h : w.Sound env) (downstream : Downstream) {frame : Frame}
    (hframe : frame.Holds env w.ledger w.supply) (hcall : call.Remembers env w.ledger frame) :
    wp (resumeFrame env downstream frame) (call.Heeds env w.ledger) w := by
  cases frame with
  | approve | register => exact wp_synchronously_heeds fun _ => rfl
  | authenticate => exact wp_pure (upheld_returned trivial nofun)
  | enforce frame =>
    refine wp_synchronously_upheld (wp_mono (frame.resume_spec h hframe.1) ?_)
    rintro r w' ⟨-, decision, rfl, hallows⟩
    refine ⟨trivial, fun hlets => ?_⟩
    cases decision with
    | allowed => exact Call.permitted_singleton hcall ((hallows.mp rfl).permits hframe)
    | denied => cases hlets
  | customer frame =>
    obtain ⟨rfl, huse⟩ := hcall
    refine wp_synchronously_upheld (wp_bind (wp_mono (frame.enforce.resume_spec h hframe.1) ?_))
    rintro r w' ⟨-, decision, rfl, hallows⟩
    cases decision with
    | allowed =>
      have hpermits := huse ▸ (hallows.mp rfl).permits hframe
      refine wp_any fun r w'' => ⟨trivial, ?_⟩
      cases r with
      | error err => trivial
      | ok result => exact fun _ => Call.permitted_singleton rfl hpermits
    | denied => exact wp_pure ⟨trivial, nofun⟩
  | access frame =>
    cases frame with
    | enforcing input frame =>
      obtain ⟨rfl, huse⟩ := hcall
      refine wp_map_upheld (wp_bind (wp_mono (frame.resume_spec h hframe.1) ?_))
      rintro r w' ⟨hstep, decision, rfl, hallows⟩
      cases decision with
      | allowed =>
        have hpermits := huse ▸ (hallows.mp rfl).permits hframe
        refine wp_mono (accessAfter_quietly input .allowed w' hstep.sound) fun r w'' hr => ⟨trivial, ?_⟩
        exact (Call.permitted_singleton rfl hpermits).pastGateway hr.2
      | denied => exact wp_pure ⟨trivial, nofun⟩
    | calling | sleeping => exact wp_accessResume_heeds h downstream trivial hcall
  | delegate frame =>
    cases frame with
    | verifying input parent =>
      obtain rfl : call = .delegateToken input := hcall
      refine wp_map_upheld ?_
      simp only [DelegateFrame.resume]
      cases hdenial : delegationDenial env input parent with
      | some reasonCode => exact wp_denyDelegation_heeds input reasonCode
      | none =>
        have hpermitted := DelegationInput.permitted hframe.1 hframe.2 hdenial
        refine wp_bind (wp_attempt (wp_any fun r w' => ?_))
        rcases r with err | issue
        · cases err with
          | circuitOpen => exact wp_denyDelegation_heeds input .storeUnavailable
          | _ => exact wp_throw ⟨trivial, trivial⟩
        · exact wp_pure ⟨trivial, hpermitted⟩
    | issuing input issue =>
      refine wp_map_upheld (wp_bind (wp_attempt (wp_any fun r w' => ?_)))
      rcases r with err | issued
      · cases err with
        | circuitOpen => exact wp_denyDelegation_heeds input .storeUnavailable
        | _ => exact wp_throw ⟨trivial, trivial⟩
      · refine wp_bind (wp_any fun r w' => ?_)
        cases r with
        | error err => exact ⟨trivial, trivial⟩
        | ok => exact wp_pure ⟨trivial, fun _ => hcall⟩

/-! ## Along every run -/

/-- What waits remembers what it asked for. -/
def Config.Remembers (env : Env) (L : Ledger) (c : Config κ) : Prop :=
  ∀ x ∈ c.inflight, x.call.Remembers env L x.frame

/-- An action lets nothing through but what the ledger before it permits. -/
theorem Config.Remembers.exec {c : Config κ} (h : c.Remembers env c.world.ledger) (hc : c.Sound env)
    (a : Action κ) : (c.exec env a).1.Remembers env c.world.ledger ∧
      ∀ s ∈ (c.exec env a).2, s.outcome.letsThrough = true →
        s.call.Permitted env c.world.ledger := by
  have hsettle : ∀ {client : κ} {call : Call} {inflight : List (InFlight κ)}
      {x : Op (Progress Frame Outcome)}, (∀ x ∈ inflight, x ∈ c.inflight) →
      wp x (call.Heeds env c.world.ledger) c.world →
      (Config.settle client call inflight (x c.world)).1.Remembers env c.world.ledger ∧
        ∀ s ∈ (Config.settle client call inflight (x c.world)).2, s.outcome.letsThrough = true →
          s.call.Permitted env c.world.ledger := by
    intro client call inflight x hinflight hx
    have hleaves : Leaves _ _ _ call inflight (Config.settle client call inflight (x c.world)) :=
      leaves_settle hx
    refine ⟨fun y hy => ?_, fun s hs hlets => ?_⟩
    · rcases hleaves.frames y hy with hy | ⟨hcall, hframe⟩
      · exact h y (hinflight y hy)
      · rw [hcall]
        exact hframe
    · obtain ⟨hcall, ⟨err, herr⟩ | houtcome⟩ := hleaves.outcome s hs
      · rw [herr] at hlets
        cases hlets
      · rw [hcall]
        exact houtcome hlets
  cases a with
  | call client call => exact hsettle (fun _ hx => hx) (startCall_heeds hc.world call)
  | resume i downstream =>
    simp only [Config.exec]
    cases hx : c.inflight[i]? with
    | none => exact ⟨h, fun s hs => by cases hs⟩
    | some x =>
      have hmem := List.mem_of_getElem? hx
      exact hsettle (fun _ => List.mem_of_mem_eraseIdx)
        (resumeFrame_heeds hc.world downstream (hc.frames x hmem).holds (h x hmem))
  | clock t => exact ⟨h, fun s hs => by cases hs⟩
  | restart => exact ⟨(fun x hx => by cases hx), fun s hs => by cases hs⟩

/-- What is let through along a run is permitted, and what waits remembers what it asked for. -/
structure Heeded (env : Env) (acts : List (Action κ)) (c : Config κ) : Prop where
  waiting : c.Remembers env c.world.ledger
  ended : ∀ s ∈ settledCalls env acts, s.outcome.letsThrough = true →
    s.call.Permitted env c.world.ledger

/-- **Nothing is let through but what is permitted**, along every run and whatever runs meanwhile. -/
theorem heeded_run (acts : List (Action κ)) : Heeded env acts ((processMachine κ env).run acts) := by
  induction acts using List.reverseRecOn with
  | nil => exact ⟨(fun x hx => by cases hx), fun s hs => by cases hs⟩
  | append_singleton acts a ih =>
    have hc : ((processMachine κ env).run acts).Sound env := Config.sound_run acts
    obtain ⟨e, hadvances⟩ := hc.exec a
    obtain ⟨hwaiting, hended⟩ := ih.waiting.exec hc a
    have henabled := hadvances.enabled
    rw [Machine.run_snoc]
    constructor
    · intro x hx
      show x.call.Remembers env (((processMachine κ env).run acts).exec env a).1.world.ledger x.frame
      rw [hadvances.ledger_eq]
      exact (hwaiting x hx).after henabled
    · intro s hs hlets
      show s.call.Permitted env (((processMachine κ env).run acts).exec env a).1.world.ledger
      rw [settledCalls_snoc] at hs
      rw [hadvances.ledger_eq]
      rcases List.mem_append.mp hs with hs | hs
      · exact (ih.ended s hs hlets).after henabled
      · exact (hended s (Option.mem_toList.mp hs) hlets).after henabled

/-! ## Where the permissions come from -/

/-- The request was submitted by a call of the run. -/
def SubmissionCalled (acts : List (Action κ)) (r : PendingRequest) : Prop :=
  ∃ client request primaryApprover now,
    Action.call client (.requestToken request primaryApprover now) ∈ acts ∧
      request.subject = r.subject ∧ request.scope = r.scope

theorem Config.Explains.submitted {c : Config κ} {output : Option (Settled κ)} {a : Action κ}
    {r : PendingRequest} (h : c.Explains env output (.submitted r) a) :
    ∃ client request primaryApprover now,
      a = .call client (.requestToken request primaryApprover now) ∧
        r = request.pending primaryApprover now r.id := by
  cases a with
  | call client call =>
    obtain ⟨outcome, -, request, primaryApprover, now, rfl, hr, -⟩ := h
    exact ⟨client, request, primaryApprover, now, rfl, hr⟩
  | resume =>
    obtain ⟨-, -, he⟩ | ⟨x, outcome, hx, -, hf⟩ := h
    · cases he
    · exact hf.elim
  | clock => cases h.2
  | restart => cases h.2

theorem submissionCalled_run (acts : List (Action κ)) : ∀ i r,
    ((processMachine κ env).run acts).world.ledger.requests i = some r → SubmissionCalled acts r := by
  induction acts using List.reverseRecOn with
  | nil =>
    intro i r hr
    have hrequests : (Config.initial env : Config κ).world.ledger.requests i = none := by
      show (World.initial.boot env).ledger.requests i = none
      rw [ledger_boot]
      rfl
    cases hrequests.symm.trans hr
  | append_singleton acts a ih =>
    intro i r hr
    have hc : ((processMachine κ env).run acts).Sound env := Config.sound_run acts
    obtain ⟨e, hadvances⟩ := hc.exec a
    have hledger : ((processMachine κ env).run (acts ++ [a])).world.ledger =
        ((processMachine κ env).run acts).world.ledger.after e := by
      rw [Machine.run_snoc]
      exact hadvances.ledger_eq
    rw [hledger] at hr
    rcases hadvances.enabled.request_from hr with ⟨rfl, -⟩ | ⟨r', hr', hagrees⟩
    · obtain ⟨client, request, primaryApprover, now, rfl, hr⟩ :=
        Config.Explains.submitted hadvances.explains
      refine ⟨client, request, primaryApprover, now, List.mem_append_right _ (List.mem_singleton_self _), ?_⟩
      rw [hr]
      exact ⟨rfl, rfl⟩
    · obtain ⟨client, request, primaryApprover, now, hmem, hsubject, hscope⟩ := ih i r' hr'
      exact ⟨client, request, primaryApprover, now, List.mem_append_left _ hmem,
        hsubject.trans hagrees.subject_eq.symm, hscope.trans hagrees.scope_eq.symm⟩

end Ambit
