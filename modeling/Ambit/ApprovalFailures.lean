import Ambit.FaultyRuns
import Ambit.PolicyBounds

/-! Approvals that fail: where in `approveRequest` a failure leaves the token store and the request
as they were. The calls of one approval run with nothing in between but the time that its await
takes. -/

namespace Ambit

open Effect

variable {env : Env} {w w' : World} {input : ApprovalInput} {pending : PendingRequest}

/-- `approveRequest` from its start to its end, the await lasting until `later`. -/
def approveUntil (env : Env) (input : ApprovalInput) (later : Int) : Op Token := do
  let frame ← approveRequest env input
  modify fun w => { w with clock := later }
  frame.resume env

/-- Which of the appends of an approval fail: of the breaker's report, of the token, of the request
and of the last log entry. -/
structure ApprovalFailures where
  circuit : Bool
  token : Bool
  request : Bool
  entry : Bool
  rest : List Bool

namespace ApprovalFailures

variable (failures : ApprovalFailures) (w : World)

/-- A probe is reported to the log; no rotation fails. -/
def reported : List Bool := if w.Probes then [false, failures.circuit] else []

/-- The appends after that of the token. -/
def recorded : List Bool := failures.request :: false :: failures.entry :: failures.rest

/-- The file operations from the save of the token on. -/
def saving : List Bool := failures.token :: (failures.reported w ++ failures.recorded)

/-- The file operations of an approval: the first access to a store is that to the policy, if there
is one. -/
def faults (policyId : Option String) : List Bool :=
  match policyId with
  | some _ => failures.reported w ++ failures.token :: failures.recorded
  | none => failures.saving w

/-- None of the appends fails. -/
def Spares : Prop :=
  failures.token = false ∧ (w.Probes → failures.circuit = false) ∧ failures.request = false ∧
    failures.entry = false

end ApprovalFailures

/-- The breaker or the policy refuses the token before it gets to the store. -/
def TokenRequest.StoreRefuses (request : TokenRequest) (env : Env) (later : Int)
    (failures : ApprovalFailures) (w : World) : Prop :=
  match truthy request.policyId with
  | some policyId => w.Rejects env ∨ (w.Probes ∧ failures.circuit = true) ∨
      ¬ w.Permits policyId request
  | none => World.Rejects env { w with clock := later }

/-- The approval ends before its token gets to the store. -/
def ApprovalInput.Refused (input : ApprovalInput) (env : Env) (later : Int)
    (failures : ApprovalFailures) (w : World) (pending : PendingRequest) : Prop :=
  ¬ pending.eligible input.approver ∨ pending.scope = [] ∨
    pending.ttlSeconds.le (.finite 0) = true ∨
    (pending.tokenRequest input.policyId).StoreRefuses env later failures w

/-- An approval that throws leaves no token behind, and the request as it was. -/
def AllOrNothing (env : Env) (input : ApprovalInput) (later : Int) (w : World)
    (pending : PendingRequest) : Prop :=
  (result (approveUntil env input later) w).isOk = false →
    (∀ i, (after (approveUntil env input later) w).tokenStore.live.get i ≠ none →
      w.tokenStore.live.get i ≠ none) ∧
    (after (approveUntil env input later) w).requestStore.live.get input.requestId = some pending

/-! ## Up to the await -/

theorem wp_auditRecord_switched {entry : AuditEntryInput} (hdecision : entry.decision ≠ .revoked)
    (now : Int) : wp (auditRecord env entry now) (fun _ w' => w.Switched w') w := by
  cases hreason : entry.lacksReason with
  | false =>
    exact wp_mono (wp_auditRecord_noted hreason now) fun _ _ h => h.1.switched hdecision
  | true =>
    simp only [wp, auditRecord, AuditLog.record_of_lacksReason hreason]
    exact ⟨rfl, rfl, rfl, rfl⟩

theorem wp_catchApprovalFailure_failing {α : Type} {issue : Op α}
    {Q : Except Err α → World → Prop}
    (hissue : wp issue (fun r w' => (∃ value, r = .ok value ∧ Q r w') ∨
      (∃ err, r = .error err) ∧ ∀ err w'', w'.Switched w'' → Q (.error err) w'') w) :
    wp (catchApprovalFailure env input pending issue) Q w := by
  refine wp_bind (wp_attempt (wp_mono hissue ?_))
  rintro r w' (⟨value, rfl, hQ⟩ | ⟨⟨err, rfl⟩, hQ⟩)
  · exact wp_pure hQ
  · refine wp_bind ?_
    have hlog : wp (match err.approvalFailure with
        | some message =>
          auditRecord env
            { requestId := some input.requestId, subject := pending.subject,
              action := "approve_request", decision := .requestDenied, actor := some input.approver,
              reasonCode := some message } input.now
        | none => pure ()) (fun _ w'' => w'.Switched w'') w' := by
      cases err.approvalFailure with
      | some message => exact wp_auditRecord_switched (by simp) _
      | none => exact wp_pure (.refl w')
    refine wp_mono hlog fun r w'' hw'' => ?_
    cases r with
    | error => exact hQ _ _ hw''
    | ok => exact wp_throw (hQ _ _ hw'')

namespace ApprovalFailures

variable {failures : ApprovalFailures}

theorem reported_of_closed (h : ¬ w.Probes) : failures.reported w = [] := if_neg h

/-- Reading the policy of an approval: the failures that are left are those from the token on. -/
theorem wp_checkPolicy {request : TokenRequest} {policyId : String}
    (hfaults : w.faults = failures.reported w ++ failures.token :: failures.recorded) :
    wp (checkPolicy env request policyId true) (fun r w' => w.Switched w' ∧
      (r.isOk = false ↔ w.Rejects env ∨ (w.Probes ∧ failures.circuit = true) ∨
        ¬ w.Permits policyId request) ∧
      (r.isOk = true → w'.Flowing ∧ w'.faults = failures.token :: failures.recorded)) w := by
  refine wp_bind (wp_throwIf (fun h => by cases h) fun _ => wp_bind ?_)
  refine wp_mono (PolicyStore.wp_get_failing policyId) ?_
  rintro r w₁ ⟨hswitched, hr⟩
  by_cases hrejects : w.Rejects env
  · rw [if_pos hrejects] at hr
    obtain ⟨err, rfl⟩ := hr
    exact ⟨hswitched, by simp [hrejects], by simp⟩
  rw [if_neg hrejects, World.Ends, hfaults] at hr
  have hread : (r = .ok (w.policyStore.live.get policyId) ∧ w₁.Flowing ∧
        w₁.faults = failures.token :: failures.recorded ∧ ¬ (w.Probes ∧ failures.circuit = true)) ∨
      (∃ err, r = .error err) ∧ w.Probes ∧ failures.circuit = true := by
    by_cases hprobes : w.Probes
    · rw [if_pos hprobes, reported, if_pos hprobes] at hr
      obtain ⟨rfl | ⟨rfl, hflowing, hrest⟩, hiff⟩ := hr
      · refine .inr ⟨⟨_, rfl⟩, hprobes, ?_⟩
        simpa using hiff rfl
      · refine .inl ⟨rfl, hflowing, hrest, fun h => ?_⟩
        have hcircuit : failures.circuit = false := (hiff rfl).mp rfl
        rw [h.2] at hcircuit
        cases hcircuit
    · rw [if_neg hprobes, reported_of_closed hprobes] at hr
      obtain ⟨rfl, hflowing, hrest⟩ := hr
      exact .inl ⟨rfl, hflowing, hrest, fun h => hprobes h.1⟩
  rcases hread with ⟨rfl, hflowing, hrest, hcircuit⟩ | ⟨⟨err, rfl⟩, hprobes, hcircuit⟩
  · have hrefused : ∀ err : Err, ¬ w.Permits policyId request →
        w.Switched w₁ ∧ ((Except.error err : Except Err Unit).isOk = false ↔ w.Rejects env ∨
          (w.Probes ∧ failures.circuit = true) ∨ ¬ w.Permits policyId request) ∧
        ((Except.error err : Except Err Unit).isOk = true →
          w₁.Flowing ∧ w₁.faults = failures.token :: failures.recorded) :=
      fun err hpermits => ⟨hswitched, by simp [hpermits],
        by simp⟩
    cases hfound : w.policyStore.live.get policyId with
    | none =>
      refine wp_throw (hrefused _ ?_)
      rintro ⟨policy, hpolicy, -⟩
      rw [hfound] at hpolicy
      cases hpolicy
    | some policy =>
      refine wp_bind (wp_throwIf (fun hscope => hrefused _ ?_) fun hscope => ?_)
      · rintro ⟨policy', hpolicy, hsubset, -⟩
        cases hfound.symm.trans hpolicy
        exact hscope hsubset
      refine wp_throwIf (fun hmax => hrefused _ ?_) fun hmax => ⟨hswitched, ?_, fun _ => ⟨hflowing, hrest⟩⟩
      · rintro ⟨policy', hpolicy, -, hlt⟩
        cases hfound.symm.trans hpolicy
        rw [hmax] at hlt
        cases hlt
      · have hpermits : w.Permits policyId request :=
          ⟨policy, hfound, not_not.mp hscope, by simpa using hmax⟩
        simp [hrejects, hcircuit, hpermits]
  · exact ⟨hswitched, by simp [hprobes, hcircuit],
      by simp⟩

/-- The state at the await of an approval: the failures left are those from the token on, and what
may still refuse the token or fail after it is what could from the start. -/
structure Reaches (failures : ApprovalFailures) (env : Env) (later : Int) (w : World)
    (request : TokenRequest) (w' : World) : Prop where
  faults_eq : w'.faults = failures.saving w'
  refuses_iff : request.StoreRefuses env later failures w ↔ World.Rejects env { w' with clock := later }
  spares_iff : ¬ request.StoreRefuses env later failures w → (failures.Spares w' ↔ failures.Spares w)

theorem wp_policyChecked {request : TokenRequest} (later : Int)
    (hfaults : w.faults = failures.faults w (truthy request.policyId)) :
    wp (match truthy request.policyId with
      | some policyId => checkPolicy env request policyId true
      | none => pure ()) (fun r w' => w.Switched w' ∧
        (r.isOk = false → request.StoreRefuses env later failures w) ∧
        (r.isOk = true → failures.Reaches env later w request w')) w := by
  cases hpolicyId : truthy request.policyId with
  | none =>
    rw [hpolicyId] at hfaults
    refine wp_pure ⟨.refl w, by simp, fun _ => ⟨hfaults, ?_, fun _ => Iff.rfl⟩⟩
    rw [TokenRequest.StoreRefuses, hpolicyId]
  | some policyId =>
    rw [hpolicyId] at hfaults
    refine wp_mono (wp_checkPolicy hfaults) fun r w' ⟨hswitched, hiff, hok⟩ => ?_
    have hrefuses : r.isOk = false ↔ request.StoreRefuses env later failures w := by
      rw [hiff, TokenRequest.StoreRefuses, hpolicyId]
    refine ⟨hswitched, hrefuses.mp, fun hr => ?_⟩
    obtain ⟨hflowing, hrest⟩ := hok hr
    have hclosed : ¬ w'.Probes := not_not.mpr hflowing.closed
    have hpasses : ¬ request.StoreRefuses env later failures w := by
      rw [← hrefuses, hr]
      exact Bool.noConfusion
    refine ⟨?_, ?_, fun _ => ?_⟩
    · rw [saving, reported_of_closed hclosed, hrest]
      rfl
    · have hlater : World.Flowing { w' with clock := later } := hflowing.of_breaker rfl
      exact iff_of_false hpasses hlater.not_rejects
    · have hcircuit : w.Probes → failures.circuit = false := by
        intro hprobes
        rw [← hrefuses, hiff, not_or, not_or, not_and] at hpasses
        simpa using hpasses.2.1 hprobes
      have hcircuit' : w'.Probes → failures.circuit = false := fun hprobes => absurd hprobes hclosed
      simp only [Spares, iff_true_intro hcircuit, iff_true_intro hcircuit']

/-- Up to its await an approval changes no token and no request, and either is refused or comes to
the await. -/
theorem wp_approveRequest (hpending : w.requestStore.live.get input.requestId = some pending)
    (hstatus : pending.status = .pending) (later : Int)
    (hfaults : w.faults = failures.faults w (truthy input.policyId)) :
    wp (approveRequest env input) (fun r w' => w.Switched w' ∧
      match r with
      | .error _ => input.Refused env later failures w pending
      | .ok frame => frame.pending = pending ∧ frame.input = input ∧
          (input.Refused env later failures w pending ↔
            (pending.tokenRequest input.policyId).StoreRefuses env later failures w) ∧
          failures.Reaches env later w (pending.tokenRequest input.policyId) w') w := by
  refine wp_bind (wp_getPending hpending hstatus ?_)
  refine wp_bind (wp_ite (fun heligible => wp_pure ?_) fun heligible => wp_bind ?_)
  swap
  · refine wp_mono (wp_auditRecord_switched (by simp) _) fun r w₁ hw₁ => ?_
    cases r with
    | error => exact ⟨hw₁, .inl heligible⟩
    | ok => exact wp_throw ⟨hw₁, .inl heligible⟩
  have hrefused : input.Refused env later failures w pending → ∀ {w₁ : World}, w.Switched w₁ →
      ∀ (err : Err) w₂, w₁.Switched w₂ →
        w.Switched w₂ ∧ input.Refused env later failures w pending :=
    fun hrefused w₁ hw₁ err w₂ hw₂ => ⟨hw₁.trans hw₂, hrefused⟩
  refine wp_bind (wp_catchApprovalFailure_failing ?_)
  refine wp_bind (wp_throwIf (fun hscope =>
    .inr ⟨⟨_, rfl⟩, hrefused (.inr (.inl hscope)) (.refl w)⟩) fun hscope => ?_)
  refine wp_bind (wp_throwIf (fun httl =>
    .inr ⟨⟨_, rfl⟩, hrefused (.inr (.inr (.inl httl))) (.refl w)⟩) fun httl => wp_bind ?_)
  refine wp_mono (wp_policyChecked later hfaults) ?_
  rintro r w₁ ⟨hw₁, herror, hok⟩
  cases r with
  | error err =>
    exact .inr ⟨⟨_, rfl⟩, hrefused (.inr (.inr (.inr (herror rfl)))) hw₁⟩
  | ok =>
    refine wp_bind (wp_now (wp_bind (wp_pure (wp_bind (wp_draw (wp_bind (wp_draw (wp_pure ?_))))))))
    obtain ⟨hleft, hrefuses, hspares⟩ := hok rfl
    refine .inl ⟨_, rfl, wp_pure ⟨hw₁.trans ⟨rfl, rfl, rfl, rfl⟩, rfl, rfl, ?_, hleft, hrefuses, hspares⟩⟩
    refine ⟨?_, fun h => .inr (.inr (.inr h))⟩
    rintro (hother | hscope' | httl' | hstore)
    · exact absurd heligible hother
    · exact absurd hscope' hscope
    · exact absurd httl' httl
    · exact hstore

/-! ## After the await -/

/-- The request and the last entry, after a token was stored: it stays, and the appends decide. -/
theorem wp_recorded {stored : World} {request : PendingRequest} {entry : AuditEntryInput}
    {token : Token} (now : Int) (hreason : entry.lacksReason = false)
    (hfaults : stored.faults = failures.recorded) :
    wp (do
        RequestStore.save request
        auditRecord env entry now
        return token : Op Token) (fun r w' => w'.tokenStore = stored.tokenStore ∧
      (r.isOk = true ↔ failures.request = false ∧ failures.entry = false)) stored := by
  have hrequest : stored.faults.headD false = failures.request := by rw [hfaults]; rfl
  refine wp_bind (wp_mono (wp_saveRecord_failing hrequest) ?_)
  rintro r w₁ ⟨rfl, rfl⟩
  cases hfails : failures.request with
  | true => exact ⟨rfl, by simp⟩
  | false =>
    refine wp_bind (wp_mono (wp_auditRecord_noted hreason now) ?_)
    rintro r w₂ ⟨hnoted, -, hr⟩
    have happend : r = appendResult failures.entry := by
      have h := hr (by simp [hfaults, recorded])
      simpa [hfaults, recorded] using h
    obtain rfl := happend
    cases failures.entry with
    | true => exact ⟨hnoted.tokenStore_eq, by simp⟩
    | false => exact wp_pure ⟨hnoted.tokenStore_eq, by simp⟩

/-- How the part of an approval after its await ends. -/
def Resumed (failures : ApprovalFailures) (env : Env) (w : World) (r : Except Err Token)
    (w' : World) : Prop :=
  if w.Rejects env then r.isOk = false ∧ w.Switched w'
  else w'.tokenStore.live.get (env.randomUUID w.supply) ≠ none ∧
    (r.isOk = true ↔ failures.Spares w)

/-- After its await an approval stores its token, unless the breaker rejects it; then the appends
decide. -/
theorem wp_resume {frame : ApproveFrame} (hfaults : w.faults = failures.saving w) :
    wp (frame.resume env) (failures.Resumed env w) w := by
  let token := frame.issue.token env (env.randomUUID w.supply)
  have hstays : ∀ {w₁ w₂ : World}, w.drawn.Stored token w₁ → w₂.tokenStore = w₁.tokenStore →
      w₂.tokenStore.live.get (env.randomUUID w.supply) ≠ none := by
    intro w₁ w₂ hstored hw₂
    have hid : env.randomUUID w.supply = token.id := rfl
    rw [hw₂, hstored.live_eq, OrderedMap.get_set, if_pos hid]
    exact Option.some_ne_none token
  refine wp_bind (wp_catchApprovalFailure_failing (wp_bind (wp_draw (wp_bind ?_))))
  refine wp_mono (TokenStore.wp_save_failing token) fun r w₁ hr => ?_
  by_cases hrejects : w.Rejects env
  · have hdrawn : w.drawn.Rejects env := hrejects
    rw [if_pos hdrawn] at hr
    obtain ⟨⟨err, rfl⟩, hswitched⟩ := hr
    have hset : w.Switched w.drawn := ⟨rfl, rfl, rfl, rfl⟩
    have hw₁ : w.Switched w₁ := hset.trans hswitched
    refine .inr ⟨⟨err, rfl⟩, fun err w₂ hw₂ => ?_⟩
    show failures.Resumed env w (.error err) w₂
    rw [Resumed, if_pos hrejects]
    exact ⟨rfl, hw₁.trans hw₂⟩
  have hdrawn : ¬ w.drawn.Rejects env := hrejects
  rw [if_neg hdrawn] at hr
  obtain ⟨hstored, hr⟩ := hr
  have hended : ∀ {r : Except Err Token} {w₂ : World}, w₂.tokenStore = w₁.tokenStore →
      (r.isOk = true ↔ failures.Spares w) → failures.Resumed env w r w₂ := by
    intro r w₂ hw₂ hspares
    rw [Resumed, if_neg hrejects]
    exact ⟨hstays hstored hw₂, hspares⟩
  have hthrown : ¬ failures.Spares w → ∀ (err : Err) w₂, w₁.Switched w₂ →
      failures.Resumed env w (.error err) w₂ :=
    fun hspares err w₂ hw₂ => hended hw₂.tokenStore_eq (by simp [hspares])
  have hhead : w.drawn.faults.headD false = failures.token := by
    show w.faults.headD false = _
    rw [hfaults]
    rfl
  have htail : w.drawn.faults.tail = failures.reported w ++ failures.recorded := by
    show w.faults.tail = _
    rw [hfaults]
    rfl
  rw [hhead, htail] at hr
  cases htoken : failures.token with
  | true =>
    rw [htoken, if_pos rfl] at hr
    cases hr
    exact .inr ⟨⟨_, rfl⟩, hthrown fun hspares => by cases htoken.symm.trans hspares.1⟩
  | false =>
    rw [htoken, if_neg Bool.false_ne_true, World.Ends] at hr
    have hsaved : (∃ err, r = .error err) ∧ ¬ failures.Spares w ∨
        r = .ok () ∧ w₁.faults = failures.recorded ∧ (w.Probes → failures.circuit = false) := by
      by_cases hprobes : w.Probes
      · have hdrawn : w.drawn.Probes := hprobes
        rw [if_pos hdrawn, reported, if_pos hprobes] at hr
        obtain ⟨rfl | ⟨rfl, -, hrest⟩, hiff⟩ := hr
        · refine .inl ⟨⟨_, rfl⟩, fun hspares => ?_⟩
          cases (hiff rfl).mpr (hspares.2.1 hprobes)
        · exact .inr ⟨rfl, hrest, fun _ => (hiff rfl).mp rfl⟩
      · have hdrawn : ¬ w.drawn.Probes := hprobes
        rw [if_neg hdrawn, reported_of_closed hprobes] at hr
        exact .inr ⟨hr.1, hr.2.2, fun h => absurd h hprobes⟩
    rcases hsaved with ⟨⟨err, rfl⟩, hspares⟩ | ⟨rfl, hrest, hcircuit⟩
    · exact .inr ⟨⟨err, rfl⟩, hthrown hspares⟩
    · refine wp_pure (.inl ⟨_, rfl, wp_mono (wp_recorded _ rfl hrest) ?_⟩)
      rintro r w₂ ⟨hw₂, hr⟩
      refine hended hw₂ (hr.trans ?_)
      rw [Spares]
      exact ⟨fun h => ⟨htoken, hcircuit, h⟩, fun h => h.2.2⟩

end ApprovalFailures

/-! ## The whole call -/

/-- An approval is all or nothing if it is refused before its token is stored, or nothing fails
after that. -/
theorem ApprovalFailures.allOrNothing_iff {failures : ApprovalFailures} {later : Int}
    (hdrawn : w.IdsDrawn env) (hpending : w.requestStore.live.get input.requestId = some pending)
    (hstatus : pending.status = .pending)
    (hfaults : w.faults = failures.faults w (truthy input.policyId)) :
    AllOrNothing env input later w pending ↔
      input.Refused env later failures w pending ∨ failures.Spares w := by
  have hsame : ∀ {w' : World}, w.Switched w' →
      (∀ i, w'.tokenStore.live.get i ≠ none → w.tokenStore.live.get i ≠ none) ∧
        w'.requestStore.live.get input.requestId = some pending := by
    intro w' hw'
    rw [hw'.tokenStore_eq, hw'.requestStore_eq]
    exact ⟨fun _ h => h, hpending⟩
  have hrun : wp (approveUntil env input later) (fun r w' =>
      (r.isOk = false → (∀ i, w'.tokenStore.live.get i ≠ none → w.tokenStore.live.get i ≠ none) ∧
        w'.requestStore.live.get input.requestId = some pending) ↔
      input.Refused env later failures w pending ∨ failures.Spares w) w := by
    have hsupply : Along World.SupplyGrows (approveRequest env input) := along_approveRequest input
    refine wp_bind (wp_mono (wp_and (wp_approveRequest hpending hstatus later hfaults)
      (hsupply.wp w)) ?_)
    rintro r w₁ ⟨⟨hw₁, hr⟩, hle⟩
    cases r with
    | error err => exact iff_of_true (fun _ => hsame hw₁) (.inl hr)
    | ok frame =>
      obtain ⟨-, -, hrefused, hleft, hrejects, hspares⟩ := hr
      have hmoved : World.faults { w₁ with clock := later } =
          failures.saving { w₁ with clock := later } := hleft
      refine wp_bind (wp_modify (wp_mono (wp_resume hmoved) fun r w₂ hr => ?_))
      rw [hrefused]
      rw [Resumed] at hr
      split at hr
      · rename_i hstore
        have hset : w₁.Switched { w₁ with clock := later } := ⟨rfl, rfl, rfl, rfl⟩
        exact iff_of_true (fun _ => hsame ((hw₁.trans hset).trans hr.2)) (.inl (hrejects.mpr hstore))
      · rename_i hadmits
        have hstore := hrejects.not.mpr hadmits
        obtain ⟨hstored, hok⟩ := hr
        have hok : r.isOk = true ↔ failures.Spares w := hok.trans (hspares hstore)
        rw [or_iff_right hstore, ← hok]
        constructor
        · intro hall
          by_contra hr
          have hnew := (hall (by simpa using hr)).1 _ hstored
          exact hnew (World.IdsBelow.fresh hdrawn hle)
        · intro hr herror
          rw [hr] at herror
          cases herror
  exact wp_iff.mp hrun

variable {κ : Type}

/-- The state with these failures ahead. -/
def World.expecting (w : World) (failures : ApprovalFailures) (policyId : Option String) : World :=
  { w with faults := failures.faults w (truthy policyId) }

/-- **When approval is all or nothing.** In every reachable state, an approval of a pending request
that throws leaves no token and the request as it was exactly if it was refused before its token was
stored, or none of its appends fails. -/
theorem approval_allOrNothing_iff (acts : List (FaultyAction κ)) (failures : ApprovalFailures)
    (input : ApprovalInput) (later : Int) {pending : PendingRequest}
    (hpending : ((faultyMachine κ env).run acts).world.requestStore.live.get input.requestId =
      some pending) (hstatus : pending.status = .pending) :
    let w := ((faultyMachine κ env).run acts).world.expecting failures input.policyId
    AllOrNothing env input later w pending ↔
      input.Refused env later failures w pending ∨ failures.Spares w := by
  intro w
  have hdrawn : w.IdsDrawn env := World.IdsBelow.of_stores (idsDrawn_run acts) rfl rfl
  exact ApprovalFailures.allOrNothing_iff hdrawn hpending hstatus rfl

/-! ## An approval whose token cannot be written -/

def sampleAwaiting : List (FaultyAction Unit) :=
  [.process (.call () (.requestToken ⟨"agent", ["a"], .finite 60, none, none⟩ (some "alice") 0))]

def sampleWaiting : PendingRequest :=
  { subject := "agent", scope := ["a"], ttlSeconds := .finite 60, id := "id-2", status := .pending,
    requestedAt := 0, assignedApprover := some "alice" }

/-- The append of the token fails. -/
def sampleUnwritten : ApprovalFailures := ⟨false, true, false, false, []⟩

def sampleApproval : ApprovalInput := ⟨"id-2", "alice", none, 0⟩

def sampleExpecting : World :=
  ((faultyMachine Unit sampleEnv).run sampleAwaiting).world.expecting sampleUnwritten none

theorem approval_allOrNothing_iff_sample :
    AllOrNothing sampleEnv sampleApproval 0 sampleExpecting sampleWaiting ↔
      sampleApproval.Refused sampleEnv 0 sampleUnwritten sampleExpecting sampleWaiting ∨
        sampleUnwritten.Spares sampleExpecting :=
  approval_allOrNothing_iff sampleAwaiting sampleUnwritten sampleApproval 0 (by decide +kernel) rfl

/-- **The token stays in the store** although the approval has thrown. -/
theorem not_allOrNothing :
    ¬ AllOrNothing sampleEnv sampleApproval 0 sampleExpecting sampleWaiting := by
  have hrun : (result (approveUntil sampleEnv sampleApproval 0) sampleExpecting).isOk = false ∧
      (after (approveUntil sampleEnv sampleApproval 0) sampleExpecting).tokenStore.live.get "id-6" ≠
        none ∧ sampleExpecting.tokenStore.live.get "id-6" = none := by
    decide +kernel
  obtain ⟨hthrows, hstored, hnew⟩ := hrun
  intro hall
  exact (hall hthrows).1 "id-6" hstored hnew

end Ambit
