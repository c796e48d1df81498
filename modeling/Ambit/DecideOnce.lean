import Ambit.SamplePlatform
import Ambit.ScopeNarrowing

/-! One decision per request: it holds of every run in which each approval, when it writes back the
request that it read before its await, finds the stored one still pending. -/

namespace Ambit

/-- An approval entry of the request `i`. -/
def approves (i : String) (e : AuditEntryInput) : Bool :=
  e.requestId = some i ∧ e.decision = .requestApproved

/-! ## In the ledger -/

namespace Ledger

variable {p : Platform} {L : Ledger} {e : Event} {i : String}

/-- An event that approves a request finds it pending. -/
def ApprovesPending (L : Ledger) (e : Event) : Prop :=
  ∀ pending token secret approver policyId, e = .approved pending token secret approver policyId →
    ∃ r, L.requests pending.id = some r ∧ r.status = .pending

/-- The decision on a request. -/
structure SameDecision (r r' : PendingRequest) : Prop where
  status_eq : r'.status = r.status
  tokenId_eq : r'.tokenId = r.tokenId
  assignedApprover_eq : r'.assignedApprover = r.assignedApprover

theorem SameDecision.trans {r r' r'' : PendingRequest} (h : SameDecision r r')
    (h' : SameDecision r' r'') : SameDecision r r'' :=
  ⟨h'.status_eq.trans h.status_eq, h'.tokenId_eq.trans h.tokenId_eq,
    h'.assignedApprover_eq.trans h.assignedApprover_eq⟩

/-- A request that is decided stays as it was decided. -/
theorem Enabled.decided_stays {r : PendingRequest} (he : L.Enabled p e) (hpending : L.ApprovesPending e)
    (hr : L.requests i = some r) (hdecided : r.status ≠ .pending) :
    ∃ r', (L.after e).requests i = some r' ∧ SameDecision r r' := by
  have hnot : ∀ r₀, L.requests i = some r₀ → r₀.status = .pending → False := by
    intro r₀ hr₀ hstatus
    cases hr.symm.trans hr₀
    exact hdecided hstatus
  cases hw : e.written.filter (·.id = i) with
  | none => exact ⟨changedRequest e r, by simp [after, hw, hr], by cases e <;> exact ⟨rfl, rfl, rfl⟩⟩
  | some r' =>
    obtain ⟨hwritten, hid⟩ := Option.filter_eq_some_iff.mp hw
    have hid : r'.id = i := of_decide_eq_true hid
    subst hid
    refine ⟨r', by simp [after, hw], ?_⟩
    cases e with
    | submitted =>
      cases hwritten
      rw [he.1] at hr
      cases hr
    | approved pending token secret approver policyId =>
      cases hwritten
      obtain ⟨r₀, hr₀, hstatus⟩ := hpending _ _ _ _ _ rfl
      exact (hnot r₀ hr₀ hstatus).elim
    | denied pending =>
      cases hwritten
      exact (hnot pending he.1 he.2).elim
    | escalated pending =>
      cases hwritten
      exact (hnot pending he.1 he.2).elim
    | claimed r₀ =>
      cases hwritten
      cases he.1.symm.trans hr
      exact ⟨rfl, rfl, rfl⟩
    | _ => cases hwritten

/-- Each request is approved at most once, and then it is an approved one. -/
structure ApprovedOnce (L : Ledger) : Prop where
  once : ∀ i, L.log.countP (approves i) ≤ 1
  approved : ∀ i, L.log.countP (approves i) ≠ 0 → ∃ r, L.requests i = some r ∧ r.status = .approved

theorem approves_eq_true {a : AuditEntryInput} :
    approves i a = true ↔ a.requestId = some i ∧ a.decision = .requestApproved := by
  simp [approves]

theorem ApprovedOnce.after (h : L.ApprovedOnce) (he : L.Enabled p e)
    (hpending : L.ApprovesPending e) : (L.after e).ApprovedOnce := by
  have hcount : ∀ i, (L.after e).log.countP (approves i) =
      L.log.countP (approves i) + e.entries.countP (approves i) := fun i => List.countP_append
  have hnew : ∀ i, e.entries.countP (approves i) ≠ 0 →
      e.entries.countP (approves i) ≤ 1 ∧ L.log.countP (approves i) = 0 ∧
        ∃ r, (L.after e).requests i = some r ∧ r.status = .approved := by
    intro i hne
    obtain ⟨a, ha, happroves⟩ := List.countP_pos_iff.mp (Nat.pos_of_ne_zero hne)
    obtain ⟨hid, hdecision⟩ := approves_eq_true.mp happroves
    obtain ⟨pending, t, secret, approver, policyId, rfl, rfl⟩ := approval_of_mem_entries ha hdecision
    cases hid
    let approved : PendingRequest :=
      { pending with status := .approved, tokenId := some t.id, tokenSecret := some secret }
    have hstored : (L.after (.approved pending t secret approver policyId)).requests approved.id =
        some approved := written_stored rfl
    refine ⟨List.countP_le_length, ?_, approved, hstored, rfl⟩
    by_contra hold
    obtain ⟨r, hr, happroved⟩ := h.approved _ hold
    obtain ⟨r', hr', hstatus⟩ := hpending _ _ _ _ _ rfl
    cases hr.symm.trans hr'
    rw [happroved] at hstatus
    cases hstatus
  constructor
  · intro i
    rw [hcount i]
    by_cases hne : e.entries.countP (approves i) = 0
    · rw [hne]
      exact h.once i
    · obtain ⟨hle, hzero, -⟩ := hnew i hne
      omega
  · intro i hne
    by_cases hzero : e.entries.countP (approves i) = 0
    · rw [hcount i, hzero] at hne
      obtain ⟨r, hr, happroved⟩ := h.approved i hne
      obtain ⟨r', hr', hsame⟩ := he.decided_stays hpending hr (by simp [happroved])
      exact ⟨r', hr', hsame.status_eq.trans happroved⟩
    · exact (hnew i hzero).2.2

end Ledger

/-! ## Along a run -/

variable {κ : Type} {env : Env} {acts : List (Action κ)} {c : Config κ}

/-- The call is an `approveRequest` or a `denyRequest` on the request, and succeeded. -/
def Settled.decides (requestId : String) (s : Settled κ) : Bool :=
  match s.call, s.outcome with
  | .approveRequest input, .token _ => input.requestId = requestId
  | .denyRequest id _ _ _, .done => id = requestId
  | _, _ => false

/-- The call is a `denyRequest` on the request, and succeeded. -/
def Settled.denies (requestId : String) (s : Settled κ) : Bool :=
  match s.call, s.outcome with
  | .denyRequest id _ _ _, .done => id = requestId
  | _, _ => false

theorem Settled.decides_of_denies {requestId : String} {s : Settled κ}
    (h : s.denies requestId = true) : s.decides requestId = true := by
  obtain ⟨client, call, outcome⟩ := s
  cases call with
  | denyRequest => cases outcome <;> exact h
  | _ => cases h

/-- An approval that goes on finds the stored request still pending, unless the store does not admit
its token anyway. -/
def Config.StillPending (env : Env) (c : Config κ) : Action κ → Prop
  | .resume i _ =>
    match c.inflight[i]?.map InFlight.frame with
    | some (.approve frame) => c.world.Rejects env ∨
        (c.world.requestStore.live.get frame.input.requestId).map PendingRequest.status =
          some .pending
    | _ => True
  | _ => True

instance (c : Config κ) (a : Action κ) : Decidable (c.StillPending env a) :=
  match a with
  | .resume i _ =>
    show Decidable (match c.inflight[i]?.map InFlight.frame with
      | some (.approve frame) => c.world.Rejects env ∨
          (c.world.requestStore.live.get frame.input.requestId).map PendingRequest.status =
            some .pending
      | _ => True) from
    match c.inflight[i]?.map InFlight.frame with
    | some (.approve _) => inferInstanceAs (Decidable (_ ∨ _))
    | some (.delegate _) | some (.enforce _) | some (.access _) | some (.customer _)
    | some (.register _) | some (.authenticate _) | none => .isTrue trivial
  | .call .. | .clock _ | .restart => .isTrue trivial

theorem Config.Explains.approvesPending (hc : c.Sound env) {a : Action κ} {e : Event}
    {output : Option (Settled κ)} (h : c.Explains env output e a) (ha : c.StillPending env a) :
    c.world.ledger.ApprovesPending e := by
  rintro pending token secret approver policyId rfl
  obtain ⟨i, downstream, x, f, rfl, hx, hf, hadmits, rfl, -⟩ := h.approved
  have hframe := (hc.frames x (List.mem_of_getElem? hx)).holds
  rw [hf] at hframe
  simp only [Config.StillPending, hx, Option.map_some, hf] at ha
  obtain ⟨r, hr, hstatus⟩ := Option.map_eq_some_iff.mp (ha.resolve_left hadmits)
  exact ⟨r, hframe.id_eq ▸ hr, hstatus⟩

/-- A call that succeeds in a decision is the event of that decision. -/
theorem Config.Explains.of_decides (hc : c.Sound env) {a : Action κ} {e : Event} {s : Settled κ}
    {requestId : String} (h : c.Explains env (some s) e a) (hdecides : s.decides requestId = true) :
    (∃ pending token secret approver policyId,
      e = .approved pending token secret approver policyId ∧ pending.id = requestId ∧
        s.denies requestId = false) ∨
    (∃ pending, e = .denied pending ∧ pending.id = requestId) := by
  obtain ⟨client, call, o⟩ := s
  have heffective : call.Effective o := by
    cases call <;> cases o <;> trivial
  cases a with
  | call client' call' =>
    obtain ⟨outcome, hout, hexplains⟩ := h
    obtain ⟨o', rfl, hs⟩ := Option.map_eq_some_iff.mp hout.symm
    cases hs
    cases e with
    | noted => exact absurd heffective (hexplains o rfl).1
    | denied pending =>
      obtain ⟨approver, reasonCode, now, rfl, -, hdone⟩ := hexplains
      cases hdone
      exact .inr ⟨pending, rfl, of_decide_eq_true hdecides⟩
    | submitted =>
      obtain ⟨_, _, _, rfl, -⟩ := hexplains
      cases hdecides
    | escalated =>
      obtain ⟨_, _, rfl⟩ := hexplains
      cases hdecides
    | claimed =>
      obtain ⟨_, rfl, -⟩ := hexplains
      cases hdecides
    | revoked =>
      obtain rfl := hexplains
      cases hdecides
    | _ => exact hexplains.elim
  | resume i downstream =>
    obtain ⟨-, hout, -⟩ | ⟨x, outcome, hx, hout, hexplains⟩ := h
    · cases hout
    · obtain ⟨o', rfl, hs⟩ := Option.map_eq_some_iff.mp hout.symm
      cases hs
      have hframe := hc.frames x (List.mem_of_getElem? hx)
      obtain ⟨client, call, frame⟩ := x
      cases e with
      | noted => exact absurd heffective (hexplains o rfl).1
      | approved pending token secret approver policyId =>
        obtain ⟨f, rfl, -, rfl, -, -, -, -, htoken⟩ := hexplains
        cases htoken
        obtain ⟨hawaits, hholds⟩ := hframe
        cases call with
        | approveRequest input =>
          obtain rfl : f.input = input := hawaits
          refine .inl ⟨_, _, _, _, _, rfl, hholds.id_eq.trans ?_, rfl⟩
          exact of_decide_eq_true hdecides
        | _ => exact hawaits.elim
      | delegated =>
        obtain ⟨_, _, -, -, -, -, -, hdelegation⟩ := hexplains
        cases hdelegation
        cases call <;> cases hdecides
      | used =>
        obtain ⟨f, -, -, -, -, -, hidle⟩ := hexplains
        exact absurd heffective (hidle o rfl).1
      | _ => exact hexplains.elim
  | clock => cases h.1
  | restart => cases h.1

/-- Where a run stands with its decisions. -/
structure DecisionsSoFar (env : Env) (acts : List (Action κ)) : Prop where
  ledger : ((processMachine κ env).run acts).world.ledger.ApprovedOnce
  once : ∀ i, (settledCalls env acts).countP (Settled.decides i) ≤ 1
  decided : ∀ i, (settledCalls env acts).countP (Settled.decides i) ≠ 0 →
    ∃ r, ((processMachine κ env).run acts).world.ledger.requests i = some r ∧ r.status ≠ .pending
  denied : ∀ i, ∀ s ∈ settledCalls env acts, s.denies i = true →
    ∃ r, ((processMachine κ env).run acts).world.ledger.requests i = some r ∧ r.status = .denied

theorem DecisionsSoFar.snoc (h : DecisionsSoFar env acts) {a : Action κ}
    (ha : ((processMachine κ env).run acts).StillPending env a) :
    DecisionsSoFar env (acts ++ [a]) := by
  have hc := @Config.sound_run env _ acts
  obtain ⟨e, hadvances⟩ := hc.exec a
  have hpending := hadvances.explains.approvesPending hc ha
  have hledger : ((processMachine κ env).run (acts ++ [a])).world.ledger =
      ((processMachine κ env).run acts).world.ledger.after e := by
    rw [Machine.run_snoc]
    exact hadvances.ledger_eq
  have houtputs : settledCalls env (acts ++ [a]) = settledCalls env acts ++
      (((processMachine κ env).run acts).exec env a).2.toList := Machine.outputs_snoc
  -- a call that decides finds the request undecided, and leaves it decided
  have hnew : ∀ i, ∀ s ∈ (((processMachine κ env).run acts).exec env a).2, s.decides i = true →
      (∃ r, ((processMachine κ env).run acts).world.ledger.requests i = some r ∧
        r.status = .pending) ∧
      ∃ r, (((processMachine κ env).run acts).world.ledger.after e).requests i = some r ∧
        r.status ≠ .pending ∧ (s.denies i = true → r.status = .denied) := by
    intro i s hs hdecides
    have hexplains := hadvances.explains
    rw [Option.mem_def.mp hs] at hexplains
    obtain ⟨pending, token, secret, approver, policyId, rfl, rfl, hnot⟩ | ⟨pending, rfl, rfl⟩ :=
      hexplains.of_decides hc hdecides
    · let approved : PendingRequest :=
        { pending with status := .approved, tokenId := some token.id, tokenSecret := some secret }
      refine ⟨hpending _ _ _ _ _ rfl, approved, ?_, by simp [approved], by simp [hnot]⟩
      exact Ledger.written_stored (r := approved) rfl
    · let denied : PendingRequest := { pending with status := .denied }
      refine ⟨⟨pending, hadvances.enabled.1, hadvances.enabled.2⟩, denied, ?_, by simp [denied],
        fun _ => rfl⟩
      exact Ledger.written_stored (r := denied) rfl
  have hstays : ∀ i r, ((processMachine κ env).run acts).world.ledger.requests i = some r →
      r.status ≠ .pending → ∃ r', (((processMachine κ env).run acts).world.ledger.after e).requests i =
        some r' ∧ Ledger.SameDecision r r' :=
    fun i r hr hdecided => hadvances.enabled.decided_stays hpending hr hdecided
  have hzero : ∀ i, ∀ s ∈ (((processMachine κ env).run acts).exec env a).2, s.decides i = true →
      (settledCalls env acts).countP (Settled.decides i) = 0 := by
    intro i s hs hdecides
    by_contra hne
    obtain ⟨⟨r, hr, hstatus⟩, -⟩ := hnew i s hs hdecides
    obtain ⟨r', hr', hdecided⟩ := h.decided i hne
    cases hr.symm.trans hr'
    exact hdecided hstatus
  refine ⟨?_, fun i => ?_, fun i hne => ?_, fun i s hs hdenies => ?_⟩
  · rw [hledger]
    exact h.ledger.after hadvances.enabled hpending
  · rw [houtputs, List.countP_append]
    cases hout : (((processMachine κ env).run acts).exec env a).2 with
    | none => simpa using h.once i
    | some s =>
      by_cases hdecides : s.decides i = true
      · simp [hzero i s hout hdecides, hdecides]
      · simpa [hdecides] using h.once i
  · rw [hledger]
    by_cases hold : (settledCalls env acts).countP (Settled.decides i) = 0
    · rw [houtputs, List.countP_append, hold, Nat.zero_add] at hne
      obtain ⟨s, hs, hdecides⟩ := List.countP_pos_iff.mp (Nat.pos_of_ne_zero hne)
      obtain ⟨-, r, hr, hdecided, -⟩ := hnew i s (Option.mem_toList.mp hs) hdecides
      exact ⟨r, hr, hdecided⟩
    · obtain ⟨r, hr, hdecided⟩ := h.decided i hold
      obtain ⟨r', hr', hsame⟩ := hstays i r hr hdecided
      exact ⟨r', hr', hsame.status_eq ▸ hdecided⟩
  · rw [hledger]
    rw [houtputs] at hs
    rcases List.mem_append.mp hs with hs | hs
    · obtain ⟨r, hr, hdenied⟩ := h.denied i s hs hdenies
      obtain ⟨r', hr', hsame⟩ := hstays i r hr (by simp [hdenied])
      exact ⟨r', hr', hsame.status_eq.trans hdenied⟩
    · obtain ⟨-, r, hr, -, hdenied⟩ :=
        hnew i s (Option.mem_toList.mp hs) (Settled.decides_of_denies hdenies)
      exact ⟨r, hr, hdenied hdenies⟩

theorem decisionsSoFar (hacts : (processMachine κ env).Meets (Config.StillPending env) acts) :
    DecisionsSoFar env acts := by
  refine hacts.induction (P := fun acts => DecisionsSoFar env acts) ?_ fun acts a _ ha ih => ih.snoc ha
  have hledger : ((processMachine κ env).run []).world.ledger = Ledger.empty := ledger_boot
  refine ⟨?_, ?_, ?_, ?_⟩
  · rw [hledger]
    exact ⟨fun i => Nat.zero_le _, fun i hne => absurd rfl hne⟩
  · exact fun i => Nat.zero_le _
  · exact fun i hne => absurd rfl hne
  · exact fun i s hs => (List.not_mem_nil hs).elim

/-- Decided requests stay as they were decided while a run goes on. -/
theorem decided_stays_run {pre post : List (Action κ)}
    (hacts : (processMachine κ env).Meets (Config.StillPending env) (pre ++ post)) {i : String}
    {r : PendingRequest} (hr : ((processMachine κ env).run pre).world.ledger.requests i = some r)
    (hdecided : r.status ≠ .pending) :
    ∃ r', ((processMachine κ env).run (pre ++ post)).world.ledger.requests i = some r' ∧
      Ledger.SameDecision r r' := by
  induction post using List.reverseRecOn with
  | nil =>
    rw [List.append_nil]
    exact ⟨r, hr, rfl, rfl, rfl⟩
  | append_singleton post a ih =>
    rw [← List.append_assoc] at hacts ⊢
    obtain ⟨hpost, ha⟩ := Machine.meets_snoc.mp hacts
    obtain ⟨r', hr', hsame⟩ := ih hpost
    have hc := @Config.sound_run env _ (pre ++ post)
    obtain ⟨e, hadvances⟩ := hc.exec a
    have hpending := hadvances.explains.approvesPending hc ha
    obtain ⟨r'', hr'', hsame'⟩ := hadvances.enabled.decided_stays hpending hr'
      (hsame.status_eq ▸ hdecided)
    refine ⟨r'', ?_, hsame.trans hsame'⟩
    rw [Machine.run_snoc]
    show (((processMachine κ env).run (pre ++ post)).step env a).world.ledger.requests i = some r''
    rw [Config.step, hadvances.ledger_eq]
    exact hr''

/-- The one decision on a request: at most one call succeeds, at most one token is stored for it,
what was decided stays, and a request that was denied gets no token. -/
structure DecidedOnce (env : Env) (acts : List (Action κ)) (requestId : String) : Prop where
  succeeds : (settledCalls env acts).countP (Settled.decides requestId) ≤ 1
  token : ∀ t t' r, r.id = requestId →
    RequestBehind ((processMachine κ env).run acts).world t r →
    RequestBehind ((processMachine κ env).run acts).world t' r → t.id = t'.id
  stays : ∀ pre post r, acts = pre ++ post →
    ((processMachine κ env).run pre).world.requestStore.live.get requestId = some r →
    r.status ≠ .pending →
    ∃ r', ((processMachine κ env).run acts).world.requestStore.live.get requestId = some r' ∧
      r'.status = r.status ∧ r'.tokenId = r.tokenId ∧ r'.assignedApprover = r.assignedApprover
  denied : ∀ s ∈ settledCalls env acts, s.denies requestId = true →
    ∃ r, ((processMachine κ env).run acts).world.requestStore.live.get requestId = some r ∧
      r.status = .denied ∧ r.tokenId = none ∧
      ∀ t, ¬ RequestBehind ((processMachine κ env).run acts).world t r

/-- **One decision per request.** In a run whose approvals find their request still pending when
they write it back, every request is decided once. -/
theorem decidedOnce_of_stillPending
    (hacts : (processMachine κ env).Meets (Config.StillPending env) acts) (requestId : String) :
    DecidedOnce env acts requestId := by
  have hsofar := decisionsSoFar hacts
  have hc := @Config.sound_run env _ acts
  have hentry : ∀ (e : AuditLogEntry) (r : PendingRequest),
      e ∈ ((processMachine κ env).run acts).world.auditLog.entries → e.decision = .requestApproved →
      e.requestId = some r.id → e.toAuditEntryInput ∈
        ((processMachine κ env).run acts).world.ledger.log.filter (approves r.id) := by
    intro e r he hdecision hrequest
    have hnote : e.toAuditEntryInput.noteworthy = true := by
      simp [AuditEntryInput.noteworthy, hdecision]
    refine List.mem_filter.mpr ⟨List.mem_filter.mpr ⟨List.mem_map_of_mem he, hnote⟩, ?_⟩
    exact Ledger.approves_eq_true.mpr ⟨hrequest, hdecision⟩
  refine ⟨hsofar.once requestId, ?_, ?_, ?_⟩
  · rintro t t' r rfl ⟨-, e, he, hid, hdecision, hrequest⟩ ⟨-, e', he', hid', hdecision', hrequest'⟩
    have hone := hsofar.ledger.once r.id
    rw [List.countP_eq_length_filter] at hone
    have hmem := hentry e r he hdecision hrequest
    have hmem' := hentry e' r he' hdecision' hrequest'
    obtain ⟨a, ha⟩ := List.length_eq_one_iff.mp (le_antisymm hone (List.length_pos_of_mem hmem))
    rw [ha, List.mem_singleton] at hmem hmem'
    have hsame : e.tokenId = e'.tokenId := by
      rw [show e.tokenId = a.tokenId from congrArg AuditEntryInput.tokenId hmem,
        show e'.tokenId = a.tokenId from congrArg AuditEntryInput.tokenId hmem']
    rw [hid, hid'] at hsame
    exact Option.some.inj hsame
  · rintro pre post r rfl hr hdecided
    obtain ⟨r', hr', hsame⟩ := decided_stays_run hacts hr hdecided
    exact ⟨r', hr', hsame.status_eq, hsame.tokenId_eq, hsame.assignedApprover_eq⟩
  · intro s hs hdenies
    obtain ⟨r, hr, hdenied⟩ := hsofar.denied requestId s hs hdenies
    have hlinked := hc.linked.requests.linked _ _ hr
    refine ⟨r, hr, hdenied, ?_, ?_⟩
    · by_contra hne
      have happroved := hlinked.approved_iff.mp (Option.isSome_iff_ne_none.mpr hne)
      rw [hdenied] at happroved
      cases happroved
    · rintro t ⟨hr', e, he, -, hdecision, hrequest⟩
      have hmem := hentry e r he hdecision hrequest
      have hcount : ((processMachine κ env).run acts).world.ledger.log.countP (approves r.id) ≠ 0 := by
        rw [List.countP_eq_length_filter]
        exact Nat.ne_of_gt (List.length_pos_of_mem hmem)
      obtain ⟨r'', hr'', happroved⟩ := hsofar.ledger.approved r.id hcount
      cases hr'.symm.trans hr''
      rw [hdenied] at happroved
      cases happroved

/-! ## Approvals that overlap -/

/-- A request is approved, and then denied in vain. -/
def sampleDecided : List (Action Unit) :=
  [.call () (.requestToken ⟨"agent", ["a"], .finite 60, none, none⟩ (some "alice") 0),
   .call () (.approveRequest ⟨"id-2", "alice", none, 0⟩),
   .resume 0 .responded,
   .call () (.denyRequest "id-2" "alice" .other 0)]

theorem decidedOnce_of_stillPending_sample : DecidedOnce sampleEnv sampleDecided "id-2" :=
  decidedOnce_of_stillPending (Machine.meets_of_check (by decide +kernel)) "id-2"

/-- The request is approved twice: both calls read it before the first one writes it back. -/
def sampleApprovedTwice : List (Action Unit) :=
  [.call () (.requestToken ⟨"agent", ["a"], .finite 60, none, none⟩ (some "alice") 0),
   .call () (.approveRequest ⟨"id-2", "alice", none, 0⟩),
   .call () (.approveRequest ⟨"id-2", "alice", none, 0⟩),
   .resume 0 .responded,
   .resume 0 .responded]

/-- Both calls succeed. -/
theorem not_decidedOnce : ¬ DecidedOnce sampleEnv sampleApprovedTwice "id-2" := by
  intro h
  have htwo : (settledCalls sampleEnv sampleApprovedTwice).countP (Settled.decides "id-2") = 2 := by
    decide +kernel
  have hone := h.succeeds
  rw [htwo] at hone
  exact absurd hone (by decide)

end Ambit
