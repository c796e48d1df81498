import Ambit.Delegation
import Ambit.TokenSpec

/-! Delegation as an event: the child is stored in the last piece of the call, on the strength of
the parent as it was read in the first. -/

namespace Ambit

open Effect

variable {env : Env} {w : World}

/-- The token request that a delegation makes. -/
def DelegationInput.tokenRequest (input : DelegationInput) : TokenRequest where
  subject := input.childSubject
  scope := input.requestedScope
  ttlSeconds := input.ttlSeconds
  parentTokenId := some input.parentTokenId

/-- What the checks of a delegation establish about the parent as it was read. -/
structure DelegationInput.Passes (input : DelegationInput) (parent : Token) : Prop where
  id_eq : parent.id = input.parentTokenId
  active : parent.status = .active
  scope_subset : input.requestedScope ⊆ parent.scope
  scope_strict : ∃ s ∈ parent.scope, s ∉ input.requestedScope

theorem delegationDenial_eq_none {input : DelegationInput} {parent : Token}
    (h : delegationDenial env input parent = none) (hid : parent.id = input.parentTokenId) :
    input.Passes parent := by
  unfold delegationDenial at h
  split at h
  · cases h
  · split at h
    · cases h
    · split at h
      · cases h
      · split at h
        · cases h
        · split at h
          · cases h
          · rename_i hlive _ hsubset hstrict
            exact ⟨hid, (not_not.mp hlive).1, not_not.mp hsubset, not_not.mp hstrict⟩

/-- The decision hands out nothing. -/
def DelegationDecision.Refused : DelegationDecision → Prop
  | .approved _ _ => False
  | .denied _ => True

theorem denyDelegation_quiet {w' : World} (h : w.Quiet env w') (input : DelegationInput)
    (reasonCode : DelegationDenialReason) :
    wp (denyDelegation env input reasonCode)
      (fun r w'' => w.Quiet env w'' ∧ OnOk DelegationDecision.Refused r) w' := by
  refine wp_bind (wp_mono (h.auditRecord rfl input.now) fun r w'' hq => ?_)
  cases r with
  | error => exact ⟨hq, trivial⟩
  | ok => exact wp_pure ⟨hq, trivial⟩

/-- How far a piece of a delegation gets that stores no token: it is refused, or it goes on with a
frame that satisfies `P`. -/
def DelegationStopped (P : DelegateFrame → Prop) : Progress DelegateFrame DelegationDecision → Prop
  | .returned decision => decision.Refused
  | .awaiting frame => P frame

theorem wp_denyDelegation {w' : World} {P : World → DelegateFrame → Prop} (h : w.Quiet env w')
    (input : DelegationInput) (reasonCode : DelegationDenialReason) :
    wp (do return Progress.returned (← denyDelegation env input reasonCode))
      (fun r w'' => w.Quiet env w'' ∧ OnOk (DelegationStopped (P w'')) r) w' := by
  refine wp_bind (wp_mono (denyDelegation_quiet h input reasonCode) fun r w'' hr => ?_)
  cases r with
  | error => exact ⟨hr.1, trivial⟩
  | ok => exact wp_pure hr

/-- `delegateToken` is quiet up to its first await. -/
theorem delegateToken_spec (h : w.Sound env) (input : DelegationInput) :
    wp (delegateToken env input) (fun r w' => w.Quiet env w' ∧
      OnOk (DelegationStopped fun frame => ∃ parent, frame = .verifying input parent ∧
        w.ledger.tokens input.parentTokenId = some parent) r) w := by
  have hq := World.Quiet.refl h
  refine wp_bind (wp_attempt (TokenStore.wp_get h (fun hrej _ => ?_) fun _ => ?_))
  · exact wp_denyDelegation (hq.rejected hrej) input .storeUnavailable
  · generalize hfound : w.ledger.tokens input.parentTokenId = found
    cases found with
    | none => exact wp_denyDelegation hq.accessed input .parentInvalid
    | some parent => exact wp_pure ⟨hq.accessed, parent, rfl, rfl⟩

theorem capExpiry_congr {p q : Token} (h : p.expiresAt = q.expiresAt) (expiresAt : Date) :
    capExpiry expiresAt (some p) = capExpiry expiresAt (some q) := by
  simp only [capExpiry, h]

/-- From the possession check to the hash of the child's secret a delegation is quiet. -/
theorem DelegateFrame.resume_verifying_spec {input : DelegationInput} {parent : Token}
    (h : w.Sound env) (hread : w.ledger.HasRead parent) (hid : parent.id = input.parentTokenId) :
    wp (DelegateFrame.resume env (.verifying input parent)) (fun r w' => w.Quiet env w' ∧
      OnOk (DelegationStopped fun frame => ∃ issue, frame = .issuing input issue ∧
        input.Passes parent ∧ issue.For env input.tokenRequest (some parent) w'.supply ∧
          issue.DrawnFrom env w.supply) r) w := by
  have hq := World.Quiet.refl h
  simp only [DelegateFrame.resume]
  generalize hdenial : delegationDenial env input parent = denial
  cases denial with
  | some reasonCode => exact wp_denyDelegation hq input reasonCode
  | none =>
    refine wp_bind (wp_attempt (wp_mono (issueToken_spec h input.tokenRequest false) ?_))
    rintro r w₁ ⟨hq₁, hr⟩
    cases r with
    | error err =>
      cases err with
      | circuitOpen => exact wp_denyDelegation hq₁ input .storeUnavailable
      | _ => exact wp_throw ⟨hq₁, trivial⟩
    | ok issue =>
      have hfor : issue.For env input.tokenRequest
          ((truthy (some input.parentTokenId)).bind w.ledger.tokens) w₁.supply := hr.1
      obtain ⟨current, hcurrent, hagrees⟩ := hread
      rw [hid] at hcurrent
      obtain ⟨n, -, hdrawn⟩ := h.tokenDrawn _ _ hcurrent
      have hne : input.parentTokenId ≠ "" := hdrawn ▸ env.randomUUID_ne_empty n
      rw [truthy_eq_some.mpr ⟨rfl, hne⟩, Option.bind_some, hcurrent] at hfor
      refine wp_pure ⟨hq₁, issue, rfl, delegationDenial_eq_none hdenial hid, ?_⟩
      refine ⟨⟨hfor.request_eq, hfor.scope_ne, ?_, hfor.salt_ne, hfor.secret_drawn⟩, hr.2⟩
      rw [hfor.expiresAt_eq]
      exact capExpiry_congr hagrees.expiresAt_eq _

/-- The last piece of a delegation stores the child and hands it out, or is quiet. -/
theorem DelegateFrame.resume_issuing_spec {input : DelegationInput} {parent : Token}
    {issue : IssueFrame} {n : ℕ} (h : w.Sound env) (hread : w.ledger.HasRead parent)
    (hpasses : input.Passes parent) (hissue : issue.For env input.tokenRequest (some parent) n) :
    wp (DelegateFrame.resume env (.issuing input issue)) (fun r w' =>
      (w.Quiet env w' ∧ OnOk (DelegationStopped fun _ => False) r) ∨
        ¬ w.Rejects env ∧ ∃ id, w.Steps env (.delegated parent (issue.token env id)) w' ∧
          r = .ok (.returned (.approved (issue.token env id) issue.secret))) w := by
  have hq := World.Quiet.refl h
  refine wp_bind (wp_attempt (IssueFrame.wp_resume h (fun hrej message => ?_) fun hadmits => ?_))
  · have hdeny := wp_denyDelegation (P := fun _ _ => False) (hq.drawn.rejected hrej)
      input .storeUnavailable
    exact wp_mono hdeny fun r w' hr => .inl hr
  · have hq := hq.drawn.accessed
    let token := issue.token env (env.randomUUID w.supply)
    have hrequest : issue.request = input.tokenRequest := hissue.request_eq
    have hput : ((w.drawn.accessed env).putToken token).Sound env := by
      refine hq.sound.putToken ⟨w.supply, ?_, rfl⟩
      exact Nat.lt_of_lt_of_le (Nat.lt_succ_self _) (World.Quiet.refl h.drawn).accessed.supply_le
    refine wp_bind (wp_auditRecord hput rfl (wp_pure (.inr ⟨hadmits, _, ⟨hput.logged rfl _, ?_, ?_, ?_,
      fun hf => (hq.flows hf).of_breaker rfl⟩, rfl⟩)))
    · refine ⟨hread, hpasses.active, hissue.fresh h, ?_, ?_, ?_⟩
      · show issue.request.parentTokenId = some parent.id
        rw [hrequest, hpasses.id_eq]
        rfl
      · show issue.request.scope ⊆ parent.scope
        rw [hrequest]
        exact hpasses.scope_subset
      · show ∃ s ∈ parent.scope, s ∉ issue.request.scope
        rw [hrequest]
        exact hpasses.scope_strict
    · rw [World.ledger_logged_noteworthy hput rfl rfl, World.ledger_putToken, hq.ledger_eq,
        Ledger.after_eq (fun _ _ => rfl) fun _ => rfl]
      have hsubject : input.childSubject = issue.request.subject := by rw [hrequest]; rfl
      simp only [hsubject]
      rfl
    · exact hq.supply_le.trans (Nat.le_succ _)

end Ambit
