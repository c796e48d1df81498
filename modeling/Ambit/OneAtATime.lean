import Ambit.DelegationSpec
import Ambit.RequestSpec

/-! Calls that are run to their end with nothing in between: each await goes on at once. -/

namespace Ambit

open Effect

/-- `approveRequest` from its start to its end. -/
def approveAtOnce (env : Env) (input : ApprovalInput) : Op Token := do
  let frame ← approveRequest env input
  frame.resume env

/-- A delegation goes on at its await, if it has not ended. -/
def goOn (env : Env) : Progress DelegateFrame DelegationDecision →
    Op (Progress DelegateFrame DelegationDecision)
  | .returned decision => return .returned decision
  | .awaiting frame => frame.resume env

/-- `delegateToken` from its start to its end, over both of its awaits. -/
def delegateAtOnce (env : Env) (input : DelegationInput) :
    Op (Progress DelegateFrame DelegationDecision) := do
  let progress ← delegateToken env input
  let progress ← goOn env progress
  goOn env progress

variable {env : Env} {w : World}

/-- An approval with nothing in between decides the stored request, or is quiet. -/
theorem approveAtOnce_spec (h : w.Sound env) (input : ApprovalInput) :
    wp (approveAtOnce env input) (fun r w' => (w.Quiet env w' ∧ r.isOk = false) ∨
      ∃ pending token secret, pending.id = input.requestId ∧
        w.ledger.requests pending.id = some pending ∧ pending.status = .pending ∧
        pending.eligible input.approver ∧
        w.Steps env (.approved pending token secret input.approver input.policyId) w' ∧
        r = .ok token) w := by
  refine wp_bind (wp_mono (approveRequest_spec h input) fun r w₁ ⟨hq, hr⟩ => ?_)
  cases r with
  | error err => exact .inl ⟨hq, rfl⟩
  | ok frame =>
    obtain ⟨hfor, -⟩ := hr
    obtain rfl := hfor.input_eq
    have hid : frame.pending.id = frame.input.requestId := h.requests.keyed _ _ hfor.pending_eq
    have hstored : w.ledger.requests frame.pending.id = some frame.pending := hid ▸ hfor.pending_eq
    have hread : w₁.ledger.HasReadRequest frame.pending := by
      rw [hq.ledger_eq]
      exact ⟨frame.pending, hstored, .refl _⟩
    refine wp_mono (ApproveFrame.resume_spec hq.sound hread hid hfor.issue) ?_
    rintro r w₂ (⟨hq', -, hr⟩ | ⟨-, id, hstep, rfl⟩)
    · exact .inl ⟨hq.trans hq', hr⟩
    · exact .inr ⟨frame.pending, _, _, hid, hstored, hfor.status_eq, hfor.eligible, hq.then hstep,
        rfl⟩

/-- A delegation with nothing in between stores a child of the token it was asked on, or is quiet. It
has come to its end. -/
theorem delegateAtOnce_spec (h : w.Sound env) (input : DelegationInput) :
    wp (delegateAtOnce env input) (fun r w' =>
      (w.Quiet env w' ∨ ∃ parent token, w.Steps env (.delegated parent token) w') ∧
      OnOk (fun progress => ∃ decision, progress = .returned decision) r) w := by
  have hquiet : ∀ {w' : World} {decision : DelegationDecision}, w.Quiet env w' →
      wp (goOn env (.returned decision)) (fun r w' =>
        (w.Quiet env w' ∨ ∃ parent token, w.Steps env (.delegated parent token) w') ∧
        OnOk (fun progress => ∃ decision, progress = .returned decision) r) w' :=
    fun hq => wp_pure ⟨.inl hq, _, rfl⟩
  refine wp_bind (wp_mono (delegateToken_spec h input) fun r w₁ ⟨hq₁, hr⟩ => ?_)
  rcases r with err | decision | frame
  · exact ⟨.inl hq₁, trivial⟩
  · exact wp_bind (wp_pure (hquiet hq₁))
  · obtain ⟨parent, rfl, hparent⟩ := hr
    have hid : parent.id = input.parentTokenId := h.tokens.keyed _ _ hparent
    have hread : w₁.ledger.HasRead parent := by
      rw [hq₁.ledger_eq]
      exact ⟨parent, hid ▸ hparent, .refl parent⟩
    refine wp_bind (wp_mono (DelegateFrame.resume_verifying_spec hq₁.sound hread hid) ?_)
    intro r w₂ ⟨hq₂, hr⟩
    rcases r with err | decision | frame
    · exact ⟨.inl (hq₁.trans hq₂), trivial⟩
    · exact hquiet (hq₁.trans hq₂)
    · obtain ⟨issue, rfl, hpasses, hissue, -⟩ := hr
      rw [← hq₂.ledger_eq] at hread
      refine wp_mono (DelegateFrame.resume_issuing_spec hq₂.sound hread hpasses hissue) ?_
      rintro r w₃ (⟨hq₃, hr⟩ | ⟨-, id, hstep, rfl⟩)
      · refine ⟨.inl ((hq₁.trans hq₂).trans hq₃), ?_⟩
        rcases r with err | decision | frame
        · trivial
        · exact ⟨decision, rfl⟩
        · exact hr.elim
      · exact ⟨.inr ⟨parent, _, (hq₁.trans hq₂).then hstep⟩, _, rfl⟩

end Ambit
