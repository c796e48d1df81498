import Ambit.AuditTrail
import Ambit.Delegation
import Ambit.SamplePlatform
import Ambit.Runtime

/-! What a delegation comes to, whatever is in the stores and whatever the breaker does when it starts
and when it goes on: one decision and one entry in the log, unless its lifetime is not positive. -/

namespace Ambit

open Effect

variable {env : Env} {w w' : World} {input : DelegationInput} {parent : Token}

/-- The entry for a delegation that was refused. -/
def delegationDenialEntry (input : DelegationInput) (reasonCode : DelegationDenialReason) :
    AuditEntryInput :=
  { tokenId := some input.parentTokenId, subject := input.childSubject, action := "delegate",
    decision := .denied, reasonCode := some reasonCode.text }

/-- The entry for a delegation that issued a token. -/
def delegationEntry (input : DelegationInput) (token : Token) : AuditEntryInput :=
  { tokenId := some token.id, subject := input.childSubject, action := "delegate",
    decision := .allowed }

/-- The decision is the one entry that was added to the log, and a denial adds no token. -/
def DelegationDecision.Logged (input : DelegationInput) (w w' : World) : DelegationDecision → Prop
  | .denied reasonCode => w'.trail = w.trail ++ [delegationDenialEntry input reasonCode] ∧
      w'.tokenStore = w.tokenStore
  | .approved token _ => w'.trail = w.trail ++ [delegationEntry input token] ∧
      w'.tokenStore.live.get token.id = some token

/-- From its state on, the delegation ends in a logged decision, however the stores and the breaker
are when it goes on; up to there it writes nothing. -/
inductive DelegationEnds (env : Env) (input : DelegationInput) :
    Op (Progress DelegateFrame DelegationDecision) → World → Prop
  | returned {piece w decision w'} (hrun : piece w = .ok (.returned decision) w')
      (hlogged : decision.Logged input w w') : DelegationEnds env input piece w
  | awaiting {piece w frame w'} (hrun : piece w = .ok (.awaiting frame) w')
      (htrail : w'.trail = w.trail) (htokens : w'.tokenStore = w.tokenStore)
      (hgoesOn : ∀ w₁ : World, w₁.Faultless → DelegationEnds env input (frame.resume env) w₁) :
      DelegationEnds env input piece w

/-- The parent admits the delegation. -/
structure DelegationInput.AdmittedBy (input : DelegationInput) (env : Env) (parent : Token) :
    Prop where
  possessed : verifyPassword env.toPlatform input.providedParentSecret parent.secretHash = true
  active : parent.status = .active
  unexpired : (Date.ms input.now).getTime.lt parent.expiresAt.getTime = true
  nonempty : input.requestedScope ≠ []
  subset : input.requestedScope ⊆ parent.scope
  strict : ∃ s ∈ parent.scope, s ∉ input.requestedScope

/-- The delegation gets as far as to the issuance of a token. -/
def DelegationInput.Issues (input : DelegationInput) (env : Env) (w : World) : Prop :=
  ¬ w.Rejects env ∧ ∃ parent, w.tokenStore.live.get input.parentTokenId = some parent ∧
    input.AdmittedBy env parent

theorem delegationDenial_eq_none_iff :
    delegationDenial env input parent = none ↔ input.AdmittedBy env parent := by
  unfold delegationDenial
  constructor
  · intro h
    split at h
    · cases h
    · rename_i hpossessed
      split at h
      · cases h
      · rename_i hvalid
        split at h
        · cases h
        · rename_i hnonempty
          split at h
          · cases h
          · rename_i hsubset
            split at h
            · cases h
            · rename_i hstrict
              exact ⟨by simpa using hpossessed, (not_not.mp hvalid).1, (not_not.mp hvalid).2,
                hnonempty, not_not.mp hsubset, not_not.mp hstrict⟩
  · rintro ⟨hpossessed, hactive, hunexpired, hnonempty, hsubset, hstrict⟩
    rw [if_neg (by simp [hpossessed]), if_neg (not_not.mpr ⟨hactive, hunexpired⟩),
      if_neg hnonempty, if_neg (not_not.mpr hsubset), if_neg (not_not.mpr hstrict)]

/-! ## The pieces -/

/-- What a piece of a delegation comes to. -/
def PieceEnds (env : Env) (input : DelegationInput) (w : World) :
    Except Err (Progress DelegateFrame DelegationDecision) → World → Prop
  | .ok (.returned decision), w' => decision.Logged input w w'
  | .ok (.awaiting frame), w' => w'.trail = w.trail ∧ w'.tokenStore = w.tokenStore ∧
      ∀ w₁ : World, w₁.Faultless → DelegationEnds env input (frame.resume env) w₁
  | .error _, _ => False

theorem DelegationEnds.of_wp {piece : Op (Progress DelegateFrame DelegationDecision)}
    (h : wp piece (PieceEnds env input w) w) : DelegationEnds env input piece w := by
  cases hrun : piece w with
  | error err w' => exact (wp_error h hrun).elim
  | ok progress w' =>
    have hpiece := wp_ok h hrun
    cases progress with
    | returned decision => exact .returned hrun hpiece
    | awaiting frame => exact .awaiting hrun hpiece.1 hpiece.2.1 hpiece.2.2

theorem DelegationDenialReason.not_blank (reasonCode : DelegationDenialReason) :
    isBlank reasonCode.text = false := by
  cases reasonCode <;> decide

/-- A denial, after what did not show in the log. -/
theorem wp_denied {w₁ : World} (h : w₁.Faultless) (htrail : w₁.trail = w.trail)
    (htokens : w₁.tokenStore = w.tokenStore) (reasonCode : DelegationDenialReason) :
    wp (do return .returned (← denyDelegation env input reasonCode)) (PieceEnds env input w) w₁ := by
  have hreason : (delegationDenialEntry input reasonCode).lacksReason = false := by
    simp [delegationDenialEntry, AuditEntryInput.lacksReason, reasonCode.not_blank]
  refine wp_bind (wp_bind (Faultless.wp_auditRecord h hreason (wp_pure (wp_pure ⟨?_, htokens⟩))))
  exact (World.trail_logged hreason rfl _).trans (by rw [htrail])

/-- The hash of the child's secret is done: the token is stored, or the store denies it. -/
theorem delegateIssuing_ends (h : w.Faultless) (issue : IssueFrame) :
    DelegationEnds env input (DelegateFrame.resume env (.issuing input issue)) w := by
  refine .of_wp (wp_bind (wp_attempt (wp_bind (wp_draw (wp_bind ?_)))))
  have hdrawn : w.drawn.Faultless := h
  refine Faultless.tokenStore_save hdrawn (fun _ message => ?_) fun _ => ?_
  · exact wp_denied hdrawn.rejected (by simp) (by simp) .storeUnavailable
  · refine wp_pure (wp_bind (Faultless.wp_auditRecord hdrawn.accessed rfl (wp_pure ⟨?_, ?_⟩)))
    · rw [World.trail_logged rfl rfl, World.trail_putToken, World.trail_accessed, World.trail_drawn]
      rfl
    · exact OrderedMap.get_set_self ..

/-- The possession check is done: the parent refuses, or the token is on its way to be issued, which
throws if its lifetime is not positive. -/
theorem wp_verifying (h : w.Faultless)
    (hlives : input.AdmittedBy env parent → input.ttlSeconds.le (.finite 0) = false) :
    wp (DelegateFrame.resume env (.verifying input parent)) (PieceEnds env input w) w := by
  simp only [DelegateFrame.resume]
  cases hdenial : delegationDenial env input parent with
  | some reasonCode => exact wp_denied h rfl rfl reasonCode
  | none =>
    have hadmitted := delegationDenial_eq_none_iff.mp hdenial
    have hissuing : ∀ (w₁ : World) (issue : IssueFrame), w₁.trail = w.trail →
        w₁.tokenStore = w.tokenStore →
        wp (catchCircuitOpen env input (.ok issue)
          fun issue => return .awaiting (.issuing input issue)) (PieceEnds env input w) w₁ :=
      fun w₁ issue htrail htokens =>
        wp_pure ⟨htrail, htokens, fun _ h₂ => delegateIssuing_ends h₂ issue⟩
    refine wp_bind (wp_attempt (wp_bind (wp_throwIf (fun hscope => ?_) fun _ => ?_)))
    · exact absurd hscope hadmitted.nonempty
    refine wp_bind (wp_throwIf (fun httl => ?_) fun _ => wp_bind (wp_pure (wp_bind (wp_now ?_))))
    · rw [hlives hadmitted] at httl
      cases httl
    refine wp_bind ?_
    dsimp only
    cases truthy (some input.parentTokenId) with
    | none =>
      refine wp_pure (wp_bind (wp_draw (wp_bind (wp_draw (wp_pure ?_)))))
      exact hissuing _ _ rfl rfl
    | some parentTokenId =>
      refine Faultless.tokenStore_get h (fun _ message => ?_) fun _ => ?_
      · exact wp_denied h.rejected (by simp) (by simp) .storeUnavailable
      · refine wp_bind (wp_draw (wp_bind (wp_draw (wp_pure ?_))))
        exact hissuing _ _ (by simp) (by simp)

/-- An admitted delegation with a lifetime that is not positive throws. -/
theorem verifying_throws (hadmitted : input.AdmittedBy env parent)
    (httl : input.ttlSeconds.le (.finite 0) = true) :
    wp (DelegateFrame.resume env (.verifying input parent)) (fun r _ => r.isOk = false) w := by
  simp only [DelegateFrame.resume]
  rw [delegationDenial_eq_none_iff.mpr hadmitted]
  refine wp_bind (wp_attempt (wp_bind (wp_throwIf (fun hscope => ?_) fun _ => ?_)))
  · exact absurd hscope hadmitted.nonempty
  refine wp_bind (wp_throwIf (fun _ => wp_throw rfl) fun hpositive => ?_)
  exact absurd httl hpositive

theorem DelegationEnds.not_throws {piece : Op (Progress DelegateFrame DelegationDecision)}
    (h : DelegationEnds env input piece w) : wp piece (fun r _ => r.isOk = true) w := by
  cases h with
  | returned hrun => rw [wp, hrun]; rfl
  | awaiting hrun => rw [wp, hrun]; rfl

/-- **When a delegation ends in a logged decision.** Whatever is in the store and whatever the breaker
does, it does so exactly if its lifetime is positive or it is refused before the issuance. -/
theorem delegationEnds_iff (h : w.Faultless) (input : DelegationInput) :
    DelegationEnds env input (delegateToken env input) w ↔
      input.ttlSeconds.le (.finite 0) = false ∨ ¬ input.Issues env w := by
  constructor
  · intro hends
    by_contra hnot
    rw [not_or, not_not, Bool.not_eq_false] at hnot
    obtain ⟨httl, hadmits, parent, hparent, hadmitted⟩ := hnot
    have hfirst : wp (delegateToken env input) (fun r _ =>
        r = .ok (.awaiting (.verifying input parent))) w := by
      refine wp_bind (wp_attempt (Faultless.tokenStore_get h (fun hrej => absurd hrej hadmits) ?_))
      intro _
      rw [hparent]
      exact wp_pure rfl
    cases hends with
    | returned hrun =>
      have hr := wp_ok hfirst hrun
      cases hr
    | awaiting hrun _ _ hgoesOn =>
      have hr := wp_ok hfirst hrun
      cases hr
      have hok := wp_iff.mp (hgoesOn w h).not_throws
      have hthrows := wp_iff.mp (verifying_throws (w := w) hadmitted httl)
      rw [hok] at hthrows
      cases hthrows
  · intro hcondition
    refine .of_wp (wp_bind (wp_attempt (Faultless.tokenStore_get h (fun _ message => ?_) ?_)))
    · exact wp_denied h.rejected (by simp) (by simp) .storeUnavailable
    · intro hadmits
      cases hparent : w.tokenStore.live.get input.parentTokenId with
      | none => exact wp_denied h.accessed (by simp) (by simp) .parentInvalid
      | some parent =>
        refine wp_pure ⟨by simp, by simp, fun w₁ h₁ => .of_wp (wp_verifying h₁ fun hadmitted => ?_)⟩
        exact hcondition.resolve_right (not_not.mpr ⟨hadmits, parent, hparent, hadmitted⟩)

/-! ## A delegation without a lifetime -/

/-- A token is issued. -/
def sampleIssuance : List (Action Unit) :=
  [.call () (.requestToken ⟨"agent", ["a", "b"], .finite 60, none, none⟩ (some "alice") 0),
   .call () (.approveRequest ⟨"id-2", "alice", none, 0⟩),
   .resume 0 .responded]

/-- Its holder delegates it for no time at all. -/
def sampleTimeless : DelegationInput := ⟨"id-6", "secret-4", "child", ["a"], .finite 0, 0⟩

def sampleParentIssued : World := ((processMachine Unit sampleEnv).run sampleIssuance).world

theorem delegationEnds_iff_sample :
    DelegationEnds sampleEnv sampleTimeless (delegateToken sampleEnv sampleTimeless)
        sampleParentIssued ↔
      sampleTimeless.ttlSeconds.le (.finite 0) = false ∨
        ¬ sampleTimeless.Issues sampleEnv sampleParentIssued := by
  have hfaultless : sampleParentIssued.faults = [] := by decide +kernel
  exact delegationEnds_iff hfaultless sampleTimeless

/-- **The call throws** once the possession check is done. -/
theorem not_delegationEnds :
    ¬ DelegationEnds sampleEnv sampleTimeless (delegateToken sampleEnv sampleTimeless)
      sampleParentIssued := by
  have hrun : (match delegateToken sampleEnv sampleTimeless sampleParentIssued with
      | .ok (.awaiting frame) _ => (result (frame.resume sampleEnv) World.initial).isOk
      | _ => true) = false := by
    decide +kernel
  intro hends
  cases hends with
  | returned hreturned =>
    rw [hreturned] at hrun
    cases hrun
  | awaiting hawaiting _ _ hgoesOn =>
    rw [hawaiting] at hrun
    have hok : (result _ World.initial).isOk = true :=
      wp_iff.mp (hgoesOn World.initial rfl).not_throws
    cases hok.symm.trans hrun

end Ambit
