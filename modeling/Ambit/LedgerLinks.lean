import Ambit.Ledger
import Mathlib.Data.Finset.Card

/-! The links of the ledger, kept by every event: a delegated token to its wider parent, a root
token to the one approval entry and the request it came from, an approved request to its token
and to a secret that verifies against it. -/

namespace Ambit

/-- An approval entry of the token `i`. -/
def isApprovalOf (i : String) (e : AuditEntryInput) : Bool :=
  e.tokenId = some i ∧ e.decision = .requestApproved

namespace Ledger

/-- Every token has a scope, and its parent, if any, a strictly wider one. -/
structure TokensLinked (L : Ledger) : Prop where
  key : ∀ i t, L.tokens i = some t → t.id = i ∧ i ≠ ""
  scope_ne : ∀ i t, L.tokens i = some t → t.scope ≠ []
  parent : ∀ i t q, L.tokens i = some t → t.parentTokenId = some q →
    ∃ parent, L.tokens q = some parent ∧ t.scope ⊆ parent.scope ∧
      ∃ s ∈ parent.scope, s ∉ t.scope

/-- Root tokens and approval entries belong together one by one. -/
structure ApprovalsLinked (L : Ledger) : Prop where
  origin : ∀ i t, L.tokens i = some t → t.parentTokenId = none →
    ∃ e ∈ L.log, isApprovalOf i e = true ∧ ∃ r, L.requests r.id = some r ∧
      e.requestId = some r.id ∧ r.subject = t.subject ∧ r.scope = t.scope
  approved : ∀ e ∈ L.log, e.decision = .requestApproved →
    ∃ i t, e.tokenId = some i ∧ L.tokens i = some t ∧ t.parentTokenId = none
  once : ∀ i, L.log.countP (isApprovalOf i) ≤ 1

/-- An approved request, and no other, names a token, with its terms, and its secret opens it. -/
structure RequestLinked (p : Platform) (L : Ledger) (r : PendingRequest) : Prop where
  approved_iff : r.tokenId.isSome ↔ r.status = .approved
  token : ∀ j, r.tokenId = some j → ∃ t, L.tokens j = some t ∧ t.subject = r.subject ∧
    t.scope = r.scope
  secret : ∀ s, r.tokenSecret = some s → s ≠ "" ∧ ∃ j t, r.tokenId = some j ∧
    L.tokens j = some t ∧ verifyPassword p s t.secretHash = true

structure RequestsLinked (p : Platform) (L : Ledger) : Prop where
  key : ∀ i r, L.requests i = some r → r.id = i
  linked : ∀ i r, L.requests i = some r → L.RequestLinked p r

structure Linked (p : Platform) (L : Ledger) : Prop where
  tokens : L.TokensLinked
  approvals : L.ApprovalsLinked
  requests : L.RequestsLinked p

variable {p : Platform} {L : Ledger} {e : Event} {i : String}

theorem linked_empty : empty.Linked p where
  tokens := by constructor <;> intro i t <;> simp [empty]
  approvals := by constructor <;> simp [empty]
  requests := by constructor <;> simp [empty]

/-! ## Tokens -/

theorem TokensLinked.after (h : L.TokensLinked) (he : L.Enabled p e) : (L.after e).TokensLinked where
  key i t' ht' := by
    rcases after_tokens ht' with ⟨hissued, rfl⟩ | ⟨t, ht, rfl⟩
    · exact ⟨rfl, (he.fresh hissued).id_ne⟩
    · obtain ⟨hid, hne⟩ := h.key i t ht
      exact ⟨(sameTerms_changedToken e i t).id_eq.trans hid, hne⟩
  scope_ne i t' ht' := by
    rcases after_tokens ht' with ⟨hissued, rfl⟩ | ⟨t, ht, rfl⟩
    · exact (he.fresh hissued).scope_ne
    · rw [(sameTerms_changedToken e i t).scope_eq]
      exact h.scope_ne i t ht
  parent i t' q ht' hq := by
    rcases after_tokens ht' with ⟨hissued, rfl⟩ | ⟨t, ht, rfl⟩
    · cases e with
      | approved pending t secret =>
        cases hissued
        obtain ⟨-, -, -, -, hroot, -⟩ := he
        rw [hroot] at hq
        cases hq
      | delegated parent t =>
        cases hissued
        obtain ⟨⟨current, hcurrent, hagrees⟩, -, -, hparent, hsub, hstrict⟩ := id he
        cases hparent.symm.trans hq
        have hscope := (sameTerms_changedToken (.delegated parent t') parent.id current).scope_eq
        refine ⟨_, he.token_stays hcurrent, ?_⟩
        rw [hscope, hagrees.scope_eq]
        exact ⟨hsub, hstrict⟩
      | _ => cases hissued
    · have hsame := sameTerms_changedToken e i t
      rw [hsame.parentTokenId_eq] at hq
      obtain ⟨parent, hparent, hscope⟩ := h.parent i t q ht hq
      refine ⟨_, he.token_stays hparent, ?_⟩
      rw [hsame.scope_eq, (sameTerms_changedToken e q parent).scope_eq]
      exact hscope

/-! ## Approvals -/

/-- The approval entries are those of approvals. -/
theorem approval_of_mem_entries {a : AuditEntryInput} (ha : a ∈ e.entries)
    (happroved : a.decision = .requestApproved) :
    ∃ pending t secret approver policyId, e = .approved pending t secret approver policyId ∧
      a = approvalEntry pending t.id approver policyId := by
  cases e with
  | approved pending t secret approver policyId =>
    exact ⟨pending, t, secret, approver, policyId, rfl, List.mem_singleton.mp ha⟩
  | revoked r =>
    obtain ⟨t, -, rfl⟩ := List.mem_map.mp ha
    cases happroved
  | submitted | escalated | claimed | delegated | used =>
    rw [List.mem_singleton.mp ha] at happroved
    cases happroved
  | _ => cases ha

theorem ApprovalsLinked.countP_approvals_eq_zero (h : L.ApprovalsLinked) (hnew : L.tokens i = none) :
    L.log.countP (isApprovalOf i) = 0 := by
  refine List.countP_eq_zero.mpr fun e he happroval => ?_
  obtain ⟨hid, hdecision⟩ := of_decide_eq_true happroval
  obtain ⟨j, t, hj, ht, -⟩ := h.approved e he hdecision
  rw [hid] at hj
  cases hj
  rw [hnew] at ht
  cases ht

theorem ApprovalsLinked.after (h : L.ApprovalsLinked) (he : L.Enabled p e) :
    (L.after e).ApprovalsLinked where
  origin i t' ht' hroot := by
    rcases after_tokens ht' with ⟨hissued, rfl⟩ | ⟨t, ht, rfl⟩
    · cases e with
      | approved pending t secret approver policyId =>
        cases hissued
        obtain ⟨⟨current, hcurrent, hagrees⟩, -, hsubject, hscope, -⟩ := id he
        obtain ⟨r, hr, hsame⟩ := he.request_stays hcurrent
        have hid : r.id = pending.id := hsame.id_eq.trans hagrees.id_eq
        refine ⟨approvalEntry pending t'.id approver policyId, ?_, ?_, r, hid ▸ hr, ?_, ?_, ?_⟩
        · exact List.mem_append_right _ (List.mem_singleton.mpr rfl)
        · simp [isApprovalOf, approvalEntry]
        · exact congrArg some hid.symm
        · rw [hsame.subject_eq, hagrees.subject_eq, hsubject]
        · rw [hsame.scope_eq, hagrees.scope_eq, hscope]
      | delegated parent t =>
        cases hissued
        obtain ⟨-, -, -, hparent, -⟩ := he
        rw [hparent] at hroot
        cases hroot
      | _ => cases hissued
    · have hsame := sameTerms_changedToken e i t
      rw [hsame.parentTokenId_eq] at hroot
      obtain ⟨a, ha, happroval, r, hr, hrequest, hsubject, hscope⟩ := h.origin i t ht hroot
      obtain ⟨r', hr', hagrees⟩ := he.request_stays hr
      refine ⟨a, List.mem_append_left _ ha, happroval, r', ?_, ?_, ?_, ?_⟩
      · rw [hagrees.id_eq]
        exact hr'
      · rw [hagrees.id_eq]
        exact hrequest
      · rw [hagrees.subject_eq, hsame.subject_eq, hsubject]
      · rw [hagrees.scope_eq, hsame.scope_eq, hscope]
  approved a ha happroved := by
    rcases List.mem_append.mp ha with ha | ha
    · obtain ⟨i, t, hid, ht, hroot⟩ := h.approved a ha happroved
      refine ⟨i, _, hid, he.token_stays ht, ?_⟩
      rw [(sameTerms_changedToken e i t).parentTokenId_eq]
      exact hroot
    · obtain ⟨pending, t, secret, approver, policyId, rfl, rfl⟩ :=
        approval_of_mem_entries ha happroved
      obtain ⟨-, -, -, -, hroot, -⟩ := he
      exact ⟨t.id, t, rfl, issued_stored rfl, hroot⟩
  once i := by
    show (L.log ++ e.entries).countP (isApprovalOf i) ≤ 1
    rw [List.countP_append]
    by_cases hnew : e.entries.countP (isApprovalOf i) = 0
    · rw [hnew]
      exact h.once i
    · obtain ⟨a, ha, happroval⟩ := List.countP_pos_iff.mp (Nat.pos_of_ne_zero hnew)
      obtain ⟨hid, hdecision⟩ := of_decide_eq_true happroval
      obtain ⟨pending, t, secret, approver, policyId, rfl, rfl⟩ :=
        approval_of_mem_entries ha hdecision
      cases hid
      rw [h.countP_approvals_eq_zero he.2.1.isNew]
      simp only [Event.entries, Nat.zero_add]
      exact List.countP_le_length

/-! ## Requests -/

/-- A linked request stays linked. -/
theorem RequestLinked.after {r : PendingRequest} (h : L.RequestLinked p r) (he : L.Enabled p e) :
    (L.after e).RequestLinked p r where
  approved_iff := h.approved_iff
  token j hj := by
    obtain ⟨t, ht, hsubject, hscope⟩ := h.token j hj
    have hsame := sameTerms_changedToken e j t
    exact ⟨_, he.token_stays ht, hsame.subject_eq.trans hsubject, hsame.scope_eq.trans hscope⟩
  secret s hs := by
    obtain ⟨hne, j, t, hj, ht, hverify⟩ := h.secret s hs
    refine ⟨hne, j, _, hj, he.token_stays ht, ?_⟩
    rw [(sameTerms_changedToken e j t).secretHash_eq]
    exact hverify

/-- A pending request that is linked holds neither token nor secret. -/
theorem RequestLinked.of_pending {r : PendingRequest} (h : L.RequestLinked p r)
    (hpending : r.status = .pending) : r.tokenId = none ∧ r.tokenSecret = none := by
  have hnone : r.tokenId = none := by
    cases hid : r.tokenId with
    | none => rfl
    | some j =>
      have hstatus := h.approved_iff.mp (by simp [hid])
      rw [hpending] at hstatus
      cases hstatus
  refine ⟨hnone, ?_⟩
  cases hs : r.tokenSecret with
  | none => rfl
  | some s =>
    obtain ⟨-, j, t, hj, -⟩ := h.secret s hs
    rw [hnone] at hj
    cases hj

/-- A request without token and secret that is not approved is linked. -/
theorem requestLinked_of_none {r : PendingRequest} (hstatus : r.status ≠ .approved)
    (htoken : r.tokenId = none) (hsecret : r.tokenSecret = none) : L.RequestLinked p r where
  approved_iff := by simp [htoken, hstatus]
  token j hj := by simp [htoken] at hj
  secret s hs := by simp [hsecret] at hs

/-- A linked request without its secret is linked. -/
theorem RequestLinked.dropSecret {r r' : PendingRequest} (h : L.RequestLinked p r)
    (hsubject : r'.subject = r.subject) (hscope : r'.scope = r.scope)
    (hstatus : r'.status = r.status) (htoken : r'.tokenId = r.tokenId)
    (hsecret : r'.tokenSecret = none) : L.RequestLinked p r' where
  approved_iff := by rw [htoken, hstatus]; exact h.approved_iff
  token j hj := by rw [hsubject, hscope]; exact h.token j (htoken ▸ hj)
  secret s hs := by simp [hsecret] at hs

/-- The request that an event writes is linked. -/
theorem RequestsLinked.written (h : L.RequestsLinked p) (he : L.Enabled p e) {r : PendingRequest}
    (hr : e.written = some r) : (L.after e).RequestLinked p r := by
  cases e with
  | submitted =>
    cases hr
    obtain ⟨-, hstatus, htoken, hsecret⟩ := he
    exact requestLinked_of_none (by simp [hstatus]) htoken hsecret
  | approved pending t secret approver policyId =>
    cases hr
    obtain ⟨-, -, hsubject, hscope, -, hne, hverify⟩ := he
    have ht : (L.after (.approved pending t secret approver policyId)).tokens t.id = some t :=
      issued_stored rfl
    refine ⟨by simp, ?_, ?_⟩
    · rintro j ⟨⟩
      exact ⟨t, ht, hsubject, hscope⟩
    · rintro s ⟨⟩
      exact ⟨hne, t.id, t, rfl, ht, hverify⟩
  | denied pending =>
    cases hr
    obtain ⟨htoken, hsecret⟩ := (h.linked _ _ he.1).of_pending he.2
    exact requestLinked_of_none (by simp) htoken hsecret
  | escalated pending =>
    cases hr
    obtain ⟨htoken, hsecret⟩ := (h.linked _ _ he.1).of_pending he.2
    exact requestLinked_of_none (by simp [he.2]) htoken hsecret
  | claimed r' =>
    cases hr
    exact ((h.linked _ _ he.1).after he).dropSecret rfl rfl rfl rfl rfl
  | _ => cases hr

theorem RequestsLinked.after (h : L.RequestsLinked p) (he : L.Enabled p e) :
    (L.after e).RequestsLinked p where
  key i r' hr' := by
    rcases after_requests hr' with ⟨-, hid⟩ | ⟨-, r, hr, rfl⟩
    · exact hid
    · rw [(agrees_changedRequest e r).id_eq]
      exact h.key i r hr
  linked i r' hr' := by
    rcases after_requests hr' with ⟨hwritten, -⟩ | ⟨-, r, hr, rfl⟩
    · exact h.written he hwritten
    · have hlinked := (h.linked i r hr).after he
      cases e with
      | restarted => exact hlinked.dropSecret rfl rfl rfl rfl rfl
      | _ => exact hlinked

/-- Every event keeps the links. -/
theorem Linked.after (h : L.Linked p) (he : L.Enabled p e) : (L.after e).Linked p :=
  ⟨h.tokens.after he, h.approvals.after he, h.requests.after he⟩

/-! ## The forest of tokens -/

/-- The number of distinct permissions of the token under `i`. -/
def breadth (L : Ledger) (i : String) : ℕ := (L.tokens i).elim 0 fun t => t.scope.toFinset.card

theorem breadth_eq {t : Token} (ht : L.tokens i = some t) : L.breadth i = t.scope.toFinset.card := by
  simp [breadth, ht]

/-- The permissions get fewer with every delegation. -/
theorem TokensLinked.breadth_lt (h : L.TokensLinked) (i q : String) (hparent : L.Parent i q) :
    L.breadth i < L.breadth q := by
  obtain ⟨t, ht, hq⟩ := hparent
  obtain ⟨parent, hp, hsub, s, hs, hnot⟩ := h.parent i t q ht hq
  rw [breadth_eq ht, breadth_eq hp]
  refine Finset.card_lt_card (Finset.ssubset_iff_of_subset ?_ |>.mpr ⟨s, ?_, ?_⟩)
  · intro a ha
    exact List.mem_toFinset.mpr (hsub (List.mem_toFinset.mp ha))
  · exact List.mem_toFinset.mpr hs
  · exact fun hmem => hnot (List.mem_toFinset.mp hmem)

theorem TokensLinked.breadth_pos (h : L.TokensLinked) {t : Token} (ht : L.tokens i = some t) :
    0 < L.breadth i := by
  rw [breadth_eq ht, Finset.card_pos, List.toFinset_nonempty_iff]
  exact h.scope_ne i t ht

/-- Every permission of a token is one of each of its ancestors. -/
theorem TokensLinked.scope_subset (h : L.TokensLinked) {t a : Token} {q : String}
    (hancestor : Forest.Ancestor L.Parent i q) (ht : L.tokens i = some t)
    (ha : L.tokens q = some a) : t.scope ⊆ a.scope := by
  intro s hs
  have hinherit := hancestor.inherit
    (P := fun j => ∀ t, L.tokens j = some t → s ∉ t.scope) (fun j p hparent hp t' ht' => ?_)
  · by_contra hnot
    refine hinherit (fun a' ha' => ?_) t ht hs
    cases ha.symm.trans ha'
    exact hnot
  · obtain ⟨t'', ht'', hq⟩ := hparent
    cases ht'.symm.trans ht''
    obtain ⟨parent, hparent, hsub, -⟩ := h.parent j t' p ht' hq
    exact fun hmem => hp parent hparent (hsub hmem)

/-- The walk up from a token comes to a root, where the breadths are bounded. -/
theorem TokensLinked.exists_root (h : L.TokensLinked) {bound : ℕ}
    (hbound : ∀ i, L.breadth i ≤ bound) {t : Token} (ht : L.tokens i = some t) :
    ∃ q root, L.tokens q = some root ∧ root.parentTokenId = none ∧
      (q = i ∨ Forest.Ancestor L.Parent i q) := by
  induction hn : bound - L.breadth i using Nat.strong_induction_on generalizing i t with
  | _ n ih =>
    cases hq : t.parentTokenId with
    | none => exact ⟨i, t, ht, hq, .inl rfl⟩
    | some q =>
      have hparent : L.Parent i q := ⟨t, ht, hq⟩
      obtain ⟨parent, hp, -⟩ := h.parent i t q ht hq
      have hlt := h.breadth_lt i q hparent
      have hle := hbound q
      obtain ⟨q', root, hroot, hnone, hq'⟩ := ih (bound - L.breadth q) (by omega) hp rfl
      refine ⟨q', root, hroot, hnone, .inr ?_⟩
      rcases hq' with rfl | hancestor
      · exact .single hparent
      · exact .head hparent hancestor

end Ledger

end Ambit
