import Ambit.LedgerLinks

/-! Secrets of the ledger: which request holds the secret of which token, and the entries that log
their claims. A token's secret is held by one request until it is claimed, and the claim is logged
once. -/

namespace Ambit

/-- The entry of a claim of the secret of the token `i`. -/
def isClaimOf (i : String) (e : AuditEntryInput) : Bool :=
  e.tokenId = some i ∧ e.decision = .tokenSecretClaimed

namespace Ledger

variable {p : Platform} {L : Ledger} {e : Event} {i j s : String}

/-- The request `i` names the token `j` and holds its secret `s`. -/
def Holds (L : Ledger) (i j s : String) : Prop :=
  ∃ r, L.requests i = some r ∧ r.tokenId = some j ∧ r.tokenSecret = some s

/-- A request comes to hold a secret with the approval that stores it, and ceases to with the
claim. -/
theorem holds_after (h : L.RequestsLinked p) (he : L.Enabled p e) (hholds : (L.after e).Holds i j s) :
    (∃ pending t approver policyId, e = .approved pending t s approver policyId ∧ pending.id = i ∧
      t.id = j) ∨ L.Holds i j s ∧ ∀ r tokenId secret, e = .claimed r tokenId secret → r.id ≠ i := by
  obtain ⟨r', hr', hj, hs⟩ := hholds
  rcases after_requests hr' with ⟨hwritten, hid⟩ | ⟨hnone, r, hr, rfl⟩
  · cases e with
    | submitted r =>
      cases hwritten
      rw [he.2.2.2] at hs
      cases hs
    | approved pending t secret approver policyId =>
      cases hwritten
      cases hs
      exact .inl ⟨pending, t, approver, policyId, rfl, hid, Option.some.inj hj⟩
    | denied pending =>
      cases hwritten
      have hsecret : pending.tokenSecret = none := ((h.linked _ _ he.1).of_pending he.2).2
      cases hsecret.symm.trans hs
    | escalated pending =>
      cases hwritten
      have hsecret : pending.tokenSecret = none := ((h.linked _ _ he.1).of_pending he.2).2
      cases hsecret.symm.trans hs
    | claimed r =>
      cases hwritten
      cases hs
    | _ => cases hwritten
  · have hsame : e ≠ .restarted := by
      rintro rfl
      cases hs
    have hr' : changedRequest e r = r := by
      cases e with
      | restarted => exact absurd rfl hsame
      | _ => rfl
    rw [hr'] at hj hs
    refine .inr ⟨⟨r, hr, hj, hs⟩, ?_⟩
    rintro r₀ tokenId secret rfl hid
    rw [Event.written, Option.filter_some, hid, if_pos (decide_eq_true rfl)] at hnone
    cases hnone

/-- A request comes to name a token with an approval. -/
theorem named_after (he : L.Enabled p e) {r' : PendingRequest}
    (hr' : (L.after e).requests i = some r') (hj : r'.tokenId = some j) :
    (∃ pending t secret approver policyId, e = .approved pending t secret approver policyId ∧
      pending.id = i ∧ t.id = j) ∨ ∃ r, L.requests i = some r ∧ r.tokenId = some j := by
  rcases after_requests hr' with ⟨hwritten, hid⟩ | ⟨-, r, hr, rfl⟩
  · cases e with
    | submitted r =>
      cases hwritten
      rw [he.2.2.1] at hj
      cases hj
    | approved pending t secret approver policyId =>
      cases hwritten
      exact .inl ⟨pending, t, secret, approver, policyId, rfl, hid, Option.some.inj hj⟩
    | denied pending | escalated pending | claimed pending =>
      cases hwritten
      exact .inr ⟨pending, hid ▸ he.1, hj⟩
    | _ => cases hwritten
  · refine .inr ⟨r, hr, ?_⟩
    cases e <;> exact hj

/-- The claim entries are those of claims. -/
theorem claim_of_mem_entries {a : AuditEntryInput} (ha : a ∈ e.entries)
    (hclaim : isClaimOf j a = true) : ∃ r secret, e = .claimed r j secret := by
  obtain ⟨hid, hdecision⟩ := of_decide_eq_true hclaim
  cases e with
  | claimed r tokenId secret =>
    rw [List.mem_singleton.mp ha] at hid
    cases hid
    exact ⟨r, secret, rfl⟩
  | revoked r =>
    obtain ⟨t, -, rfl⟩ := List.mem_map.mp ha
    cases hdecision
  | submitted | approved | escalated | delegated | used =>
    rw [List.mem_singleton.mp ha] at hdecision
    cases hdecision
  | _ => cases ha

theorem countP_claims_eq_zero (h : ∀ r secret, e ≠ .claimed r j secret) :
    e.entries.countP (isClaimOf j) = 0 := by
  refine List.countP_eq_zero.mpr fun a ha hclaim => ?_
  obtain ⟨r, secret, he⟩ := claim_of_mem_entries ha hclaim
  exact h r secret he

theorem countP_claims_after (L : Ledger) (e : Event) (j : String) :
    (L.after e).log.countP (isClaimOf j) =
      L.log.countP (isClaimOf j) + e.entries.countP (isClaimOf j) :=
  List.countP_append

/-- No two requests name one token, and a token's secret is claimed at most once, after which no
request holds it. -/
structure ClaimsOnce (L : Ledger) : Prop where
  unique : ∀ i i' j r r', L.requests i = some r → L.requests i' = some r' →
    r.tokenId = some j → r'.tokenId = some j → i = i'
  stored : ∀ j, L.log.countP (isClaimOf j) ≠ 0 → ∃ t, L.tokens j = some t
  once : ∀ j, L.log.countP (isClaimOf j) ≤ 1
  unclaimed : ∀ i j s, L.Holds i j s → L.log.countP (isClaimOf j) = 0

theorem claimsOnce_empty : empty.ClaimsOnce where
  unique i i' j r r' hr := by cases hr
  stored j hne := absurd rfl hne
  once j := Nat.zero_le 1
  unclaimed i j s hholds := by
    obtain ⟨r, hr, -⟩ := hholds
    cases hr

theorem ClaimsOnce.after (h : L.ClaimsOnce) (hlinked : L.Linked p) (he : L.Enabled p e) :
    (L.after e).ClaimsOnce where
  unique i i' j r r' hr hr' hj hj' := by
    have hfresh : ∀ pending t secret approver policyId i r,
        e = .approved pending t secret approver policyId → L.requests i = some r →
        r.tokenId ≠ some t.id := by
      rintro pending t secret approver policyId i r rfl hr hid
      obtain ⟨t', ht', -⟩ := (hlinked.requests.linked i r hr).token t.id hid
      obtain ⟨-, hfresh, -⟩ := he
      rw [hfresh.isNew] at ht'
      cases ht'
    rcases named_after he hr hj with ⟨pending, t, secret, approver, policyId, hevent, rfl, rfl⟩ |
      ⟨q, hq, hqj⟩
    · rcases named_after he hr' hj' with ⟨pending', t', _, _, _, hevent', rfl, -⟩ | ⟨q, hq, hqj⟩
      · cases hevent.symm.trans hevent'
        rfl
      · exact absurd hqj (hfresh _ _ _ _ _ _ _ hevent hq)
    · rcases named_after he hr' hj' with ⟨pending', t', _, _, _, hevent', rfl, rfl⟩ | ⟨q', hq', hqj'⟩
      · exact absurd hqj (hfresh _ _ _ _ _ _ _ hevent' hq)
      · exact h.unique i i' j q q' hq hq' hqj hqj'
  stored j hne := by
    rw [countP_claims_after] at hne
    have hold : ∃ t, L.tokens j = some t := by
      by_cases hclaimed : ∃ r secret, e = .claimed r j secret
      · obtain ⟨r, secret, rfl⟩ := hclaimed
        obtain ⟨hr, -, hid, -⟩ := he
        obtain ⟨t, ht, -⟩ := (hlinked.requests.linked _ r hr).token j hid
        exact ⟨t, ht⟩
      · rw [countP_claims_eq_zero fun r secret he => hclaimed ⟨r, secret, he⟩] at hne
        exact h.stored j hne
    obtain ⟨t, ht⟩ := hold
    exact ⟨_, he.token_stays ht⟩
  once j := by
    rw [countP_claims_after]
    by_cases hclaimed : ∃ r secret, e = .claimed r j secret
    · obtain ⟨r, secret, rfl⟩ := hclaimed
      obtain ⟨hr, -, hid, hsecret⟩ := he
      rw [h.unclaimed r.id j secret ⟨r, hr, hid, hsecret⟩, Nat.zero_add]
      exact List.countP_le_length
    · rw [countP_claims_eq_zero fun r secret he => hclaimed ⟨r, secret, he⟩]
      exact h.once j
  unclaimed i j s hholds := by
    rw [countP_claims_after]
    rcases holds_after hlinked.requests he hholds with
      ⟨pending, t, approver, policyId, rfl, -, rfl⟩ | ⟨hold, hkept⟩
    · have hzero : L.log.countP (isClaimOf t.id) = 0 := by
        by_contra hne
        obtain ⟨t', ht'⟩ := h.stored t.id hne
        obtain ⟨-, hfresh, -⟩ := he
        rw [hfresh.isNew] at ht'
        cases ht'
      rw [hzero, countP_claims_eq_zero fun r secret he => by cases he]
    · rw [h.unclaimed i j s hold, Nat.zero_add]
      refine countP_claims_eq_zero ?_
      rintro r secret rfl
      obtain ⟨q, hq, hqj, -⟩ := hold
      obtain ⟨hr, -, hid, -⟩ := he
      exact hkept r j secret rfl (h.unique r.id i j r q hr hq hid hqj)

end Ledger

end Ambit
