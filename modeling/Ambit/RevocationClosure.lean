import Ambit.Refinement
import Ambit.SamplePlatform

/-! Revocation closure: what hangs below a revoked token is revoked. It holds of every run in which
each child is stored below a parent that is still active, and fails where a revocation overtakes a
delegation between its awaits. -/

namespace Ambit

open Forest

/-! ## In the ledger -/

namespace Ledger

variable {p : Platform} {L : Ledger} {e : Event} {i q : String}

/-- A child of a revoked token is revoked. -/
def Closed (L : Ledger) : Prop := ∀ i q, L.Parent i q → L.Revoked q → L.Revoked i

theorem Closed.ancestor (h : L.Closed) (hancestor : Ancestor L.Parent i q) (hq : L.Revoked q) :
    L.Revoked i := hancestor.inherit h hq

/-- A revoked token stays revoked. -/
theorem Revoked.after (h : L.Revoked i) (he : L.Enabled p e) : (L.after e).Revoked i := by
  obtain ⟨t, ht, hrevoked⟩ := h
  exact ⟨_, he.token_stays ht, (sameTerms_changedToken e i t).stays_revoked hrevoked⟩

/-- Every token of a revocation is revoked by it. -/
theorem revoked_after {r : Revocation} {t : Token} (ht : L.tokens i = some t)
    (hi : i ∈ r.revoked.map Token.id) : (L.after (.revoked r)).Revoked i :=
  ⟨t.revoke r.now (r.reasonFor i), by simp [after, Event.issued, ht, changedToken, hi], rfl⟩

/-- What becomes revoked was revoked before, or is one of the tokens of a revocation. -/
theorem revoked_after_cases (he : L.Enabled p e) (h : (L.after e).Revoked q) :
    L.Revoked q ∨ ∃ r, e = .revoked r ∧ q ∈ r.revoked.map Token.id := by
  obtain ⟨t', ht', hrevoked⟩ := h
  rcases after_tokens ht' with ⟨hissued, -⟩ | ⟨t, ht, rfl⟩
  · rw [(he.fresh hissued).active] at hrevoked
    cases hrevoked
  · cases e with
    | revoked r =>
      by_cases hq : q ∈ r.revoked.map Token.id
      · exact .inr ⟨r, rfl, hq⟩
      · rw [changedToken, if_neg hq] at hrevoked
        exact .inl ⟨t, ht, hrevoked⟩
    | _ => exact .inl ⟨t, ht, hrevoked⟩

/-- A revocation takes an active child of each of its tokens with it. -/
theorem Revokes.child {r : Revocation} (h : L.Revokes r) (hparent : L.Parent i q)
    (hactive : L.Active i) (hq : q ∈ r.revoked.map Token.id) : i ∈ r.revoked.map Token.id := by
  rw [h.reached] at hq ⊢
  by_cases hi : i = r.tokenId
  · exact .inl hi
  · right
    rcases hq with rfl | hreached
    · exact .child hparent ⟨hactive, hi⟩
    · exact hreached.tail ⟨hparent, hactive, hi⟩

/-- Closure is kept by every event that stores no child below a revoked parent. -/
theorem Closed.after (h : L.Closed) (he : L.Enabled p e)
    (hchild : ∀ parent t, e = .delegated parent t → L.Active parent.id) : (L.after e).Closed := by
  intro i q hparent hq
  obtain ⟨t', ht', hq'⟩ := hparent
  rcases after_tokens ht' with ⟨hissued, rfl⟩ | ⟨t, ht, rfl⟩
  · cases e with
    | approved =>
      cases hissued
      obtain ⟨-, -, -, -, hroot, -⟩ := he
      rw [hroot] at hq'
      cases hq'
    | delegated parent t =>
      cases hissued
      have hid := he.2.2.2.1
      cases hid.symm.trans hq'
      obtain ⟨tp, htp, hactive⟩ := hchild parent t' rfl
      rcases revoked_after_cases he hq with ⟨tp', htp', hrevoked⟩ | ⟨r, hr, -⟩
      · cases htp.symm.trans htp'
        rw [hactive] at hrevoked
        cases hrevoked
      · cases hr
    | _ => cases hissued
  · have hparent : L.Parent i q :=
      ⟨t, ht, (sameTerms_changedToken e i t).parentTokenId_eq.symm.trans hq'⟩
    rcases revoked_after_cases he hq with hold | ⟨r, rfl, hr⟩
    · exact (h i q hparent hold).after he
    · cases hstatus : t.status with
      | active => exact revoked_after ht (Revokes.child he hparent ⟨t, ht, hstatus⟩ hr)
      | revoked => exact Revoked.after ⟨t, ht, hstatus⟩ he

end Ledger

/-! ## Along a run -/

/-- Every token with a revoked ancestor is revoked. -/
def World.RevocationClosed (w : World) : Prop :=
  ∀ i t q a, w.tokenStore.live.get i = some t → Ancestor w.ledger.Parent i q →
    w.tokenStore.live.get q = some a → a.status = .revoked → t.status = .revoked

variable {κ : Type} {env : Env} {acts : List (Action κ)}

/-- A delegation that is about to store its child finds the stored parent still active, unless the
store does not admit the child anyway. -/
def Config.ParentStillActive (env : Env) (c : Config κ) : Action κ → Prop
  | .resume i _ =>
    match c.inflight[i]?.map InFlight.frame with
    | some (.delegate (.issuing input _)) => c.world.Rejects env ∨
        (c.world.tokenStore.live.get input.parentTokenId).map Token.status = some .active
    | _ => True
  | _ => True

instance (c : Config κ) (a : Action κ) : Decidable (c.ParentStillActive env a) :=
  match a with
  | .resume i _ =>
    show Decidable (match c.inflight[i]?.map InFlight.frame with
      | some (.delegate (.issuing input _)) => c.world.Rejects env ∨
          (c.world.tokenStore.live.get input.parentTokenId).map Token.status = some .active
      | _ => True) from
    match c.inflight[i]?.map InFlight.frame with
    | some (.delegate (.issuing ..)) => inferInstanceAs (Decidable (_ ∨ _))
    | some (.delegate (.verifying ..)) | some (.approve _) | some (.enforce _) | some (.access _)
    | some (.customer _) | some (.register _) | some (.authenticate _) | none => .isTrue trivial
  | .call .. | .clock _ | .restart => .isTrue trivial

/-- The parent of a child that is stored under the condition is active. -/
theorem Config.Explains.parent_active {c : Config κ} {a : Action κ}
    {output : Option (Settled κ)} {parent token : Token}
    (h : c.Explains env output (.delegated parent token) a) (ha : c.ParentStillActive env a) :
    c.world.ledger.Active parent.id := by
  obtain ⟨i, downstream, x, input, issue, rfl, hx, hframe, hadmits, hpasses, -⟩ := h.delegated
  simp only [Config.ParentStillActive, hx, Option.map_some, hframe] at ha
  obtain ⟨t, ht, hactive⟩ := Option.map_eq_some_iff.mp (ha.resolve_left hadmits)
  exact ⟨t, hpasses.id_eq ▸ ht, hactive⟩

theorem closed_run (hacts : (processMachine κ env).Meets (Config.ParentStillActive env) acts) :
    ((processMachine κ env).run acts).world.ledger.Closed := by
  refine ledger_induction hacts ?_ fun c a e _ ha hadvances h => ?_
  · rintro i q ⟨t, ht, -⟩
    cases ht
  · refine h.after hadvances.enabled fun parent t he => ?_
    subst he
    exact hadvances.explains.parent_active ha

/-- **Revocation closure.** In every reachable state of a run whose delegations store their child
below a parent that is still active, every token with a revoked ancestor is revoked. -/
theorem revocationClosed_of_parentStillActive
    (hacts : (processMachine κ env).Meets (Config.ParentStillActive env) acts) :
    ((processMachine κ env).run acts).world.RevocationClosed := by
  intro i t q a ht hancestor ha hrevoked
  obtain ⟨t', ht', hrevoked'⟩ := (closed_run hacts).ancestor hancestor ⟨a, ha, hrevoked⟩
  cases ht.symm.trans ht'
  exact hrevoked'

/-! ## A revocation that overtakes a delegation -/

/-- A token is delegated, and then revoked. -/
def sampleRevokedAfter : List (Action Unit) :=
  [.call () (.requestToken ⟨"agent", ["a", "b"], .finite 60, none, none⟩ (some "alice") 0),
   .call () (.approveRequest ⟨"id-2", "alice", none, 0⟩),
   .resume 0 .responded,
   .call () (.delegateToken ⟨"id-6", "secret-4", "child", ["a"], .finite 30, 0⟩),
   .resume 0 .responded,
   .resume 0 .responded,
   .call () (.revokeToken "id-6" .compromised 0 (some "alice"))]

theorem revocationClosed_of_parentStillActive_sample :
    ((processMachine Unit sampleEnv).run sampleRevokedAfter).world.RevocationClosed :=
  revocationClosed_of_parentStillActive (Machine.meets_of_check (by decide +kernel))

/-- The token is revoked while the delegation waits for the hash of the child's secret. -/
def sampleRevokedBetween : List (Action Unit) :=
  [.call () (.requestToken ⟨"agent", ["a", "b"], .finite 60, none, none⟩ (some "alice") 0),
   .call () (.approveRequest ⟨"id-2", "alice", none, 0⟩),
   .resume 0 .responded,
   .call () (.delegateToken ⟨"id-6", "secret-4", "child", ["a"], .finite 30, 0⟩),
   .resume 0 .responded,
   .call () (.revokeToken "id-6" .compromised 0 (some "alice")),
   .resume 0 .responded]

/-- The child is stored active below the revoked parent. -/
theorem not_revocationClosed :
    ¬ ((processMachine Unit sampleEnv).run sampleRevokedBetween).world.RevocationClosed := by
  intro hclosed
  have hchild : (((processMachine Unit sampleEnv).run
      sampleRevokedBetween).world.tokenStore.live.get "id-11").map
        (fun t => (t.parentTokenId, t.status)) = some (some "id-6", .active) := by decide +kernel
  have hparent : (((processMachine Unit sampleEnv).run
      sampleRevokedBetween).world.tokenStore.live.get "id-6").map Token.status =
        some .revoked := by decide +kernel
  generalize ((processMachine Unit sampleEnv).run sampleRevokedBetween).world = w at *
  obtain ⟨t, ht, hstatus⟩ := Option.map_eq_some_iff.mp hchild
  obtain ⟨a, ha, hrevoked⟩ := Option.map_eq_some_iff.mp hparent
  obtain ⟨hparent, hactive⟩ := Prod.mk.inj hstatus
  have hclosed := hclosed "id-11" t "id-6" a ht (.single ⟨t, ht, hparent⟩) ha hrevoked
  rw [hactive] at hclosed
  cases hclosed

end Ambit
