import Ambit.ScopeNarrowing
import Ambit.SamplePlatform

/-! Lifetime never widens: it holds of every run in which no expiry leaves the range of dates. Past
it the expiry is an Invalid Date, which the cap by the parent and the expiry check both let
through. -/

namespace Ambit

open Forest

/-- The cap takes the earlier of two valid dates. -/
theorem capExpiry_le {expiresAt : Date} {parent : Token} (hvalid : expiresAt.Valid)
    (hparent : parent.expiresAt.Valid) :
    (capExpiry expiresAt (some parent)).getTime.le parent.expiresAt.getTime = true := by
  simp only [capExpiry]
  by_cases hcap : parent.expiresAt.getTime.lt expiresAt.getTime = true
  · rw [if_pos hcap]
    exact Date.le_self hparent
  · rw [if_neg hcap]
    cases he : expiresAt with
    | invalid => exact absurd he hvalid
    | ms s =>
      cases hp : parent.expiresAt with
      | invalid => exact absurd hp hparent
      | ms t =>
        refine Date.le_iff.mpr ⟨s, t, rfl, rfl, Int.not_lt.mp fun hts => hcap ?_⟩
        exact Date.lt_iff.mpr ⟨t, s, hp, he, hts⟩

/-! ## In the ledger -/

namespace Ledger

variable {p : Platform} {L : Ledger} {e : Event} {i q : String}

/-- Expiries are valid, and those of delegated tokens are not after their parents'. -/
structure Expiring (L : Ledger) : Prop where
  valid : ∀ i t, L.tokens i = some t → t.expiresAt.Valid
  capped : ∀ i t q, L.tokens i = some t → t.parentTokenId = some q →
    ∃ parent, L.tokens q = some parent ∧ t.expiresAt.getTime.le parent.expiresAt.getTime = true

/-- A valid expiry stays as it is. -/
theorem expiresAt_changedToken {t : Token} (h : t.expiresAt.Valid) (e : Event) (i : String) :
    (changedToken e i t).expiresAt = t.expiresAt := by
  by_cases hrestart : e = .restarted
  · subst hrestart
    exact Date.reload_of_valid h
  · exact (agrees_changedToken hrestart i t).expiresAt_eq

theorem Expiring.after (h : L.Expiring) (he : L.Enabled p e)
    (hvalid : ∀ t, e.issued = some t → t.expiresAt.Valid)
    (hcapped : ∀ parent t, e = .delegated parent t →
      t.expiresAt.getTime.le parent.expiresAt.getTime = true) : (L.after e).Expiring where
  valid i t' ht' := by
    rcases after_tokens ht' with ⟨hissued, -⟩ | ⟨t, ht, rfl⟩
    · exact hvalid t' hissued
    · rw [expiresAt_changedToken (h.valid i t ht)]
      exact h.valid i t ht
  capped i t' q ht' hq := by
    have hstays : ∀ parent, L.tokens q = some parent →
        ∃ parent', (L.after e).tokens q = some parent' ∧ parent'.expiresAt = parent.expiresAt :=
      fun parent hparent =>
        ⟨_, he.token_stays hparent, expiresAt_changedToken (h.valid q parent hparent) e q⟩
    rcases after_tokens ht' with ⟨hissued, -⟩ | ⟨t, ht, rfl⟩
    · cases e with
      | approved =>
        cases hissued
        obtain ⟨-, -, -, -, hroot, -⟩ := he
        rw [hroot] at hq
        cases hq
      | delegated parent t =>
        cases hissued
        obtain ⟨⟨current, hcurrent, hagrees⟩, -, -, hid, -⟩ := id he
        cases hid.symm.trans hq
        obtain ⟨parent', hparent', hexpires⟩ := hstays current hcurrent
        refine ⟨parent', hparent', ?_⟩
        rw [hexpires, hagrees.expiresAt_eq]
        exact hcapped parent t' rfl
      | _ => cases hissued
    · rw [(sameTerms_changedToken e i t).parentTokenId_eq] at hq
      obtain ⟨parent, hparent, hle⟩ := h.capped i t q ht hq
      obtain ⟨parent', hparent', hexpires⟩ := hstays parent hparent
      refine ⟨parent', hparent', ?_⟩
      rw [expiresAt_changedToken (h.valid i t ht), hexpires]
      exact hle

/-- A time before the expiry of a token is before that of each of its ancestors. -/
theorem Expiring.before_ancestor (h : L.Expiring) {now : Int} {t a : Token}
    (hancestor : Ancestor L.Parent i q) (ht : L.tokens i = some t) (ha : L.tokens q = some a)
    (hnow : (Date.ms now).getTime.lt t.expiresAt.getTime = true) :
    (Date.ms now).getTime.lt a.expiresAt.getTime = true := by
  by_contra hpast
  refine hancestor.inherit (P := fun j => ∀ t, L.tokens j = some t →
    ¬ (Date.ms now).getTime.lt t.expiresAt.getTime = true) (fun j r hparent hr t' ht' => ?_)
      (fun a' ha' => ?_) t ht hnow
  · obtain ⟨t'', ht'', hr'⟩ := hparent
    cases ht'.symm.trans ht''
    obtain ⟨parent, hp, hle⟩ := h.capped j t' r ht' hr'
    exact fun hbefore => hr parent hp (Date.lt_of_lt_of_le hbefore hle)
  · cases ha.symm.trans ha'
    exact hpast

end Ledger

/-! ## Along a run -/

variable {κ : Type} {env : Env} {acts : List (Action κ)} {c : Config κ}

/-- Every stored expiry is valid, and that of a delegated token is at most its parent's. -/
def World.LifetimeNarrows (w : World) : Prop :=
  (∀ i t, w.tokenStore.live.get i = some t → t.expiresAt.Valid) ∧
    ∀ i t p, w.tokenStore.live.get i = some t → t.parentTokenId = some p →
      ∃ parent, w.tokenStore.live.get p = some parent ∧
        t.expiresAt.getTime.le parent.expiresAt.getTime = true

/-- The action is the end of a gateway call that decides allowed at a time that is not before the
expiry of its token, or of one of the token's ancestors. -/
def Config.AllowsExpired (env : Env) (c : Config κ) (a : Action κ) : Prop :=
  ∃ i downstream x f q t w', a = .resume i downstream ∧ c.inflight[i]? = some x ∧
    x.frame.gateway = some f ∧ f.resume env c.world = .ok .allowed w' ∧
    (q = f.tokenId ∨ Ancestor c.world.ledger.Parent f.tokenId q) ∧
    c.world.tokenStore.live.get q = some t ∧
    (Date.ms f.now).getTime.lt t.expiresAt.getTime = false

/-- The lifetime asked for, counted from the issuance, ends at a valid date. -/
def IssueFrame.EndsAtDate (issue : IssueFrame) : Prop :=
  (requestedExpiry issue.issuedAt issue.request.ttlSeconds).Valid

instance (issue : IssueFrame) : Decidable issue.EndsAtDate := inferInstanceAs (Decidable (Date.Valid _))

/-- An issuance that goes on was asked for a lifetime that ends at a valid date, unless the store
does not admit its token anyway. -/
def Config.LifetimesEnd (env : Env) (c : Config κ) : Action κ → Prop
  | .resume i _ =>
    match c.inflight[i]?.bind (·.frame.issuance) with
    | some issue => c.world.Rejects env ∨ issue.EndsAtDate
    | none => True
  | _ => True

instance (c : Config κ) (a : Action κ) : Decidable (c.LifetimesEnd env a) :=
  match a with
  | .resume i _ =>
    show Decidable (match c.inflight[i]?.bind (·.frame.issuance) with
      | some issue => c.world.Rejects env ∨ issue.EndsAtDate
      | none => True) from
    match c.inflight[i]?.bind (·.frame.issuance) with
    | some _ => inferInstanceAs (Decidable (_ ∨ _))
    | none => .isTrue trivial
  | .call .. | .clock _ | .restart => .isTrue trivial

theorem Config.LifetimesEnd.endsAtDate {i : ℕ} {downstream : Downstream} {x : InFlight κ}
    {issue : IssueFrame} (h : c.LifetimesEnd env (.resume i downstream))
    (hx : c.inflight[i]? = some x) (hissue : x.frame.issuance = some issue)
    (hadmits : ¬ c.world.Rejects env) : issue.EndsAtDate := by
  simp only [Config.LifetimesEnd, hx, Option.bind_some, hissue] at h
  exact h.resolve_left hadmits

/-- What a run under the condition stores keeps the expiries in order. -/
theorem Config.Sound.expiring_exec (hc : c.Sound env) {a : Action κ} (ha : c.LifetimesEnd env a)
    {e : Event} (hadvances : c.Advances env a e (c.exec env a)) (h : c.world.ledger.Expiring) :
    (c.world.ledger.after e).Expiring := by
  have hdelegated : ∀ parent t, e = .delegated parent t →
      t.expiresAt.Valid ∧ t.expiresAt.getTime.le parent.expiresAt.getTime = true := by
    rintro parent t rfl
    obtain ⟨i, downstream, x, input, issue, rfl, hx, hframe, hadmits, -, htoken, hissue, -⟩ :=
      hadvances.explains.delegated
    have hends : issue.EndsAtDate := ha.endsAtDate hx (by rw [hframe]; rfl) hadmits
    obtain ⟨current, hcurrent, hagrees⟩ := hadvances.enabled.1
    have hparent : parent.expiresAt.Valid := hagrees.expiresAt_eq ▸ h.valid _ _ hcurrent
    have hexpires : t.expiresAt =
        capExpiry (requestedExpiry issue.issuedAt issue.request.ttlSeconds) (some parent) := by
      rw [← htoken, hissue.request_eq]
      exact hissue.expiresAt_eq
    have hle := capExpiry_le hends hparent
    rw [hexpires]
    obtain ⟨s, -, hs, -⟩ := Date.le_iff.mp hle
    exact ⟨hs ▸ Date.valid_ms s, hle⟩
  refine h.after hadvances.enabled (fun t hissued => ?_) fun parent t he => (hdelegated parent t he).2
  cases e with
  | approved pending token secret approver policyId =>
    cases hissued
    obtain ⟨i, downstream, x, f, rfl, hx, hframe, hadmits, -, -, htoken, -⟩ :=
      hadvances.explains.approved
    have hends : f.issue.EndsAtDate := ha.endsAtDate hx (by rw [hframe]; rfl) hadmits
    have hholds := (hc.frames x (List.mem_of_getElem? hx)).holds
    rw [hframe] at hholds
    rw [← htoken]
    show f.issue.expiresAt.Valid
    rw [hholds.issue.expiresAt_eq, ← hholds.issue.request_eq]
    exact hends
  | delegated parent t' =>
    cases hissued
    exact (hdelegated parent t rfl).1
  | _ => cases hissued

theorem expiring_run (hacts : (processMachine κ env).Meets (Config.LifetimesEnd env) acts) :
    ((processMachine κ env).run acts).world.ledger.Expiring := by
  refine ledger_induction hacts ?_ fun c a e hc ha hadvances h => hc.expiring_exec ha hadvances h
  constructor
  · intro i t ht
    cases ht
  · intro i t q ht
    cases ht

/-- **Lifetime never widens.** In a run whose issuances are asked for lifetimes that end at a valid
date, every stored expiry is valid and at most that of the parent, and the gateway allows nothing
at a time at or after the expiry of a token or of one of its ancestors. -/
theorem lifetimeNarrows_of_lifetimesEnd
    (hacts : (processMachine κ env).Meets (Config.LifetimesEnd env) acts) :
    ((processMachine κ env).run acts).world.LifetimeNarrows ∧
      (processMachine κ env).Meets (fun c a => ¬ c.AllowsExpired env a) acts := by
  constructor
  · have hexpiring := expiring_run hacts
    exact ⟨hexpiring.valid, hexpiring.capped⟩
  · rintro pre a post rfl ⟨i, downstream, x, f, q, a, w', rfl, hx, hf, hallowed, hq, ha, hpast⟩
    have hexpiring := expiring_run (hacts.of_append)
    obtain ⟨hallows, t, ht, hagrees⟩ :=
      gateway_allows (Config.sound_run pre) (List.mem_of_getElem? hx) hf hallowed
    obtain ⟨-, -, hnow⟩ := decide_eq_allowed.mp hallows.2
    rw [← hagrees.expiresAt_eq] at hnow
    have hbefore := Date.lt_of_not_le (hexpiring.valid _ _ ht) hnow
    have hlives : (Date.ms f.now).getTime.lt a.expiresAt.getTime = true := by
      rcases hq with rfl | hancestor
      · cases ha.symm.trans ht
        exact hbefore
      · exact hexpiring.before_ancestor hancestor ht ha hbefore
    rw [hpast] at hlives
    cases hlives

/-! ## A lifetime past the range of dates -/

/-- A token of a minute is delegated for half a minute, and used in time and too late. -/
def sampleExpired : List (Action Unit) :=
  [.call () (.requestToken ⟨"agent", ["a", "b"], .finite 60, none, none⟩ (some "alice") 0),
   .call () (.approveRequest ⟨"id-2", "alice", none, 0⟩),
   .resume 0 .responded,
   .call () (.delegateToken ⟨"id-6", "secret-4", "child", ["a"], .finite 30, 0⟩),
   .resume 0 .responded,
   .resume 0 .responded,
   .call () (.enforceToken "id-10" "secret-8" "a" 29999),
   .call () (.enforceToken "id-10" "secret-8" "a" 30000),
   .resume 0 .responded,
   .resume 0 .responded]

theorem lifetimeNarrows_of_lifetimesEnd_sample :
    ((processMachine Unit sampleEnv).run sampleExpired).world.LifetimeNarrows ∧
      (processMachine Unit sampleEnv).Meets (fun c a => ¬ c.AllowsExpired sampleEnv a)
        sampleExpired :=
  lifetimeNarrows_of_lifetimesEnd (Machine.meets_of_check (by decide +kernel))

/-- The same token is delegated for ten trillion seconds. -/
def sampleOutlived : List (Action Unit) :=
  [.call () (.requestToken ⟨"agent", ["a", "b"], .finite 60, none, none⟩ (some "alice") 0),
   .call () (.approveRequest ⟨"id-2", "alice", none, 0⟩),
   .resume 0 .responded,
   .call () (.delegateToken ⟨"id-6", "secret-4", "child", ["a"], .finite 10000000000000, 0⟩),
   .resume 0 .responded,
   .resume 0 .responded]

/-- The child is stored with an Invalid Date for its expiry. -/
theorem not_lifetimeNarrows :
    ¬ ((processMachine Unit sampleEnv).run sampleOutlived).world.LifetimeNarrows := by
  intro h
  have hchild : (((processMachine Unit sampleEnv).run
      sampleOutlived).world.tokenStore.live.get "id-10").map Token.expiresAt =
        some .invalid := by decide +kernel
  generalize ((processMachine Unit sampleEnv).run sampleOutlived).world = w at *
  obtain ⟨t, ht, hinvalid⟩ := Option.map_eq_some_iff.mp hchild
  exact h.1 "id-10" t ht hinvalid

end Ambit
