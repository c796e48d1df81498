import Ambit.TokenSpec
import Mathlib.Data.Finset.Card

/-! The cascade of a revocation: it revokes exactly the tokens that are reached by child links to
active tokens, each once, and it has enough levels of recursion for any forest. -/

namespace Ambit

open Effect Forest

/-! ## Revoking tokens one after another -/

namespace Ledger

variable {L : Ledger} {now : Int} {reasonCode : RevocationReason} {actor : Option String}
  {i p q : String} {rs rs' : List Token}

theorem Parent.unique (h : L.Parent i p) (h' : L.Parent i q) : p = q := by
  obtain ⟨t, ht, hp⟩ := h
  obtain ⟨t', ht', hq⟩ := h'
  cases ht.symm.trans ht'
  exact Option.some.inj (hp.symm.trans hq)

/-- The ledger after the tokens of a list were revoked for one reason. -/
def revokeAll (L : Ledger) (now : Int) (reasonCode : RevocationReason) (actor : Option String)
    (rs : List Token) : Ledger where
  tokens i := (L.tokens i).map fun t =>
    if i ∈ rs.map Token.id then t.revoke now reasonCode else t
  requests := L.requests
  log := L.log ++ rs.map fun t => revocationEntry t.id t.subject reasonCode actor

theorem revokeAll_nil : L.revokeAll now reasonCode actor [] = L := by
  simp [revokeAll]

theorem revokeAll_append : (L.revokeAll now reasonCode actor rs).revokeAll now reasonCode actor rs' =
    L.revokeAll now reasonCode actor (rs ++ rs') := by
  simp only [revokeAll, Option.map_map, List.append_assoc, List.map_append, mk.injEq, and_true]
  funext i
  congr 1
  funext t
  simp only [Function.comp_apply, List.mem_append]
  by_cases h : i ∈ rs.map Token.id <;> by_cases h' : i ∈ rs'.map Token.id <;>
    simp [h, h', Token.revoke]

theorem parent_revokeAll : (L.revokeAll now reasonCode actor rs).Parent = L.Parent := by
  funext i p
  simp only [Parent, revokeAll, Option.map_eq_some_iff, eq_iff_iff]
  constructor
  · rintro ⟨_, ⟨t, ht, rfl⟩, hp⟩
    refine ⟨t, ht, ?_⟩
    split at hp <;> exact hp
  · rintro ⟨t, ht, hp⟩
    refine ⟨_, ⟨t, ht, rfl⟩, ?_⟩
    split <;> exact hp

theorem active_revokeAll :
    (L.revokeAll now reasonCode actor rs).Active i ↔ L.Active i ∧ i ∉ rs.map Token.id := by
  simp only [Active, revokeAll, Option.map_eq_some_iff]
  constructor
  · rintro ⟨_, ⟨t, ht, rfl⟩, hactive⟩
    split at hactive
    · cases hactive
    · exact ⟨⟨t, ht, hactive⟩, ‹_›⟩
  · rintro ⟨⟨t, ht, hactive⟩, hi⟩
    exact ⟨t, ⟨t, ht, if_neg hi⟩, hactive⟩

/-- The tokens that a cascade from `p` revokes: those that are reached, each once. -/
structure CascadeOf (L : Ledger) (p : String) (rs : List Token) : Prop where
  stored : ∀ t ∈ rs, L.tokens t.id = some t
  nodup : (rs.map Token.id).Nodup
  reached : ∀ i, i ∈ rs.map Token.id ↔ Reached L.Parent L.Active p i

end Ledger

namespace World

variable {env : Env} {w w' : World} {now : Int} {reasonCode : RevocationReason}
  {actor : Option String}

/-- The process after it revoked the tokens of a list. -/
structure RevokedAll (env : Env) (now : Int) (reasonCode : RevocationReason)
    (actor : Option String) (w : World) (rs : List Token) (w' : World) : Prop where
  sound : w'.Sound env
  flowing : w'.Flowing
  ledger_eq : w'.ledger = w.ledger.revokeAll now reasonCode actor rs
  supply_le : w.supply ≤ w'.supply

theorem RevokedAll.nil (h : w.Sound env) (hflow : w.Flowing) :
    w.RevokedAll env now reasonCode actor [] w :=
  ⟨h, hflow, Ledger.revokeAll_nil.symm, le_rfl⟩

theorem RevokedAll.append {w'' : World} {rs rs' : List Token}
    (h : w.RevokedAll env now reasonCode actor rs w')
    (h' : w'.RevokedAll env now reasonCode actor rs' w'') :
    w.RevokedAll env now reasonCode actor (rs ++ rs') w'' := by
  refine ⟨h'.sound, h'.flowing, ?_, h.supply_le.trans h'.supply_le⟩
  rw [h'.ledger_eq, h.ledger_eq, Ledger.revokeAll_append]

/-- One revoked token saved and its entry logged. -/
def revokeOne (env : Env) (now : Int) (reasonCode : RevocationReason) (actor : Option String)
    (w : World) (t : Token) : World :=
  (w.putToken (t.revoke now reasonCode)).logged env
    (revocationEntry t.id t.subject reasonCode actor) now

theorem RevokedAll.one {t : Token} (h : w.Sound env) (hflow : w.Flowing)
    (ht : w.ledger.tokens t.id = some t) :
    w.RevokedAll env now reasonCode actor [t] (w.revokeOne env now reasonCode actor t) := by
  have hput : (w.putToken (t.revoke now reasonCode)).Sound env := h.putToken (h.tokenDrawn _ _ ht)
  refine ⟨hput.logged rfl now, ⟨hflow.closed, hflow.noFailures, hflow.noOutage⟩, ?_,
    Nat.le_succ _⟩
  rw [revokeOne, ledger_logged_noteworthy hput rfl rfl, ledger_putToken]
  simp only [Ledger.note, Ledger.setToken, Ledger.revokeAll, List.map_cons, List.map_nil,
    List.mem_singleton, Ledger.mk.injEq, and_true]
  funext i
  by_cases hi : i = t.id
  · subst hi
    simp [ht, Token.revoke]
  · simp [hi, Token.revoke]

/-- Saving a revoked token and logging it, with nothing in the way. -/
theorem wp_revokeOne {α : Type} {t : Token} {Q : Except Err α → World → Prop} (h : w.Sound env)
    (hflow : w.Flowing) (ht : w.ledger.tokens t.id = some t)
    {k : Op α} (hk : wp k Q (w.revokeOne env now reasonCode actor t)) :
    wp (do
      TokenStore.save env (t.revoke now reasonCode)
      auditRecord env (revocationEntry t.id t.subject reasonCode actor) now
      k) Q w := by
  have hdrawn := h.tokenDrawn _ _ ht
  refine wp_bind (TokenStore.wp_save h (fun hrej => absurd hrej hflow.not_rejects) ?_)
  intro _
  rw [hflow.accessed_eq]
  exact wp_bind (wp_auditRecord (h.putToken hdrawn) rfl hk)

/-! ## The cascade -/

theorem mem_childrenOf (h : w.Sound env) {p : String} {c : Token} :
    c ∈ childrenOf w p ↔ w.ledger.tokens c.id = some c ∧ c.parentTokenId = some p := by
  simp only [childrenOf, List.mem_filter, OrderedMap.mem_values_iff, decide_eq_true_eq]
  constructor
  · rintro ⟨⟨i, hi⟩, hp⟩
    have hid := h.tokens.keyed i c hi
    exact ⟨by rw [hid]; exact hi, hp⟩
  · rintro ⟨hc, hp⟩
    exact ⟨⟨c.id, hc⟩, hp⟩

theorem nodup_childrenOf (h : w.Sound env) (p : String) :
    ((childrenOf w p).map Token.id).Nodup := by
  have hkeys : (w.tokenStore.live.values.map Token.id).Nodup := by
    rw [OrderedMap.map_key_values h.tokens.keyed]
    exact w.tokenStore.live.keysNodup
  exact hkeys.sublist (List.filter_sublist.map _)

/-- The state of the loop over the children of `p`: what was revoked was swept from the children
already visited. -/
structure Sweeping (env : Env) (now : Int) (actor : Option String) (w : World)
    (visited rs : List Token) (w' : World) : Prop where
  revoked : w.RevokedAll env now .parentRevoked actor rs w'
  stored : ∀ t ∈ rs, w.ledger.tokens t.id = some t
  swept : Swept w.ledger.Parent w.ledger.Active (visited.map Token.id) (rs.map Token.id)

variable {p : String} {visited rs : List Token} {c : Token}

/-- A record that was not revoked is still the one that was read. -/
theorem Sweeping.token_eq (h : Sweeping env now actor w visited rs w') {i : String}
    (hi : i ∉ rs.map Token.id) : w'.ledger.tokens i = w.ledger.tokens i := by
  rw [h.revoked.ledger_eq]
  simp only [Ledger.revokeAll, if_neg hi]
  exact Option.map_id'

/-- Revoking a child and all that its own cascade reaches carries the loop on. -/
theorem Sweeping.visit {w₁ w₂ : World} {below : List Token}
    (h : Sweeping env now actor w visited rs w') (hc : w.ledger.tokens c.id = some c)
    (hactive : c.status = .active) (hnot : c.id ∉ rs.map Token.id)
    (hone : w'.RevokedAll env now .parentRevoked actor [c] w₁)
    (hbelow : w₁.RevokedAll env now .parentRevoked actor below w₂)
    (hcascade : w₁.ledger.CascadeOf c.id below) :
    Sweeping env now actor w (visited ++ [c]) (rs ++ [c] ++ below) w₂ := by
  have hrevoked := h.revoked.append hone
  have hparent : w₁.ledger.Parent = w.ledger.Parent := by
    rw [hrevoked.ledger_eq, Ledger.parent_revokeAll]
  have halive : w₁.ledger.Active =
      fun i => w.ledger.Active i ∧ i ∉ rs.map Token.id ++ [c.id] := by
    funext i
    rw [hrevoked.ledger_eq, eq_iff_iff, Ledger.active_revokeAll]
    simp
  refine ⟨hrevoked.append hbelow, fun t ht => ?_, ?_⟩
  · rcases List.mem_append.mp ht with ht | ht
    · rcases List.mem_append.mp ht with ht | ht
      · exact h.stored t ht
      · rw [List.mem_singleton.mp ht]
        exact hc
    · have hreached := (hcascade.reached t.id).mp (List.mem_map_of_mem ht)
      have hfresh := hreached.target_alive
      rw [halive] at hfresh
      have hstored := hcascade.stored t ht
      rw [hrevoked.ledger_eq] at hstored
      simpa only [Ledger.revokeAll, List.map_append, List.map_cons, List.map_nil, if_neg hfresh.2,
        Option.map_id'] using hstored
  · have hswept := h.swept.visit ⟨c, hc, hactive⟩ hnot (fun i => ?_) hcascade.nodup
    · simpa only [List.map_append, List.map_cons, List.map_nil] using hswept
    · rw [hcascade.reached i, hparent, halive]

/-- **The cascade revokes exactly what is reached.** Any bound on the number of active tokens is
enough fuel: every level of the recursion revokes one of them first. -/
theorem cascadeRevokeAux_spec (fuel : ℕ) : ∀ {w : World} {p : String} {S : Finset String},
    w.Sound env → w.Flowing → ¬ w.ledger.Active p → (∀ i, w.ledger.Active i → i ∈ S) →
    S.card < fuel →
    wp (cascadeRevokeAux env now actor fuel p) (fun r w' => r = .ok () ∧
      ∃ rs, w.RevokedAll env now .parentRevoked actor rs w' ∧ w.ledger.CascadeOf p rs) w := by
  induction fuel with
  | zero => exact fun _ _ _ _ hlt => absurd hlt (Nat.not_lt_zero _)
  | succ fuel ih =>
    intro w p S h hflow hp hS hlt
    refine wp_bind (wp_get ?_)
    refine wp_forM (I := fun visited w' => ∃ rs, Sweeping env now actor w visited rs w') ?_ ?_ ?_
    · exact ⟨[], .nil h hflow, by simp, Swept.nil⟩
    · rintro visited c todo w' hchildren ⟨rs, hsweep⟩
      have hmem : c ∈ childrenOf w p := by simp [hchildren]
      obtain ⟨hc, hcp⟩ := (mem_childrenOf h).mp hmem
      refine wp_ite (fun hactive => ?_) fun hactive => ?_
      · have hnot : c.id ∉ rs.map Token.id := by
          have hnodup := nodup_childrenOf h p
          rw [hchildren, List.map_append, List.map_cons, List.nodup_middle,
            List.nodup_cons] at hnodup
          have hunique : ∀ i p q, w.ledger.Parent i p → w.ledger.Parent i q → p = q :=
            fun _ _ _ => Ledger.Parent.unique
          refine hsweep.swept.not_taken hunique hp ⟨c, hc, hcp⟩ ?_
          exact fun hv => hnodup.1 (List.mem_append_left _ hv)
        have hc' : w'.ledger.tokens c.id = some c := by rw [hsweep.token_eq hnot, hc]
        have hone : w'.RevokedAll env now .parentRevoked actor [c]
            (w'.revokeOne env now .parentRevoked actor c) :=
          .one hsweep.revoked.sound hsweep.revoked.flowing hc'
        have hactive' : ∀ i, (w'.revokeOne env now .parentRevoked actor c).ledger.Active i →
            w.ledger.Active i ∧ i ≠ c.id := by
          intro i hi
          rw [(hsweep.revoked.append hone).ledger_eq, Ledger.active_revokeAll] at hi
          refine ⟨hi.1, fun hic => hi.2 ?_⟩
          simp [hic]
        refine wp_revokeOne hsweep.revoked.sound hsweep.revoked.flowing hc' ?_
        have hcS : c.id ∈ S := hS _ ⟨c, hc, hactive⟩
        have hrec := ih (S := S.erase c.id) hone.sound hone.flowing
          (fun hi => (hactive' _ hi).2 rfl)
          (fun i hi => Finset.mem_erase.mpr ⟨(hactive' i hi).2, hS i (hactive' i hi).1⟩)
          (by rw [Finset.card_erase_of_mem hcS]; have := Finset.card_pos.mpr ⟨_, hcS⟩; omega)
        refine wp_mono hrec ?_
        rintro _ w₂ ⟨rfl, below, hbelow, hcascade⟩
        exact ⟨rfl, _, hsweep.visit hc hactive hnot hone hbelow hcascade⟩
      · refine wp_pure ⟨rfl, rs, hsweep.revoked, hsweep.stored, ?_⟩
        have hdead : ¬ w.ledger.Active c.id := by
          rintro ⟨t, ht, hactive'⟩
          cases hc.symm.trans ht
          exact hactive hactive'
        simpa only [List.map_append, List.map_cons, List.map_nil] using hsweep.swept.skip hdead
    · rintro w' ⟨rs, hsweep⟩
      refine ⟨rfl, rs, hsweep.revoked, hsweep.stored, hsweep.swept.nodup, ?_⟩
      refine hsweep.swept.reached fun i => ?_
      rw [List.mem_map]
      constructor
      · rintro ⟨c, hc, rfl⟩
        exact ⟨c, (mem_childrenOf h).mp hc⟩
      · rintro ⟨t, ht, htp⟩
        have hid : t.id = i := h.tokens.keyed i t ht
        exact ⟨t, (mem_childrenOf h).mpr ⟨by rw [hid]; exact ht, htp⟩, hid⟩

theorem cascadeRevoke_spec (h : w.Sound env) (hflow : w.Flowing) (hp : ¬ w.ledger.Active p) :
    wp (cascadeRevoke env p now actor) (fun r w' => r = .ok () ∧
      ∃ rs, w.RevokedAll env now .parentRevoked actor rs w' ∧ w.ledger.CascadeOf p rs) w := by
  refine wp_bind (wp_get ?_)
  have hkeys : ∀ i, w.ledger.Active i → i ∈ w.tokenStore.live.keys.toFinset := by
    rintro i ⟨t, ht, -⟩
    exact List.mem_toFinset.mpr (OrderedMap.mem_keys_iff.mpr ⟨t, ht⟩)
  have hcard : w.tokenStore.live.keys.toFinset.card ≤ w.tokenStore.live.values.length := by
    refine (List.toFinset_card_le _).trans ?_
    simp [OrderedMap.keys, OrderedMap.values]
  exact cascadeRevokeAux_spec _ h hflow hp hkeys (Nat.lt_succ_of_le hcard)

/-- The two parts of a revocation, the token asked for and the cascade below it, are one
revocation. -/
theorem revokeAll_cascade {L : Ledger} {r : Revocation} {token : Token} {rs : List Token}
    (htoken : L.tokens r.tokenId = some token) (hid : token.id = r.tokenId)
    (hrevoked : r.revoked = token :: rs)
    (hcascade : (L.revokeAll r.now r.reasonCode r.actor [token]).CascadeOf r.tokenId rs) :
    L.Revokes r ∧ (L.revokeAll r.now r.reasonCode r.actor [token]).revokeAll r.now .parentRevoked
      r.actor rs = L.after (.revoked r) := by
  have halive : (L.revokeAll r.now r.reasonCode r.actor [token]).Active =
      fun i => L.Active i ∧ i ≠ r.tokenId := by
    funext i
    rw [eq_iff_iff, Ledger.active_revokeAll]
    simp [hid]
  have hparent : (L.revokeAll r.now r.reasonCode r.actor [token]).Parent = L.Parent :=
    Ledger.parent_revokeAll
  have hne : ∀ i ∈ rs.map Token.id, i ≠ r.tokenId := by
    intro i hi
    have halive' := ((hcascade.reached i).mp hi).target_alive
    rw [halive] at halive'
    exact halive'.2
  refine ⟨⟨⟨token, rs, htoken, hrevoked⟩, ?_, fun i => ?_, ?_⟩, ?_⟩
  · intro t ht
    rw [hrevoked] at ht
    rcases List.mem_cons.mp ht with rfl | ht
    · rw [hid]
      exact htoken
    · have hstored := hcascade.stored t ht
      have hnot : t.id ∉ [token].map Token.id := by
        simpa [hid] using hne t.id (List.mem_map_of_mem ht)
      simpa only [Ledger.revokeAll, if_neg hnot, Option.map_id'] using hstored
  · rw [hrevoked, List.map_cons, List.mem_cons, hid, hcascade.reached i, hparent, halive]
  · rw [hrevoked, List.map_cons, List.nodup_cons, hid]
    exact ⟨fun hmem => hne _ hmem rfl, hcascade.nodup⟩
  · have htokens : ∀ i, ((L.revokeAll r.now r.reasonCode r.actor [token]).revokeAll r.now
        .parentRevoked r.actor rs).tokens i = (L.after (.revoked r)).tokens i := by
      intro i
      simp only [Ledger.revokeAll, Ledger.after, Event.issued, Option.filter_none, Option.none_or,
        Option.map_map, List.map_cons, List.map_nil, hid]
      congr 1
      funext t
      by_cases hi : i = r.tokenId
      · have hnot : r.tokenId ∉ rs.map Token.id := fun hmem => hne _ hmem rfl
        simp [hi, hnot, Ledger.changedToken, hrevoked, hid, Revocation.reasonFor]
      · simp [hi, Ledger.changedToken, hrevoked, hid, Revocation.reasonFor]
    have hlog : r.revoked.map r.entry = [revocationEntry token.id token.subject r.reasonCode r.actor] ++
        rs.map fun t => revocationEntry t.id t.subject .parentRevoked r.actor := by
      rw [hrevoked, List.map_cons]
      refine congrArg₂ List.cons ?_ (List.map_congr_left fun t ht => ?_)
      · simp [Revocation.entry, Revocation.reasonFor, hid]
      · simp [Revocation.entry, Revocation.reasonFor, hne t.id (List.mem_map_of_mem ht)]
    have hrequests : (L.after (.revoked r)).requests = L.requests := by
      funext i
      exact Option.map_id'
    refine Ledger.ext (funext htokens) hrequests.symm ?_
    show L.log ++ _ ++ _ = L.log ++ r.revoked.map r.entry
    rw [hlog, List.append_assoc]
    rfl

/-- A revocation that was asked for, or a call that was refused. -/
theorem revokeToken_spec (h : w.Sound env) (tokenId : String) (reasonCode : RevocationReason)
    (now : Int) (actor : Option String) :
    wp (revokeToken env tokenId reasonCode now actor) (fun r w' => w.Quiet env w' ∧ r.isOk = false ∨
      ∃ revoked, w.Steps env (.revoked ⟨tokenId, reasonCode, now, actor, revoked⟩) w') w := by
  have hq := Quiet.refl h
  refine wp_bind (TokenStore.wp_get h (fun hrej _ => .inl ⟨hq.rejected hrej, rfl⟩) fun hadmits => ?_)
  have hflow : (w.accessed env).Flowing := flowing_accessed hadmits
  cases htoken : w.ledger.tokens tokenId with
  | none => exact wp_throw (.inl ⟨hq.accessed, rfl⟩)
  | some token =>
    obtain rfl : token.id = tokenId := h.tokens.keyed _ _ htoken
    have hledger : (w.accessed env).ledger = w.ledger := ledger_accessed h
    have htoken' : (w.accessed env).ledger.tokens token.id = some token := by rw [hledger, htoken]
    have hone : (w.accessed env).RevokedAll env now reasonCode actor [token]
        ((w.accessed env).revokeOne env now reasonCode actor token) :=
      .one hq.accessed.sound hflow htoken'
    refine wp_revokeOne hq.accessed.sound hflow htoken' (wp_bind ?_)
    have hdead : ¬ ((w.accessed env).revokeOne env now reasonCode actor token).ledger.Active
        token.id := by
      rw [hone.ledger_eq, Ledger.active_revokeAll]
      simp
    refine wp_mono (cascadeRevoke_spec hone.sound hone.flowing hdead) ?_
    rintro _ w' ⟨rfl, rs, hrs, hcascade⟩
    rw [hone.ledger_eq, hledger] at hcascade
    let rev : Revocation := ⟨token.id, reasonCode, now, actor, token :: rs⟩
    have hfound : w.ledger.tokens rev.tokenId = some token := htoken
    obtain ⟨hrevokes, hafter⟩ := revokeAll_cascade hfound rfl rfl hcascade
    refine wp_pure (.inr ⟨token :: rs, hrs.sound, hrevokes, ?_, ?_, fun _ => hrs.flowing⟩)
    · rw [hrs.ledger_eq, hone.ledger_eq, hledger]
      exact hafter
    · exact hq.accessed.supply_le.trans (hone.supply_le.trans hrs.supply_le)

end World

end Ambit
