import Ambit.AuditTrail
import Ambit.InterruptedRevocation

/-! What a revocation does, in any store: parents may be missing, and links may run in circles. The
token that is revoked is on no circle of active tokens any more, so that what hangs below it is a
tree, and the cascade is a loop over it. -/

namespace Ambit

open Effect Forest DepthFirst

variable {env : Env} {w w' : World} {id p i : String} {token : Token} {now : Int}
  {reasonCode : RevocationReason} {actor : Option String}

/-- `revokeToken` with a bound on the depth of the recursion. -/
def revokeTokenWithin (env : Env) (depth : ℕ) (tokenId : String) (reasonCode : RevocationReason)
    (now : Int) (actor : Option String) : Op Token := do
  match ← TokenStore.get env tokenId with
  | none =>
    throw (.unknownToken ("cannot revoke token \"" ++ tokenId ++ "\" — no such token was issued"))
  | some token =>
    let revoked := token.revoke now reasonCode
    TokenStore.save env revoked
    auditRecord env (revocationEntry tokenId token.subject reasonCode actor) now
    cascadeRevokeAux env now actor depth tokenId
    return revoked

/-! ## The tree below a token that is not active -/

theorem World.Keyed.tree (h : w.Keyed) (hp : ¬ w.ledger.Active p) :
    IsTree Token.id w.activeChildren p where
  nodup := h.activeChildren_nodup
  unique q q' i hq hq' := Ledger.Parent.unique (h.link_iff.mp hq).1 (h.link_iff.mp hq').1
  acyclic hcycle := by
    obtain ⟨q, -, hlink⟩ := Relation.TransGen.tail'_iff.mp hcycle
    exact hp (h.link_iff.mp hlink).2

theorem World.Keyed.below_iff (h : w.Keyed) :
    Below Token.id w.activeChildren p i ↔ Reached w.ledger.Parent w.ledger.Active p i := by
  have hlink : Link Token.id w.activeChildren =
      fun p i => w.ledger.Parent i p ∧ w.ledger.Active i := by
    funext p i
    exact propext h.link_iff
  rw [Below, hlink, Reached]

/-- The tokens of the cascade are those that are reached. -/
theorem World.Keyed.mem_order_iff (h : w.Keyed) (hp : ¬ w.ledger.Active p) :
    i ∈ (w.cascadeOrder p).map Token.id ↔ Reached w.ledger.Parent w.ledger.Active p i := by
  obtain ⟨S, hS, hcard⟩ := h.levels p
  rw [← h.below_iff]
  exact mem_preorder_iff (h.tree hp) hS hcard

/-! ## The writes -/

/-- The state after some tokens were revoked one after another. -/
def World.revokeEach (env : Env) (now : Int) (reasonCode : RevocationReason) (actor : Option String)
    (w : World) (ts : List Token) : World :=
  ts.foldl (World.revokeOne env now reasonCode actor) w

theorem wp_revokeWrites {t : Token} (h : w.Faultless) (hflow : w.Flowing) :
    wp (revokeWrites env now reasonCode actor t) (fun r w' => r = .ok () ∧
      w' = w.revokeOne env now reasonCode actor t) w := by
  refine wp_bind (Faultless.tokenStore_save h (fun hrej => absurd hrej hflow.not_rejects) fun _ => ?_)
  rw [hflow.accessed_eq]
  exact Faultless.wp_auditRecord (w := w.putToken _) h rfl ⟨rfl, rfl⟩

theorem wp_forM_revokeWrites (ts : List Token) (h : w.Faultless) (hflow : w.Flowing) :
    wp (ts.forM (revokeWrites env now reasonCode actor)) (fun r w' => r = .ok () ∧
      w' = w.revokeEach env now reasonCode actor ts) w := by
  induction ts generalizing w with
  | nil => exact wp_pure ⟨rfl, rfl⟩
  | cons t ts ih =>
    refine wp_bind (wp_mono (wp_revokeWrites h hflow) ?_)
    rintro _ _ ⟨rfl, rfl⟩
    exact ih h (hflow.of_breaker rfl)

theorem revokeEach_live {ts : List Token} (hnodup : (ts.map Token.id).Nodup)
    (hstored : ∀ t ∈ ts, w.tokenStore.live.get t.id = some t) (i : String) :
    (w.revokeEach env now reasonCode actor ts).tokenStore.live.get i =
      (w.tokenStore.live.get i).map fun t =>
        if i ∈ ts.map Token.id then t.revoke now reasonCode else t := by
  induction ts generalizing w with
  | nil =>
    simp only [World.revokeEach, List.foldl_nil, List.map_nil, List.not_mem_nil, if_false]
    exact Option.map_id'.symm
  | cons t ts ih =>
    obtain ⟨hnot, hnodup⟩ := List.nodup_cons.mp hnodup
    have hget : ∀ i, (w.revokeOne env now reasonCode actor t).tokenStore.live.get i =
        if i = t.id then some (t.revoke now reasonCode) else w.tokenStore.live.get i :=
      fun i => OrderedMap.get_set ..
    have hrest : ∀ t' ∈ ts,
        (w.revokeOne env now reasonCode actor t).tokenStore.live.get t'.id = some t' := by
      intro t' ht'
      rw [hget, if_neg, hstored t' (List.mem_cons_of_mem _ ht')]
      exact fun heq => hnot (heq ▸ List.mem_map_of_mem ht')
    refine (ih hnodup hrest).trans ?_
    rw [hget]
    by_cases hi : i = t.id
    · subst hi
      rw [if_pos rfl, hstored t (List.mem_cons_self ..)]
      simp [hnot]
    · simp [hi]

theorem revokeEach_trail (ts : List Token) :
    (w.revokeEach env now reasonCode actor ts).trail =
      w.trail ++ ts.map fun t => revocationEntry t.id t.subject reasonCode actor := by
  induction ts generalizing w with
  | nil => exact (List.append_nil _).symm
  | cons t ts ih =>
    refine (ih (w := w.revokeOne env now reasonCode actor t)).trans ?_
    have hone : (w.revokeOne env now reasonCode actor t).trail =
        w.trail ++ [revocationEntry t.id t.subject reasonCode actor] :=
      World.trail_logged (w := w.putToken _) rfl rfl now
    rw [hone, List.append_assoc]
    rfl

/-! ## The cascade -/

/-- The cascade revokes the tokens of its order one after another, at any depth that there are
tokens for. -/
theorem wp_cascadeRevokeAux (h : w.Faultless) (hflow : w.Flowing) (hkeyed : w.Keyed)
    (hp : ¬ w.ledger.Active p) {depth : ℕ} (hdepth : w.tokenStore.live.values.length < depth) :
    wp (cascadeRevokeAux env now actor depth p) (fun r w' => r = .ok () ∧
      w' = w.revokeEach env now .parentRevoked actor (w.cascadeOrder p)) w := by
  have htaken : Taken Token.id childrenOf (·.status = .active) World.Keyed w [] w :=
    ⟨hkeyed, fun q => by simp⟩
  obtain ⟨hcascade, -⟩ := cascade_taken (revokeWrites_takes env now actor) depth p [] w
    (hkeyed.tree hp) htaken fun _ hi => absurd hi List.not_mem_nil
  obtain ⟨S, hS, hcard⟩ := hkeyed.levels p
  have horder : preorder Token.id w.activeChildren depth p = w.cascadeOrder p :=
    preorder_stable (hkeyed.tree hp) hS (by omega) hcard
  rw [cascadeRevokeAux_eq_cascade]
  refine wp_congr hcascade ?_
  rw [show preorder Token.id (living childrenOf (·.status = .active) w) depth p =
    w.cascadeOrder p from horder]
  exact wp_forM_revokeWrites _ h hflow

/-- The state in which the cascade starts. -/
def World.revokedFirst (env : Env) (reasonCode : RevocationReason) (now : Int)
    (actor : Option String) (w : World) (token : Token) : World :=
  (w.accessed env).revokeOne env now reasonCode actor token

section
variable (htoken : w.tokenStore.live.get token.id = some token)

theorem revokedFirst_get (i : String) :
    (w.revokedFirst env reasonCode now actor token).tokenStore.live.get i =
      if i = token.id then some (token.revoke now reasonCode) else w.tokenStore.live.get i := by
  refine (OrderedMap.get_set ..).trans ?_
  rw [World.accessed_tokenStore]
  rfl

theorem revokedFirst_tokens (i : String) :
    (w.revokedFirst env reasonCode now actor token).ledger.tokens i =
      if i = token.id then some (token.revoke now reasonCode) else w.ledger.tokens i :=
  revokedFirst_get i

theorem revokedFirst_keyed (hkeyed : w.Keyed) :
    (w.revokedFirst env reasonCode now actor token).Keyed := by
  intro i t ht
  rw [revokedFirst_get] at ht
  split at ht
  · cases ht
    exact Eq.symm ‹_›
  · exact hkeyed i t ht

theorem revokedFirst_active : (w.revokedFirst env reasonCode now actor token).ledger.Active i ↔
    w.ledger.Active i ∧ i ≠ token.id := by
  constructor
  · rintro ⟨t, ht, hactive⟩
    rw [revokedFirst_tokens] at ht
    split at ht
    · cases ht
      cases hactive
    · exact ⟨⟨t, ht, hactive⟩, ‹_›⟩
  · rintro ⟨⟨t, ht, hactive⟩, hi⟩
    exact ⟨t, by rw [revokedFirst_tokens, if_neg hi, ht], hactive⟩

include htoken in
theorem revokedFirst_parent :
    (w.revokedFirst env reasonCode now actor token).ledger.Parent i p ↔ w.ledger.Parent i p := by
  unfold Ledger.Parent
  rw [revokedFirst_tokens]
  by_cases hi : i = token.id
  · subst hi
    rw [if_pos rfl, show w.ledger.tokens token.id = some token from htoken]
    simp [Token.revoke]
  · rw [if_neg hi]

/-- A way around through `id` itself can be cut short. -/
theorem reached_avoiding {parent : String → String → Prop} {active : String → Prop} {id i : String} :
    (i = id ∨ Reached parent (fun i => active i ∧ i ≠ id) id i) ↔
      (i = id ∨ Reached parent active id i) := by
  constructor
  · exact Or.imp_right fun h => h.mono fun _ hi => hi.1
  · rintro (rfl | h)
    · exact .inl rfl
    · induction h with
      | @single i hlink =>
        by_cases hi : i = id
        · exact .inl hi
        · exact .inr (.child hlink.1 ⟨hlink.2, hi⟩)
      | @tail j i _ hlink ih =>
        by_cases hi : i = id
        · exact .inl hi
        · rcases ih with rfl | ih
          · exact .inr (.child hlink.1 ⟨hlink.2, hi⟩)
          · exact .inr (Relation.TransGen.tail ih ⟨hlink.1, hlink.2, hi⟩)

include htoken in
/-- The tokens of the cascade, with the one that was asked for, are those reached before the call. -/
theorem mem_revoked_iff (hkeyed : w.Keyed) :
    (i = token.id ∨ i ∈ ((w.revokedFirst env reasonCode now actor token).cascadeOrder token.id).map
      Token.id) ↔ i = token.id ∨ Reached w.ledger.Parent w.ledger.Active token.id i := by
  have hkeyed₁ : (w.revokedFirst env reasonCode now actor token).Keyed := revokedFirst_keyed hkeyed
  rw [hkeyed₁.mem_order_iff fun hactive => (revokedFirst_active.mp hactive).2 rfl]
  have hparent : (w.revokedFirst env reasonCode now actor token).ledger.Parent = w.ledger.Parent := by
    funext i p
    exact propext (revokedFirst_parent htoken)
  have hactive : (w.revokedFirst env reasonCode now actor token).ledger.Active =
      fun i => w.ledger.Active i ∧ i ≠ token.id := by
    funext i
    exact propext revokedFirst_active
  rw [hparent, hactive]
  exact reached_avoiding

end

/-! ## The call -/

/-- What a revocation that was let through has done: `revoked` are the tokens as they were, in the
order of their entries. -/
structure RevokedExactly (w : World) (id : String) (reasonCode : RevocationReason) (now : Int)
    (actor : Option String) (revoked : List Token) (w' : World) : Prop where
  stored : ∀ t ∈ revoked, w.tokenStore.live.get t.id = some t
  first : revoked.head?.map Token.id = some id
  nodup : (revoked.map Token.id).Nodup
  reached : ∀ i, i ∈ revoked.map Token.id ↔
    i = id ∨ Reached w.ledger.Parent w.ledger.Active id i
  parents : ∀ xs t ys, revoked = xs ++ t :: ys → t.id ≠ id →
    ∃ q ∈ xs, t.parentTokenId = some q.id
  tokens : ∀ i, w'.tokenStore.live.get i = (w.tokenStore.live.get i).map fun t =>
    if i = id then t.revoke now reasonCode
    else if i ∈ revoked.map Token.id then t.revoke now .parentRevoked
    else t
  trail : w'.trail = w.trail ++ revoked.map fun t => revocationEntry t.id t.subject
    (if t.id = id then reasonCode else .parentRevoked) actor

theorem revokedExactly (htoken : w.tokenStore.live.get token.id = some token) (hkeyed : w.Keyed) :
    RevokedExactly w token.id reasonCode now actor
      (token :: (w.revokedFirst env reasonCode now actor token).cascadeOrder token.id)
      ((w.revokedFirst env reasonCode now actor token).revokeEach env now .parentRevoked actor
        ((w.revokedFirst env reasonCode now actor token).cascadeOrder token.id)) := by
  generalize hw₁ : w.revokedFirst env reasonCode now actor token = w₁
  have hkeyed₁ : w₁.Keyed := hw₁ ▸ revokedFirst_keyed hkeyed
  have hroot : ¬ w₁.ledger.Active token.id := by
    rw [← hw₁]
    exact fun hactive => (revokedFirst_active.mp hactive).2 rfl
  have hne : ∀ t ∈ w₁.cascadeOrder token.id, t.id ≠ token.id := by
    intro t ht heq
    have hactive := ((hkeyed₁.mem_order_iff hroot).mp (List.mem_map_of_mem ht)).target_alive
    rw [heq] at hactive
    exact hroot hactive
  have hstored₁ : ∀ t ∈ w₁.cascadeOrder token.id, w₁.tokenStore.live.get t.id = some t :=
    fun t ht => (hkeyed₁.of_mem_order ht).1
  have hnodup₁ : ((w₁.cascadeOrder token.id).map Token.id).Nodup :=
    (hkeyed₁.tree hroot).preorder_nodup _
  refine ⟨?_, rfl, ?_, ?_, ?_, ?_, ?_⟩
  · intro t ht
    rcases List.mem_cons.mp ht with rfl | ht
    · exact htoken
    · have hstored := hstored₁ t ht
      rw [← hw₁, revokedFirst_get, if_neg (hne t ht)] at hstored
      exact hstored
  · rw [List.map_cons, List.nodup_cons]
    refine ⟨fun hmem => ?_, hnodup₁⟩
    obtain ⟨t, ht, heq⟩ := List.mem_map.mp hmem
    exact hne t ht heq
  · intro i
    rw [List.map_cons, List.mem_cons, ← hw₁]
    exact mem_revoked_iff htoken hkeyed
  · rintro (_ | ⟨q, xs⟩) t ys horder hid
    · cases horder
      exact absurd rfl hid
    · rw [List.cons_append] at horder
      obtain ⟨rfl, htail⟩ := List.cons.inj horder
      rcases parent_before htail with hkid | ⟨c, hc, hkid⟩
      · exact ⟨token, List.mem_cons_self .., (hkeyed₁.mem_activeChildren.mp hkid).2.1⟩
      · exact ⟨c, List.mem_cons_of_mem _ hc, (hkeyed₁.mem_activeChildren.mp hkid).2.1⟩
  · intro i
    rw [revokeEach_live hnodup₁ hstored₁, ← hw₁, revokedFirst_get]
    by_cases hi : i = token.id
    · have hnot : token.id ∉ (w₁.cascadeOrder token.id).map Token.id := by
        intro hmem
        obtain ⟨t, ht, heq⟩ := List.mem_map.mp hmem
        exact hne t ht heq
      subst hi
      rw [hw₁, htoken]
      simp [hnot]
    · rw [if_neg hi]
      simp [hi]
  · have hfirst : w₁.trail = w.trail ++ [revocationEntry token.id token.subject reasonCode actor] := by
      rw [← hw₁]
      refine (World.trail_logged (w := (w.accessed env).putToken _) rfl rfl now).trans ?_
      rw [World.trail_putToken, World.trail_accessed]
    rw [revokeEach_trail, hfirst, List.append_assoc, List.map_cons, if_pos rfl]
    refine congrArg (w.trail ++ revocationEntry token.id token.subject reasonCode actor :: ·) ?_
    exact List.map_congr_left fun t ht => by rw [if_neg (hne t ht)]

/-- A revocation up to its cascade. -/
def revokeFirst (env : Env) (tokenId : String) (reasonCode : RevocationReason) (now : Int)
    (actor : Option String) : Op Token := do
  match ← TokenStore.get env tokenId with
  | none =>
    throw (.unknownToken ("cannot revoke token \"" ++ tokenId ++ "\" — no such token was issued"))
  | some token =>
    TokenStore.save env (token.revoke now reasonCode)
    auditRecord env (revocationEntry tokenId token.subject reasonCode actor) now
    return token

theorem revokeFirst_bind (rest : Op Unit) : (do
    match ← TokenStore.get env id with
    | none =>
      throw (.unknownToken ("cannot revoke token \"" ++ id ++ "\" — no such token was issued"))
    | some token =>
      let revoked := token.revoke now reasonCode
      TokenStore.save env revoked
      auditRecord env (revocationEntry id token.subject reasonCode actor) now
      rest
      return revoked) = revokeFirst env id reasonCode now actor >>= fun token => do
        rest
        return token.revoke now reasonCode := by
  unfold revokeFirst
  rw [bind_assoc]
  congr 1
  funext found
  cases found with
  | none => rfl
  | some token => simp only [bind_assoc, pure_bind]

theorem wp_revokeFirst (h : w.Faultless) (htoken : w.tokenStore.live.get token.id = some token) :
    wp (revokeFirst env token.id reasonCode now actor) (fun r w' =>
      (w.Rejects env ∧ (∃ message, r = .error (.circuitOpen message)) ∧ w' = w.rejected env) ∨
      (¬ w.Rejects env ∧ r = .ok token ∧
        w' = w.revokedFirst env reasonCode now actor token)) w := by
  refine wp_bind (Faultless.tokenStore_get h (fun hrej message => ?_) fun hadmits => ?_)
  · exact .inl ⟨hrej, ⟨message, rfl⟩, rfl⟩
  · have hflow := World.flowing_accessed hadmits
    rw [htoken]
    refine wp_bind (Faultless.tokenStore_save h.accessed
      (fun hrej => absurd hrej hflow.not_rejects) fun _ => ?_)
    rw [hflow.accessed_eq]
    refine wp_bind (Faultless.wp_auditRecord (w := (w.accessed env).putToken _) h.accessed rfl ?_)
    exact wp_pure (.inr ⟨hadmits, rfl, rfl⟩)

section
variable (h : w.Faultless) (hadmits : ¬ w.Rejects env) (hkeyed : w.Keyed)
  (htoken : w.tokenStore.live.get token.id = some token)

include h hadmits hkeyed

/-- The cascade of a revocation, at any depth that there are tokens for. -/
theorem wp_cascade_revokedFirst {depth : ℕ}
    (hdepth : (w.revokedFirst env reasonCode now actor token).tokenStore.live.values.length < depth) :
    wp (cascadeRevokeAux env now actor depth token.id) (fun r w' => r = .ok () ∧
      w' = (w.revokedFirst env reasonCode now actor token).revokeEach env now .parentRevoked actor
        ((w.revokedFirst env reasonCode now actor token).cascadeOrder token.id))
      (w.revokedFirst env reasonCode now actor token) := by
  have hfaultless : (w.revokedFirst env reasonCode now actor token).Faultless := h.accessed
  have hflow : (w.revokedFirst env reasonCode now actor token).Flowing :=
    (World.flowing_accessed hadmits).of_breaker rfl
  refine wp_cascadeRevokeAux hfaultless hflow (revokedFirst_keyed hkeyed) (fun hactive => ?_) hdepth
  exact (revokedFirst_active.mp hactive).2 rfl

end

/-- As many tokens are stored as before. -/
theorem revokedFirst_length (htoken : w.tokenStore.live.get token.id = some token) :
    (w.revokedFirst env reasonCode now actor token).tokenStore.live.values.length =
      w.tokenStore.live.values.length := by
  have hmem : token.id ∈ w.tokenStore.live.keys := OrderedMap.mem_keys_iff.mpr ⟨token, htoken⟩
  have hkeys := congrArg List.length (OrderedMap.keys_set_of_mem hmem (token.revoke now reasonCode))
  have hlive : (w.revokedFirst env reasonCode now actor token).tokenStore.live =
      w.tokenStore.live.set token.id (token.revoke now reasonCode) := by
    show (w.accessed env).tokenStore.live.set _ _ = _
    rw [World.accessed_tokenStore]
    rfl
  rw [hlive]
  simpa [OrderedMap.keys, OrderedMap.values] using hkeys

/-- More depth than there are tokens changes nothing. -/
theorem cascade_depth (h : w.Faultless) (hadmits : ¬ w.Rejects env) (hkeyed : w.Keyed)
    (htoken : w.tokenStore.live.get token.id = some token) {depth : ℕ}
    (hdepth : w.tokenStore.live.values.length < depth) :
    cascadeRevokeAux env now actor depth token.id (w.revokedFirst env reasonCode now actor token) =
      cascadeRevoke env token.id now actor (w.revokedFirst env reasonCode now actor token) := by
  generalize hw₁ : w.revokedFirst env reasonCode now actor token = w₁
  have hlength : w₁.tokenStore.live.values.length = w.tokenStore.live.values.length := by
    rw [← hw₁]
    exact revokedFirst_length htoken
  have hrun : ∀ d, w₁.tokenStore.live.values.length < d →
      cascadeRevokeAux env now actor d token.id w₁ = _ := fun d hd =>
    run_of_wp (hw₁ ▸ wp_cascade_revokedFirst h hadmits hkeyed (hw₁ ▸ hd))
  exact (hrun depth (by omega)).trans (hrun _ (Nat.lt_succ_self _)).symm

/-- How a revocation ends: without a change if the breaker rejects it, else with the whole effect. -/
inductive RevocationEnds (env : Env) (w : World) (token : Token) (reasonCode : RevocationReason)
    (now : Int) (actor : Option String) : Except Err Token → World → Prop
  | rejected (message : String) (w' : World) (hrejects : w.Rejects env)
      (htokens : w'.tokenStore = w.tokenStore) (htrail : w'.trail = w.trail) :
      RevocationEnds env w token reasonCode now actor (.error (.circuitOpen message)) w'
  | revoked (revoked : List Token) (w' : World) (hadmits : ¬ w.Rejects env)
      (heffect : RevokedExactly w token.id reasonCode now actor revoked w') :
      RevocationEnds env w token reasonCode now actor (.ok (token.revoke now reasonCode)) w'

theorem revokeToken_ends (h : w.Faultless) (hkeyed : w.Keyed)
    (htoken : w.tokenStore.live.get id = some token) :
    wp (revokeToken env id reasonCode now actor)
      (RevocationEnds env w token reasonCode now actor) w := by
  obtain rfl : token.id = id := hkeyed _ _ htoken
  have hrevoke : revokeToken env token.id reasonCode now actor = _ :=
    revokeFirst_bind (cascadeRevoke env token.id now actor)
  rw [hrevoke]
  refine wp_bind (wp_mono (wp_revokeFirst h htoken) ?_)
  rintro _ _ (⟨hrejects, ⟨message, rfl⟩, rfl⟩ | ⟨hadmits, rfl, rfl⟩)
  · exact .rejected message _ hrejects (by simp) (by simp)
  · refine wp_bind (wp_bind (wp_get (wp_mono (wp_cascade_revokedFirst h hadmits hkeyed
      (Nat.lt_succ_self _)) ?_)))
    rintro _ _ ⟨rfl, rfl⟩
    exact wp_pure (.revoked _ _ hadmits (revokedExactly htoken hkeyed))

/-- **The exact effect of a revocation.** In a store of any shape a stored token is revoked, with the
tokens that active links lead to from it, each once and after its parent; however deep the
recursion may go beyond the number of tokens, it ends in the same way. -/
theorem revokeToken_effect (h : w.Faultless) (hkeyed : w.Keyed)
    (htoken : w.tokenStore.live.get id = some token) :
    wp (revokeToken env id reasonCode now actor)
        (RevocationEnds env w token reasonCode now actor) w ∧
      ∀ depth, w.tokenStore.live.values.length < depth →
        revokeTokenWithin env depth id reasonCode now actor w =
          revokeToken env id reasonCode now actor w := by
  refine ⟨revokeToken_ends h hkeyed htoken, fun depth hdepth => ?_⟩
  obtain rfl : token.id = id := hkeyed _ _ htoken
  have hrevoke : revokeToken env token.id reasonCode now actor = _ :=
    revokeFirst_bind (cascadeRevoke env token.id now actor)
  have hwithin : revokeTokenWithin env depth token.id reasonCode now actor = _ :=
    revokeFirst_bind (cascadeRevokeAux env now actor depth token.id)
  rw [hrevoke, hwithin]
  rcases hfirst : revokeFirst env token.id reasonCode now actor w with ⟨token', w₁⟩ | ⟨err, w₁⟩
  · rcases wp_ok (wp_revokeFirst h htoken) hfirst with ⟨-, ⟨_, ⟨⟩⟩, -⟩ | ⟨hadmits, hr, rfl⟩
    rw [bind_of_ok hfirst, bind_of_ok hfirst]
    show EStateM.bind _ _ _ = EStateM.bind _ _ _
    rw [EStateM.bind, EStateM.bind, cascade_depth h hadmits hkeyed htoken hdepth]
  · rw [bind_of_error hfirst, bind_of_error hfirst]

/-! ## Two tokens in a circle -/

/-- An active token that knows its parent. -/
def sampleDelegate (id parentTokenId : String) : Token where
  id := id
  subject := "agent"
  scope := ["a"]
  issuedAt := 0
  expiresAt := .ms 1000
  status := .active
  parentTokenId := some parentTokenId
  secretHash := ""

/-- Each of two tokens is the parent of the other. -/
def sampleCircle : World :=
  (World.initial.putToken (sampleDelegate "a" "b")).putToken (sampleDelegate "b" "a")

theorem revokeToken_effect_sample :
    wp (revokeToken sampleEnv "a" .compromised 0 none) (RevocationEnds sampleEnv sampleCircle
        (sampleDelegate "a" "b") .compromised 0 none) sampleCircle ∧
      ∀ depth, sampleCircle.tokenStore.live.values.length < depth →
        revokeTokenWithin sampleEnv depth "a" .compromised 0 none sampleCircle =
          revokeToken sampleEnv "a" .compromised 0 none sampleCircle := by
  have hkeyed : sampleCircle.Keyed := by
    intro i t ht
    have hget : sampleCircle.tokenStore.live.get i = if i = "b" then some (sampleDelegate "b" "a")
        else if i = "a" then some (sampleDelegate "a" "b") else none := by
      refine (OrderedMap.get_set ..).trans ?_
      congr 1
      exact OrderedMap.get_set ..
    rw [hget] at ht
    split at ht
    · cases ht
      exact Eq.symm ‹_›
    · split at ht
      · cases ht
        exact Eq.symm ‹_›
      · cases ht
  exact revokeToken_effect rfl hkeyed rfl

/-- Each parent comes before its children, the token that was asked for included. -/
def ParentsFirst (revoked : List Token) : Prop :=
  ∀ xs c ys, revoked = xs ++ c :: ys → ∀ t ∈ revoked, c.parentTokenId = some t.id → t ∈ xs

/-- In a circle the token that was asked for comes before its own parent; and where the breaker
rejects the call, nothing is revoked. -/
theorem not_parentsFirst :
    (¬ ∃ revoked, RevokedExactly sampleCircle "a" .compromised 0 none revoked
      (after (revokeToken sampleEnv "a" .compromised 0 none) sampleCircle) ∧ ParentsFirst revoked) ∧
    (result (revokeToken sampleEnv "a" .compromised 0 none) (sampleCircle.withBreaker
      (sampleCircle.storeCircuitBreaker.simulateOutage true))).isOk = false := by
  refine ⟨?_, by decide +kernel⟩
  rintro ⟨revoked, heffect, hparents⟩
  have hb : "b" ∈ revoked.map Token.id :=
    (heffect.reached "b").mpr (.inr (.child ⟨sampleDelegate "b" "a", rfl, rfl⟩ ⟨_, rfl, rfl⟩))
  obtain ⟨t, ht, hid⟩ := List.mem_map.mp hb
  cases revoked with
  | nil => cases ht
  | cons c ys =>
    have hc : c.id = "a" := Option.some.inj heffect.first
    have hstored := heffect.stored c (List.mem_cons_self ..)
    rw [hc] at hstored
    obtain rfl : sampleDelegate "a" "b" = c := Option.some.inj hstored
    have hbefore := hparents [] _ ys rfl t ht (congrArg some hid.symm)
    cases hbefore

end Ambit
