import Ambit.LedgerLinks
import Ambit.TokenSpec

/-! The lineage of a token. The parent walk ends because the scopes get wider at every step, so that
no token comes twice; the origin is there because every root has its one approval entry. -/

namespace Ambit

open Effect

/-- A chain of stored tokens, each the parent of the next. -/
structure Ledger.IsLineage (L : Ledger) (chain : List Token) : Prop where
  stored : ∀ t ∈ chain, L.tokens t.id = some t
  linked : chain.IsChain fun p t => t.parentTokenId = some p.id

variable {env : Env} {w : World} {L : Ledger}

theorem Ledger.IsLineage.forest {chain : List Token} (h : L.IsLineage chain) :
    Forest.IsChain L.Parent (chain.map Token.id) := by
  refine (List.isChain_map Token.id).mpr ?_
  obtain ⟨hstored, hlinked⟩ := h
  induction chain with
  | nil => exact .nil
  | cons p chain ih =>
    cases chain with
    | nil => exact .singleton _
    | cons t chain =>
      obtain ⟨hparent, htail⟩ := List.isChain_cons_cons.mp hlinked
      refine .cons_cons ⟨t, hstored t (by simp), hparent⟩ (ih (fun u hu => ?_) htail)
      exact hstored u (List.mem_cons_of_mem p hu)

/-- A lineage repeats no id. -/
theorem Ledger.IsLineage.nodup {chain : List Token} (h : L.IsLineage chain)
    (hlinked : L.TokensLinked) : (chain.map Token.id).Nodup :=
  h.forest.nodup hlinked.breadth_lt

/-- A lineage is not longer than the store. -/
theorem Ledger.IsLineage.length_le {chain : List Token} (h : w.ledger.IsLineage chain)
    (hlinked : w.ledger.TokensLinked) : chain.length ≤ w.tokenStore.live.values.length := by
  have hsub : (chain.map Token.id).toFinset ⊆ w.tokenStore.live.keys.toFinset := by
    intro i hi
    obtain ⟨t, ht, rfl⟩ := List.mem_map.mp (List.mem_toFinset.mp hi)
    exact List.mem_toFinset.mpr (OrderedMap.mem_keys_iff.mpr ⟨t, h.stored t ht⟩)
  calc chain.length = (chain.map Token.id).toFinset.card := by
        rw [List.toFinset_card_of_nodup (h.nodup hlinked), List.length_map]
    _ ≤ w.tokenStore.live.keys.toFinset.card := Finset.card_le_card hsub
    _ ≤ w.tokenStore.live.keys.length := List.toFinset_card_le _
    _ = w.tokenStore.live.values.length := by simp [OrderedMap.keys, OrderedMap.values]

/-! ## The walk -/

theorem TokenStore.wp_get_flowing {id : String} {Q : Except Err (Option Token) → World → Prop}
    (h : w.Sound env) (hflow : w.Flowing) (hQ : Q (.ok (w.ledger.tokens id)) w) :
    wp (TokenStore.get env id) Q w := by
  refine TokenStore.wp_get h (fun hrej => absurd hrej hflow.not_rejects) fun _ => ?_
  rw [hflow.accessed_eq]
  exact hQ

/-- The walk ends at a root, with more steps at hand than there are tokens still to come. -/
theorem lineageChain_spec (h : w.Sound env) (hflow : w.Flowing) (hlinked : w.ledger.TokensLinked)
    (fuel : ℕ) : ∀ {current : Token} {rest : List Token},
    w.ledger.IsLineage (current :: rest) →
    w.tokenStore.live.values.length < fuel + (current :: rest).length →
    wp (lineageChain env fuel current (current :: rest)) (fun r w' => w' = w ∧
      ∃ root above, r = .ok (some (root :: above)) ∧ root.parentTokenId = none ∧
        w.ledger.IsLineage (root :: above) ∧ current :: rest <:+ root :: above) w := by
  induction fuel with
  | zero =>
    intro current rest hchain hfuel
    rw [Nat.zero_add] at hfuel
    exact absurd (hchain.length_le hlinked) (Nat.not_le_of_lt hfuel)
  | succ fuel ih =>
    intro current rest hchain hfuel
    have hcurrent := hchain.stored current (by simp)
    simp only [lineageChain]
    cases hparent : current.parentTokenId with
    | none => exact wp_pure ⟨rfl, current, rest, rfl, hparent, hchain, List.suffix_refl _⟩
    | some q =>
      obtain ⟨parent, hq, -⟩ := hlinked.parent _ _ _ hcurrent hparent
      obtain ⟨hid, hne⟩ := hlinked.key q parent hq
      rw [truthy_eq_some.mpr ⟨rfl, hne⟩]
      refine wp_bind (TokenStore.wp_get_flowing h hflow ?_)
      rw [hq]
      have hchain' : w.ledger.IsLineage (parent :: current :: rest) := by
        refine ⟨fun t ht => ?_, .cons_cons (by rw [hparent, hid]) hchain.linked⟩
        rcases List.mem_cons.mp ht with rfl | ht
        · rw [hid]
          exact hq
        · exact hchain.stored t ht
      refine wp_mono (ih hchain' ?_) ?_
      · simp only [List.length_cons] at hfuel ⊢
        omega
      · rintro r w' ⟨rfl, root, above, rfl, hroot, habove, hsuffix⟩
        exact ⟨rfl, root, above, rfl, hroot, habove, (List.suffix_cons ..).trans hsuffix⟩

/-! ## The origin -/

/-- The approval entries of a token in the log of the process are those of the ledger. -/
theorem filter_isApprovalOf_ledger (w : World) (i : String) :
    w.ledger.log.filter (isApprovalOf i) =
      (w.auditLog.entries.map (·.toAuditEntryInput)).filter (isApprovalOf i) := by
  refine World.ledger_log_filter fun e happroval => ?_
  obtain ⟨-, hdecision⟩ := of_decide_eq_true happroval
  simp [AuditEntryInput.noteworthy, hdecision]

theorem lineageOrigin_eq {entries : List AuditEntryInput} {root : Token} {e : AuditEntryInput}
    (h : entries.filter (isApprovalOf root.id) = [e]) :
    lineageOrigin entries root = some ⟨e.requestId, e.policyId, e.actor⟩ := by
  have hfind : entries.find? (isApprovalOf root.id) = some e := by
    rw [← List.head?_filter, h]
    rfl
  show (entries.find? (isApprovalOf root.id)).map _ = _
  rw [hfind]
  rfl

/-- A root has exactly one approval entry, and it names the request that the root was issued for. -/
theorem Ledger.ApprovalsLinked.unique {i : String} {root : Token} (h : L.ApprovalsLinked)
    (hroot : L.tokens i = some root) (hnone : root.parentTokenId = none) :
    ∃ e r, L.log.filter (isApprovalOf i) = [e] ∧ L.requests r.id = some r ∧
      e.requestId = some r.id ∧ r.subject = root.subject ∧ r.scope = root.scope := by
  obtain ⟨e, he, happroval, r, hr⟩ := h.origin i root hroot hnone
  have hlength : (L.log.filter (isApprovalOf i)).length ≤ 1 := by
    rw [← List.countP_eq_length_filter]
    exact h.once i
  have hmem : e ∈ L.log.filter (isApprovalOf i) := List.mem_filter.mpr ⟨he, happroval⟩
  have hone := le_antisymm hlength (List.length_pos_of_mem hmem)
  obtain ⟨e', he'⟩ := List.length_eq_one_iff.mp hone
  rw [he', List.mem_singleton] at hmem
  exact ⟨e, r, hmem ▸ he', hr⟩

/-! ## The lineage -/

/-- What `getTokenLineage` promises of a token: the chain from its root down to it, and the one
approval that the root was issued on. -/
structure TokenLineage.Complete (w : World) (token : Token) (lineage : TokenLineage) : Prop where
  chain : w.ledger.IsLineage lineage.chain
  ends : lineage.chain.getLast? = some token
  nodup : (lineage.chain.map Token.id).Nodup
  origin : ∃ root e request, lineage.chain.head? = some root ∧ root.parentTokenId = none ∧
    (w.auditLog.entries.map (·.toAuditEntryInput)).filter
      (fun e => e.tokenId = some root.id ∧ e.decision = .requestApproved) = [e] ∧
    lineage.origin = some ⟨e.requestId, e.policyId, e.actor⟩ ∧
    w.requestStore.live.get request.id = some request ∧ e.requestId = some request.id ∧
    request.subject = root.subject ∧ request.scope = root.scope

theorem getTokenLineage_spec (h : w.Sound env) (hflow : w.Flowing)
    (hlinked : w.ledger.Linked env.toPlatform) {fuel : ℕ}
    (hfuel : w.tokenStore.live.values.length < fuel) {token : Token}
    (htoken : w.ledger.tokens token.id = some token) :
    wp (getTokenLineage env fuel token.id) (fun r w' => w' = w ∧
      ∃ lineage : TokenLineage, r = .ok (some lineage) ∧ lineage.Complete w token) w := by
  refine wp_bind (TokenStore.wp_get_flowing h hflow ?_)
  rw [htoken]
  have hchain : w.ledger.IsLineage [token] := by
    refine ⟨fun t ht => ?_, .singleton _⟩
    rw [List.mem_singleton.mp ht]
    exact htoken
  refine wp_bind (wp_mono (lineageChain_spec h hflow hlinked.tokens fuel hchain ?_) ?_)
  · exact Nat.lt_succ_of_lt hfuel
  · rintro _ w' ⟨rfl, root, above, rfl, hroot, habove, hsuffix⟩
    refine wp_bind (wp_get (wp_pure ⟨rfl, _, rfl, habove, ?_, habove.nodup hlinked.tokens, ?_⟩))
    · obtain ⟨pre, hpre⟩ := hsuffix
      rw [← hpre, List.getLast?_append]
      rfl
    · have hstored := habove.stored root (List.mem_cons_self ..)
      obtain ⟨e, request, hfilter, hrequest⟩ := hlinked.approvals.unique hstored hroot
      rw [filter_isApprovalOf_ledger] at hfilter
      exact ⟨root, e, request, rfl, hroot, hfilter, lineageOrigin_eq hfilter, hrequest⟩

/-- Looking up a lineage is quiet. -/
theorem lineageChain_quietly (fuel : ℕ) : ∀ (current : Token) (chain : List Token),
    Quietly env (lineageChain env fuel current chain) fun _ => True := by
  induction fuel with
  | zero => exact fun _ _ => .pure trivial
  | succ fuel ih =>
    intro current chain
    simp only [lineageChain]
    cases truthy current.parentTokenId with
    | none => exact .pure trivial
    | some q =>
      refine .bind (.tokenStore_get q) fun parent _ => ?_
      cases parent with
      | none => exact .pure trivial
      | some parent => exact ih parent (parent :: chain)

theorem getTokenLineage_quietly (fuel : ℕ) (tokenId : String) :
    Quietly env (getTokenLineage env fuel tokenId) fun _ => True := by
  refine .bind (.tokenStore_get tokenId) fun target _ => ?_
  cases target with
  | none => exact .throw
  | some target =>
    refine .bind (lineageChain_quietly fuel target [target]) fun chain _ => ?_
    cases chain with
    | none => exact .pure trivial
    | some chain => exact .bind .get fun _ _ => .pure trivial

end Ambit
