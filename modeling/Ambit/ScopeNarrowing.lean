import Ambit.Refinement
import Mathlib.Algebra.GroupWithZero.Nat
import Mathlib.Algebra.Order.BigOperators.Group.List
import Mathlib.Algebra.Order.Group.Nat

/-! Scope never widens: along every run, a token's scope lies in those of all its ancestors and in
that of the request behind its root, and the gateway allows nothing outside of it. -/

namespace Ambit

open Forest

variable {κ : Type} {env : Env} {acts : List (Action κ)} {c : Config κ}

/-! ## Approvals along a run -/

/-- An eligible approver called `approveRequest` on the request when it was pending. -/
def ApprovalCalled (env : Env) (acts : List (Action κ)) (requestId : String) : Prop :=
  (processMachine κ env).Happened (fun c a => ∃ client input pending,
    a = .call client (.approveRequest input) ∧ input.requestId = requestId ∧
    c.world.requestStore.live.get requestId = some pending ∧ pending.status = .pending ∧
    pending.eligible input.approver) acts

/-- Every approval, in flight or in the log, was called. -/
structure ApprovalsCalled (env : Env) (acts : List (Action κ)) (c : Config κ) : Prop where
  inflight : ∀ x ∈ c.inflight, ∀ f, x.frame = .approve f → ApprovalCalled env acts f.input.requestId
  logged : ∀ e ∈ c.world.ledger.log, e.decision = .requestApproved → ∀ i, e.requestId = some i →
    ApprovalCalled env acts i

theorem ApprovalsCalled.step (hc : c.Sound env) (hrun : (processMachine κ env).run acts = c)
    (h : ApprovalsCalled env acts c) (a : Action κ) :
    ApprovalsCalled env (acts ++ [a]) (c.step env a) := by
  obtain ⟨e, hadvances⟩ := hc.exec a
  constructor
  · intro x hx f hf
    rcases hadvances.enters hx with hold | ⟨rfl, hstarts⟩ | ⟨i, _, y, -, -, -, -, hgoes⟩
    · exact (h.inflight x hold f hf).snoc a
    · obtain ⟨hawaits, hframe⟩ := hadvances.sound.frames x hx
      obtain ⟨client, call, frame⟩ := x
      subst hf
      cases call with
      | approveRequest input =>
        obtain rfl : f.input = input := hawaits
        refine Machine.Happened.now ?_
        rw [hrun]
        exact ⟨client, f.input, f.pending, rfl, rfl, hstarts.1, hframe.status_eq, hframe.eligible⟩
      | _ => exact hawaits.elim
    · rw [hf] at hgoes
      exact hgoes.elim
  · intro entry hentry hdecision i hi
    have hledger : (c.step env a).world.ledger = c.world.ledger.after e := hadvances.ledger_eq
    rw [hledger] at hentry
    rcases List.mem_append.mp hentry with hold | hnew
    · exact (h.logged entry hold hdecision i hi).snoc a
    · obtain ⟨pending, t, secret, approver, policyId, rfl, rfl⟩ :=
        Ledger.approval_of_mem_entries hnew hdecision
      obtain ⟨_, _, x, f, -, hx, hf, -, rfl, -⟩ := hadvances.explains.approved
      have hmem := List.mem_of_getElem? hx
      have hframe := (hc.frames x hmem).holds
      rw [hf] at hframe
      cases hi
      rw [hframe.id_eq]
      exact (h.inflight x hmem f hf).snoc a

theorem approvalsCalled_run (acts : List (Action κ)) :
    ApprovalsCalled env acts ((processMachine κ env).run acts) := by
  refine Machine.run_induction
    (P := fun acts => ApprovalsCalled env acts ((processMachine κ env).run acts)) acts ?_ ?_
  · constructor
    · exact fun x hx => by cases hx
    · intro e he
      have hlog : ((Config.initial env : Config κ).world.ledger).log = [] := by
        show (World.initial.boot env).ledger.log = []
        rw [ledger_boot]
        rfl
      rw [Machine.run_nil, processMachine, hlog] at he
      cases he
  · intro acts a ih
    rw [Machine.run_snoc]
    exact ih.step (Config.sound_run acts) rfl a

/-! ## Consequences for one state -/

/-- The breadths of the tokens of a store are bounded. -/
theorem breadth_le_bound (w : World) (i : String) :
    w.ledger.breadth i ≤ (w.tokenStore.live.values.map fun t => t.scope.toFinset.card).sum := by
  unfold Ledger.breadth
  cases ht : w.ledger.tokens i with
  | none => exact Nat.zero_le _
  | some t =>
    have hmem : t ∈ w.tokenStore.live.values := OrderedMap.mem_values_iff.mpr ⟨i, ht⟩
    have hcard : t.scope.toFinset.card ∈ w.tokenStore.live.values.map fun t => t.scope.toFinset.card :=
      List.mem_map_of_mem hmem
    exact List.single_le_sum (fun _ _ => Nat.zero_le _) _ hcard

/-- The request that the root token was issued on: the one that its approval entry names. -/
def RequestBehind (w : World) (root : Token) (r : PendingRequest) : Prop :=
  w.requestStore.live.get r.id = some r ∧ ∃ e ∈ w.auditLog.entries,
    e.tokenId = some root.id ∧ e.decision = .requestApproved ∧ e.requestId = some r.id

theorem exists_requestBehind (hc : c.Sound env) {i : String} {root : Token}
    (hroot : c.world.ledger.tokens i = some root) (hnone : root.parentTokenId = none) :
    ∃ r, RequestBehind c.world root r ∧ r.scope = root.scope := by
  obtain ⟨e, he, happroval, r, hr, hrequest, -, hscope⟩ :=
    hc.linked.approvals.origin i root hroot hnone
  obtain ⟨hid, hdecision⟩ := of_decide_eq_true happroval
  obtain ⟨full, hfull, rfl⟩ := List.mem_map.mp (List.mem_filter.mp he).1
  have hkey := (hc.linked.tokens.key i root hroot).1
  exact ⟨r, ⟨hr, full, hfull, by rw [hkey, hid], hdecision, hrequest⟩, hscope⟩

/-- The permission of a token is one of all its ancestors, and of the request behind its root. -/
structure GrantedDown (w : World) (i action : String) : Prop where
  ancestors : ∀ q a, Ancestor w.ledger.Parent i q → w.ledger.tokens q = some a → action ∈ a.scope
  request : ∃ q root r, (q = i ∨ Ancestor w.ledger.Parent i q) ∧ w.ledger.tokens q = some root ∧
    root.parentTokenId = none ∧ RequestBehind w root r ∧ action ∈ r.scope

theorem grantedDown (hc : c.Sound env) {i action : String} {t : Token}
    (ht : c.world.ledger.tokens i = some t) (haction : action ∈ t.scope) :
    GrantedDown c.world i action := by
  have htokens := hc.linked.tokens
  refine ⟨fun q a hancestor ha => htokens.scope_subset hancestor ht ha haction, ?_⟩
  obtain ⟨q, root, hroot, hnone, hq⟩ := htokens.exists_root (breadth_le_bound c.world) ht
  obtain ⟨r, hr, hscope⟩ := exists_requestBehind hc hroot hnone
  refine ⟨q, root, r, hq, hroot, hnone, hr, ?_⟩
  rw [hscope]
  rcases hq with rfl | hancestor
  · cases hroot.symm.trans ht
    exact haction
  · exact htokens.scope_subset hancestor ht hroot haction

/-- What the gateway lets through is in the scope of the stored token. -/
theorem gateway_allows (hc : c.Sound env) {x : InFlight κ} {f : EnforceFrame} {w' : World}
    (hx : x ∈ c.inflight) (hf : x.frame.gateway = some f)
    (hallowed : f.resume env c.world = .ok .allowed w') :
    f.Allows env ∧ ∃ t, c.world.ledger.tokens f.tokenId = some t ∧ f.token.Agrees t := by
  obtain ⟨hread, hid⟩ := (hc.frames x hx).holds.gateway hf
  obtain ⟨-, decision, hdecision, hallows⟩ := Effect.wp_ok (f.resume_spec hc.world hread) hallowed
  cases hdecision
  obtain ⟨t, ht, hagrees⟩ := hread
  exact ⟨hallows.mp rfl, t, hid ▸ ht, hagrees⟩

/-! ## Along every run -/

/-- **Scope never widens.** In every reachable state each token has a scope, a delegated one a
strictly smaller scope than its parent, a root exactly that of the request that an eligible approver
called `approveRequest` on; whatever the gateway allows is granted all the way down; and a chain is
not longer than its head has distinct permissions. -/
theorem scope_never_widens (env : Env) (acts : List (Action κ)) :
    let c := (processMachine κ env).run acts
    (∀ i t, c.world.ledger.tokens i = some t → t.scope ≠ [] ∧
      (∀ p, t.parentTokenId = some p → ∃ parent, c.world.ledger.tokens p = some parent ∧
        t.scope ⊆ parent.scope ∧ ∃ s ∈ parent.scope, s ∉ t.scope) ∧
      (t.parentTokenId = none → ∃ r, RequestBehind c.world t r ∧ r.scope = t.scope ∧
        ApprovalCalled env acts r.id)) ∧
    (∀ tokenId providedSecret action now w',
      enforceToken env tokenId providedSecret action now c.world ≠ .ok (.returned .allowed) w') ∧
    (∀ x ∈ c.inflight, ∀ f w', x.frame.gateway = some f →
      f.resume env c.world = .ok .allowed w' → GrantedDown c.world f.tokenId f.action) ∧
    (∀ root chain, c.world.ledger.IsLineage (root :: chain) →
      (root :: chain).length ≤ root.scope.toFinset.card) := by
  intro c
  have hc : c.Sound env := Config.sound_run acts
  have htokens := hc.linked.tokens
  refine ⟨fun i t ht => ⟨htokens.scope_ne i t ht, ?_, ?_⟩, ?_, ?_, ?_⟩
  · exact fun p hp => htokens.parent i t p ht hp
  · intro hnone
    obtain ⟨r, hr, hscope⟩ := exists_requestBehind hc ht hnone
    obtain ⟨-, e, he, hid, hdecision, hrequest⟩ := id hr
    refine ⟨r, hr, hscope, (approvalsCalled_run acts).logged e.toAuditEntryInput ?_ hdecision _
      hrequest⟩
    refine List.mem_filter.mpr ⟨List.mem_map_of_mem he, ?_⟩
    simp [AuditEntryInput.noteworthy, hdecision]
  · intro tokenId providedSecret action now w' hrun
    have hspec := enforceToken_spec hc.world tokenId providedSecret action now
    exact (Effect.wp_ok hspec hrun).2 rfl
  · intro x hx f w' hf hallowed
    obtain ⟨hallows, t, ht, hagrees⟩ := gateway_allows hc hx hf hallowed
    obtain ⟨-, hscope, -⟩ := decide_eq_allowed.mp hallows.2
    exact grantedDown hc ht (hagrees.scope_eq ▸ hscope)
  · intro root chain hchain
    have hroot := hchain.stored root (List.mem_cons_self ..)
    have hle := hchain.forest.length_le_rank htokens.breadth_lt fun i hi => ?_
    · rw [Ledger.breadth_eq hroot, List.length_cons, List.length_map] at hle
      exact hle
    · rw [← List.map_cons] at hi
      obtain ⟨t, ht, rfl⟩ := List.mem_map.mp hi
      exact htokens.breadth_pos (hchain.stored t ht)

end Ambit
