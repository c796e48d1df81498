import Ambit.LedgerSecrets
import Ambit.Refinement

/-! Where the secret of a token is: first with the suspended call that drew it, then with the request
whose approval stored it, or at once with the client that delegated, and at last with the client
that claimed it. It is in one of these places at a time, so no secret is handed out twice, as long
as no retried submission finds a request that holds one. -/

namespace Ambit

variable {κ : Type} {env : Env} {acts : List (Action κ)} {c : Config κ}

/-! ## Places -/

/-- The token secrets that an outcome hands to the client. -/
def Outcome.tokenSecrets : Outcome → List String
  | .request pending => pending.tokenSecret.toList
  | .claimed _ secret => [secret]
  | .delegation (.approved _ secret) => [secret]
  | _ => []

/-- The token secrets that calls handed out. -/
def handedOut (settled : List (Settled κ)) : List String :=
  settled.flatMap fun s => s.outcome.tokenSecrets

def issuedSecret (x : InFlight κ) : Option String := x.frame.issuance.map IssueFrame.secret

/-- The token secrets that suspended calls have drawn. -/
def Config.secretsInFlight (c : Config κ) : List String := c.inflight.filterMap issuedSecret

/-- A submission finds no stored request that holds a secret. -/
def Config.FindsNoSecret (c : Config κ) : Action κ → Prop
  | .call _ (.requestToken request _ _) =>
    (existingRequest c.world request).bind PendingRequest.tokenSecret = none
  | _ => True

instance (c : Config κ) (a : Action κ) : Decidable (c.FindsNoSecret a) :=
  match a with
  | .call _ call => match call with
    | .requestToken .. => inferInstanceAs (Decidable (_ = _))
    | .approveRequest _ | .denyRequest .. | .checkRequestTimeout .. | .claimTokenSecret ..
    | .delegateToken _ | .enforceToken .. | .accessMockEndpoint _ | .accessCustomerData _
    | .revokeToken .. | .getTokenLineage _ | .createPolicy .. | .modifyPolicy ..
    | .createRedactionRule .. | .registerAgentIdentity .. | .authenticateAgent _
    | .recordLogin .. | .simulateOutage _ | .recordOutageToggle .. | .setDown .. => .isTrue trivial
  | .resume .. | .clock _ | .restart => .isTrue trivial

/-! ## What an action does with the secrets -/

/-- How an event moves the secrets that suspended calls have drawn, and what it hands out. -/
inductive SecretFlow (env : Env) (supply : ℕ) (secrets : List String) :
    Event → List String → List String → Prop
  | kept {e : Event} {rest : List String} (hrest : rest.Sublist secrets)
      (happroved : ∀ pending t s approver policyId, e ≠ .approved pending t s approver policyId)
      (hclaimed : ∀ r j s, e ≠ .claimed r j s) : SecretFlow env supply secrets e rest []
  | drawn {e : Event} {rest : List String} {n : ℕ} (hrest : rest.Sublist secrets) (hn : supply ≤ n)
      (happroved : ∀ pending t s approver policyId, e ≠ .approved pending t s approver policyId)
      (hclaimed : ∀ r j s, e ≠ .claimed r j s) :
      SecretFlow env supply secrets e (rest ++ [env.randomSecret n]) []
  | approved {pending : PendingRequest} {t : Token} {s approver : String} {policyId : Option String}
      {rest : List String} (hs : s ∈ secrets) (hrest : rest.Sublist secrets) (hgone : s ∉ rest) :
      SecretFlow env supply secrets (.approved pending t s approver policyId) rest []
  | delegated {parent t : Token} {s : String} {rest : List String} (hs : s ∈ secrets)
      (hrest : rest.Sublist secrets) (hgone : s ∉ rest) :
      SecretFlow env supply secrets (.delegated parent t) rest [s]
  | claimed {r : PendingRequest} {j s : String} :
      SecretFlow env supply secrets (.claimed r j s) secrets [s]

/-- The secret of a call that goes on leaves with it. -/
theorem secret_of_eraseIdx {l : List (InFlight κ)} {i : ℕ} {x : InFlight κ} {s : String}
    (hx : l[i]? = some x) (hs : issuedSecret x = some s) (hnodup : (l.filterMap issuedSecret).Nodup) :
    s ∈ l.filterMap issuedSecret ∧ ((l.eraseIdx i).filterMap issuedSecret).Sublist
      (l.filterMap issuedSecret) ∧ s ∉ (l.eraseIdx i).filterMap issuedSecret := by
  refine ⟨List.mem_filterMap.mpr ⟨x, List.mem_of_getElem? hx, hs⟩,
    (List.eraseIdx_sublist ..).filterMap _, ?_⟩
  obtain ⟨hi, hget⟩ := List.getElem?_eq_some_iff.mp hx
  have hsplit : l = l.take i ++ x :: l.drop (i + 1) := by
    rw [← hget, List.getElem_cons_drop, List.take_append_drop]
  rw [List.eraseIdx_eq_take_drop_succ, List.filterMap_append]
  rw [hsplit, List.filterMap_append, List.filterMap_cons, hs, List.nodup_middle,
    List.nodup_cons] at hnodup
  exact hnodup.1

/-- The secret of a call that starts or goes on with an issuance is new. -/
theorem Config.Enters.drawn {a : Action κ} {x : InFlight κ} {s : String} (h : c.Enters env a x)
    (hs : issuedSecret x = some s) : ∃ n, c.world.supply ≤ n ∧ s = env.randomSecret n := by
  obtain ⟨issue, hissue, rfl⟩ := Option.map_eq_some_iff.mp hs
  obtain ⟨client, call, frame⟩ := x
  rcases h with ⟨-, hstarts⟩ | ⟨-, -, -, -, -, -, -, hgoes⟩
  · cases frame with
    | approve frame =>
      cases hissue
      exact hstarts.2
    | delegate frame =>
      cases frame with
      | verifying => cases hissue
      | issuing => exact hstarts.elim
    | _ => cases hissue
  · cases frame with
    | approve frame => exact hgoes.elim
    | delegate frame =>
      cases frame with
      | verifying => cases hissue
      | issuing =>
        cases hissue
        exact hgoes
    | _ => cases hissue

/-- The calls that submit are never suspended. -/
theorem Config.Sound.not_submitting (hc : c.Sound env) {x : InFlight κ} (hx : x ∈ c.inflight)
    (request : SubmittedRequest) (primaryApprover : Option String) (now : Int) :
    x.call ≠ .requestToken request primaryApprover now := by
  intro hcall
  have hawaits := (hc.frames x hx).awaits
  rw [hcall] at hawaits
  exact hawaits

/-- A piece without an event hands out no secret. -/
theorem Call.Idle.no_secret {w : World} {call : Call} {outcome : Option Outcome} {o : Outcome}
    (h : call.Idle w outcome) (ho : outcome = some o)
    (hfinds : ∀ request primaryApprover now, call = .requestToken request primaryApprover now →
      (existingRequest w request).bind PendingRequest.tokenSecret = none) : o.tokenSecrets = [] := by
  obtain ⟨heffective, hrequest⟩ := h o ho
  cases o with
  | request r =>
    obtain ⟨request, primaryApprover, now, hcall, hfound⟩ := hrequest r rfl
    have hnone := hfinds request primaryApprover now hcall
    rw [hfound, Option.bind_some] at hnone
    simp [Outcome.tokenSecrets, hnone]
  | claimed => exact absurd (by cases call <;> trivial) heffective
  | delegation decision =>
    cases decision with
    | approved => exact absurd (by cases call <;> trivial) heffective
    | denied => rfl
  | _ => rfl

/-- Apart from claims and delegations, no action hands out a secret. -/
theorem Config.Advances.no_secret (hc : c.Sound env) {a : Action κ} {e : Event}
    {next : Config κ × Option (Settled κ)} (h : c.Advances env a e next) (ha : c.FindsNoSecret a)
    (hdelegated : ∀ parent t, e ≠ .delegated parent t) (hclaimed : ∀ r j s, e ≠ .claimed r j s) :
    ∀ s ∈ next.2, s.outcome.tokenSecrets = [] := by
  intro settled hsettled
  have hanswers := h.answers settled hsettled
  have hexplains := h.explains
  obtain ⟨client, call, o⟩ := settled
  have hcalled : ∀ outcome, next.2 = outcome.map (Settled.mk client call) →
      outcome = some o := by
    intro outcome hnext
    rw [hsettled] at hnext
    obtain ⟨o', ho', heq⟩ := Option.map_eq_some_iff.mp hnext.symm
    cases heq
    exact ho'
  cases a with
  | call client' call' =>
    obtain ⟨outcome, hnext, hcall⟩ := hexplains
    have hsame : client' = client ∧ call' = call := by
      rw [hsettled] at hnext
      obtain ⟨o', -, heq⟩ := Option.map_eq_some_iff.mp hnext.symm
      cases heq
      exact ⟨rfl, rfl⟩
    obtain ⟨rfl, rfl⟩ := hsame
    have ho := hcalled outcome hnext
    cases e with
    | noted =>
      refine Call.Idle.no_secret hcall ho fun request primaryApprover now hrequest => ?_
      subst hrequest
      exact ha
    | submitted r =>
      obtain ⟨request, primaryApprover, now, rfl, -, hr⟩ := hcall
      cases o with
      | request r' =>
        cases hr r' ho
        simp [Outcome.tokenSecrets, h.enabled.2.2.2]
      | failed => rfl
      | _ => exact hanswers.elim
    | denied pending =>
      obtain ⟨approver, reasonCode, now, rfl, -, hdone⟩ := hcall
      cases ho.symm.trans hdone
      rfl
    | escalated pending backup =>
      obtain ⟨decisionWindowMs, now, rfl⟩ := hcall
      cases o with
      | done | failed => rfl
      | _ => exact hanswers.elim
    | revoked r =>
      cases hcall
      cases o with
      | token | failed => rfl
      | _ => exact hanswers.elim
    | claimed r j s => exact absurd rfl (hclaimed r j s)
    | _ => exact hcall.elim
  | resume i downstream =>
    obtain ⟨-, hnone, -⟩ | ⟨x, outcome, hx, hnext, hframe⟩ := hexplains
    · cases hnone.symm.trans hsettled
    · have hsame : x.client = client ∧ x.call = call := by
        rw [hsettled] at hnext
        obtain ⟨o', -, heq⟩ := Option.map_eq_some_iff.mp hnext.symm
        cases heq
        exact ⟨rfl, rfl⟩
      obtain ⟨rfl, rfl⟩ := hsame
      have ho := hcalled outcome hnext
      have hnot := hc.not_submitting (List.mem_of_getElem? hx)
      cases e with
      | noted =>
        exact Call.Idle.no_secret hframe ho fun request primaryApprover now hcall =>
          absurd hcall (hnot request primaryApprover now)
      | used =>
        obtain ⟨-, -, -, -, -, -, hidle⟩ := hframe
        exact hidle.no_secret ho fun request primaryApprover now hcall =>
          absurd hcall (hnot request primaryApprover now)
      | approved =>
        obtain ⟨-, -, -, -, -, -, -, -, htoken⟩ := hframe
        cases ho.symm.trans htoken
        rfl
      | delegated parent t => exact absurd rfl (hdelegated parent t)
      | _ => exact hframe.elim
  | clock => cases hexplains.1.symm.trans hsettled
  | restart => cases hexplains.1.symm.trans hsettled

/-- **An action moves secrets from place to place.** -/
theorem Config.Advances.flow (hc : c.Sound env) {a : Action κ} {e : Event}
    {next : Config κ × Option (Settled κ)} (h : c.Advances env a e next)
    (hnodup : c.secretsInFlight.Nodup) (ha : c.FindsNoSecret a) :
    SecretFlow env c.world.supply c.secretsInFlight e next.1.secretsInFlight
      (handedOut next.2.toList) := by
  obtain ⟨new, hinflight, hnew⟩ := h.inflight
  have hexplains := h.explains
  have hnext : next.1.secretsInFlight =
      (c.remaining a).filterMap issuedSecret ++ new.toList.filterMap issuedSecret := by
    rw [Config.secretsInFlight, hinflight, List.filterMap_append]
  have hended : ∀ settled, next.2 = some settled → next.1.secretsInFlight =
      (c.remaining a).filterMap issuedSecret := by
    intro settled hsettled
    cases new with
    | none => exact hnext.trans (List.append_nil _)
    | some x => cases (hnew x rfl).2.symm.trans hsettled
  have hremaining : ((c.remaining a).filterMap issuedSecret).Sublist c.secretsInFlight := by
    refine List.Sublist.filterMap _ ?_
    cases a with
    | call | clock => exact List.Sublist.refl _
    | resume => exact List.eraseIdx_sublist ..
    | restart => exact List.nil_sublist _
  have hother : (∀ pending t s approver policyId, e ≠ .approved pending t s approver policyId) →
      (∀ parent t, e ≠ .delegated parent t) → (∀ r j s, e ≠ .claimed r j s) →
      SecretFlow env c.world.supply c.secretsInFlight e next.1.secretsInFlight
        (handedOut next.2.toList) := by
    intro happroved hdelegated hclaimed
    have hnothing : (handedOut next.2.toList) = [] := by
      refine List.flatMap_eq_nil_iff.mpr fun s hs => ?_
      exact h.no_secret hc ha hdelegated hclaimed s (Option.mem_toList.mp hs)
    rw [hnothing, hnext]
    cases hsecret : new.bind issuedSecret with
    | none =>
      have hnil : new.toList.filterMap issuedSecret = [] := by
        cases new with
        | none => rfl
        | some x => simpa using hsecret
      rw [hnil, List.append_nil]
      exact .kept hremaining happroved hclaimed
    | some s =>
      cases new with
      | none => cases hsecret
      | some x =>
        obtain ⟨n, hn, rfl⟩ := (hnew x rfl).1.drawn hsecret
        have hone : [x].filterMap issuedSecret = [env.randomSecret n] :=
          List.filterMap_cons_some hsecret
        rw [Option.toList_some, hone]
        exact .drawn hremaining hn happroved hclaimed
  cases e with
  | approved pending t s approver policyId =>
    obtain ⟨i, downstream, x, f, rfl, hx, hframe, -, -, -, -, hsecret, hout⟩ := hexplains.approved
    obtain ⟨hmem, hsublist, hgone⟩ := secret_of_eraseIdx hx (s := s)
      (by simp [issuedSecret, hframe, Frame.issuance, hsecret]) hnodup
    rw [hended _ hout, hout]
    exact .approved hmem hsublist hgone
  | delegated parent t =>
    obtain ⟨i, downstream, x, input, issue, rfl, hx, hframe, -, -, -, -, hout⟩ := hexplains.delegated
    obtain ⟨hmem, hsublist, hgone⟩ := secret_of_eraseIdx hx (s := issue.secret)
      (by simp [issuedSecret, hframe, Frame.issuance]) hnodup
    rw [hended _ hout, hout]
    exact .delegated hmem hsublist hgone
  | claimed r j s =>
    obtain ⟨client, now, rfl, hout⟩ := hexplains.claimed
    rw [hended _ hout, hout]
    exact .claimed
  | _ =>
    exact hother (fun _ _ _ _ _ => Event.noConfusion) (fun _ _ => Event.noConfusion)
      fun _ _ _ => Event.noConfusion

/-! ## Custody -/

/-- What suspended calls have drawn is behind the supply. -/
theorem Config.Sound.drawn (hc : c.Sound env) {s : String} (hs : s ∈ c.secretsInFlight) :
    ∃ n < c.world.supply, s = env.randomSecret n := by
  obtain ⟨x, hx, hsecret⟩ := List.mem_filterMap.mp hs
  obtain ⟨issue, hissue, rfl⟩ := Option.map_eq_some_iff.mp hsecret
  have hholds := (hc.frames x hx).holds
  obtain ⟨client, call, frame⟩ := x
  cases frame with
  | approve frame =>
    cases hissue
    exact hholds.issue.secret_drawn
  | delegate frame =>
    cases frame with
    | verifying => cases hissue
    | issuing =>
      cases hissue
      obtain ⟨parent, -, -, hissue⟩ := hholds
      exact hissue.secret_drawn
  | _ => cases hissue

namespace SecretFlow

variable {supply : ℕ} {secrets done rest out : List String} {e : Event} {s : String}

theorem mem_rest (h : SecretFlow env supply secrets e rest out) (hs : s ∈ rest) :
    s ∈ secrets ∨ ∃ n, supply ≤ n ∧ s = env.randomSecret n := by
  cases h with
  | kept hrest => exact .inl (hrest.subset hs)
  | @drawn _ _ n hrest hn =>
    rcases List.mem_append.mp hs with hs | hs
    · exact .inl (hrest.subset hs)
    · exact .inr ⟨n, hn, List.mem_singleton.mp hs⟩
  | approved _ hrest => exact .inl (hrest.subset hs)
  | delegated _ hrest => exact .inl (hrest.subset hs)
  | claimed => exact .inl hs

theorem mem_out (h : SecretFlow env supply secrets e rest out) (hs : s ∈ out) :
    s ∈ secrets ∨ ∃ r j, e = .claimed r j s := by
  cases h with
  | kept | drawn | approved => cases hs
  | delegated hmem =>
    cases List.mem_singleton.mp hs
    exact .inl hmem
  | claimed =>
    cases List.mem_singleton.mp hs
    exact .inr ⟨_, _, rfl⟩

theorem stored {pending : PendingRequest} {t : Token} {approver : String} {policyId : Option String}
    (h : SecretFlow env supply secrets (.approved pending t s approver policyId) rest out) :
    s ∈ secrets ∧ s ∉ rest ∧ out = [] := by
  cases h with
  | kept _ happroved => exact absurd rfl (happroved _ _ _ _ _)
  | drawn _ _ happroved => exact absurd rfl (happroved _ _ _ _ _)
  | approved hs _ hgone => exact ⟨hs, hgone, rfl⟩

/-- No secret comes to be in two places. -/
theorem nodup (h : SecretFlow env supply secrets e rest out) (hnodup : (secrets ++ done).Nodup)
    (hdrawn : ∀ s ∈ secrets ++ done, ∃ n < supply, s = env.randomSecret n)
    (hclaimed : ∀ r j s, e = .claimed r j s → s ∉ secrets ++ done) :
    (rest ++ (done ++ out)).Nodup := by
  cases h with
  | kept hrest =>
    rw [List.append_nil]
    exact hnodup.sublist (hrest.append_right done)
  | @drawn _ rest n hrest hn =>
    rw [List.append_nil, List.append_assoc, List.singleton_append, List.nodup_middle,
      List.nodup_cons]
    refine ⟨fun hmem => ?_, hnodup.sublist (hrest.append_right done)⟩
    obtain ⟨m, hm, hsame⟩ := hdrawn _ ((hrest.append_right done).subset hmem)
    have hnm := env.randomSecret_injective hsame
    omega
  | approved _ hrest =>
    rw [List.append_nil]
    exact hnodup.sublist (hrest.append_right done)
  | @delegated _ _ s _ hs hrest hgone =>
    rw [← List.append_assoc, List.nodup_append_comm, List.singleton_append, List.nodup_cons]
    refine ⟨fun hmem => ?_, hnodup.sublist (hrest.append_right done)⟩
    rcases List.mem_append.mp hmem with hmem | hmem
    · exact hgone hmem
    · exact (List.nodup_append.mp hnodup).2.2 s hs s hmem rfl
  | claimed =>
    rw [← List.append_assoc, List.nodup_append_comm, List.singleton_append, List.nodup_cons]
    exact ⟨hclaimed _ _ _ rfl, hnodup⟩

end SecretFlow

/-- The call claims the secret `s` of the token `j` for the subject that submitted the request
`i`, and the claim is logged. -/
def Settled.Claims (L : Ledger) (i j s : String) (settled : Settled κ) : Prop :=
  settled.outcome = .claimed j s ∧ L.log.countP (isClaimOf j) ≠ 0 ∧
    ∃ r now, L.requests i = some r ∧ settled.call = .claimTokenSecret i r.subject now

theorem Settled.Claims.after {p : Platform} {L : Ledger} {e : Event} {i j s : String}
    {settled : Settled κ} (h : settled.Claims L i j s) (he : L.Enabled p e) :
    settled.Claims (L.after e) i j s := by
  obtain ⟨houtcome, hlogged, r, now, hr, hcall⟩ := h
  obtain ⟨r', hr', hagrees⟩ := he.request_stays hr
  refine ⟨houtcome, ?_, r', now, hr', by rw [hcall, hagrees.subject_eq]⟩
  rw [Ledger.countP_claims_after]
  omega

/-- Each secret is in one place: in flight, with a request, or handed out. One that a request held,
which `was` records, is handed out by nothing but its claim. -/
structure Custody (env : Env) (c : Config κ) (settled : List (Settled κ))
    (was : String → String → String → Prop) : Prop where
  claims : c.world.ledger.ClaimsOnce
  nodup : (c.secretsInFlight ++ handedOut settled).Nodup
  drawn : ∀ s ∈ handedOut settled, ∃ n < c.world.supply, s = env.randomSecret n
  current : ∀ i j s, c.world.ledger.Holds i j s → was i j s
  kept : ∀ i j s, c.world.ledger.Holds i j s → s ∉ handedOut settled
  held : ∀ i j s, was i j s → (∃ n < c.world.supply, s = env.randomSecret n) ∧
    s ∉ c.secretsInFlight ∧ ∀ i' j', c.world.ledger.Holds i' j' s → i' = i ∧ j' = j
  claimed : ∀ i j s, was i j s → ∀ x ∈ settled, s ∈ x.outcome.tokenSecrets →
    x.Claims c.world.ledger i j s

namespace Custody

variable {settled : List (Settled κ)} {was : String → String → String → Prop} {a : Action κ}
  {e : Event} {next : Config κ × Option (Settled κ)} {i j s : String}

theorem not_handed (h : Custody env c settled was) (hs : s ∈ c.secretsInFlight) :
    s ∉ handedOut settled :=
  fun hmem => (List.nodup_append.mp h.nodup).2.2 s hs s hmem rfl

theorem flow (h : Custody env c settled was) (hc : c.Sound env) (hadv : c.Advances env a e next)
    (ha : c.FindsNoSecret a) : SecretFlow env c.world.supply c.secretsInFlight e
      next.1.secretsInFlight (handedOut next.2.toList) :=
  hadv.flow hc (List.nodup_append.mp h.nodup).1 ha

/-- Where a request has its secret from. -/
theorem holds_next (hc : c.Sound env) (hadv : c.Advances env a e next)
    (hholds : next.1.world.ledger.Holds i j s) :
    (∃ pending t approver policyId, e = .approved pending t s approver policyId ∧ pending.id = i ∧
      t.id = j) ∨ c.world.ledger.Holds i j s ∧ ∀ r j' s', e = .claimed r j' s' → r.id ≠ i := by
  rw [hadv.ledger_eq] at hholds
  exact Ledger.holds_after hc.linked.requests hadv.enabled hholds

theorem holds_of_claimed (hadv : c.Advances env a e next) {r : PendingRequest}
    (he : e = .claimed r j s) : c.world.ledger.Holds r.id j s := by
  subst he
  obtain ⟨hr, -, hj, hs⟩ := hadv.enabled
  exact ⟨r, hr, hj, hs⟩

theorem nodup_next (h : Custody env c settled was) (hc : c.Sound env)
    (hadv : c.Advances env a e next) (ha : c.FindsNoSecret a) :
    (next.1.secretsInFlight ++ handedOut (settled ++ next.2.toList)).Nodup := by
  rw [handedOut, List.flatMap_append]
  refine (h.flow hc hadv ha).nodup h.nodup (fun s hs => ?_) fun r j s he hs => ?_
  · rcases List.mem_append.mp hs with hs | hs
    · exact hc.drawn hs
    · exact h.drawn s hs
  · have hholds := holds_of_claimed hadv he
    rcases List.mem_append.mp hs with hs | hs
    · exact (h.held r.id j s (h.current _ _ _ hholds)).2.1 hs
    · exact h.kept r.id j s hholds hs

/-- What a request held stays where it is, or is claimed from this request. -/
theorem held_next (h : Custody env c settled was) (hc : c.Sound env)
    (hadv : c.Advances env a e next) (ha : c.FindsNoSecret a) (hwas : was i j s) :
    ((∃ n < next.1.world.supply, s = env.randomSecret n) ∧ s ∉ next.1.secretsInFlight ∧
      ∀ i' j', next.1.world.ledger.Holds i' j' s → i' = i ∧ j' = j) ∧
    (s ∈ handedOut next.2.toList → ∃ r, e = .claimed r j s ∧ r.id = i) := by
  obtain ⟨⟨n, hn, hs⟩, hout, honly⟩ := h.held i j s hwas
  have hflow := h.flow hc hadv ha
  refine ⟨⟨⟨n, hn.trans_le hadv.supply_le, hs⟩, fun hmem => ?_, fun i' j' hholds => ?_⟩, ?_⟩
  · rcases hflow.mem_rest hmem with hmem | ⟨m, hm, hm'⟩
    · exact hout hmem
    · have hsame := env.randomSecret_injective (hs.symm.trans hm')
      omega
  · rcases holds_next hc hadv hholds with ⟨pending, t, approver, policyId, rfl, -⟩ | ⟨hold, -⟩
    · exact absurd hflow.stored.1 hout
    · exact honly i' j' hold
  · intro hmem
    rcases hflow.mem_out hmem with hmem | ⟨r, j', he⟩
    · exact absurd hmem hout
    · obtain ⟨hid, rfl⟩ := honly r.id j' (holds_of_claimed hadv he)
      exact ⟨r, he, hid⟩

/-- A secret that is stored with its request was in flight, and is nowhere else now. -/
theorem stored_next (h : Custody env c settled was) (hc : c.Sound env)
    (hadv : c.Advances env a e next) (ha : c.FindsNoSecret a) {pending : PendingRequest}
    {t : Token} {approver : String} {policyId : Option String}
    (he : e = .approved pending t s approver policyId) :
    ((∃ n < next.1.world.supply, s = env.randomSecret n) ∧ s ∉ next.1.secretsInFlight ∧
      ∀ i' j', next.1.world.ledger.Holds i' j' s → i' = pending.id ∧ j' = t.id) ∧
    s ∉ handedOut (settled ++ next.2.toList) := by
  subst he
  obtain ⟨hmem, hgone, hnothing⟩ := (h.flow hc hadv ha).stored
  obtain ⟨n, hn, hs⟩ := hc.drawn hmem
  refine ⟨⟨⟨n, hn.trans_le hadv.supply_le, hs⟩, hgone, fun i' j' hholds => ?_⟩, ?_⟩
  · rcases holds_next hc hadv hholds with ⟨_, _, _, _, he, hi, hj⟩ | ⟨hold, -⟩
    · cases he
      exact ⟨hi.symm, hj.symm⟩
    · exact absurd hmem (h.held i' j' s (h.current i' j' s hold)).2.1
  · rw [handedOut, List.flatMap_append, List.mem_append, not_or]
    refine ⟨h.not_handed hmem, ?_⟩
    have hnothing' : (next.2.toList.flatMap fun x => x.outcome.tokenSecrets) = [] := hnothing
    rw [hnothing']
    exact List.not_mem_nil

/-- **Every action keeps custody.** -/
theorem after (h : Custody env c settled was) (hc : c.Sound env)
    (hadv : c.Advances env a e next) (ha : c.FindsNoSecret a) : Custody env next.1 (settled ++ next.2.toList)
      fun i j s => was i j s ∨ next.1.world.ledger.Holds i j s where
  claims := by
    rw [hadv.ledger_eq]
    exact h.claims.after hc.linked hadv.enabled
  nodup := h.nodup_next hc hadv ha
  drawn s hs := by
    rw [handedOut, List.flatMap_append] at hs
    have hbefore : ∃ n < c.world.supply, s = env.randomSecret n := by
      rcases List.mem_append.mp hs with hs | hs
      · exact h.drawn s hs
      · rcases (h.flow hc hadv ha).mem_out hs with hs | ⟨r, j, he⟩
        · exact hc.drawn hs
        · exact (h.held _ _ _ (h.current _ _ _ (holds_of_claimed hadv he))).1
    obtain ⟨n, hn, hs⟩ := hbefore
    exact ⟨n, hn.trans_le hadv.supply_le, hs⟩
  current i j s hholds := .inr hholds
  kept i j s hholds := by
    rcases holds_next hc hadv hholds with ⟨_, _, _, _, he, -⟩ | ⟨hold, hkept⟩
    · exact (h.stored_next hc hadv ha he).2
    · rw [handedOut, List.flatMap_append, List.mem_append, not_or]
      refine ⟨h.kept i j s hold, fun hmem => ?_⟩
      obtain ⟨r, he, hid⟩ := (h.held_next hc hadv ha (h.current i j s hold)).2 hmem
      exact hkept r j s he hid
  held i j s hwas := by
    rcases hwas with hwas | hholds
    · exact (h.held_next hc hadv ha hwas).1
    · rcases holds_next hc hadv hholds with ⟨_, _, _, _, he, rfl, rfl⟩ | ⟨hold, -⟩
      · exact (h.stored_next hc hadv ha he).1
      · exact (h.held_next hc hadv ha (h.current i j s hold)).1
  claimed i j s hwas x hx hs := by
    have hmem : s ∈ handedOut (settled ++ next.2.toList) := List.mem_flatMap.mpr ⟨x, hx, hs⟩
    have hbefore : was i j s := by
      rcases hwas with hwas | hholds
      · exact hwas
      · rcases holds_next hc hadv hholds with ⟨_, _, _, _, he, -⟩ | ⟨hold, -⟩
        · exact absurd hmem (h.stored_next hc hadv ha he).2
        · exact h.current i j s hold
    rcases List.mem_append.mp hx with hx | hx
    · rw [hadv.ledger_eq]
      exact (h.claimed i j s hbefore x hx hs).after hadv.enabled
    · obtain ⟨r, rfl, rfl⟩ := (h.held_next hc hadv ha hbefore).2 (List.mem_flatMap.mpr ⟨x, hx, hs⟩)
      obtain ⟨client, now, -, hout⟩ := hadv.explains.claimed
      cases (Option.mem_toList.mp hx).symm.trans hout
      obtain ⟨r', hr', hagrees⟩ := hadv.enabled.request_stays hadv.enabled.1
      refine ⟨rfl, ?_, r', now, ?_, ?_⟩
      · rw [hadv.ledger_eq, Ledger.countP_claims_after]
        simp [Event.entries, isClaimOf, claimEntry]
      · rw [hadv.ledger_eq]
        exact hr'
      · rw [hagrees.subject_eq]

end Custody

/-! ## Custody along a run -/

/-- The request `i` has held the secret `s` of the token `j`. -/
def WasHeld (env : Env) (acts : List (Action κ)) (i j s : String) : Prop :=
  ∃ pre post, acts = pre ++ post ∧ ((processMachine κ env).run pre).world.ledger.Holds i j s

theorem wasHeld_snoc {a : Action κ} : WasHeld env (acts ++ [a]) = fun i j s =>
    WasHeld env acts i j s ∨
      ((processMachine κ env).run (acts ++ [a])).world.ledger.Holds i j s := by
  funext i j s
  refine propext ⟨?_, ?_⟩
  · rintro ⟨pre, post, hacts, hholds⟩
    rcases List.eq_nil_or_concat post with rfl | ⟨post', b, rfl⟩
    · rw [List.append_nil] at hacts
      exact .inr (hacts ▸ hholds)
    · rw [List.concat_eq_append, ← List.append_assoc] at hacts
      exact .inl ⟨pre, post', (List.append_inj' hacts rfl).1, hholds⟩
  · rintro (⟨pre, post, rfl, hholds⟩ | hholds)
    · exact ⟨pre, post ++ [a], by simp, hholds⟩
    · exact ⟨acts ++ [a], [], (List.append_nil _).symm, hholds⟩

theorem custody_nil :
    Custody env ((processMachine κ env).run []) [] (WasHeld env ([] : List (Action κ))) := by
  have hempty : ((processMachine κ env).run []).world.ledger = Ledger.empty := ledger_boot
  have hnone : ∀ i j s, ¬ ((processMachine κ env).run []).world.ledger.Holds i j s := by
    rintro i j s ⟨r, hr, -⟩
    rw [hempty] at hr
    cases hr
  have hheld : ∀ i j s, ¬ WasHeld env ([] : List (Action κ)) i j s := by
    rintro i j s ⟨pre, post, hacts, hholds⟩
    obtain ⟨rfl, -⟩ := List.append_eq_nil_iff.mp hacts.symm
    exact hnone i j s hholds
  exact {
    claims := by
      rw [hempty]
      exact Ledger.claimsOnce_empty
    nodup := List.nodup_nil
    drawn := fun s hs => by cases hs
    current := fun i j s hholds => absurd hholds (hnone i j s)
    kept := fun i j s hholds => absurd hholds (hnone i j s)
    held := fun i j s hwas => absurd hwas (hheld i j s)
    claimed := fun i j s hwas => absurd hwas (hheld i j s) }

/-- **Custody holds along every run whose submissions find no secret.** -/
theorem custody_run (h : (processMachine κ env).Meets Config.FindsNoSecret acts) :
    Custody env ((processMachine κ env).run acts) (settledCalls env acts) (WasHeld env acts) := by
  refine h.induction (P := fun acts => Custody env ((processMachine κ env).run acts)
    (settledCalls env acts) (WasHeld env acts)) custody_nil fun acts a _ ha ih => ?_
  obtain ⟨e, hadv⟩ := (@Config.sound_run env _ acts).exec a
  rw [wasHeld_snoc, settledCalls_snoc, Machine.run_snoc]
  exact ih.after (Config.sound_run acts) hadv ha

end Ambit
