import Ambit.InterruptedRevocation

/-! Retried revocations: which interrupted calls a later one makes up for. -/

namespace Ambit

open Effect Forest DepthFirst

variable {env : Env} {w w' : World} {id i q : String} {a : RevocationAttempt}

/-- A token with a parent is stored, and so revoked if it is not active. -/
theorem Ledger.revoked_iff_of_ancestor {L : Ledger} (h : Ancestor L.Parent i q) :
    L.Revoked i ↔ ¬ L.Active i := by
  obtain ⟨p, ⟨t, ht, -⟩, -⟩ := Relation.TransGen.head'_iff.mp h
  rw [Ledger.not_active_iff ht]
  constructor
  · rintro ⟨t', ht', hrevoked⟩
    cases ht.symm.trans ht'
    exact hrevoked
  · exact fun hrevoked => ⟨t, ht, hrevoked⟩

/-! ## What the calls leave to a retry -/

namespace World

/-- Below `id` the tokens with a revocation entry are those that are not active, and no active token
has a parent that is not. -/
structure Resumable (w : World) (id : String) : Prop where
  logged_iff : ∀ i, Ancestor w.ledger.Parent i id → (w.Logged i ↔ ¬ w.ledger.Active i)
  closed : ∀ i q, w.ledger.Parent i q → Ancestor w.ledger.Parent q id → ¬ w.ledger.Active q →
    ¬ w.ledger.Active i

/-- A cascade from `id` misses something: a token below it that is not active has no revocation
entry, or a token is active below one that is not. -/
inductive Stuck (w : World) (id : String) : Prop
  | unlogged (i : String) (hbelow : Ancestor w.ledger.Parent i id) (htaken : ¬ w.ledger.Active i)
      (hmissing : ¬ w.Logged i)
  | cutOff (i q : String) (hparent : w.ledger.Parent i q) (hbelow : Ancestor w.ledger.Parent q id)
      (hactive : w.ledger.Active i) (htaken : ¬ w.ledger.Active q)

theorem TokenForest.resumable (h : w.TokenForest) (id : String) : w.Resumable id where
  logged_iff i hbelow := by
    obtain ⟨p, ⟨t, ht, -⟩, -⟩ := Relation.TransGen.head'_iff.mp hbelow
    rw [Ledger.not_active_iff ht]
    exact (h.logged i t ht).symm
  closed i q hparent hbelow htaken := by
    have hrevoked := (Ledger.revoked_iff_of_ancestor hbelow).mpr htaken
    exact (Ledger.revoked_iff_of_ancestor (.single hparent)).mp (h.closed i q hparent hrevoked)

theorem Stuck.not_revokedBelow (h : w.Stuck id) : ¬ w.RevokedBelow id := by
  intro hrevoked
  cases h with
  | unlogged i hbelow htaken hmissing => exact hmissing (hrevoked i hbelow).2
  | cutOff i q hparent hbelow hactive htaken =>
    have hbelow' : Ancestor w.ledger.Parent i id := .head hparent hbelow
    exact (Ledger.revoked_iff_of_ancestor hbelow').mp (hrevoked i hbelow').1 hactive

/-- The cascade of a state that can be resumed comes to every active token below `id`. -/
theorem Resumable.mem_order (h : w.Resumable id) (hforested : w.Forested)
    (hbelow : Ancestor w.ledger.Parent i id) (hactive : w.ledger.Active i) :
    i ∈ (w.cascadeOrder id).map Token.id := by
  induction hbelow using Relation.TransGen.head_induction_on with
  | single hparent => exact hforested.mem_order hparent hactive (.inl rfl)
  | @head i q hparent hbelow ih =>
    have hq : w.ledger.Active q := by
      by_contra htaken
      exact h.closed i q hparent hbelow htaken hactive
    exact hforested.mem_order hparent hactive (.inr (ih hq))

/-- A cascade can be resumed where it logs what it takes, and takes the active children with it. -/
theorem Resumable.cascaded {taken logged : List String} (h : w.Resumable id)
    (hleft : w.Cascaded taken logged w')
    (hagree : ∀ i, Ancestor w.ledger.Parent i id → (i ∈ logged ↔ i ∈ taken))
    (hclosed : ∀ i q, w.ledger.Parent i q → Ancestor w.ledger.Parent q id → w.ledger.Active i →
      q ∈ taken → i ∈ taken) : w'.Resumable id where
  logged_iff i hbelow := by
    have hbelow' := hleft.ancestor_iff.mp hbelow
    rw [hleft.logged_iff, hleft.active_iff, h.logged_iff i hbelow', hagree i hbelow', not_and_or,
      not_not]
  closed i q hparent hbelow htaken hactive := by
    have hparent' := hleft.parent_iff.mp hparent
    have hbelow' := hleft.ancestor_iff.mp hbelow
    obtain ⟨hactive', hi⟩ := (hleft.active_iff i).mp hactive
    have hq : w.ledger.Active q := by
      by_contra hq
      exact h.closed i q hparent' hbelow' hq hactive'
    have hmem : q ∈ taken := by
      by_contra hmem
      exact htaken ((hleft.active_iff q).mpr ⟨hq, hmem⟩)
    exact hi (hclosed i q hparent' hbelow' hactive' hmem)

/-- What a cascade missed, every later one misses. -/
theorem Stuck.cascaded {taken logged : List String} (h : w.Stuck id) (hforested : w.Forested)
    (hleft : w.Cascaded taken logged w') (htaken : taken ⊆ id :: (w.cascadeOrder id).map Token.id)
    (hlogged : logged ⊆ id :: (w.cascadeOrder id).map Token.id) : w'.Stuck id := by
  cases h with
  | unlogged i hbelow hgone hmissing =>
    refine .unlogged i (hleft.ancestor_iff.mpr hbelow) (fun h => ?_) fun h => ?_
    · exact hgone ((hleft.active_iff i).mp h).1
    · rcases (hleft.logged_iff i).mp h with h | h
      · exact hmissing h
      · rcases List.mem_cons.mp (hlogged h) with rfl | hmem
        · exact hforested.acyclic _ hbelow
        · obtain ⟨t, ht, rfl⟩ := List.mem_map.mp hmem
          obtain ⟨hstored, hactive, -⟩ := hforested.keyed.of_mem_order ht
          exact hgone ⟨t, hstored, hactive⟩
  | cutOff i q hparent hbelow hactive hgone =>
    refine .cutOff i q (hleft.parent_iff.mpr hparent) (hleft.ancestor_iff.mpr hbelow) ?_ fun h => ?_
    · refine (hleft.active_iff i).mpr ⟨hactive, fun hi => ?_⟩
      rcases List.mem_cons.mp (htaken hi) with rfl | hmem
      · exact hforested.acyclic _ (.head hparent hbelow)
      · obtain ⟨t, ht, rfl⟩ := List.mem_map.mp hmem
        rcases hforested.keyed.parent_of_mem_order ht hparent with rfl | hq
        · exact hforested.acyclic _ hbelow
        · exact hgone hq
    · exact hgone ((hleft.active_iff q).mp h).1

end World

/-! ## One call -/

/-- Whatever a call takes or logs is the token or in the order. -/
theorem CallEnds.within {r : Except Err Token} (h : CallEnds env w id a r w') :
    ∃ taken logged, w.Cascaded taken logged w' ∧
      taken ⊆ id :: (w.cascadeOrder id).map Token.id ∧
      logged ⊆ id :: (w.cascadeOrder id).map Token.id := by
  cases h with
  | refused err hcause hleft => exact ⟨[], [], hleft, List.nil_subset _, List.nil_subset _⟩
  | first logged hlogged hfirst hleft =>
    have hid : [id] ⊆ id :: (w.cascadeOrder id).map Token.id := by simp
    exact ⟨_, _, hleft, hid, List.Subset.trans hlogged hid⟩
  | interrupted _ xs ys t saved hadmits horder hfirst hsaved hleft =>
    refine ⟨_, _, hleft, List.cons_subset_cons _ ?_, List.cons_subset_cons _ ?_⟩
    · rw [horder]
      exact List.map_subset _ (by simp)
    · rw [horder]
      cases saved <;> exact List.map_subset _ (by simp)
  | completed token hstored hleft => exact ⟨_, _, hleft, List.Subset.refl _, List.Subset.refl _⟩

theorem getElem?_length_succ (xs : List Token) (t : Token) (ys : List Token) :
    (xs ++ t :: ys)[xs.length + 1]? = ys.head? := by
  rw [List.getElem?_append_right (Nat.le_add_right _ _), Nat.add_sub_cancel_left, List.getElem?_cons_succ,
    List.head?_eq_getElem?]

/-- A call that is spared can be made up for. -/
theorem CallEnds.resumable {r : Except Err Token} (h : CallEnds env w id a r w')
    (hforested : w.Forested) (hresumable : w.Resumable id) (hspares : a.SparesDescendants env id w) :
    w'.Resumable id := by
  have hne : ∀ {i}, Ancestor w.ledger.Parent i id → i ≠ id :=
    fun hbelow heq => hforested.acyclic _ (heq ▸ hbelow)
  cases h with
  | refused err hcause hleft =>
    exact hresumable.cascaded hleft (fun i _ => Iff.rfl) fun i q _ _ _ hq => by cases hq
  | first logged hlogged hfirst hleft =>
    refine hresumable.cascaded hleft (fun i hbelow => ?_) fun i q _ hbelow _ hq => ?_
    · have hi : i ∉ [id] := by simpa using hne hbelow
      exact iff_of_false (fun h => hi (hlogged h)) hi
    · exact absurd (List.mem_singleton.mp hq) (hne hbelow)
  | interrupted _ xs ys t saved hadmits horder hfirst hsaved hleft =>
    have hturn := (hspares.resolve_left hadmits.1).resolve_left hadmits.2
    rw [hfirst] at hturn
    obtain ⟨hfine, hturn⟩ := hturn
    obtain rfl : saved = true := by
      rw [hfine] at hsaved
      exact (Bool.not_eq_false' saved).mp hsaved.symm
    have horder' : w.cascadeOrder id = (xs ++ [t]) ++ ys := by simpa using horder
    refine hresumable.cascaded hleft (fun i _ => Iff.rfl) fun i q hparent hbelow hactive hq => ?_
    have hq' := (List.mem_cons.mp hq).resolve_left (hne hbelow)
    refine List.mem_cons_of_mem _ (hforested.prefix_order horder' (fun r hr => ?_) hparent hactive hq')
    exact hturn r (by rw [horder, getElem?_length_succ, hr])
  | completed token hstored hleft =>
    refine hresumable.cascaded hleft (fun i _ => Iff.rfl) fun i q hparent hbelow hactive _ => ?_
    exact List.mem_cons_of_mem _ (hresumable.mem_order hforested (.head hparent hbelow) hactive)

/-- A call that is not spared leaves something that every later call misses. -/
theorem CallEnds.stuck {err : Err} (h : CallEnds env w id a (.error err) w')
    (hforested : w.Forested) (hresumable : w.Resumable id)
    (hstored : w.tokenStore.live.get id ≠ none) (hspares : ¬ a.SparesDescendants env id w) :
    w'.Stuck id := by
  have hadmits : ¬ (w.facing a).Rejects env ∧ ¬ ((w.facing a).Probes ∧ a.circuitFails = true) :=
    ⟨fun h => hspares (.inl h), fun h => hspares (.inr (.inl h))⟩
  have hrest := fun h => hspares (.inr (.inr h))
  cases h with
  | refused _ hcause hleft =>
    exact absurd ((hcause.resolve_left hadmits.1).resolve_left hadmits.2) hstored
  | first logged hlogged hfirst hleft =>
    rw [hfirst] at hrest
    exact absurd trivial hrest
  | interrupted _ xs ys t saved _ horder hfirst hsaved hleft =>
    rw [hfirst] at hrest
    have ht : t ∈ w.cascadeOrder id := by simp [horder]
    obtain ⟨hstored, hactive, hbelow⟩ := hforested.keyed.of_mem_order ht
    have hnodup : ((w.cascadeOrder id).map Token.id).Nodup := (hforested.isForest.tree id).preorder_nodup _
    rw [horder] at hnodup
    cases saved with
    | false =>
      -- the record of `t` is revoked, and its entry was not written
      refine .unlogged t.id (hleft.ancestor_iff.mpr hbelow) (fun h => ?_) fun h => ?_
      · exact ((hleft.active_iff t.id).mp h).2 (by simp)
      · rcases (hleft.logged_iff t.id).mp h with h | h
        · exact (hresumable.logged_iff t.id hbelow).mp h ⟨t, hstored, hactive⟩
        · rcases List.mem_cons.mp h with heq | h
          · exact hforested.acyclic _ (heq ▸ hbelow)
          · rw [List.map_append, List.nodup_append] at hnodup
            exact hnodup.2.2 _ h _ (by simp) rfl
    | true =>
      -- the next token is active below one that is not
      have hturn : ∃ r, (w.cascadeOrder id)[xs.length + 1]? = some r ∧
          r.parentTokenId ≠ some id := by
        by_contra hturn
        push Not at hturn
        exact hrest ⟨hsaved, hturn⟩
      obtain ⟨r, hr, hroot⟩ := hturn
      rw [horder, getElem?_length_succ] at hr
      obtain ⟨ys, rfl⟩ := List.head?_eq_some_iff.mp hr
      have horder' : w.cascadeOrder id = (xs ++ [t]) ++ r :: ys := by simpa using horder
      have hr : r ∈ w.cascadeOrder id := by simp [horder]
      obtain ⟨hstored', hactive', -⟩ := hforested.keyed.of_mem_order hr
      rcases parent_before horder' with hkid | ⟨c, hc, hkid⟩
      · exact absurd (hforested.keyed.mem_activeChildren.mp hkid).2.1 hroot
      obtain ⟨-, hparent, -⟩ := hforested.keyed.mem_activeChildren.mp hkid
      have hcmem : c ∈ w.cascadeOrder id := by
        rw [horder']
        exact List.mem_append_left _ hc
      obtain ⟨-, -, hbelow'⟩ := hforested.keyed.of_mem_order hcmem
      refine .cutOff r.id c.id (hleft.parent_iff.mpr ⟨r, hstored', hparent⟩)
        (hleft.ancestor_iff.mpr hbelow') ((hleft.active_iff r.id).mpr ⟨⟨r, hstored', hactive'⟩, ?_⟩)
        fun h => ((hleft.active_iff c.id).mp h).2 (List.mem_cons_of_mem _ (List.mem_map_of_mem hc))
      intro hmem
      rcases List.mem_cons.mp hmem with heq | hmem
      · have habove : Ancestor w.ledger.Parent r.id id := .head ⟨r, hstored', hparent⟩ hbelow'
        exact hforested.acyclic id (heq ▸ habove)
      · rw [← horder, horder', List.map_append, List.nodup_append] at hnodup
        exact hnodup.2.2 _ hmem _ (by simp) rfl

/-- A call that returns, from a state that can be resumed, completes the revocation. -/
theorem CallEnds.revokedBelow {token : Token} (h : CallEnds env w id a (.ok token) w')
    (hforested : w.Forested) (hresumable : w.Resumable id) : w'.RevokedBelow id := by
  cases h with
  | completed _ hstored hleft =>
    intro i hbelow
    rw [Ledger.revoked_iff_of_ancestor hbelow, hleft.active_iff, hleft.logged_iff]
    rw [hleft.ancestor_iff] at hbelow
    by_cases hactive : w.ledger.Active i
    · have hmem := hresumable.mem_order hforested hbelow hactive
      exact ⟨fun h => h.2 (List.mem_cons_of_mem _ hmem), .inr (List.mem_cons_of_mem _ hmem)⟩
    · exact ⟨fun h => hactive h.1, .inl ((hresumable.logged_iff i hbelow).mpr hactive)⟩

theorem CallEnds.stored {token : Token} (h : CallEnds env w id a (.ok token) w') :
    w.tokenStore.live.get id ≠ none := by
  cases h with
  | completed _ hstored _ => exact hstored

/-! ## Calls one after another -/

section
variable {attempts : List RevocationAttempt}

theorem World.Forested.call_ends (h : w.Forested) (env : Env) (id : String)
    (a : RevocationAttempt) :
    CallEnds env w id a (result (a.call env id) (w.facing a))
      ((revocationMachine env id w).step w a) := wp_iff.mp (a.call_ends h id)

/-- No call changes which tokens are stored, and which are their parents. -/
theorem World.Forested.run (h : w.Forested) (env : Env) (id : String)
    (attempts : List RevocationAttempt) :
    ((revocationMachine env id w).run attempts).Forested ∧
      (((revocationMachine env id w).run attempts).tokenStore.live.get id ≠ none ↔
        w.tokenStore.live.get id ≠ none) := by
  induction attempts using List.reverseRecOn with
  | nil => exact ⟨h, Iff.rfl⟩
  | append_singleton attempts a ih =>
    obtain ⟨hforested, hstored⟩ := ih
    rw [Machine.run_snoc]
    obtain ⟨taken, logged, hleft, -, -⟩ := (hforested.call_ends env id a).within
    exact ⟨hleft.forested hforested, hleft.stored_iff.trans hstored⟩

/-- A call that throws and is not spared leaves something that no later call makes up for. -/
theorem resumable_or_stuck (hforest : w.TokenForest) (hstored : w.tokenStore.live.get id ≠ none)
    (hthrows : (revocationMachine env id w).Meets (fun w a => a.Throws env id w) attempts) :
    ((revocationMachine env id w).Meets (fun w a => a.SparesDescendants env id w) attempts →
      ((revocationMachine env id w).run attempts).Resumable id) ∧
    (¬ (revocationMachine env id w).Meets (fun w a => a.SparesDescendants env id w) attempts →
      ((revocationMachine env id w).run attempts).Stuck id) := by
  induction attempts using List.reverseRecOn with
  | nil => exact ⟨fun _ => hforest.resumable id, fun h => absurd Machine.meets_nil h⟩
  | append_singleton attempts a ih =>
    obtain ⟨hthrows, ha⟩ := Machine.meets_snoc.mp hthrows
    replace ih := ih hthrows
    obtain ⟨hforested, hkept⟩ := hforest.toForested.run env id attempts
    have hends := hforested.call_ends env id a
    rw [Machine.meets_snoc, Machine.run_snoc]
    refine ⟨fun h => hends.resumable hforested (ih.1 h.1) h.2, fun h => ?_⟩
    by_cases hspared : (revocationMachine env id w).Meets
      (fun w a => a.SparesDescendants env id w) attempts
    · have hthrown : ∃ err, result (a.call env id)
          (((revocationMachine env id w).run attempts).facing a) = .error err := by
        unfold RevocationAttempt.Throws at ha
        cases hresult : result (a.call env id)
            (((revocationMachine env id w).run attempts).facing a) with
        | error err => exact ⟨err, rfl⟩
        | ok token =>
          rw [hresult] at ha
          cases ha
      obtain ⟨err, hresult⟩ := hthrown
      rw [hresult] at hends
      exact hends.stuck hforested (ih.1 hspared) (hkept.mpr hstored) fun ha => h ⟨hspared, ha⟩
    · obtain ⟨taken, logged, hleft, htaken, hlogged⟩ := hends.within
      exact (ih.2 hspared).cascaded hforested hleft htaken hlogged

/-- **Which interrupted revocations a retry completes.** After any number of calls that throw, and
one that returns, everything below the token is revoked and logged if and only if every call that
threw spared the descendants. -/
theorem revokedBelow_iff (hforest : w.TokenForest) {last : RevocationAttempt}
    (hthrows : (revocationMachine env id w).Meets (fun w a => a.Throws env id w) attempts)
    (hreturns : ¬ last.Throws env id ((revocationMachine env id w).run attempts)) :
    ((revocationMachine env id w).run (attempts ++ [last])).RevokedBelow id ↔
      (revocationMachine env id w).Meets (fun w a => a.SparesDescendants env id w) attempts := by
  obtain ⟨hforested, hkept⟩ := hforest.toForested.run env id attempts
  have hends := hforested.call_ends env id last
  obtain ⟨taken, logged, hleft, htaken, hlogged⟩ := hends.within
  rw [Machine.run_snoc]
  unfold RevocationAttempt.Throws at hreturns
  cases hresult : result (last.call env id)
      (((revocationMachine env id w).run attempts).facing last) with
  | error err =>
    rw [hresult] at hreturns
    exact absurd rfl hreturns
  | ok token =>
    rw [hresult] at hends
    obtain ⟨hresumable, hstuck⟩ := resumable_or_stuck hforest (hkept.mp hends.stored) hthrows
    constructor
    · intro hrevoked
      by_contra h
      exact ((hstuck h).cascaded hforested hleft htaken hlogged).not_revokedBelow hrevoked
    · exact fun h => hends.revokedBelow hforested (hresumable h)

end

/-! ## Token forests of the process -/

namespace Ledger

variable {p : Platform} {L : Ledger} {e : Event}

/-- The log has an entry about each revoked token, and no other. -/
def RevocationsLogged (L : Ledger) : Prop :=
  ∀ i, L.Revoked i ↔ ∃ e ∈ L.log, e.decision = .revoked ∧ e.tokenId = some i

/-- The revocation entries that an event writes are about the tokens that it revokes. -/
theorem revocation_mem_entries :
    (∃ a ∈ e.entries, a.decision = .revoked ∧ a.tokenId = some i) ↔
      ∃ r, e = .revoked r ∧ i ∈ r.revoked.map Token.id := by
  cases e with
  | revoked r => simp [Event.entries, Revocation.entry, revocationEntry]
  | _ =>
    simp [Event.entries, submissionEntry, approvalEntry, escalationEntry, claimEntry, useEntry]

theorem RevocationsLogged.after (h : L.RevocationsLogged) (he : L.Enabled p e) :
    (L.after e).RevocationsLogged := by
  intro i
  have hlog : (∃ a ∈ (L.after e).log, a.decision = .revoked ∧ a.tokenId = some i) ↔
      L.Revoked i ∨ ∃ r, e = .revoked r ∧ i ∈ r.revoked.map Token.id := by
    rw [h i, ← revocation_mem_entries]
    simp only [Ledger.after, List.mem_append, or_and_right, exists_or]
  rw [hlog]
  constructor
  · exact revoked_after_cases he
  · rintro (hrevoked | ⟨r, rfl, hi⟩)
    · exact hrevoked.after he
    · obtain ⟨t, ht, rfl⟩ := List.mem_map.mp hi
      exact revoked_after (Revokes.stored he t ht) hi

end Ledger

theorem Ledger.TokensLinked.acyclic {L : Ledger} (h : L.TokensLinked) (i : String) :
    ¬ Ancestor L.Parent i i := by
  intro hi
  have htrans : IsTrans String fun i q => L.breadth i < L.breadth q := ⟨fun _ _ _ => lt_trans⟩
  exact lt_irrefl _ (hi.related (R := fun i q => L.breadth i < L.breadth q) h.breadth_lt)

theorem World.logged_iff :
    w.Logged i ↔ ∃ a ∈ w.ledger.log, a.decision = .revoked ∧ a.tokenId = some i := by
  have hnoteworthy : ∀ a : AuditEntryInput, a.decision = .revoked → a.noteworthy = true := by
    intro a ha
    simp [AuditEntryInput.noteworthy, ha]
  simp only [World.Logged, World.revocations, World.ledger, List.mem_filter, List.mem_map,
    decide_eq_true_eq]
  constructor
  · rintro ⟨e, ⟨he, hrevoked⟩, hid⟩
    exact ⟨_, ⟨⟨e, he, rfl⟩, hnoteworthy _ hrevoked⟩, hrevoked, hid⟩
  · rintro ⟨_, ⟨⟨e, he, rfl⟩, -⟩, hrevoked, hid⟩
    exact ⟨e, ⟨he, hrevoked⟩, hid⟩

variable {κ : Type} {acts : List (Action κ)}

theorem revocationsLogged_run (acts : List (Action κ)) :
    ((processMachine κ env).run acts).world.ledger.RevocationsLogged := by
  refine ledger_invariant acts (fun i => ?_) fun c a e hadvances h => h.after hadvances.enabled
  simp [Ledger.empty, Ledger.Revoked]

/-- **The reachable states of the process are token forests**, where no revocation overtook a
delegation. -/
theorem tokenForest_run (hacts : (processMachine κ env).Meets (Config.ParentStillActive env) acts) :
    ((processMachine κ env).run acts).world.TokenForest := by
  have hlinked := (@Config.sound_run env _ acts).linked.tokens
  have hlogged := @revocationsLogged_run env κ acts
  refine ⟨⟨fun i t ht => (hlinked.key i t ht).1, hlinked.acyclic⟩, closed_run hacts, fun i t ht => ?_⟩
  rw [World.logged_iff, ← hlogged i]
  constructor
  · exact fun hrevoked => ⟨t, ht, hrevoked⟩
  · rintro ⟨t', ht', hrevoked⟩
    cases ht.symm.trans ht'
    exact hrevoked

/-! ## An interrupted revocation, and its retry -/

/-- A token, its child and its grandchild. -/
def sampleDescent : List (Action Unit) :=
  [.call () (.requestToken ⟨"agent", ["a", "b", "c"], .finite 60, none, none⟩ (some "alice") 0),
   .call () (.approveRequest ⟨"id-2", "alice", none, 0⟩),
   .resume 0 .responded,
   .call () (.delegateToken ⟨"id-6", "secret-4", "child", ["a", "b"], .finite 30, 0⟩),
   .resume 0 .responded,
   .resume 0 .responded,
   .call () (.delegateToken ⟨"id-10", "secret-8", "grandchild", ["a"], .finite 20, 0⟩),
   .resume 0 .responded,
   .resume 0 .responded]

/-- The calls for the token at the root. -/
def sampleRevocations : Machine World RevocationAttempt :=
  revocationMachine sampleEnv "id-6" ((processMachine Unit sampleEnv).run sampleDescent).world

def sampleAttempt (failures : AppendFailures) : RevocationAttempt :=
  ⟨.compromised, 0, some "alice", 0, .initial, false, failures⟩

/-- The token's own entry fails to be written. -/
def sampleSpared : List RevocationAttempt := [sampleAttempt [(false, true)]]

/-- The record of the child fails to be saved. -/
def sampleInterrupted : List RevocationAttempt := [sampleAttempt [(false, false), (true, false)]]

theorem sampleRevocations_throw :
    (processMachine Unit sampleEnv).check (Config.ParentStillActive sampleEnv)
        (processMachine Unit sampleEnv).init sampleDescent = true ∧
      (∀ attempts ∈ [sampleSpared, sampleInterrupted],
        sampleRevocations.check (fun w a => a.Throws sampleEnv "id-6" w) sampleRevocations.init attempts = true ∧
        ¬ (sampleAttempt []).Throws sampleEnv "id-6" (sampleRevocations.run attempts)) ∧
      ((sampleRevocations.run (sampleInterrupted ++ [sampleAttempt []])).tokenStore.live.get "id-14").map
        (fun t => (t.parentTokenId, t.status)) = some (some "id-10", .active) ∧
      ((sampleRevocations.run (sampleInterrupted ++ [sampleAttempt []])).tokenStore.live.get "id-10").map
        Token.parentTokenId = some (some "id-6") := by
  decide +kernel

theorem tokenForest_sampleDescent :
    ((processMachine Unit sampleEnv).run sampleDescent).world.TokenForest :=
  tokenForest_run (Machine.meets_of_check sampleRevocations_throw.1)

/-- A retry revokes what is below. -/
theorem revokedBelow_iff_sample :
    (sampleRevocations.run (sampleSpared ++ [sampleAttempt []])).RevokedBelow "id-6" ↔
      sampleRevocations.Meets (fun w a => a.SparesDescendants sampleEnv "id-6" w) sampleSpared := by
  obtain ⟨hthrows, hreturns⟩ := sampleRevocations_throw.2.1 sampleSpared (List.mem_cons_self ..)
  exact revokedBelow_iff tokenForest_sampleDescent (Machine.meets_of_check hthrows) hreturns

/-- **An interrupted revocation that no retry completes**: the grandchild stays active. -/
theorem not_revokedBelow :
    ((processMachine Unit sampleEnv).run sampleDescent).world.TokenForest ∧
    sampleRevocations.Meets (fun w a => a.Throws sampleEnv "id-6" w) sampleInterrupted ∧
    ¬ (sampleAttempt []).Throws sampleEnv "id-6" (sampleRevocations.run sampleInterrupted) ∧
    ¬ (sampleRevocations.run (sampleInterrupted ++ [sampleAttempt []])).RevokedBelow "id-6" := by
  obtain ⟨-, hruns, hgrandchild, hchild⟩ := sampleRevocations_throw
  obtain ⟨hthrows, hreturns⟩ := hruns sampleInterrupted (by simp)
  refine ⟨tokenForest_sampleDescent, Machine.meets_of_check hthrows, hreturns, fun hrevoked => ?_⟩
  generalize sampleRevocations.run (sampleInterrupted ++ [sampleAttempt []]) = w at *
  obtain ⟨t, ht, hstatus⟩ := Option.map_eq_some_iff.mp hgrandchild
  obtain ⟨hparent, hactive⟩ := Prod.mk.inj hstatus
  have hbelow : Ancestor w.ledger.Parent "id-14" "id-6" :=
    .head ⟨t, ht, hparent⟩ (.single (Option.map_eq_some_iff.mp hchild))
  have hnot := (Ledger.revoked_iff_of_ancestor hbelow).mp (hrevoked "id-14" hbelow).1
  exact hnot ⟨t, ht, hactive⟩

end Ambit
