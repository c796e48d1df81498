import Ambit.FailureRules
import Ambit.RevocationClosure
import Ambit.Lib.DepthFirst

/-! Revocations that an I/O error interrupts, and their retries: where the cascade may stop so that
a later call completes it. -/

namespace Ambit

open Effect Forest DepthFirst

/-! ## The forest -/

namespace World

variable (w : World)

/-- A revocation entry for the token is in memory. -/
def Logged (i : String) : Prop := ∃ e ∈ w.revocations, e.tokenId = some i

def Keyed : Prop := ∀ i t, w.tokenStore.live.get i = some t → t.id = i

structure Forested : Prop where
  keyed : w.Keyed
  acyclic : ∀ i, ¬ Ancestor w.ledger.Parent i i

/-- A forest of tokens in which all descendants of revoked tokens are revoked, with the log that
goes with it. -/
structure TokenForest : Prop extends w.Forested where
  closed : w.ledger.Closed
  logged : ∀ i t, w.tokenStore.live.get i = some t → (t.status = .revoked ↔ w.Logged i)

/-- The active children of a token. -/
def activeChildren (p : String) : List Token := living childrenOf (·.status = .active) w p

/-- The tokens that a cascade from `p` comes to, in its order. -/
def cascadeOrder (p : String) : List Token :=
  preorder Token.id w.activeChildren (w.tokenStore.live.values.length + 1) p

/-- Every transitive descendant is revoked, and has a revocation entry. -/
def RevokedBelow (p : String) : Prop :=
  ∀ i, Ancestor w.ledger.Parent i p → w.ledger.Revoked i ∧ w.Logged i

end World

variable {env : Env} {w w' w'' : World} {p q i : String} {c t : Token}

theorem Ledger.not_active_iff {L : Ledger} (ht : L.tokens i = some t) :
    ¬ L.Active i ↔ t.status = .revoked := by
  constructor
  · intro h
    cases hstatus : t.status with
    | active => exact absurd ⟨t, ht, hstatus⟩ h
    | revoked => rfl
  · rintro hrevoked ⟨t', ht', hactive⟩
    cases ht.symm.trans ht'
    rw [hrevoked] at hactive
    cases hactive

namespace World

theorem Keyed.mem_activeChildren (h : w.Keyed) :
    c ∈ w.activeChildren p ↔
      w.ledger.tokens c.id = some c ∧ c.parentTokenId = some p ∧ c.status = .active := by
  simp only [activeChildren, living, childrenOf, List.mem_filter, OrderedMap.mem_values_iff,
    decide_eq_true_eq, and_assoc]
  refine and_congr_left fun _ => ⟨?_, fun hc => ⟨c.id, hc⟩⟩
  rintro ⟨i, hi⟩
  rw [h i c hi]
  exact hi

theorem Keyed.activeChildren_nodup (h : w.Keyed) (p : String) :
    ((w.activeChildren p).map Token.id).Nodup := by
  have hkeys : (w.tokenStore.live.values.map Token.id).Nodup := by
    rw [OrderedMap.map_key_values h]
    exact w.tokenStore.live.keysNodup
  exact hkeys.sublist ((List.filter_sublist.trans List.filter_sublist).map _)

theorem Keyed.link_iff (h : w.Keyed) :
    Link Token.id w.activeChildren p i ↔ w.ledger.Parent i p ∧ w.ledger.Active i := by
  constructor
  · rintro ⟨c, hc, rfl⟩
    obtain ⟨hstored, hparent, hactive⟩ := h.mem_activeChildren.mp hc
    exact ⟨⟨c, hstored, hparent⟩, c, hstored, hactive⟩
  · rintro ⟨⟨t, ht, hparent⟩, t', ht', hactive⟩
    cases ht.symm.trans ht'
    obtain rfl := h i t ht
    exact ⟨t, h.mem_activeChildren.mpr ⟨ht, hparent, hactive⟩, rfl⟩

theorem Keyed.ancestor_of_below (h : w.Keyed) (hbelow : Below Token.id w.activeChildren p i) :
    Ancestor w.ledger.Parent i p := by
  have hswap : Relation.TransGen (Function.swap w.ledger.Parent) p i :=
    Relation.TransGen.mono (fun _ _ hlink => (h.link_iff.mp hlink).1) _ _ hbelow
  exact Relation.transGen_swap.mp hswap

theorem Forested.isForest (h : w.Forested) : IsForest Token.id w.activeChildren where
  nodup := h.keyed.activeChildren_nodup
  unique _ _ _ hp hq := Ledger.Parent.unique (h.keyed.link_iff.mp hp).1 (h.keyed.link_iff.mp hq).1
  acyclic i hi := h.acyclic i (h.keyed.ancestor_of_below hi)

/-- There is a level for every token below `p`. -/
theorem Keyed.levels (h : w.Keyed) (p : String) :
    ∃ S : Finset String, (∀ i, Below Token.id w.activeChildren p i → i ∈ S) ∧
      S.card < w.tokenStore.live.values.length + 1 := by
  refine ⟨w.tokenStore.live.keys.toFinset, fun i hi => ?_, Nat.lt_succ_of_le ?_⟩
  · obtain ⟨q, -, hlink⟩ := Relation.TransGen.tail'_iff.mp hi
    obtain ⟨⟨t, ht, -⟩, -⟩ := h.link_iff.mp hlink
    exact List.mem_toFinset.mpr (OrderedMap.mem_keys_iff.mpr ⟨t, ht⟩)
  · refine (List.toFinset_card_le _).trans ?_
    simp [OrderedMap.keys, OrderedMap.values]

/-! ## The order of the cascade -/

/-- A token in the order is stored and active, and its parent is `p` or comes before it. -/
theorem Keyed.of_mem_order (h : w.Keyed) (ht : t ∈ w.cascadeOrder p) :
    w.ledger.tokens t.id = some t ∧ t.status = .active ∧ Ancestor w.ledger.Parent t.id p := by
  obtain ⟨q, -, hmem⟩ := mem_preorder ht
  obtain ⟨hstored, -, hactive⟩ := h.mem_activeChildren.mp hmem
  exact ⟨hstored, hactive, h.ancestor_of_below (below_of_mem_preorder ht)⟩

/-- The parent of a token in the order is `p`, or active. -/
theorem Keyed.parent_of_mem_order (h : w.Keyed) (ht : t ∈ w.cascadeOrder p)
    (hparent : w.ledger.Parent t.id q) : q = p ∨ w.ledger.Active q := by
  obtain ⟨q', hq', hmem⟩ := mem_preorder ht
  obtain ⟨hstored, hparent', -⟩ := h.mem_activeChildren.mp hmem
  obtain rfl : q' = q := Ledger.Parent.unique ⟨t, hstored, hparent'⟩ hparent
  refine hq'.imp_right fun hbelow => ?_
  obtain ⟨r, -, hlink⟩ := Relation.TransGen.tail'_iff.mp hbelow
  exact (h.link_iff.mp hlink).2

/-- An active child of `p`, or of a token in the order, is in the order. -/
theorem Forested.mem_order (h : w.Forested)
    (hparent : w.ledger.Parent i q) (hactive : w.ledger.Active i)
    (hq : q = p ∨ q ∈ (w.cascadeOrder p).map Token.id) : i ∈ (w.cascadeOrder p).map Token.id := by
  obtain ⟨S, hS, hcard⟩ := h.keyed.levels p
  obtain ⟨hkids, hclosed⟩ := preorder_closed (h.isForest.tree p) hS hcard
  obtain ⟨c, hc, rfl⟩ := h.keyed.link_iff.mpr ⟨hparent, hactive⟩
  refine List.mem_map_of_mem ?_
  rcases hq with rfl | hq
  · exact hkids c hc
  · obtain ⟨t, ht, rfl⟩ := List.mem_map.mp hq
    exact hclosed t ht c hc

/-- What comes before the order turns to a child of `p` is closed under active children. -/
theorem Forested.prefix_order (h : w.Forested)
    {xs ys : List Token} (horder : w.cascadeOrder p = xs ++ ys)
    (hturn : ∀ r, ys.head? = some r → r.parentTokenId = some p) (hparent : w.ledger.Parent i q)
    (hactive : w.ledger.Active i) (hq : q ∈ xs.map Token.id) : i ∈ xs.map Token.id := by
  obtain ⟨S, hS, hcard⟩ := h.keyed.levels p
  obtain ⟨c, hc, rfl⟩ := h.keyed.link_iff.mpr ⟨hparent, hactive⟩
  obtain ⟨t, ht, rfl⟩ := List.mem_map.mp hq
  refine List.mem_map_of_mem (prefix_closed (h.isForest.tree p) hS hcard horder ?_ t ht c hc)
  intro r hr
  have hmem : r ∈ w.cascadeOrder p := by
    rw [horder]
    exact List.mem_append_right _ (List.mem_of_head? hr)
  obtain ⟨hstored, hactive, -⟩ := h.keyed.of_mem_order hmem
  exact h.keyed.mem_activeChildren.mpr ⟨hstored, hturn r hr, hactive⟩

/-! ## What a call may leave behind -/

/-- The state after some tokens were revoked and revocation entries written, in part or whole. -/
structure Cascaded (w : World) (taken logged : List String) (w' : World) : Prop where
  parent_eq : ∀ i, (w'.tokenStore.live.get i).map Token.parentTokenId =
    (w.tokenStore.live.get i).map Token.parentTokenId
  active_iff : ∀ i, w'.ledger.Active i ↔ w.ledger.Active i ∧ i ∉ taken
  logged_iff : ∀ i, w'.Logged i ↔ w.Logged i ∨ i ∈ logged
  keyed : w.Keyed → w'.Keyed

variable {taken logged taken' logged' : List String}

theorem Cascaded.of_live (hlive : w'.tokenStore.live = w.tokenStore.live)
    (hrevocations : w'.revocations = w.revocations) : w.Cascaded [] [] w' := by
  have hledger : ∀ i, w'.ledger.Active i ↔ w.ledger.Active i := by
    intro i
    show (∃ t, w'.tokenStore.live.get i = some t ∧ _) ↔ ∃ t, w.tokenStore.live.get i = some t ∧ _
    rw [hlive]
  refine ⟨fun i => by rw [hlive], fun i => by simp [hledger], fun i => ?_, fun h => ?_⟩
  · simp [Logged, hrevocations]
  · rw [Keyed, hlive]
    exact h

theorem Switched.cascaded (h : w.Switched w') : w.Cascaded [] [] w' :=
  .of_live (by rw [h.tokenStore_eq]) h.revocations_eq

theorem Cascaded.trans (h : w.Cascaded taken logged w') (h' : w'.Cascaded taken' logged' w'') :
    w.Cascaded (taken ++ taken') (logged ++ logged') w'' where
  parent_eq i := (h'.parent_eq i).trans (h.parent_eq i)
  active_iff i := by
    rw [h'.active_iff, h.active_iff, List.mem_append, not_or, and_assoc]
  logged_iff i := by
    rw [h'.logged_iff, h.logged_iff, List.mem_append, or_assoc]
  keyed := h'.keyed ∘ h.keyed

/-- A token record with the parent that is stored for it. -/
def HasParent (w : World) (t : Token) : Prop :=
  (w.tokenStore.live.get t.id).map Token.parentTokenId = some t.parentTokenId

theorem Cascaded.hasParent (h : w.Cascaded taken logged w') (ht : w.HasParent t) :
    w'.HasParent t := (h.parent_eq t.id).trans ht

theorem Cascaded.stored_iff (h : w.Cascaded taken logged w') :
    w'.tokenStore.live.get i ≠ none ↔ w.tokenStore.live.get i ≠ none := by
  rw [← Option.isSome_iff_ne_none, ← Option.isSome_iff_ne_none, ← Option.isSome_map, h.parent_eq,
    Option.isSome_map]

theorem Cascaded.parent_iff (h : w.Cascaded taken logged w') :
    w'.ledger.Parent i p ↔ w.ledger.Parent i p := by
  have hiff : ∀ w : World, w.ledger.Parent i p ↔
      (w.tokenStore.live.get i).map Token.parentTokenId = some (some p) := by
    intro w
    rw [Option.map_eq_some_iff]
    exact Iff.rfl
  rw [hiff, hiff, h.parent_eq]

theorem Cascaded.ancestor_iff (h : w.Cascaded taken logged w') :
    Ancestor w'.ledger.Parent i p ↔ Ancestor w.ledger.Parent i p := by
  have hparent : w'.ledger.Parent = w.ledger.Parent := by
    funext i p
    exact propext h.parent_iff
  rw [hparent]

theorem Cascaded.forested (h : w.Cascaded taken logged w') (hforested : w.Forested) :
    w'.Forested where
  keyed := h.keyed hforested.keyed
  acyclic i hi := hforested.acyclic i (h.ancestor_iff.mp hi)

/-- A revoked record saved over the stored one. -/
theorem Stored.cascaded {now : Int} {reasonCode : RevocationReason}
    (h : w.Stored (t.revoke now reasonCode) w') (ht : w.HasParent t) :
    w.Cascaded [t.id] [] w' where
  parent_eq i := by
    rw [h.live_eq, OrderedMap.get_set]
    split
    · rename_i hi
      rw [hi]
      exact ht.symm
    · rfl
  active_iff i := by
    show (∃ t', w'.tokenStore.live.get i = some t' ∧ _) ↔ _
    rw [h.live_eq, OrderedMap.get_set, List.mem_singleton]
    split
    · rename_i hi
      constructor
      · rintro ⟨t', ht', hactive⟩
        cases ht'
        cases hactive
      · exact fun hactive => absurd hi hactive.2
    · rename_i hi
      exact ⟨fun hactive => ⟨hactive, hi⟩, And.left⟩
  logged_iff i := by simp [Logged, h.revocations_eq]
  keyed hkeyed i t' ht' := by
    rw [h.live_eq, OrderedMap.get_set] at ht'
    split at ht'
    · rename_i hi
      cases ht'
      exact hi.symm
    · exact hkeyed i t' ht'

theorem Noted.cascaded {reasonCode : RevocationReason} {subject : String} {actor : Option String}
    (h : w.Noted (revocationEntry i subject reasonCode actor) w') : w.Cascaded [] [i] w' := by
  have hlive : w'.tokenStore.live = w.tokenStore.live := by rw [h.tokenStore_eq]
  have hsame : w.Cascaded [] [] { w' with auditLog := w.auditLog } := .of_live hlive rfl
  refine ⟨hsame.parent_eq, hsame.active_iff, fun j => ?_, hsame.keyed⟩
  obtain ⟨full, hfull, hentries⟩ := h.entries_eq
  have hrevocations : w'.revocations = w.revocations ++ [full] := by
    have hrevoked : full.decision = .revoked := by simp [hfull, revocationEntry]
    rw [revocations, hentries, List.filter_append, List.filter_cons_of_pos (by simpa using hrevoked)]
    rfl
  have hid : full.tokenId = some i := by rw [hfull]; rfl
  simp [Logged, hrevocations, or_and_right, exists_or, hid, eq_comm]

end World

/-! ## One token -/

/-- The appends of a revocation, token by token: whether that of the record fails, and that of the
entry. -/
abbrev AppendFailures := List (Bool × Bool)

/-- The failures of the file operations; a file is renamed without a failure. -/
def AppendFailures.faults (failures : AppendFailures) : List Bool :=
  failures.flatMap fun f => [f.1, false, f.2]

namespace AppendFailures

variable (failures : AppendFailures)

/-- The first token one of whose appends fails. -/
def first : Option ℕ := failures.findIdx? fun f => f.1 || f.2

variable {failures} in
theorem first_eq_zero (h : ((failures.headD (false, false)).1 ||
    (failures.headD (false, false)).2) = true) : failures.first = some 0 := by
  cases failures with
  | nil => cases h
  | cons f failures =>
    rw [first, List.findIdx?_cons]
    exact if_pos h

variable {failures} in
/-- The first failure is among the tokens after the first. -/
theorem first_of_tail (h : failures.headD (false, false) = (false, false)) {k : ℕ}
    (hfirst : AppendFailures.first failures.tail = some k) : failures.first = some (k + 1) ∧
      failures.getD (k + 1) (false, false) = failures.tail.getD k (false, false) := by
  cases failures with
  | nil => cases hfirst
  | cons f failures =>
    obtain rfl : f = (false, false) := h
    refine ⟨?_, rfl⟩
    rw [first, List.findIdx?_cons]
    exact congrArg (Option.map (· + 1)) hfirst

theorem getD_zero : failures.headD (false, false) = failures.getD 0 (false, false) := by
  cases failures <;> rfl

theorem faults_head : failures.faults.headD false = (failures.headD (false, false)).1 := by
  cases failures <;> rfl

theorem faults_rename : failures.faults.tail.headD false = false := by
  cases failures <;> rfl

theorem faults_append : failures.faults.tail.tail.headD false = (failures.headD (false, false)).2 := by
  cases failures <;> rfl

theorem faults_tail : failures.faults.tail.tail.tail = AppendFailures.faults failures.tail := by
  cases failures <;> rfl

end AppendFailures

/-- A token is revoked: its record is saved, and its entry written. -/
def revokeWrites (env : Env) (now : Int) (reasonCode : RevocationReason) (actor : Option String)
    (t : Token) : Op Unit := do
  TokenStore.save env (t.revoke now reasonCode)
  auditRecord env (revocationEntry t.id t.subject reasonCode actor) now

/-- How the writes for one token end. -/
inductive WritesEnd (w : World) (failures : AppendFailures) (t : Token) :
    Except Err Unit → World → Prop
  | recordFails {w' : World} (hfails : (failures.headD (false, false)).1 = true)
      (hleft : w.Cascaded [t.id] [] w') : WritesEnd w failures t (.error .io) w'
  | entryFails {w' : World} (hsaved : (failures.headD (false, false)).1 = false)
      (hfails : (failures.headD (false, false)).2 = true) (hleft : w.Cascaded [t.id] [t.id] w') :
      WritesEnd w failures t (.error .io) w'
  | written {w' : World} (hfine : failures.headD (false, false) = (false, false))
      (hleft : w.Cascaded [t.id] [t.id] w') (hflow : w'.Flowing)
      (hfaults : w'.faults = AppendFailures.faults failures.tail) : WritesEnd w failures t (.ok ()) w'

theorem revokeWrites_spec {failures : AppendFailures} (hflow : w.Flowing)
    (hfaults : w.faults = failures.faults) (ht : w.HasParent t) (now : Int)
    (reasonCode : RevocationReason) (actor : Option String) :
    wp (revokeWrites env now reasonCode actor t) (WritesEnd w failures t) w := by
  refine wp_bind (wp_mono (TokenStore.wp_save_failing _) fun r w₁ hr => ?_)
  have hprobes : ¬ w.Probes := not_not.mpr hflow.closed
  rw [if_neg hflow.not_rejects, World.Ends, if_neg hprobes, hfaults, failures.faults_head] at hr
  obtain ⟨hstored, hr⟩ := hr
  have hsaved : w.Cascaded [t.id] [] w₁ := hstored.cascaded ht
  split at hr
  · rename_i hfails
    subst hr
    exact .recordFails hfails hsaved
  · rename_i hfirst
    have hfirst : (failures.headD (false, false)).1 = false := Bool.eq_false_iff.mpr hfirst
    obtain ⟨rfl, hflow₁, hfaults₁⟩ := hr
    refine wp_mono (wp_auditRecord_noted rfl now) ?_
    rintro r w₂ ⟨hnoted, -, hresult⟩
    have hleft : w.Cascaded [t.id] [t.id] w₂ := hsaved.trans hnoted.cascaded
    have hresult := hresult (by rw [hfaults₁]; exact failures.faults_rename)
    rw [hfaults₁, failures.faults_append] at hresult
    cases hsecond : (failures.headD (false, false)).2 with
    | true =>
      rw [hsecond] at hresult
      subst hresult
      exact .entryFails hfirst hsecond hleft
    | false =>
      rw [hsecond] at hresult
      subst hresult
      refine .written (Prod.ext hfirst hsecond) hleft (hflow₁.of_breaker hnoted.breaker_eq) ?_
      rw [hnoted.faults_eq, hfaults₁]
      exact failures.faults_tail

/-! ## The cascade as a loop -/

theorem cascadeRevokeAux_eq_cascade (now : Int) (actor : Option String) (fuel : ℕ) :
    cascadeRevokeAux env now actor fuel = cascade Token.id childrenOf (·.status = .active)
      (revokeWrites env now .parentRevoked actor) fuel := by
  induction fuel with
  | zero => rfl
  | succ fuel ih =>
    funext p
    rw [cascadeRevokeAux, cascade]
    congr 1
    funext w
    congr 1
    funext c
    rw [revokeWrites, bind_assoc, ih]

theorem revokeWrites_live (now : Int) (reasonCode : RevocationReason) (actor : Option String)
    (t : Token) : wp (revokeWrites env now reasonCode actor t) (fun r w' => r = .ok () →
      w'.tokenStore.live = w.tokenStore.live.set t.id (t.revoke now reasonCode)) w := by
  refine wp_bind (wp_mono (TokenStore.wp_save_failing _) fun r w₁ hr => ?_)
  cases r with
  | error => exact fun h => by cases h
  | ok =>
    split at hr
    · obtain ⟨⟨_, hr⟩, -⟩ := hr
      cases hr
    · refine wp_mono (wp_auditRecord_noted rfl now) fun r w₂ h _ => ?_
      rw [h.1.tokenStore_eq]
      exact hr.1.live_eq

/-- A revoked record is no active child of any token. -/
theorem World.Keyed.activeChildren_of_set (hkeyed : w.Keyed) {now : Int}
    {reasonCode : RevocationReason}
    (hlive : w'.tokenStore.live = w.tokenStore.live.set t.id (t.revoke now reasonCode))
    (q : String) : w'.activeChildren q = (w.activeChildren q).filter (·.id ≠ t.id) := by
  simp only [World.activeChildren, living, childrenOf, hlive, List.filter_filter]
  rw [OrderedMap.filter_values_set hkeyed (by simp [Token.revoke]), List.filter_filter]

/-- Revoking a child takes it out of the active children. -/
theorem revokeWrites_takes (env : Env) (now : Int) (actor : Option String) :
    VisitTakes Token.id childrenOf (·.status = .active)
      (revokeWrites env now .parentRevoked actor) World.Keyed := by
  intro w c w' hkeyed _ hvisit
  have hlive := wp_ok (revokeWrites_live (w := w) now .parentRevoked actor c) hvisit rfl
  refine ⟨fun i t ht => ?_, fun q => ?_⟩
  · rw [hlive, OrderedMap.get_set] at ht
    split at ht
    · rename_i hi
      cases ht
      exact hi.symm
    · exact hkeyed i t ht
  · exact hkeyed.activeChildren_of_set hlive q

/-- How the loop over some tokens ends. -/
inductive LoopEnds (w : World) (failures : AppendFailures) (ts : List Token) :
    Except Err Unit → World → Prop
  | interrupted (w' : World) (xs ys : List Token) (t : Token) (saved : Bool)
      (horder : ts = xs ++ t :: ys)
      (hfirst : failures.first = some xs.length)
      (hsaved : (failures.getD xs.length (false, false)).1 = !saved)
      (hleft : w.Cascaded ((xs ++ [t]).map Token.id)
        ((if saved then xs ++ [t] else xs).map Token.id) w') :
      LoopEnds w failures ts (.error .io) w'
  | completed {w' : World} (hleft : w.Cascaded (ts.map Token.id) (ts.map Token.id) w') :
      LoopEnds w failures ts (.ok ()) w'

/-- The tokens before the first failure are dealt with, and those after it are not. -/
theorem forM_revokeWrites (env : Env) (now : Int) (reasonCode : RevocationReason)
    (actor : Option String)
    (ts : List Token) : ∀ {w : World} {failures : AppendFailures}, w.Flowing →
    w.faults = failures.faults → (∀ t ∈ ts, w.HasParent t) →
    wp (ts.forM (revokeWrites env now reasonCode actor)) (LoopEnds w failures ts) w := by
  induction ts with
  | nil =>
    intro w failures _ _ _
    exact wp_pure (.completed (World.Switched.refl w).cascaded)
  | cons t ts ih =>
    intro w failures hflow hfaults hparent
    refine wp_bind (wp_mono (revokeWrites_spec hflow hfaults (hparent t (List.mem_cons_self ..)) now
      reasonCode actor) fun r w₁ hr => ?_)
    cases hr with
    | recordFails hfails hleft =>
      have hfirst := AppendFailures.first_eq_zero (Bool.or_eq_true_iff.mpr (.inl hfails))
      refine .interrupted _ [] ts t false rfl hfirst ?_ hleft
      rwa [List.length_nil, ← failures.getD_zero]
    | entryFails hsaved hfails hleft =>
      have hfirst := AppendFailures.first_eq_zero (Bool.or_eq_true_iff.mpr (.inr hfails))
      refine .interrupted _ [] ts t true rfl hfirst ?_ hleft
      rwa [List.length_nil, ← failures.getD_zero]
    | written hfine hleft hflow' hfaults' =>
      have hrest := ih hflow' hfaults' fun t' ht' =>
        hleft.hasParent (hparent t' (List.mem_cons_of_mem _ ht'))
      refine wp_mono hrest fun r w₂ hr => ?_
      cases hr with
      | interrupted _ xs ys t' saved horder hfirst hsaved hleft' =>
        obtain ⟨hfirst, hgetD⟩ := AppendFailures.first_of_tail hfine hfirst
        rw [← hgetD] at hsaved
        refine .interrupted _ (t :: xs) ys t' saved (by rw [horder]; rfl) hfirst hsaved ?_
        have hboth := hleft.trans hleft'
        cases saved <;> exact hboth
      | completed hleft' => exact .completed (hleft.trans hleft')

/-! ## One call -/

/-- A call of `revokeToken` and what it meets: the time, the breaker, and which of the appends that
it comes to fail. -/
structure RevocationAttempt where
  reasonCode : RevocationReason
  now : Int
  actor : Option String
  clock : Int
  breaker : CircuitBreaker
  /-- The append of the entry about the breaker, if it closes. -/
  circuitFails : Bool
  failures : AppendFailures

section
variable (env : Env) (id : String)

/-- The state in which a call starts. -/
def World.facing (w : World) (a : RevocationAttempt) : World :=
  { w with
    clock := a.clock
    storeCircuitBreaker := a.breaker
    faults := (if a.breaker.state ≠ .closed then [false, a.circuitFails] else []) ++
      a.failures.faults }

def RevocationAttempt.call (a : RevocationAttempt) : Op Token :=
  revokeToken env id a.reasonCode a.now a.actor

/-- The calls of `revokeToken` for one token, one after another. -/
def revocationMachine (w : World) : Machine World RevocationAttempt where
  init := w
  step w a := after (a.call env id) (w.facing a)

/-- The call throws. -/
def RevocationAttempt.Throws (w : World) (a : RevocationAttempt) : Prop :=
  (result (a.call env id) (w.facing a)).isOk = false

/-- The call does not come to an append that fails, or the first such append is the breaker's, or
the token's own, or that of the entry of the last descendant below one of the token's children. -/
def RevocationAttempt.SparesDescendants (w : World) (a : RevocationAttempt) : Prop :=
  (w.facing a).Rejects env ∨ ((w.facing a).Probes ∧ a.circuitFails = true) ∨
    match a.failures.first with
    | some (k + 1) => (a.failures.getD (k + 1) (false, false)).1 = false ∧
        ∀ t, (w.cascadeOrder id)[k + 1]? = some t → t.parentTokenId = some id
    | _ => True

instance (w : World) (a : RevocationAttempt) : Decidable (a.Throws env id w) :=
  inferInstanceAs (Decidable (_ = _))

instance (w : World) (a : RevocationAttempt) : Decidable (a.SparesDescendants env id w) := by
  unfold RevocationAttempt.SparesDescendants
  split <;> infer_instance

end

/-- How a call ends. -/
inductive CallEnds (env : Env) (w : World) (id : String) (a : RevocationAttempt) :
    Except Err Token → World → Prop
  | refused {w' : World} (err : Err)
      (hcause : (w.facing a).Rejects env ∨ ((w.facing a).Probes ∧ a.circuitFails = true) ∨
        w.tokenStore.live.get id = none)
      (hleft : w.Cascaded [] [] w') : CallEnds env w id a (.error err) w'
  | first {w' : World} (logged : List String) (hlogged : logged ⊆ [id])
      (hfirst : a.failures.first = some 0)
      (hleft : w.Cascaded [id] logged w') : CallEnds env w id a (.error .io) w'
  | interrupted (w' : World) (xs ys : List Token) (t : Token) (saved : Bool)
      (hadmits : ¬ (w.facing a).Rejects env ∧ ¬ ((w.facing a).Probes ∧ a.circuitFails = true))
      (horder : w.cascadeOrder id = xs ++ t :: ys)
      (hfirst : a.failures.first = some (xs.length + 1))
      (hsaved : (a.failures.getD (xs.length + 1) (false, false)).1 = !saved)
      (hleft : w.Cascaded (id :: (xs ++ [t]).map Token.id)
        (id :: (if saved then xs ++ [t] else xs).map Token.id) w') :
      CallEnds env w id a (.error .io) w'
  | completed {w' : World} (token : Token) (hstored : w.tokenStore.live.get id ≠ none)
      (hleft : w.Cascaded (id :: (w.cascadeOrder id).map Token.id)
        (id :: (w.cascadeOrder id).map Token.id) w') : CallEnds env w id a (.ok token) w'

variable {id : String} {a : RevocationAttempt}

/-- What a call reads of the token: the call is refused, or goes on with nothing in its way. -/
theorem wp_get_facing (w : World) (id : String) (a : RevocationAttempt) :
    wp (TokenStore.get env id) (fun r w' => w.Switched w' ∧
      ((∃ err, r = .error err ∧ ((w.facing a).Rejects env ∨
          ((w.facing a).Probes ∧ a.circuitFails = true))) ∨
        r = .ok (w.tokenStore.live.get id) ∧ w'.Flowing ∧ w'.faults = a.failures.faults ∧
          ¬ (w.facing a).Rejects env ∧ ¬ ((w.facing a).Probes ∧ a.circuitFails = true)))
      (w.facing a) := by
  have hfacing : w.Switched (w.facing a) := ⟨rfl, rfl, rfl, rfl⟩
  refine wp_mono (TokenStore.wp_get_failing id) ?_
  rintro r w' ⟨hswitched, hr⟩
  refine ⟨hfacing.trans hswitched, ?_⟩
  split at hr
  · rename_i hrejects
    obtain ⟨err, rfl⟩ := hr
    exact .inl ⟨err, rfl, .inl hrejects⟩
  · rename_i hadmits
    unfold World.Ends at hr
    split at hr
    · rename_i hprobes
      have hfaults : (w.facing a).faults = [false, a.circuitFails] ++ a.failures.faults :=
        congrArg (· ++ a.failures.faults) (if_pos hprobes)
      rw [hfaults] at hr
      obtain ⟨hr, hiff⟩ := hr
      have hiff : r = .ok (w.tokenStore.live.get id) ↔ a.circuitFails = false := hiff rfl
      rcases hr with rfl | ⟨rfl, hflow, hrest⟩
      · refine .inl ⟨_, rfl, .inr ⟨hprobes, ?_⟩⟩
        cases hcircuit : a.circuitFails with
        | true => rfl
        | false => cases hiff.mpr hcircuit
      · refine .inr ⟨rfl, hflow, hrest, hadmits, fun h => ?_⟩
        have hcircuit : a.circuitFails = false := hiff.mp rfl
        rw [h.2] at hcircuit
        cases hcircuit
    · rename_i hprobes
      have hfaults : (w.facing a).faults = a.failures.faults :=
        congrArg (· ++ a.failures.faults) (if_neg hprobes)
      rw [hfaults] at hr
      exact .inr ⟨hr.1, hr.2.1, hr.2.2, hadmits, fun h => hprobes h.1⟩

/-- **A call goes through the tokens in order**, and stops at the first append that fails. -/
theorem RevocationAttempt.call_ends (h : w.Forested) (id : String) (a : RevocationAttempt) :
    wp (a.call env id) (CallEnds env w id a) (w.facing a) := by
  have hkeyed := h.keyed
  refine wp_bind (wp_mono (wp_get_facing w id a) ?_)
  rintro r w₁ ⟨hswitched, ⟨err, rfl, hcause⟩ | ⟨rfl, hflow, hfaults, hadmits⟩⟩
  · exact .refused err (hcause.imp_right .inl) hswitched.cascaded
  cases htoken : w.tokenStore.live.get id with
  | none => exact wp_throw (.refused _ (.inr (.inr htoken)) hswitched.cascaded)
  | some token =>
    obtain rfl := hkeyed id token htoken
    have hparent : w.HasParent token := by rw [World.HasParent, htoken]; rfl
    have hsplit : ∀ k : Op Token, (do
        TokenStore.save env (token.revoke a.now a.reasonCode)
        auditRecord env (revocationEntry token.id token.subject a.reasonCode a.actor) a.now
        k) = revokeWrites env a.now a.reasonCode a.actor token >>= fun _ => k := by
      intro k
      rw [revokeWrites, bind_assoc]
    dsimp only
    rw [hsplit]
    refine wp_bind (wp_mono (wp_and (revokeWrites_spec hflow hfaults
      (hswitched.cascaded.hasParent hparent) a.now a.reasonCode a.actor)
      (revokeWrites_live a.now a.reasonCode a.actor token)) ?_)
    rintro r w₂ ⟨hr, hlive⟩
    cases hr with
    | recordFails hfails hleft =>
      exact .first [] (List.nil_subset _)
        (AppendFailures.first_eq_zero (Bool.or_eq_true_iff.mpr (.inl hfails)))
        (hswitched.cascaded.trans hleft)
    | entryFails hsaved hfails hleft =>
      exact .first [token.id] (List.Subset.refl _)
        (AppendFailures.first_eq_zero (Bool.or_eq_true_iff.mpr (.inr hfails)))
        (hswitched.cascaded.trans hleft)
    | written hfine hleft hflow₂ hfaults₂ =>
      have hroot : w.Cascaded [token.id] [token.id] w₂ := hswitched.cascaded.trans hleft
      have hlive : w₂.tokenStore.live =
          w.tokenStore.live.set token.id (token.revoke a.now a.reasonCode) := by
        rw [hlive rfl, hswitched.tokenStore_eq]
      have htaken : Taken Token.id childrenOf (·.status = .active) World.Keyed w [token.id] w₂ :=
        ⟨hroot.keyed hkeyed, fun q => (hkeyed.activeChildren_of_set hlive q).trans (by
          simp [World.activeChildren])⟩
      have hlength : w₂.tokenStore.live.values.length = w.tokenStore.live.values.length := by
        have hmem : token.id ∈ w.tokenStore.live.keys := OrderedMap.mem_keys_iff.mpr ⟨token, htoken⟩
        have hkeys := congrArg List.length (OrderedMap.keys_set_of_mem hmem
          (token.revoke a.now a.reasonCode))
        rw [← hlive] at hkeys
        simpa [OrderedMap.keys, OrderedMap.values] using hkeys
      obtain ⟨hcascade, -⟩ := cascade_taken (revokeWrites_takes env a.now a.actor)
        (w.tokenStore.live.values.length + 1) token.id [token.id] w₂ (h.isForest.tree _) htaken
        fun i hi => by
          rw [List.mem_singleton.mp hi]
          exact h.isForest.acyclic _
      have hloop := forM_revokeWrites env a.now .parentRevoked a.actor
        (w.cascadeOrder token.id) hflow₂ hfaults₂ fun t ht => hroot.hasParent (by
          rw [World.HasParent, show w.tokenStore.live.get t.id = some t from
            (hkeyed.of_mem_order ht).1]
          rfl)
      have hfuel : cascadeRevoke env token.id a.now a.actor w₂ = cascadeRevokeAux env a.now a.actor
          (w.tokenStore.live.values.length + 1) token.id w₂ := by
        rw [← hlength]
        rfl
      rw [cascadeRevokeAux_eq_cascade] at hfuel
      refine wp_bind (wp_congr (hfuel.trans hcascade) (wp_mono hloop fun r w₃ hr => ?_))
      cases hr with
      | interrupted _ xs ys t saved horder hfirst hsaved hleft' =>
        obtain ⟨hfirst, hgetD⟩ := AppendFailures.first_of_tail hfine hfirst
        rw [← hgetD] at hsaved
        have hboth := hroot.trans hleft'
        refine .interrupted _ xs ys t saved hadmits horder hfirst hsaved ?_
        cases saved <;> exact hboth
      | completed hleft' =>
        have hstored : w.tokenStore.live.get token.id ≠ none := by simp [htoken]
        exact wp_pure (.completed _ hstored (hroot.trans hleft'))

end Ambit
