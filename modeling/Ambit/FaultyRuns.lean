import Ambit.Untouched

/-! Runs of the process on a disk that fails: every file operation may fail, in any pattern, and one that
fails does nothing. So no append leaves a part of its line; that is taken up where files are bytes. What
holds of the ids in the stores in every state such a run reaches. -/

namespace Ambit

open Effect

/-- The process takes a step, or the failures of the next file operations are other ones. -/
inductive FaultyAction (κ : Type) where
  | process (a : Action κ)
  | disk (faults : List Bool)

/-- The runs of the process with failing file operations between and within its steps. An operation that
fails leaves its files as they were. -/
def faultyMachine (κ : Type) (env : Env) : Machine (Config κ) (FaultyAction κ) where
  init := .initial env
  step c
    | .process a => c.step env a
    | .disk faults => { c with world := { c.world with faults := faults } }

variable {κ : Type} {env : Env} {w w' : World} {n m : ℕ}

namespace World

/-- The supply only grows. -/
def SupplyGrows (w w' : World) : Prop := w.supply ≤ w'.supply

instance : Everyday SupplyGrows where
  refl _ := le_rfl
  trans _ _ _ h h' := le_trans h h'
  logged _ _ _ _ h := h
  breaker _ _ := le_rfl
  anomaly _ _ := le_rfl
  endpoints _ _ := le_rfl
  identities _ _ _ := le_rfl
  rules _ _ _ := le_rfl
  requests _ _ _ _ := le_rfl

theorem supplyGrows_tokenStore_save (t : Token) : Along SupplyGrows (TokenStore.save env t) :=
  along_execute (along_saveRecord fun _ _ _ => le_rfl)

/-- The records stand under their ids, in memory, and those of the tokens are among the first `n`
that were drawn, in memory and on disk. -/
structure IdsBelow (env : Env) (n : ℕ) (w : World) : Prop where
  tokens : ∀ i t, w.tokenStore.live.get i = some t → t.id = i ∧ ∃ k < n, i = env.randomUUID k
  lines : ∀ t ∈ w.tokenStore.lines, ∃ k < n, t.id = env.randomUUID k
  requests : ∀ i r, w.requestStore.live.get i = some r → r.id = i

/-- The tokens have ids that were drawn. -/
def IdsDrawn (env : Env) (w : World) : Prop := w.IdsBelow env w.supply

theorem IdsBelow.mono (h : w.IdsBelow env n) (hle : n ≤ m) : w.IdsBelow env m where
  tokens i t ht := by
    obtain ⟨hid, k, hk, hi⟩ := h.tokens i t ht
    exact ⟨hid, k, hk.trans_le hle, hi⟩
  lines t ht := by
    obtain ⟨k, hk, hid⟩ := h.lines t ht
    exact ⟨k, hk.trans_le hle, hid⟩
  requests := h.requests

theorem IdsBelow.of_stores (h : w.IdsBelow env n) (htokens : w'.tokenStore = w.tokenStore)
    (hrequests : w'.requestStore = w.requestStore) : w'.IdsBelow env n := by
  refine ⟨?_, ?_, ?_⟩
  · rw [htokens]
    exact h.tokens
  · rw [htokens]
    exact h.lines
  · rw [hrequests]
    exact h.requests

/-- A drawn id is not that of a stored token. -/
theorem IdsBelow.fresh (h : w.IdsBelow env n) (hle : n ≤ m) :
    w.tokenStore.live.get (env.randomUUID m) = none := by
  cases ht : w.tokenStore.live.get (env.randomUUID m) with
  | none => rfl
  | some t =>
    obtain ⟨-, k, hk, hi⟩ := h.tokens _ t ht
    have := env.randomUUID_injective hi
    omega

/-- The ids stay among the first `n`. -/
def Confined (env : Env) (n : ℕ) (w w' : World) : Prop := w.IdsBelow env n → w'.IdsBelow env n

theorem IdsBelow.putRequest (h : w.IdsBelow env n) (faults : List Bool) (appended : Bool)
    (r : PendingRequest) : IdsBelow env n { w with
      faults := faults
      requestStore := w.requestStore.save PendingRequest.id PendingRequest.image appended r } where
  tokens := h.tokens
  lines := h.lines
  requests i r' hr' := by
    rw [Journal.save_live, OrderedMap.get_set] at hr'
    split at hr'
    · rename_i hi
      cases hr'
      exact hi.symm
    · exact h.requests i r' hr'

theorem IdsBelow.putToken (h : w.IdsBelow env n) (faults : List Bool) (appended : Bool) {t : Token}
    (ht : ∃ k < n, t.id = env.randomUUID k) : IdsBelow env n { w with
      faults := faults
      tokenStore := w.tokenStore.save Token.id Token.image appended t } where
  tokens i t' ht' := by
    rw [Journal.save_live, OrderedMap.get_set] at ht'
    split at ht'
    · rename_i hi
      cases ht'
      exact ⟨hi.symm, hi ▸ ht⟩
    · exact h.tokens i t' ht'
  lines t' ht' := by
    cases appended with
    | false => exact h.lines t' ht'
    | true =>
      rcases List.mem_append.mp ht' with hold | hnew
      · exact h.lines t' hold
      · rw [List.mem_singleton.mp hnew]
        exact ht
  requests := h.requests

instance : Everyday (Confined env n) where
  refl _ h := h
  trans _ _ _ h h' hw := h' (h hw)
  logged _ _ _ _ _ h := h.of_stores rfl rfl
  breaker _ _ h := h.of_stores rfl rfl
  anomaly _ _ h := h.of_stores rfl rfl
  endpoints _ _ h := h.of_stores rfl rfl
  identities _ _ _ h := h.of_stores rfl rfl
  rules _ _ _ h := h.of_stores rfl rfl
  requests _ faults appended r h := h.putRequest faults appended r

theorem confined_tokenStore_save {t : Token} (ht : ∃ k < n, t.id = env.randomUUID k) :
    Along (Confined env n) (TokenStore.save env t) :=
  along_execute (along_saveRecord fun _ faults appended h => h.putToken faults appended ht)

theorem confined_revokeToken (tokenId : String) (reasonCode : RevocationReason) (now : Int)
    (actor : Option String) :
    Along (Confined env n) (revokeToken env tokenId reasonCode now actor) := by
  refine along_revokeToken (fun w i t ht => ?_) tokenId reasonCode now actor
  by_cases h : w.IdsBelow env n
  · obtain ⟨hid, hdrawn⟩ := h.tokens i t ht
    exact .inl fun _ _ => confined_tokenStore_save (by rw [Token.revoke, hid]; exact hdrawn)
  · exact .inr fun w' h' => absurd h' h

/-! ## Drawn ids stay drawn -/

def Grows (env : Env) (w w' : World) : Prop :=
  SupplyGrows w w' ∧ (w.IdsDrawn env → w'.IdsDrawn env)

theorem Grows.of_confined (hsupply : SupplyGrows w w')
    (hconfined : Confined env w'.supply w w') : w.Grows env w' :=
  ⟨hsupply, fun h => hconfined (h.mono hsupply)⟩

instance : Everyday (Grows env) where
  refl _ := ⟨le_rfl, fun h => h⟩
  trans _ _ _ h h' := ⟨le_trans h.1 h'.1, fun hw => h'.2 (h.2 hw)⟩
  logged w log supply faults hle := .of_confined hle (UncountedEffects.logged w log supply faults hle)
  breaker w b := .of_confined le_rfl (UncountedEffects.breaker w b)
  anomaly w detector := .of_confined le_rfl (SmallEffects.anomaly w detector)
  endpoints w systems := .of_confined le_rfl (UncountedEffects.endpoints w systems)
  identities w faults store := .of_confined le_rfl (IdentitySaves.identities w faults store)
  rules w faults store := .of_confined le_rfl (RuleSaves.rules w faults store)
  requests w faults appended r := .of_confined le_rfl (RequestSaves.requests w faults appended r)

theorem grows_revokeToken (tokenId : String) (reasonCode : RevocationReason) (now : Int)
    (actor : Option String) : Along (Grows env) (revokeToken env tokenId reasonCode now actor) := by
  intro w
  have hsupply : Along SupplyGrows (revokeToken env tokenId reasonCode now actor) :=
    along_revokeToken (fun _ _ _ _ => .inl fun _ _ => supplyGrows_tokenStore_save _) _ _ _ _
  exact .of_confined (hsupply w) (confined_revokeToken tokenId reasonCode now actor w)

theorem grows_issue (frame : IssueFrame) : Along (Grows env) (frame.resume env) := by
  refine Along.of_wp fun w => wp_bind (wp_draw (wp_bind ?_))
  have hdrawn : ∃ k < w.supply + 1, (frame.token env (env.randomUUID w.supply)).id =
      env.randomUUID k := ⟨w.supply, Nat.lt_succ_self _, rfl⟩
  refine wp_mono (wp_and ((supplyGrows_tokenStore_save _).wp w.drawn)
    ((confined_tokenStore_save hdrawn).wp w.drawn)) ?_
  rintro r w' ⟨hsupply, hconfined⟩
  have hgrows : w.Grows env w' := by
    refine ⟨(Nat.le_succ _).trans hsupply, fun h => ?_⟩
    have hbelow : w.drawn.IdsBelow env (w.supply + 1) :=
      (h.mono (Nat.le_succ _)).of_stores rfl rfl
    exact (hconfined hbelow).mono hsupply
  cases r with
  | ok => exact wp_pure hgrows
  | error => exact hgrows

theorem grows_policyStore_save (policy : Policy) : Along (Grows env) (PolicyStore.save env policy) :=
  along_execute (along_saveRecord fun _ _ _ => .of_confined le_rfl fun h => h.of_stores rfl rfl)

theorem IdsDrawn.restart (h : w.IdsDrawn env) : (w.restart env).IdsDrawn env where
  tokens i t ht := by
    obtain ⟨hmem, hid⟩ := Journal.mem_of_replay ht
    exact ⟨hid, hid ▸ h.lines t hmem⟩
  lines := h.lines
  requests i r hr := (Journal.mem_of_replay hr).2

end World

/-- **Every state that is reached has drawn ids only**, whatever fails on the way. -/
theorem idsDrawn_run (acts : List (FaultyAction κ)) :
    ((faultyMachine κ env).run acts).world.IdsDrawn env := by
  have hinitial : World.initial.IdsDrawn env := by
    constructor
    · intro i t ht
      cases ht
    · intro t ht
      cases ht
    · intro i r hr
      cases hr
  induction acts using List.reverseRecOn with
  | nil => exact (related_boot (R := World.Grows env) World.initial).2 hinitial
  | append_singleton acts a ih =>
    rw [Machine.run_snoc]
    generalize (faultyMachine κ env).run acts = c at ih
    have hsettle : ∀ client call inflight (x : Op (Progress Frame Outcome)),
        Along (World.Grows env) x →
        (Config.settle client call inflight (x c.world) : Config κ × _).1.world.IdsDrawn env := by
      intro client call inflight x hx
      have hgrows := (hx c.world).2 ih
      unfold after at hgrows
      unfold Config.settle
      cases hrun : x c.world with
      | ok progress w' =>
        rw [hrun] at hgrows
        cases progress <;> exact hgrows
      | error err w' =>
        rw [hrun] at hgrows
        exact hgrows
    cases a with
    | disk faults => exact ih.of_stores rfl rfl
    | process a =>
      cases a with
      | call client call =>
        exact hsettle client call c.inflight _
          (along_startCall World.grows_policyStore_save World.grows_revokeToken call)
      | resume i downstream =>
        show (c.exec env (.resume i downstream)).1.world.IdsDrawn env
        simp only [Config.exec]
        cases c.inflight[i]? with
        | none => exact ih
        | some x =>
          exact hsettle x.client x.call (c.inflight.eraseIdx i) _
            (along_resumeFrame World.grows_issue downstream x.frame fun f _ => f.along_resume)
      | clock t => exact ih.of_stores rfl rfl
      | restart => exact (related_boot (R := World.Grows env) (c.world.restart env)).2 ih.restart

end Ambit
