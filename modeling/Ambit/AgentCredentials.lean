import Ambit.AgentRegistrations

/-! The credentials of agents along whole runs: what a registration hands out opens its identity in
every later state, and whoever is authenticated holds the secret of an identity that a registration
has stored. -/

namespace Ambit

open Effect

variable {env : Env} {w w' : World} {κ : Type} {acts : List (Action κ)}

/-! ## Credentials -/

/-- The two halves of a credential are what it was joined from. -/
theorem splitCredential_append {id secret : String} (hdotless : '.' ∉ id.toList) (hid : id ≠ "")
    (hsecret : secret ≠ "") : splitCredential (id ++ "." ++ secret) = some (id, secret) := by
  have hlist : (id ++ "." ++ secret).toList = id.toList ++ '.' :: secret.toList := by
    rw [String.toList_append, String.toList_append, List.append_assoc]
    rfl
  have hspan : (id ++ "." ++ secret).toList.span (· ≠ '.') = (id.toList, '.' :: secret.toList) := by
    have hnone : ∀ c ∈ id.toList, (Decidable.decide (c ≠ '.')) = true := by
      intro c hc
      refine decide_eq_true fun h => hdotless ?_
      rw [← h]
      exact hc
    rw [hlist, List.span_eq_takeWhile_dropWhile, List.takeWhile_append_of_pos hnone,
      List.dropWhile_append_of_pos hnone]
    simp
  have hne : ∀ s : String, s ≠ "" → s.toList ≠ [] := fun s hs h => hs (String.toList_eq_nil_iff.mp h)
  rw [splitCredential, hspan]
  dsimp only
  rw [if_neg (by simp [hne id hid, hne secret hsecret]), String.ofList_toList, String.ofList_toList]

/-- A credential of a stored identity comes to the check of its secret. -/
theorem authenticateAgent_found {credential id secret : String} {identity : AgentIdentity}
    (hsplit : splitCredential credential = some (id, secret))
    (hidentity : w.agentIdentityStore.live.get id = some identity) :
    authenticateAgent credential w = .ok (.awaiting { identity, secret }) w := by
  have hwp : wp (authenticateAgent credential)
      (fun r w' => r = .ok (.awaiting { identity, secret }) ∧ w' = w) w := by
    unfold authenticateAgent
    rw [hsplit]
    refine wp_bind (wp_get ?_)
    dsimp only
    rw [hidentity]
    exact wp_pure ⟨rfl, rfl⟩
  cases hrun : authenticateAgent credential w with
  | ok a w' =>
    obtain ⟨hr, rfl⟩ := wp_ok hwp hrun
    cases hr
    rfl
  | error err w' => cases (wp_error hwp hrun).1

/-- Whoever is to be authenticated has given the id of a stored identity. -/
theorem wp_authenticateAgent (credential : String) : wp (authenticateAgent credential)
    (fun r w' => w' = w ∧ (r = .ok (.returned none) ∨ ∃ id secret identity,
      splitCredential credential = some (id, secret) ∧
      w.agentIdentityStore.live.get id = some identity ∧
      r = .ok (.awaiting { identity, secret }))) w := by
  unfold authenticateAgent
  cases hsplit : splitCredential credential with
  | none => exact wp_pure ⟨rfl, .inl rfl⟩
  | some parts =>
    refine wp_bind (wp_get ?_)
    cases hidentity : w.agentIdentityStore.live.get parts.1 with
    | none =>
      dsimp only
      rw [hidentity]
      exact wp_pure ⟨rfl, .inl rfl⟩
    | some identity =>
      dsimp only
      rw [hidentity]
      exact wp_pure ⟨rfl, .inr ⟨_, _, identity, rfl, hidentity, rfl⟩⟩

/-! ## One piece of a call -/

/-- A suspended registration is for what its operator called, and holds what was drawn for it. -/
structure RegisterFrame.Draws (env : Env) (frame : RegisterFrame) (call : Call) (n : ℕ) : Prop where
  call_eq : call = .registerAgentIdentity frame.subject frame.createdBy frame.now
  id_eq : frame.id = env.randomUUID n
  secret_ne : frame.secret ≠ ""
  salt_ne : frame.salt ≠ []

/-- What a piece of a call that saves no identity does for the registrations. -/
structure DrawsRegistration (env : Env) (w : World) (call : Call)
    (r : Except Err (Progress Frame Outcome)) (w' : World) : Prop where
  kept : IdentitiesKept w w'
  frame : ∀ f, r = .ok (.awaiting (.register f)) → f.Draws env call w.supply ∧ w.supply < w'.supply
  saves : ∀ identity credential, r ≠ .ok (.returned (.registered identity credential))

theorem wp_registerAgentIdentity_draws (subject createdBy : String) (now : Int) :
    wp (registerAgentIdentity env subject createdBy now) (fun r w' => OnOk (fun frame =>
      frame.Draws env (.registerAgentIdentity subject createdBy now) w.supply ∧
        w.supply < w'.supply) r) w := by
  refine wp_bind (wp_bind (wp_throwIf (fun _ => trivial) fun _ => wp_bind (wp_get ?_)))
  refine wp_throwIf (fun _ => trivial) fun _ => wp_bind (wp_draw (wp_bind (wp_draw ?_)))
  refine wp_bind (wp_draw (wp_pure ⟨⟨rfl, rfl, env.randomSecret_ne_empty _, fun hsalt => ?_⟩, ?_⟩))
  · have hlength := env.randomSalt_length (w.supply + 1 + 1)
    rw [show env.randomSalt (w.supply + 1 + 1) = [] from hsalt] at hlength
    cases hlength
  · show w.supply < w.supply + 1 + 1 + 1
    omega

/-- A piece of a call that is no registration. -/
theorem DrawsRegistration.of_ran {call : Call} {F : Frame → Prop} {e : Event}
    {r : Except Err (Progress Frame Outcome)} (hran : Ran env w call F e r w')
    (hanswers : call.AnswersIn r)
    (hcall : ∀ subject createdBy now, call ≠ .registerAgentIdentity subject createdBy now)
    (hkept : IdentitiesKept w w') : DrawsRegistration env w call r w' := by
  refine ⟨hkept, fun f hf => ?_, ?_⟩
  · have hframe := hran.frame
    rw [hf] at hframe
    obtain ⟨subject, createdBy, now, hregister⟩ := hframe.1.awaits.of_register
    exact absurd hregister (hcall _ _ _)
  · rintro identity credential rfl
    have hregister := hanswers _ rfl
    cases call with
    | registerAgentIdentity => exact hcall _ _ _ rfl
    | _ => exact hregister

theorem wp_startCall_draws (h : w.Sound env) (call : Call) :
    wp (startCall env call) (DrawsRegistration env w call) w := by
  by_cases hcall : ∃ subject createdBy now, call = .registerAgentIdentity subject createdBy now
  · obtain ⟨subject, createdBy, now, rfl⟩ := hcall
    have hkept : Along IdentitiesKept (registerAgentIdentity env subject createdBy now) :=
      along_registerAgentIdentity subject createdBy now
    refine wp_bind (wp_mono (wp_and (wp_registerAgentIdentity_draws subject createdBy now)
      (hkept.wp w)) ?_)
    rintro r w' ⟨hr, hkept⟩
    cases r with
    | error err => exact ⟨hkept, (fun f hf => by cases hf), fun _ _ hr => by cases hr⟩
    | ok frame =>
      refine wp_pure ⟨hkept, fun f hf => ?_, fun _ _ hr => by cases hr⟩
      cases hf
      exact hr
  · refine wp_mono (wp_and (wp_and (startCall_spec h call) (startCall_answers call))
      ((identitiesKept_startCall call).wp w)) ?_
    rintro r w' ⟨⟨⟨e, hran, -⟩, hanswers⟩, hkept⟩
    exact .of_ran hran hanswers (fun _ _ _ hregister => hcall ⟨_, _, _, hregister⟩) hkept

theorem wp_resumeFrame_draws (h : w.Sound env) (downstream : Downstream) {call : Call} {frame : Frame}
    (hframe : frame.Sound env w.ledger w.supply call)
    (hother : ∀ f : RegisterFrame, frame ≠ .register f) :
    wp (resumeFrame env downstream frame) (DrawsRegistration env w call) w := by
  have hcall : ∀ subject createdBy now, call ≠ .registerAgentIdentity subject createdBy now := by
    rintro subject createdBy now rfl
    have hawaits := hframe.awaits
    cases frame with
    | register f => exact hother f rfl
    | _ => exact hawaits
  refine wp_mono (wp_and (wp_and (resumeFrame_spec h downstream hframe)
    (resumeFrame_answers downstream hframe.awaits))
    ((identitiesKept_resumeFrame downstream hother).wp w)) ?_
  rintro r w' ⟨⟨⟨e, hran, -⟩, hanswers⟩, hkept⟩
  exact .of_ran hran hanswers hcall hkept

/-- The call authenticates with the secret, which is offered for the stored identity. -/
structure Call.Offers (w : World) (call : Call) (identity : AgentIdentity) (secret : String) : Prop where
  stored : w.agentIdentityStore.live.get identity.id = some identity
  credential : ∃ credential, call = .authenticateAgent credential ∧
    splitCredential credential = some (identity.id, secret)

/-- What a piece of a call says of the authentications: one that it suspends checks a stored identity,
and one that it ends with an identity has checked its secret. -/
structure ChecksIdentity (env : Env) (w : World) (call : Call)
    (r : Except Err (Progress Frame Outcome)) : Prop where
  frame : ∀ f, r = .ok (.awaiting (.authenticate f)) → call.Offers w f.identity f.secret
  identity : ∀ identity, r = .ok (.returned (.identity (some identity))) →
    ∃ secret, call.Offers w identity secret ∧
      verifyPassword env.toPlatform secret identity.secretHash = true

/-- A piece of a call that is no authentication. -/
theorem ChecksIdentity.of_ran {call : Call} {F : Frame → Prop} {e : Event}
    {r : Except Err (Progress Frame Outcome)} (hran : Ran env w call F e r w')
    (hanswers : call.AnswersIn r) (hcall : ∀ credential, call ≠ .authenticateAgent credential) :
    ChecksIdentity env w call r := by
  refine ⟨fun f hf => ?_, ?_⟩
  · have hframe := hran.frame
    rw [hf] at hframe
    have hawaits := hframe.1.awaits
    cases call with
    | authenticateAgent credential => exact absurd rfl (hcall credential)
    | _ => exact hawaits.elim
  · rintro identity rfl
    have hauthenticate := hanswers _ rfl
    cases call with
    | authenticateAgent credential => exact absurd rfl (hcall credential)
    | _ => exact hauthenticate.elim

theorem wp_startCall_checks (h : w.Sound env)
    (hids : ∀ i identity, w.agentIdentityStore.live.get i = some identity → identity.id = i)
    (call : Call) : wp (startCall env call) (fun r _ => ChecksIdentity env w call r) w := by
  by_cases hcall : ∃ credential, call = .authenticateAgent credential
  · obtain ⟨credential, rfl⟩ := hcall
    refine wp_bind (wp_mono (wp_authenticateAgent credential) ?_)
    rintro r w' ⟨rfl, rfl | ⟨id, secret, identity, hsplit, hstored, rfl⟩⟩
    · exact wp_pure ⟨(fun f hf => by cases hf), fun identity hr => by cases hr⟩
    · obtain rfl := hids id identity hstored
      refine wp_pure ⟨fun f hf => ?_, fun identity hr => by cases hr⟩
      cases hf
      exact ⟨hstored, credential, rfl, hsplit⟩
  · refine wp_mono (wp_and (startCall_spec h call) (startCall_answers call)) ?_
    rintro r w' ⟨⟨e, hran, -⟩, hanswers⟩
    exact .of_ran hran hanswers fun _ h => hcall ⟨_, h⟩

theorem wp_resumeFrame_checks (h : w.Sound env) (downstream : Downstream) {call : Call} {frame : Frame}
    (hframe : frame.Sound env w.ledger w.supply call)
    (hoffers : ∀ f, frame = .authenticate f → call.Offers w f.identity f.secret) :
    wp (resumeFrame env downstream frame) (fun r _ => ChecksIdentity env w call r) w := by
  by_cases hauthenticate : ∃ f, frame = .authenticate f
  · obtain ⟨f, rfl⟩ := hauthenticate
    refine wp_pure ⟨(fun f hf => by cases hf), fun identity hr => ?_⟩
    have hresume : f.resume env = some identity := by
      injection hr with hr
      injection hr with hr
      injection hr
    unfold AuthenticateFrame.resume at hresume
    split at hresume
    · next hverify =>
      cases hresume
      exact ⟨f.secret, hoffers f rfl, hverify⟩
    · cases hresume
  · have hcall : ∀ credential, call ≠ .authenticateAgent credential := by
      rintro credential rfl
      have hawaits := hframe.awaits
      cases frame with
      | authenticate f => exact hauthenticate ⟨f, rfl⟩
      | _ => exact hawaits
    refine wp_mono (wp_and (resumeFrame_spec h downstream hframe)
      (resumeFrame_answers downstream hframe.awaits)) ?_
    rintro r w' ⟨⟨e, hran, -⟩, hanswers⟩
    exact .of_ran hran hanswers hcall

/-! ## One action -/

section
variable {c : Config κ}

/-- The identities are stored under drawn ids, suspended registrations hold ids of their own, and
suspended authentications what is stored. -/
structure Config.IdentitiesStand (env : Env) (c : Config κ) : Prop where
  store : c.world.agentIdentityStore.Sound AgentIdentity.id (fun i => i)
  drawn : ∀ i identity, c.world.agentIdentityStore.live.get i = some identity →
    identity.id = i ∧ ∃ n < c.world.supply, i = env.randomUUID n
  registrations : ∀ x ∈ c.inflight, ∀ f, x.frame = .register f →
    c.world.agentIdentityStore.live.get f.id = none ∧
      ∃ n < c.world.supply, f.Draws env x.call n
  distinct : c.inflight.Pairwise InFlight.OtherId
  authentications : ∀ x ∈ c.inflight, ∀ f, x.frame = .authenticate f →
    x.call.Offers c.world f.identity f.secret

/-- What an action does for the identities. -/
structure Config.IdentityStep (env : Env) (c : Config κ) (next : Config κ × Option (Settled κ)) :
    Prop where
  stands : next.1.IdentitiesStand env
  stays : ∀ i identity, c.world.agentIdentityStore.live.get i = some identity →
    next.1.world.agentIdentityStore.live.get i = some identity
  saved : ∀ i identity, next.1.world.agentIdentityStore.live.get i = some identity →
    c.world.agentIdentityStore.live.get i = some identity ∨
      ∃ x ∈ c.inflight, ∃ f, x.frame = .register f ∧ identity = f.identity env
  registered : ∀ s ∈ next.2, ∀ identity credential, s.outcome = .registered identity credential →
    next.1.world.agentIdentityStore.live.get identity.id = some identity ∧
      ∃ (f : RegisterFrame) (n : ℕ), f.Draws env s.call n ∧ identity = f.identity env ∧
        credential = f.id ++ "." ++ f.secret
  authenticated : ∀ s ∈ next.2, ∀ identity, s.outcome = .identity (some identity) →
    ∃ secret, s.call.Offers c.world identity secret ∧
      verifyPassword env.toPlatform secret identity.secretHash = true

namespace Config.IdentitiesStand

/-- What saves no identity, and suspends nothing. -/
theorem kept (h : c.IdentitiesStand env) (hkept : IdentitiesKept c.world w')
    {inflight : List (InFlight κ)} (hsub : inflight.Sublist c.inflight) :
    Config.IdentitiesStand env ⟨w', inflight⟩ := by
  obtain ⟨hstore, hle⟩ := hkept
  refine ⟨hstore ▸ h.store, fun i identity hi => ?_, fun x hx f hf => ?_, h.distinct.sublist hsub,
    fun x hx f hf => ?_⟩
  · rw [hstore] at hi
    obtain ⟨hid, n, hn, hdrawn⟩ := h.drawn i identity hi
    exact ⟨hid, n, hn.trans_le hle, hdrawn⟩
  · obtain ⟨hfree, n, hn, hdraws⟩ := h.registrations x (hsub.subset hx) f hf
    exact ⟨hstore ▸ hfree, n, hn.trans_le hle, hdraws⟩
  · obtain ⟨hstored, hcredential⟩ := h.authentications x (hsub.subset hx) f hf
    exact ⟨hstore ▸ hstored, hcredential⟩

/-- One more suspended call. -/
theorem suspend (h : c.IdentitiesStand env) {x : InFlight κ}
    (hregister : ∀ f, x.frame = .register f →
      (c.world.agentIdentityStore.live.get f.id = none ∧ ∃ n < c.world.supply, f.Draws env x.call n) ∧
        ∀ y ∈ c.inflight, ∀ g, y.frame = .register g → g.id ≠ f.id)
    (hauthenticate : ∀ f, x.frame = .authenticate f → x.call.Offers c.world f.identity f.secret) :
    Config.IdentitiesStand env ⟨c.world, c.inflight ++ [x]⟩ := by
  refine ⟨h.store, h.drawn, fun y hy f hf => ?_, ?_, fun y hy f hf => ?_⟩
  · rcases List.mem_append.mp hy with hy | hy
    · exact h.registrations y hy f hf
    · cases List.mem_singleton.mp hy
      exact (hregister f hf).1
  · refine List.pairwise_append.mpr ⟨h.distinct, List.pairwise_singleton _ _, ?_⟩
    intro y hy z hz g f hg hf
    cases List.mem_singleton.mp hz
    exact (hregister f hf).2 y hy g hg
  · rcases List.mem_append.mp hy with hy | hy
    · exact h.authentications y hy f hf
    · cases List.mem_singleton.mp hy
      exact hauthenticate f hf

/-- A piece that saves no identity. -/
theorem settle (h : c.IdentitiesStand env) {client : κ} {call : Call} {inflight : List (InFlight κ)}
    (hsub : inflight.Sublist c.inflight) {piece : Op (Progress Frame Outcome)}
    (hpiece : wp piece (fun r w' => DrawsRegistration env c.world call r w' ∧
      ChecksIdentity env c.world call r) c.world) :
    c.IdentityStep env (Config.settle client call inflight (piece c.world)) := by
  have hstays : ∀ {w'}, IdentitiesKept c.world w' →
      (∀ i identity, c.world.agentIdentityStore.live.get i = some identity →
        w'.agentIdentityStore.live.get i = some identity) ∧
      ∀ i identity, w'.agentIdentityStore.live.get i = some identity →
        c.world.agentIdentityStore.live.get i = some identity :=
    fun hkept => ⟨fun i identity hi => hkept.1 ▸ hi, fun i identity hi => hkept.1 ▸ hi⟩
  unfold Config.settle
  cases hrun : piece c.world with
  | error err w' =>
    obtain ⟨hdraws, -⟩ := wp_error hpiece hrun
    refine ⟨h.kept hdraws.kept hsub, (hstays hdraws.kept).1,
      fun i identity hi => .inl ((hstays hdraws.kept).2 i identity hi), ?_, ?_⟩
    · rintro _ ⟨⟩ identity credential ⟨⟩
    · rintro _ ⟨⟩ identity ⟨⟩
  | ok progress w' =>
    obtain ⟨hdraws, hchecks⟩ := wp_ok hpiece hrun
    have hsaved : ∀ i identity, w'.agentIdentityStore.live.get i = some identity →
        c.world.agentIdentityStore.live.get i = some identity ∨
          ∃ x ∈ c.inflight, ∃ f, x.frame = .register f ∧ identity = f.identity env :=
      fun i identity hi => .inl ((hstays hdraws.kept).2 i identity hi)
    cases progress with
    | returned outcome =>
      refine ⟨h.kept hdraws.kept hsub, (hstays hdraws.kept).1, hsaved, ?_, ?_⟩
      · rintro _ ⟨⟩ identity credential rfl
        exact absurd rfl (hdraws.saves identity credential)
      · rintro _ ⟨⟩ identity rfl
        exact hchecks.identity identity rfl
    | awaiting frame =>
      have hquiet := h.kept hdraws.kept hsub
      refine ⟨hquiet.suspend ?_ ?_, (hstays hdraws.kept).1, hsaved, (fun s hs => by cases hs),
        fun s hs => by cases hs⟩
      · rintro f rfl
        -- the id of a new registration is drawn after every other
        obtain ⟨hnew, hlt⟩ := hdraws.frame f rfl
        refine ⟨⟨?_, _, hlt, hnew⟩, fun y hy g hg hsame => ?_⟩
        · rw [Option.eq_none_iff_forall_not_mem]
          intro identity hidentity
          obtain ⟨-, n, hn, hdrawn⟩ := h.drawn f.id identity ((hstays hdraws.kept).2 _ _ hidentity)
          have := env.randomUUID_injective (hnew.id_eq.symm.trans hdrawn)
          omega
        · obtain ⟨-, n, hn, hold⟩ := h.registrations y (hsub.subset hy) g hg
          have := env.randomUUID_injective (hold.id_eq.symm.trans (hsame.trans hnew.id_eq))
          omega
      · rintro f rfl
        obtain ⟨hstored, hcredential⟩ := hchecks.frame f rfl
        exact ⟨(hstays hdraws.kept).1 _ _ hstored, hcredential⟩

/-- A registration that goes on. -/
theorem register (hc : c.Sound env) (h : c.IdentitiesStand env) {i : ℕ} (downstream : Downstream)
    {x : InFlight κ} (hx : c.inflight[i]? = some x) {f : RegisterFrame} (hf : x.frame = .register f) :
    c.IdentityStep env (c.exec env (.resume i downstream)) := by
  obtain ⟨w', hexec, hstore, hle⟩ := Config.exec_register hc downstream hx hf
  obtain ⟨hfree, n, hn, hdraws⟩ := h.registrations x (List.mem_of_getElem? hx) f hf
  have hget := RegisterFrame.get_stored hstore
  have hstays : ∀ j identity, c.world.agentIdentityStore.live.get j = some identity →
      w'.agentIdentityStore.live.get j = some identity := by
    intro j identity hj
    rw [hget, if_neg]
    · exact hj
    · rintro rfl
      cases hfree.symm.trans hj
  obtain ⟨hlt, hx'⟩ := List.getElem?_eq_some_iff.mp hx
  have hpairs : (x :: c.inflight.eraseIdx i).Pairwise InFlight.OtherId := by
    refine (List.Perm.pairwise_iff (fun hxy f g hf hg => (hxy g f hg hf).symm) ?_).mpr h.distinct
    rw [← hx']
    exact List.getElem_cons_eraseIdx_perm hlt
  obtain ⟨hdistinct, hrest⟩ := List.pairwise_cons.mp hpairs
  rw [hexec]
  refine ⟨⟨?_, fun j identity hj => ?_, fun y hy g hg => ?_, hrest, fun y hy g hg => ?_⟩, hstays,
    fun j identity hj => ?_, ?_, ?_⟩
  · show w'.agentIdentityStore.Sound AgentIdentity.id (fun i => i)
    rw [hstore]
    exact h.store.save _ rfl
  · rw [hget] at hj
    split at hj
    · next hsame =>
      cases hj
      exact ⟨hsame.symm, n, hn.trans_le hle, hsame.trans hdraws.id_eq⟩
    · obtain ⟨hid, m, hm, hdrawn⟩ := h.drawn j identity hj
      exact ⟨hid, m, hm.trans_le hle, hdrawn⟩
  · obtain ⟨hgfree, m, hm, hg'⟩ := h.registrations y (List.mem_of_mem_eraseIdx hy) g hg
    refine ⟨?_, m, hm.trans_le hle, hg'⟩
    rw [hget, if_neg (fun hsame => hdistinct y hy f g hf hg hsame.symm)]
    exact hgfree
  · obtain ⟨hstored, hcredential⟩ := h.authentications y (List.mem_of_mem_eraseIdx hy) g hg
    exact ⟨hstays _ _ hstored, hcredential⟩
  · rw [hget] at hj
    split at hj
    · cases hj
      exact .inr ⟨x, List.mem_of_getElem? hx, f, hf, rfl⟩
    · exact .inl hj
  · rintro _ ⟨⟩ identity credential ⟨⟩
    refine ⟨?_, f, n, hdraws, rfl, rfl⟩
    show w'.agentIdentityStore.live.get f.id = _
    rw [hget, if_pos rfl]
  · rintro _ ⟨⟩ identity ⟨⟩

theorem exec (hc : c.Sound env) (h : c.IdentitiesStand env) (a : Action κ) :
    c.IdentityStep env (c.exec env a) := by
  have hids : ∀ i identity, c.world.agentIdentityStore.live.get i = some identity → identity.id = i :=
    fun i identity hi => (h.drawn i identity hi).1
  have hstill : c.IdentityStep env (c, none) :=
    ⟨h, fun _ _ hi => hi, fun _ _ hi => .inl hi, (fun s hs => by cases hs), fun s hs => by cases hs⟩
  cases a with
  | call client call =>
    exact h.settle (List.Sublist.refl _)
      (wp_and (wp_startCall_draws hc.world call) (wp_startCall_checks hc.world hids call))
  | resume i downstream =>
    cases hx : c.inflight[i]? with
    | none =>
      simp only [Config.exec, hx]
      exact hstill
    | some x =>
      have hmem := List.mem_of_getElem? hx
      by_cases hregister : ∃ f, x.frame = .register f
      · obtain ⟨f, hf⟩ := hregister
        exact h.register hc downstream hx hf
      · simp only [Config.exec, hx]
        refine h.settle (List.eraseIdx_sublist ..) (wp_and ?_ ?_)
        · exact wp_resumeFrame_draws hc.world downstream (hc.frames x hmem)
            fun f hf => hregister ⟨f, hf⟩
        · exact wp_resumeFrame_checks hc.world downstream (hc.frames x hmem)
            (h.authentications x hmem)
  | clock t =>
    have hkept : IdentitiesKept c.world { c.world with clock := t } := ⟨rfl, le_rfl⟩
    exact ⟨h.kept hkept (List.Sublist.refl _), fun _ _ hi => hi, fun _ _ hi => .inl hi,
      (fun s hs => by cases hs), fun s hs => by cases hs⟩
  | restart =>
    have hboot : IdentitiesKept (c.world.restart env) ((c.world.restart env).boot env) :=
      related_boot _
    have hget : ∀ i, ((c.world.restart env).boot env).agentIdentityStore.live.get i =
        c.world.agentIdentityStore.live.get i := by
      intro i
      rw [hboot.1]
      show (c.world.agentIdentityStore.reopen AgentIdentity.id).live.get i = _
      rw [h.store.durable.reopen_live, OrderedMap.mapValues_id]
    refine ⟨⟨?_, fun i identity hi => ?_, (fun x hx => by cases hx), .nil, fun x hx => by cases hx⟩,
      fun i identity hi => (hget i).trans hi, fun i identity hi => .inl ((hget i).symm.trans hi),
      (fun s hs => by cases hs), fun s hs => by cases hs⟩
    · show ((c.world.restart env).boot env).agentIdentityStore.Sound AgentIdentity.id (fun i => i)
      rw [hboot.1]
      exact h.store.reopen (fun _ => rfl) fun _ => rfl
    · obtain ⟨hid, n, hn, hdrawn⟩ := h.drawn i identity ((hget i).symm.trans hi)
      exact ⟨hid, n, hn.trans_le hboot.2, hdrawn⟩

end Config.IdentitiesStand

end

/-! ## Along a run -/

/-- Where a run stands with its identities: each stored one is of a registration that was called, each
that was handed out with a credential is stored, and so is each that was authenticated. -/
structure IdentitiesSoFar (env : Env) (acts : List (Action κ)) : Prop where
  stands : ((processMachine κ env).run acts).IdentitiesStand env
  called : ∀ i identity,
    ((processMachine κ env).run acts).world.agentIdentityStore.live.get i = some identity →
      ∃ client, Action.call client
        (.registerAgentIdentity identity.subject identity.createdBy identity.createdAt) ∈ acts
  registered : ∀ s ∈ settledCalls env acts, ∀ identity credential,
    s.outcome = .registered identity credential →
      ((processMachine κ env).run acts).world.agentIdentityStore.live.get identity.id = some identity ∧
      ∃ (f : RegisterFrame) (n : ℕ), f.Draws env s.call n ∧ identity = f.identity env ∧
        credential = f.id ++ "." ++ f.secret
  authenticated : ∀ s ∈ settledCalls env acts, ∀ identity, s.outcome = .identity (some identity) →
    ∃ secret, s.call.Offers ((processMachine κ env).run acts).world identity secret ∧
      verifyPassword env.toPlatform secret identity.secretHash = true

theorem identitiesSoFar (env : Env) (acts : List (Action κ)) : IdentitiesSoFar env acts := by
  refine Machine.run_induction (P := fun acts => IdentitiesSoFar env acts) acts ?_ fun acts a ih => ?_
  · have hboot : IdentitiesKept World.initial (World.initial.boot env) := related_boot _
    have hnone : ∀ i, (World.initial.boot env).agentIdentityStore.live.get i = none := by
      rw [hboot.1]
      exact fun i => rfl
    refine ⟨⟨?_, fun i identity hi => ?_, (fun x hx => by cases hx), .nil, fun x hx => by cases hx⟩,
      fun i identity hi => ?_, (fun s hs => by cases hs), fun s hs => by cases hs⟩
    · show (World.initial.boot env).agentIdentityStore.Sound AgentIdentity.id (fun i => i)
      rw [hboot.1]
      exact Journal.sound_empty
    · cases (hnone i).symm.trans hi
    · cases (hnone i).symm.trans hi
  · have hstep := ih.stands.exec (@Config.sound_run env _ acts) a
    have hrun : (processMachine κ env).run (acts ++ [a]) =
        (((processMachine κ env).run acts).exec env a).1 := Machine.run_snoc ..
    refine ⟨hrun ▸ hstep.stands, fun i identity hi => ?_, fun s hs identity credential hout => ?_,
      fun s hs identity hout => ?_⟩
    · rw [hrun] at hi
      rcases hstep.saved i identity hi with hi | ⟨x, hx, f, hf, rfl⟩
      · obtain ⟨client, hcall⟩ := ih.called i identity hi
        exact ⟨client, List.mem_append_left _ hcall⟩
      · obtain ⟨-, n, -, hdraws⟩ := ih.stands.registrations x hx f hf
        have hcall := started_of_inflight hx
        rw [hdraws.call_eq] at hcall
        exact ⟨x.client, List.mem_append_left _ hcall⟩
    · rw [hrun]
      rw [settledCalls_snoc] at hs
      rcases List.mem_append.mp hs with hs | hs
      · obtain ⟨hstored, hdrawn⟩ := ih.registered s hs identity credential hout
        exact ⟨hstep.stays _ _ hstored, hdrawn⟩
      · exact hstep.registered s (Option.mem_toList.mp hs) identity credential hout
    · rw [hrun]
      rw [settledCalls_snoc] at hs
      have hstays : ∀ {secret}, s.call.Offers ((processMachine κ env).run acts).world identity secret →
          s.call.Offers (((processMachine κ env).run acts).exec env a).1.world identity secret :=
        fun h => ⟨hstep.stays _ _ h.stored, h.credential⟩
      rcases List.mem_append.mp hs with hs | hs
      · obtain ⟨secret, hoffers, hverify⟩ := ih.authenticated s hs identity hout
        exact ⟨secret, hstays hoffers, hverify⟩
      · obtain ⟨secret, hoffers, hverify⟩ :=
          hstep.authenticated s (Option.mem_toList.mp hs) identity hout
        exact ⟨secret, hstays hoffers, hverify⟩

/-- What the credentials of a run are worth: one that was handed out authenticates its identity in
every later state, and no other is ever authenticated than one that a registration has stored, by the
secret that its hash is of. -/
structure CredentialsHold (env : Env) (acts : List (Action κ)) : Prop where
  opens : ∀ pre post, acts = pre ++ post → ∀ s ∈ settledCalls env pre, ∀ identity credential,
    s.outcome = .registered identity credential → ∃ frame,
      startCall env (.authenticateAgent credential) ((processMachine κ env).run acts).world =
        .ok (.awaiting (.authenticate frame)) ((processMachine κ env).run acts).world ∧
      ∀ downstream w, resumeFrame env downstream (.authenticate frame) w =
        .ok (.returned (.identity (some identity))) w
  authenticates : ∀ s ∈ settledCalls env acts, ∀ identity, s.outcome = .identity (some identity) →
    ((processMachine κ env).run acts).world.agentIdentityStore.live.get identity.id = some identity ∧
    (∃ credential secret, s.call = .authenticateAgent credential ∧
      splitCredential credential = some (identity.id, secret) ∧
      verifyPassword env.toPlatform secret identity.secretHash = true) ∧
    ∃ client, Action.call client
      (.registerAgentIdentity identity.subject identity.createdBy identity.createdAt) ∈ acts

/-- **The credential of a registration opens its identity for good, and nothing else does**: across
all runs, whatever is in flight, and across restarts. -/
theorem credentialsHold (hdotless : ∀ n, '.' ∉ (env.randomUUID n).toList) (acts : List (Action κ)) :
    CredentialsHold env acts := by
  refine ⟨?_, fun s hs identity hout => ?_⟩
  · rintro pre post rfl s hs identity credential hout
    have hs' : s ∈ settledCalls env (pre ++ post) := by
      rw [settledCalls, Machine.outputs_append]
      exact List.mem_append_left _ hs
    obtain ⟨hstored, f, n, hdraws, rfl, rfl⟩ :=
      (identitiesSoFar env (pre ++ post)).registered s hs' identity credential hout
    have hsplit : splitCredential (f.id ++ "." ++ f.secret) = some (f.id, f.secret) := by
      refine splitCredential_append ?_ ?_ hdraws.secret_ne
      · rw [hdraws.id_eq]
        exact hdotless n
      · rw [hdraws.id_eq]
        exact env.randomUUID_ne_empty n
    have hauthenticate := authenticateAgent_found hsplit hstored
    refine ⟨{ identity := f.identity env, secret := f.secret }, ?_, fun downstream w => ?_⟩
    · show (authenticateAgent (f.id ++ "." ++ f.secret) >>= _) _ = _
      simp only [bind, EStateM.bind, hauthenticate]
      rfl
    · have hverify := verifyPassword_hashPassword env.toPlatform f.secret hdraws.salt_ne
      have hresume : AuthenticateFrame.resume env { identity := f.identity env, secret := f.secret } =
          some (f.identity env) := if_pos hverify
      show (pure (Progress.returned (Outcome.identity _)) : Op _) w = _
      rw [hresume]
      rfl
  · obtain ⟨secret, ⟨hstored, credential, hcall, hsplit⟩, hverify⟩ :=
      (identitiesSoFar env acts).authenticated s hs identity hout
    exact ⟨hstored, ⟨credential, secret, hcall, hsplit, hverify⟩,
      (identitiesSoFar env acts).called _ identity hstored⟩

theorem sampleUUID_dotless (n : ℕ) : '.' ∉ (sampleEnv.randomUUID n).toList := by
  intro h
  have hlist : (sampleEnv.randomUUID n).toList = "id-".toList ++ Nat.toDigits 10 n := by
    show ("id-" ++ toString n).toList = _
    rw [String.toList_append]
    simp
  rw [hlist] at h
  rcases List.mem_append.mp h with h | h
  · revert h
    decide
  · have hdigit := Nat.isDigit_of_mem_toDigits (by decide) (by decide) h
    revert hdigit
    decide

/-- One agent registered, and again in vain, with a restart in between. -/
theorem credentialsHold_sample : (∀ n, '.' ∉ (sampleEnv.randomUUID n).toList) ∧
    CredentialsHold sampleEnv sampleRegistered :=
  ⟨sampleUUID_dotless, credentialsHold sampleUUID_dotless sampleRegistered⟩

end Ambit
