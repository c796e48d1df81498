import Ambit.Refinement
import Ambit.SamplePlatform
import Ambit.Untouched

/-! One identity per subject: it holds of every run in which each registration, when it saves its
identity after the hash of the secret, finds its subject still without one. -/

namespace Ambit

open Effect

variable {env : Env} {w w' : World}

/-! ## The identity store -/

/-- No identity is saved. -/
def IdentitiesKept (w w' : World) : Prop :=
  w'.agentIdentityStore = w.agentIdentityStore ∧ w.supply ≤ w'.supply

instance : SmallEffects IdentitiesKept where
  refl _ := ⟨rfl, le_rfl⟩
  trans _ _ _ h h' := ⟨h'.1.trans h.1, h.2.trans h'.2⟩
  logged _ _ _ _ hle := ⟨rfl, hle⟩
  breaker _ _ := ⟨rfl, le_rfl⟩
  anomaly _ _ := ⟨rfl, le_rfl⟩
  endpoints _ _ := ⟨rfl, le_rfl⟩

instance : RequestSaves IdentitiesKept where
  requests _ _ _ _ := ⟨rfl, le_rfl⟩

instance : RuleSaves IdentitiesKept where
  rules _ _ _ := ⟨rfl, le_rfl⟩

theorem identitiesKept_tokenStore_save (t : Token) :
    Along IdentitiesKept (TokenStore.save env t) :=
  along_execute (along_saveRecord fun _ _ _ => ⟨rfl, le_rfl⟩)

theorem identitiesKept_policyStore_save (policy : Policy) :
    Along IdentitiesKept (PolicyStore.save env policy) :=
  along_execute (along_saveRecord fun _ _ _ => ⟨rfl, le_rfl⟩)

theorem identitiesKept_issue (frame : IssueFrame) : Along IdentitiesKept (frame.resume env) :=
  Along.bind along_draw fun _ => Along.bind (identitiesKept_tokenStore_save _) fun _ => Along.pure

theorem identitiesKept_startCall (call : Call) : Along IdentitiesKept (startCall env call) := by
  refine along_startCall identitiesKept_policyStore_save (fun tokenId reasonCode now actor => ?_) call
  exact along_revokeToken (fun _ _ _ _ => .inl fun _ _ => identitiesKept_tokenStore_save _) _ _ _ _

theorem identitiesKept_resumeFrame (downstream : Downstream) {frame : Frame}
    (hframe : ∀ f : RegisterFrame, frame ≠ .register f) :
    Along IdentitiesKept (resumeFrame env downstream frame) :=
  along_resumeFrame identitiesKept_issue downstream frame fun f hf => absurd hf (hframe f)

theorem findBySubject_eq_none {subject : String} :
    findBySubject w subject = none ↔
      ∀ i a, w.agentIdentityStore.live.get i = some a → a.subject ≠ subject := by
  rw [findBySubject, List.find?_eq_none]
  constructor
  · intro h i a ha
    simpa using h a (OrderedMap.mem_values_iff.mpr ⟨i, ha⟩)
  · intro h a ha
    obtain ⟨i, hi⟩ := OrderedMap.mem_values_iff.mp ha
    simpa using h i a hi

/-- The identities read back as they are, have drawn ids, and no two have one subject. -/
structure World.IdentitiesSound (env : Env) (w : World) : Prop where
  store : w.agentIdentityStore.Sound AgentIdentity.id (fun i => i)
  drawn : ∀ i a, w.agentIdentityStore.live.get i = some a → ∃ n < w.supply, i = env.randomUUID n
  unique : ∀ i j a b, w.agentIdentityStore.live.get i = some a →
    w.agentIdentityStore.live.get j = some b → a.subject = b.subject → i = j

namespace World.IdentitiesSound

theorem kept (h : w.IdentitiesSound env) (hkept : IdentitiesKept w w') :
    w'.IdentitiesSound env := by
  obtain ⟨hstore, hle⟩ := hkept
  refine ⟨?_, ?_, ?_⟩
  · rw [hstore]
    exact h.store
  · rw [hstore]
    intro i a ha
    obtain ⟨n, hn, hi⟩ := h.drawn i a ha
    exact ⟨n, hn.trans_le hle, hi⟩
  · rw [hstore]
    exact h.unique

/-- What is read back is what was stored. -/
theorem restart_get (h : w.IdentitiesSound env) (i : String) :
    (w.restart env).agentIdentityStore.live.get i = w.agentIdentityStore.live.get i := by
  show (w.agentIdentityStore.reopen AgentIdentity.id).live.get i = _
  rw [h.store.durable.reopen_live, OrderedMap.mapValues_id]

theorem restart (h : w.IdentitiesSound env) : (w.restart env).IdentitiesSound env where
  store := h.store.reopen (fun _ => rfl) fun _ => rfl
  drawn i a ha := h.drawn i a (h.restart_get i ▸ ha)
  unique i j a b ha hb := h.unique i j a b (h.restart_get i ▸ ha) (h.restart_get j ▸ hb)

end World.IdentitiesSound

/-! ## One registration -/

/-- The identity that a suspended registration saves. -/
def RegisterFrame.identity (env : Env) (frame : RegisterFrame) : AgentIdentity where
  id := frame.id
  subject := frame.subject
  secretHash := hashPassword env.toPlatform frame.secret frame.salt
  createdBy := frame.createdBy
  createdAt := frame.now

/-- A registration is refused and changes nothing, or comes to its await with a new id. -/
theorem wp_registerAgentIdentity (subject createdBy : String) (now : Int) :
    wp (registerAgentIdentity env subject createdBy now) (fun r w' => match r with
      | .error err => w' = w ∧ (isBlank subject = false → err = .duplicateAgentIdentity
          ("an agent identity for subject \"" ++ subject ++ "\" already exists"))
      | .ok frame => frame.subject = subject ∧ frame.id = env.randomUUID w.supply ∧
          w.supply < w'.supply) w := by
  refine wp_bind (wp_bind (wp_throwIf (fun hblank => ?_) fun _ => wp_bind (wp_get ?_)))
  · refine ⟨rfl, fun h => ?_⟩
    rw [h] at hblank
    cases hblank
  refine wp_throwIf (fun _ => ⟨rfl, fun _ => rfl⟩) fun _ => wp_bind (wp_draw (wp_bind (wp_draw ?_)))
  refine wp_bind (wp_draw (wp_pure ⟨rfl, rfl, ?_⟩))
  show w.supply < w.supply + 1 + 1 + 1
  omega

/-- A registration that goes on saves its identity. -/
theorem RegisterFrame.wp_resume (h : w.Sound env) (frame : RegisterFrame) :
    wp (frame.resume env) (fun r w' =>
      r = .ok (frame.identity env, frame.id ++ "." ++ frame.secret) ∧
        w'.agentIdentityStore = (w.putIdentity (frame.identity env)).agentIdentityStore ∧
        w.supply ≤ w'.supply) w := by
  refine wp_bind (AgentIdentityStore.wp_save h (wp_bind ?_))
  refine wp_auditRecord (h.putIdentity _) rfl (wp_pure ⟨rfl, rfl, ?_⟩)
  exact Nat.le_succ w.supply

/-! ## Registrations in flight -/

variable {κ : Type} {c : Config κ} {x y : InFlight κ}

/-- The call is a registration for the subject, and succeeded. -/
def Settled.registers (subject : String) (s : Settled κ) : Bool :=
  match s.call, s.outcome with
  | .registerAgentIdentity subject' _ _, .registered _ _ => subject' = subject
  | _, _ => false

theorem Settled.registers_iff {subject : String} {s : Settled κ} : s.registers subject = true ↔
    ∃ createdBy now identity credential,
      s.call = .registerAgentIdentity subject createdBy now ∧
      s.outcome = .registered identity credential := by
  constructor
  · intro h
    obtain ⟨client, call, outcome⟩ := s
    cases call with
    | registerAgentIdentity subject' createdBy now =>
      cases outcome with
      | registered identity credential =>
        obtain rfl : subject' = subject := of_decide_eq_true h
        exact ⟨createdBy, now, identity, credential, rfl, rfl⟩
      | _ => cases h
    | _ => cases h
  · rintro ⟨createdBy, now, identity, credential, hcall, houtcome⟩
    simp [registers, hcall, houtcome]

theorem Call.Awaits.of_register {call : Call} {f : RegisterFrame} (h : call.Awaits (.register f)) :
    ∃ subject createdBy now, call = .registerAgentIdentity subject createdBy now := by
  cases call with
  | registerAgentIdentity subject createdBy now => exact ⟨subject, createdBy, now, rfl⟩
  | _ => exact h.elim

/-- A suspended registration is for the subject of its call, and its id is drawn and free. -/
def InFlight.HoldsFreeId (env : Env) (w : World) (x : InFlight κ) : Prop :=
  ∀ f, x.frame = .register f →
    (∃ createdBy now, x.call = .registerAgentIdentity f.subject createdBy now) ∧
    (∃ n < w.supply, f.id = env.randomUUID n) ∧ w.agentIdentityStore.live.get f.id = none

/-- The ids that two suspended registrations hold are different. -/
def InFlight.OtherId (x y : InFlight κ) : Prop :=
  ∀ f g, x.frame = .register f → y.frame = .register g → f.id ≠ g.id

structure Config.RegistrationsSound (env : Env) (c : Config κ) : Prop where
  world : c.world.IdentitiesSound env
  frames : ∀ x ∈ c.inflight, x.HoldsFreeId env c.world
  distinct : c.inflight.Pairwise InFlight.OtherId

theorem InFlight.HoldsFreeId.kept (h : x.HoldsFreeId env w) (hkept : IdentitiesKept w w') :
    x.HoldsFreeId env w' := by
  intro f hf
  obtain ⟨hcall, ⟨n, hn, hid⟩, hfree⟩ := h f hf
  refine ⟨hcall, ⟨n, hn.trans_le hkept.2, hid⟩, ?_⟩
  rw [hkept.1]
  exact hfree

/-- What a piece of a call that saves no identity does for the registrations: it keeps the store, a
registration that it suspends has a new id, and none ends. -/
structure SuspendsRegistration (env : Env) (w : World) (call : Call)
    (r : Except Err (Progress Frame Outcome)) (w' : World) : Prop where
  kept : IdentitiesKept w w'
  frame : ∀ f, r = .ok (.awaiting (.register f)) →
    (∃ createdBy now, call = .registerAgentIdentity f.subject createdBy now) ∧
    f.id = env.randomUUID w.supply ∧ w.supply < w'.supply
  goesOn : ∀ subject createdBy now outcome, call = .registerAgentIdentity subject createdBy now →
    r ≠ .ok (.returned outcome)

/-- A piece of a call that is no registration. -/
theorem SuspendsRegistration.of_ran {call : Call} {F : Frame → Prop} {e : Event}
    {r : Except Err (Progress Frame Outcome)} (hran : Ran env w call F e r w')
    (hcall : ∀ subject createdBy now, call ≠ .registerAgentIdentity subject createdBy now)
    (hkept : IdentitiesKept w w') : SuspendsRegistration env w call r w' := by
  refine ⟨hkept, fun f hf => ?_, fun subject createdBy now _ hregister => ?_⟩
  · have hframe := hran.frame
    rw [hf] at hframe
    obtain ⟨subject, createdBy, now, hregister⟩ := hframe.1.awaits.of_register
    exact absurd hregister (hcall _ _ _)
  · exact absurd hregister (hcall _ _ _)

theorem wp_startCall_suspends (h : w.Sound env) (call : Call) :
    wp (startCall env call) (SuspendsRegistration env w call) w := by
  by_cases hcall : ∃ subject createdBy now, call = .registerAgentIdentity subject createdBy now
  · obtain ⟨subject, createdBy, now, rfl⟩ := hcall
    have hkept : Along IdentitiesKept (registerAgentIdentity env subject createdBy now) :=
      along_registerAgentIdentity subject createdBy now
    refine wp_bind (wp_mono (wp_and (wp_registerAgentIdentity subject createdBy now) (hkept.wp w)) ?_)
    rintro r w' ⟨hr, hkept⟩
    cases r with
    | error err => exact ⟨hkept, (fun f hf => by cases hf), fun _ _ _ _ _ h => by cases h⟩
    | ok frame =>
      obtain ⟨hsubject, hid, hlt⟩ := hr
      refine wp_pure ⟨hkept, fun f hf => ?_, fun _ _ _ _ _ h => by cases h⟩
      cases hf
      exact ⟨⟨createdBy, now, by rw [hsubject]⟩, hid, hlt⟩
  · refine wp_mono (wp_and (startCall_spec h call) ((identitiesKept_startCall call).wp w)) ?_
    rintro r w' ⟨⟨e, hran, -⟩, hkept⟩
    exact .of_ran hran (fun _ _ _ hregister => hcall ⟨_, _, _, hregister⟩) hkept

theorem wp_resumeFrame_suspends (h : w.Sound env) (downstream : Downstream) {call : Call}
    {frame : Frame} (hframe : frame.Sound env w.ledger w.supply call)
    (hother : ∀ f : RegisterFrame, frame ≠ .register f) :
    wp (resumeFrame env downstream frame) (SuspendsRegistration env w call) w := by
  have hcall : ∀ subject createdBy now, call ≠ .registerAgentIdentity subject createdBy now := by
    rintro subject createdBy now rfl
    have hawaits := hframe.awaits
    cases frame with
    | register f => exact hother f rfl
    | _ => exact hawaits
  refine wp_mono (wp_and (resumeFrame_spec h downstream hframe)
    ((identitiesKept_resumeFrame downstream hother).wp w)) ?_
  rintro r w' ⟨⟨e, hran, -⟩, hkept⟩
  exact .of_ran hran hcall hkept

/-- A piece that saves no identity. -/
theorem Config.RegistrationsSound.settle (h : c.RegistrationsSound env) {client : κ} {call : Call}
    {inflight : List (InFlight κ)} (hsub : inflight.Sublist c.inflight)
    {piece : Op (Progress Frame Outcome)}
    (hpiece : wp piece (SuspendsRegistration env c.world call) c.world) :
    (Config.settle client call inflight (piece c.world)).1.RegistrationsSound env ∧
    IdentitiesKept c.world (Config.settle client call inflight (piece c.world)).1.world ∧
    ∀ s ∈ (Config.settle client call inflight (piece c.world)).2, ∀ subject,
      ¬ s.registers subject = true := by
  have hold : ∀ {w'}, IdentitiesKept c.world w' → ∀ x ∈ inflight, x.HoldsFreeId env w' :=
    fun hkept x hx => (h.frames x (hsub.subset hx)).kept hkept
  unfold Config.settle
  cases hrun : piece c.world with
  | error err w' =>
    have hsuspends := wp_error hpiece hrun
    refine ⟨⟨h.world.kept hsuspends.kept, hold hsuspends.kept, h.distinct.sublist hsub⟩,
      hsuspends.kept, fun s hs subject hregisters => ?_⟩
    cases hs
    obtain ⟨_, _, _, _, -, houtcome⟩ := Settled.registers_iff.mp hregisters
    cases houtcome
  | ok progress w' =>
    have hsuspends := wp_ok hpiece hrun
    cases progress with
    | returned outcome =>
      refine ⟨⟨h.world.kept hsuspends.kept, hold hsuspends.kept, h.distinct.sublist hsub⟩,
        hsuspends.kept, fun s hs subject hregisters => ?_⟩
      cases hs
      obtain ⟨_, _, _, _, hcall, -⟩ := Settled.registers_iff.mp hregisters
      exact hsuspends.goesOn _ _ _ outcome hcall rfl
    | awaiting frame =>
      -- the id of a new registration is drawn after every other
      have hnew : ∀ f, frame = .register f → f.id = env.randomUUID c.world.supply ∧
          (∃ createdBy now, call = .registerAgentIdentity f.subject createdBy now) ∧
          c.world.supply < w'.supply := by
        rintro f rfl
        obtain ⟨hcall, hid, hlt⟩ := hsuspends.frame f rfl
        exact ⟨hid, hcall, hlt⟩
      refine ⟨⟨h.world.kept hsuspends.kept, fun x hx => ?_, ?_⟩, hsuspends.kept,
        fun s hs => by cases hs⟩
      · rcases List.mem_append.mp hx with hx | hx
        · exact hold hsuspends.kept x hx
        · cases List.mem_singleton.mp hx
          intro f hf
          obtain ⟨hid, hcall, hlt⟩ := hnew f hf
          refine ⟨hcall, ⟨_, hlt, hid⟩, ?_⟩
          rw [hsuspends.kept.1, Option.eq_none_iff_forall_not_mem]
          intro a ha
          obtain ⟨n, hn, hsame⟩ := h.world.drawn _ a ha
          have := env.randomUUID_injective (hid.symm.trans hsame)
          omega
      · refine List.pairwise_append.mpr ⟨h.distinct.sublist hsub, List.pairwise_singleton _ _, ?_⟩
        intro x hx y hy f g hf hg
        cases List.mem_singleton.mp hy
        obtain ⟨-, ⟨n, hn, hidf⟩, -⟩ := h.frames x (hsub.subset hx) f hf
        obtain ⟨hidg, -, -⟩ := hnew g hg
        intro hsame
        have := env.randomUUID_injective (hidf.symm.trans (hsame.trans hidg))
        omega

/-- A registration that goes on. -/
theorem Config.exec_register (hc : c.Sound env) {i : ℕ} (downstream : Downstream)
    (hx : c.inflight[i]? = some x) {f : RegisterFrame} (hf : x.frame = .register f) :
    ∃ w', c.exec env (.resume i downstream) = (⟨w', c.inflight.eraseIdx i⟩,
        some ⟨x.client, x.call, .registered (f.identity env) (f.id ++ "." ++ f.secret)⟩) ∧
      w'.agentIdentityStore = (c.world.putIdentity (f.identity env)).agentIdentityStore ∧
      c.world.supply ≤ w'.supply := by
  have hrun := f.wp_resume hc.world
  simp only [Config.exec, hx, hf]
  have hpiece : wp (resumeFrame env downstream (.register f)) (fun r w' =>
      r = .ok (.returned (.registered (f.identity env) (f.id ++ "." ++ f.secret))) ∧
        w'.agentIdentityStore = (c.world.putIdentity (f.identity env)).agentIdentityStore ∧
        c.world.supply ≤ w'.supply) c.world := by
    refine wp_bind (wp_mono hrun ?_)
    rintro r w' ⟨rfl, hstore, hle⟩
    exact wp_pure ⟨rfl, hstore, hle⟩
  cases hresult : resumeFrame env downstream (.register f) c.world with
  | error err w' =>
    obtain ⟨hr, -⟩ := wp_error hpiece hresult
    cases hr
  | ok progress w' =>
    obtain ⟨hr, hstore, hle⟩ := wp_ok hpiece hresult
    cases hr
    exact ⟨w', rfl, hstore, hle⟩

/-- A registration that goes on finds its subject still without an identity. -/
def Config.SubjectFree (c : Config κ) : Action κ → Prop
  | .resume i _ =>
    match c.inflight[i]?.map InFlight.frame with
    | some (.register f) => findBySubject c.world f.subject = none
    | _ => True
  | _ => True

instance (c : Config κ) (a : Action κ) : Decidable (c.SubjectFree a) :=
  match a with
  | .resume i _ =>
    show Decidable (match c.inflight[i]?.map InFlight.frame with
      | some (.register f) => findBySubject c.world f.subject = none
      | _ => True) from
    match c.inflight[i]?.map InFlight.frame with
    | some (.register _) => inferInstanceAs (Decidable (_ = _))
    | some (.approve _) | some (.delegate _) | some (.enforce _) | some (.access _)
    | some (.customer _) | some (.authenticate _) | none => .isTrue trivial
  | .call .. | .clock _ | .restart => .isTrue trivial

/-- What an action does for the identities: stored ones stay, and a registration that succeeds is
the first for its subject. -/
structure Config.RegistrationStep (env : Env) (c : Config κ)
    (next : Config κ × Option (Settled κ)) : Prop where
  sound : next.1.RegistrationsSound env
  stays : ∀ i b, c.world.agentIdentityStore.live.get i = some b →
    next.1.world.agentIdentityStore.live.get i = some b
  first : ∀ s ∈ next.2, ∀ subject, s.registers subject = true →
    findBySubject c.world subject = none ∧
    ∃ i b, next.1.world.agentIdentityStore.live.get i = some b ∧ b.subject = subject

theorem RegisterFrame.get_stored {f : RegisterFrame}
    (hstore : w'.agentIdentityStore = (w.putIdentity (f.identity env)).agentIdentityStore) (j : String) :
    w'.agentIdentityStore.live.get j =
      if j = f.id then some (f.identity env) else w.agentIdentityStore.live.get j := by
  rw [hstore]
  exact OrderedMap.get_set ..

theorem Config.RegistrationsSound.register (h : c.RegistrationsSound env) {i : ℕ} {f : RegisterFrame}
    (hx : c.inflight[i]? = some x) (hf : x.frame = .register f)
    (hfree : findBySubject c.world f.subject = none)
    (hstore : w'.agentIdentityStore = (c.world.putIdentity (f.identity env)).agentIdentityStore)
    (hle : c.world.supply ≤ w'.supply) :
    Config.RegistrationsSound env (⟨w', c.inflight.eraseIdx i⟩ : Config κ) := by
  obtain ⟨-, ⟨n, hn, hid⟩, -⟩ := h.frames x (List.mem_of_getElem? hx) f hf
  have hget := RegisterFrame.get_stored hstore
  have hothers : ∀ j b, c.world.agentIdentityStore.live.get j = some b → b.subject ≠ f.subject :=
    findBySubject_eq_none.mp hfree
  obtain ⟨hlt, hx'⟩ := List.getElem?_eq_some_iff.mp hx
  have hpairs : (x :: c.inflight.eraseIdx i).Pairwise InFlight.OtherId := by
    refine (List.Perm.pairwise_iff (fun hxy f g hf hg => (hxy g f hg hf).symm) ?_).mpr h.distinct
    rw [← hx']
    exact List.getElem_cons_eraseIdx_perm hlt
  obtain ⟨hdistinct, hrest⟩ := List.pairwise_cons.mp hpairs
  refine ⟨⟨?_, fun j b hb => ?_, fun j k a b ha hb hsame => ?_⟩, fun y hy => ?_, hrest⟩
  · show w'.agentIdentityStore.Sound AgentIdentity.id (fun i => i)
    rw [hstore]
    exact h.world.store.save _ rfl
  · rw [hget] at hb
    split at hb
    · rename_i hj
      exact ⟨n, hn.trans_le hle, hj.trans hid⟩
    · obtain ⟨m, hm, hj⟩ := h.world.drawn j b hb
      exact ⟨m, hm.trans_le hle, hj⟩
  · rw [hget] at ha hb
    split at ha <;> rename_i hj
    · cases ha
      split at hb <;> rename_i hk
      · rw [hj, hk]
      · exact absurd hsame.symm (hothers k b hb)
    · split at hb <;> rename_i hk
      · cases hb
        exact absurd hsame (hothers j a ha)
      · exact h.world.unique j k a b ha hb hsame
  · intro g hg
    obtain ⟨hcall, ⟨m, hm, hidg⟩, hgfree⟩ := h.frames y (List.mem_of_mem_eraseIdx hy) g hg
    refine ⟨hcall, ⟨m, hm.trans_le hle, hidg⟩, ?_⟩
    rw [hget, if_neg (fun hsame => hdistinct y hy f g hf hg hsame.symm)]
    exact hgfree

theorem Config.RegistrationsSound.exec (hc : c.Sound env) (h : c.RegistrationsSound env)
    {a : Action κ} (ha : c.SubjectFree a) : c.RegistrationStep env (c.exec env a) := by
  have hpiece : ∀ {client : κ} {call : Call} {inflight : List (InFlight κ)}
      {piece : Op (Progress Frame Outcome)}, inflight.Sublist c.inflight →
      wp piece (SuspendsRegistration env c.world call) c.world →
      c.RegistrationStep env (Config.settle client call inflight (piece c.world)) := by
    intro client call inflight piece hsub hsuspends
    obtain ⟨hsound, hkept, hnone⟩ := h.settle hsub hsuspends
    refine ⟨hsound, fun i b hb => ?_, fun s hs subject hregisters => ?_⟩
    · rw [hkept.1]
      exact hb
    · exact absurd hregisters (hnone s hs subject)
  cases a with
  | call client call => exact hpiece (List.Sublist.refl _) (wp_startCall_suspends hc.world call)
  | resume i downstream =>
    cases hx : c.inflight[i]? with
    | none =>
      simp only [Config.exec, hx]
      exact ⟨h, fun _ _ hb => hb, fun s hs => by cases hs⟩
    | some x =>
      have hmem := List.mem_of_getElem? hx
      by_cases hregister : ∃ f, x.frame = .register f
      · obtain ⟨f, hf⟩ := hregister
        have hfree : findBySubject c.world f.subject = none := by
          simpa [Config.SubjectFree, hx, hf] using ha
        obtain ⟨w', hexec, hstore, hle⟩ := Config.exec_register hc downstream hx hf
        obtain ⟨⟨createdBy, now, hcall⟩, -, hidfree⟩ := h.frames x hmem f hf
        have hget := RegisterFrame.get_stored hstore
        rw [hexec]
        refine ⟨h.register hx hf hfree hstore hle, fun j b hb => ?_, fun s hs subject hregisters => ?_⟩
        · have hj : j ≠ f.id := by
            rintro rfl
            rw [hidfree] at hb
            cases hb
          rw [hget, if_neg hj]
          exact hb
        · cases hs
          obtain ⟨_, _, _, _, hcall', -⟩ := Settled.registers_iff.mp hregisters
          rw [hcall] at hcall'
          cases hcall'
          refine ⟨hfree, f.id, f.identity env, ?_, rfl⟩
          rw [hget, if_pos rfl]
      · simp only [Config.exec, hx]
        refine hpiece (List.eraseIdx_sublist ..) ?_
        exact wp_resumeFrame_suspends hc.world downstream (hc.frames x hmem)
          fun f hf => hregister ⟨f, hf⟩
  | clock t =>
    refine ⟨⟨h.world.kept ⟨rfl, le_rfl⟩, fun x hx => (h.frames x hx).kept ⟨rfl, le_rfl⟩, h.distinct⟩,
      fun _ _ hb => hb, fun s hs => by cases hs⟩
  | restart =>
    have hboot : IdentitiesKept (c.world.restart env) ((c.world.restart env).boot env) :=
      related_boot _
    refine ⟨⟨h.world.restart.kept hboot, (fun x hx => by cases hx), .nil⟩, fun i b hb => ?_,
      fun s hs => by cases hs⟩
    show ((c.world.restart env).boot env).agentIdentityStore.live.get i = some b
    rw [hboot.1, h.world.restart_get]
    exact hb

/-- A registration that does not succeed has changed nothing. -/
theorem Config.refused_registration (hc : c.Sound env) {a : Action κ} {s : Settled κ}
    (hs : s ∈ (c.exec env a).2) {subject createdBy : String} {now : Int}
    (hcall : s.call = .registerAgentIdentity subject createdBy now)
    (hnot : ¬ s.registers subject = true) :
    (isBlank subject = false → s.outcome = .failed (.duplicateAgentIdentity
      ("an agent identity for subject \"" ++ subject ++ "\" already exists"))) ∧
    (c.exec env a).1.world = c.world := by
  cases a with
  | call client call =>
    obtain ⟨-, hsame⟩ := Config.settle_settled.1 s hs
    obtain rfl : call = .registerAgentIdentity subject createdBy now := hsame.symm.trans hcall
    have hpiece : wp (startCall env (.registerAgentIdentity subject createdBy now)) (fun r w' =>
        (∃ frame, r = .ok (.awaiting frame)) ∨ (∃ err, r = .error err ∧ w' = c.world ∧
          (isBlank subject = false → err = .duplicateAgentIdentity
            ("an agent identity for subject \"" ++ subject ++ "\" already exists")))) c.world := by
      refine wp_bind (wp_mono (wp_registerAgentIdentity subject createdBy now) fun r w' hr => ?_)
      cases r with
      | ok frame => exact wp_pure (.inl ⟨_, rfl⟩)
      | error err => exact .inr ⟨err, rfl, hr⟩
    simp only [Config.exec, Config.settle] at hs ⊢
    cases hrun : startCall env (.registerAgentIdentity subject createdBy now) c.world with
    | ok progress w' =>
      rw [hrun] at hs
      rcases wp_ok hpiece hrun with ⟨frame, hr⟩ | ⟨err, hr, -⟩
      · cases hr
        cases hs
      · cases hr
    | error err w' =>
      rw [hrun] at hs
      cases hs
      rcases wp_error hpiece hrun with ⟨frame, hr⟩ | ⟨err, hr, rfl, hduplicate⟩
      · cases hr
      · cases hr
        exact ⟨fun hblank => by rw [hduplicate hblank], rfl⟩
  | resume i downstream =>
    cases hx : c.inflight[i]? with
    | none =>
      simp only [Config.exec, hx] at hs
      cases hs
    | some x =>
      have hmem := List.mem_of_getElem? hx
      have hsame : s.call = x.call := by
        simp only [Config.exec, hx] at hs
        exact (Config.settle_settled.1 s hs).2
      have hawaits := (hc.frames x hmem).awaits
      rw [← hsame, hcall] at hawaits
      have hframe : ∃ f, x.frame = .register f := by
        cases hframe : x.frame with
        | register f => exact ⟨f, rfl⟩
        | _ =>
          rw [hframe] at hawaits
          exact hawaits.elim
      obtain ⟨f, hf⟩ := hframe
      obtain ⟨w', hexec, -⟩ := Config.exec_register hc downstream hx hf
      rw [hexec] at hs
      cases hs
      exact absurd (Settled.registers_iff.mpr ⟨_, _, _, _, hcall, rfl⟩) hnot
  | clock => cases hs
  | restart => cases hs

/-! ## Along a run -/

variable {acts : List (Action κ)}

/-- Where a run stands with its registrations. -/
structure RegistrationsSoFar (env : Env) (acts : List (Action κ)) : Prop where
  sound : ((processMachine κ env).run acts).RegistrationsSound env
  once : ∀ subject, (settledCalls env acts).countP (Settled.registers subject) ≤ 1
  stored : ∀ subject, (settledCalls env acts).countP (Settled.registers subject) ≠ 0 →
    ∃ i b, ((processMachine κ env).run acts).world.agentIdentityStore.live.get i = some b ∧
      b.subject = subject

theorem RegistrationsSoFar.snoc (h : RegistrationsSoFar env acts) {a : Action κ}
    (ha : ((processMachine κ env).run acts).SubjectFree a) : RegistrationsSoFar env (acts ++ [a]) := by
  have hc := @Config.sound_run env _ acts
  have hstep := h.sound.exec hc ha
  have hrun : (processMachine κ env).run (acts ++ [a]) =
      (((processMachine κ env).run acts).exec env a).1 := Machine.run_snoc ..
  -- a registration that succeeds is the first for its subject
  have hzero : ∀ subject, ∀ s ∈ (((processMachine κ env).run acts).exec env a).2,
      s.registers subject = true →
      (settledCalls env acts).countP (Settled.registers subject) = 0 := by
    intro subject s hs hregisters
    by_contra hne
    obtain ⟨i, b, hb, hsubject⟩ := h.stored subject hne
    exact findBySubject_eq_none.mp (hstep.first s hs subject hregisters).1 i b hb hsubject
  refine ⟨?_, fun subject => ?_, fun subject hne => ?_⟩
  · rw [hrun]
    exact hstep.sound
  · rw [settledCalls_snoc, List.countP_append]
    cases hout : (((processMachine κ env).run acts).exec env a).2 with
    | none => simpa using h.once subject
    | some s =>
      by_cases hregisters : s.registers subject = true
      · simp [hzero subject s hout hregisters, hregisters]
      · simpa [hregisters] using h.once subject
  · rw [hrun]
    by_cases hold : (settledCalls env acts).countP (Settled.registers subject) = 0
    · rw [settledCalls_snoc, List.countP_append, hold, Nat.zero_add] at hne
      obtain ⟨s, hs, hregisters⟩ := List.countP_pos_iff.mp (Nat.pos_of_ne_zero hne)
      exact (hstep.first s (Option.mem_toList.mp hs) subject hregisters).2
    · obtain ⟨i, b, hb, hsubject⟩ := h.stored subject hold
      exact ⟨i, b, hstep.stays i b hb, hsubject⟩

theorem registrationsSoFar (hacts : (processMachine κ env).Meets Config.SubjectFree acts) :
    RegistrationsSoFar env acts := by
  refine hacts.induction (P := fun acts => RegistrationsSoFar env acts) ?_
    fun acts a _ ha ih => ih.snoc ha
  have hboot : IdentitiesKept World.initial (World.initial.boot env) := related_boot _
  have hinitial : World.initial.IdentitiesSound env :=
    ⟨Journal.sound_empty, (fun i b hb => by cases hb), fun i j a b ha => by cases ha⟩
  refine ⟨⟨hinitial.kept hboot, (fun x hx => by cases hx), .nil⟩, fun subject => Nat.zero_le _, ?_⟩
  exact fun subject hne => absurd rfl hne

/-- One identity for a subject: no two are stored, at most one registration succeeds, and every other
changes nothing and, if the subject is one, is rejected as a duplicate. -/
structure OneIdentityPerSubject (env : Env) (acts : List (Action κ)) : Prop where
  unique : ∀ i j a b,
    ((processMachine κ env).run acts).world.agentIdentityStore.live.get i = some a →
    ((processMachine κ env).run acts).world.agentIdentityStore.live.get j = some b →
    a.subject = b.subject → i = j
  once : ∀ subject, (settledCalls env acts).countP (Settled.registers subject) ≤ 1
  others : ∀ pre a post, acts = pre ++ a :: post →
    ∀ s ∈ (((processMachine κ env).run pre).exec env a).2, ∀ subject createdBy now,
      s.call = .registerAgentIdentity subject createdBy now → ¬ s.registers subject = true →
      (isBlank subject = false → s.outcome = .failed (.duplicateAgentIdentity
        ("an agent identity for subject \"" ++ subject ++ "\" already exists"))) ∧
      (((processMachine κ env).run pre).exec env a).1.world.auditLog =
        ((processMachine κ env).run pre).world.auditLog

/-- **One identity per subject.** It holds of every run in which each registration that goes on
finds its subject still without an identity. -/
theorem oneIdentityPerSubject_of_subjectFree
    (hacts : (processMachine κ env).Meets Config.SubjectFree acts) :
    OneIdentityPerSubject env acts := by
  have hsofar := registrationsSoFar hacts
  refine ⟨hsofar.sound.world.unique, hsofar.once, ?_⟩
  intro pre a post _ s hs subject createdBy now hcall hnot
  have hc := @Config.sound_run env _ pre
  obtain ⟨hduplicate, hsame⟩ := Config.refused_registration hc hs hcall hnot
  exact ⟨hduplicate, by rw [hsame]⟩

/-! ## Registrations that overlap -/

/-- One subject is registered, and then again in vain, also after a restart. -/
def sampleRegistered : List (Action Unit) :=
  [.call () (.registerAgentIdentity "agent" "alice" 0),
   .call () (.registerAgentIdentity "other" "alice" 0),
   .resume 0 .responded,
   .call () (.registerAgentIdentity "agent" "bob" 1),
   .restart,
   .call () (.registerAgentIdentity "agent" "bob" 2)]

theorem oneIdentityPerSubject_of_subjectFree_sample :
    OneIdentityPerSubject sampleEnv sampleRegistered :=
  oneIdentityPerSubject_of_subjectFree (Machine.meets_of_check (by decide +kernel))

/-- The subject is registered twice: both calls find it free before the first one saves. -/
def sampleRegisteredTwice : List (Action Unit) :=
  [.call () (.registerAgentIdentity "agent" "alice" 0),
   .call () (.registerAgentIdentity "agent" "bob" 0),
   .resume 0 .responded,
   .resume 0 .responded]

/-- **Both registrations succeed.** -/
theorem not_oneIdentityPerSubject : ¬ OneIdentityPerSubject sampleEnv sampleRegisteredTwice := by
  intro h
  have htwo : (settledCalls sampleEnv sampleRegisteredTwice).countP (Settled.registers "agent") =
      2 := by
    decide +kernel
  have hone := h.once "agent"
  rw [htwo] at hone
  exact absurd hone (by decide)

end Ambit
