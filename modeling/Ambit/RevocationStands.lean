import Ambit.AcknowledgedWrites

/-! Revocations on a disk whose operations fail as a whole. No later write, restart or failure brings
back a token whose revocation is in the file; and that of one that was answered is. -/

namespace Ambit

open Effect

variable {env : Env} {κ : Type} {w w' : World}

namespace World

/-- The token is revoked in memory, and is after a restart. -/
structure Dead (i : String) (w : World) : Prop where
  live : ∃ t, w.tokenStore.live.get i = some t ∧ t.status = .revoked
  filed : ∃ t, (Journal.replay Token.id w.tokenStore.lines).get i = some t ∧ t.status = .revoked

/-- What the file says is revoked is, and is not the token of this id. -/
def StandsApart (i : String) (w : World) : Prop :=
  ∀ line ∈ w.tokenStore.lines, line.status = .revoked → line.id ≠ i ∧ w.Dead line.id

/-- What the file says is revoked is. -/
def RevokedStand (w : World) : Prop :=
  ∀ line ∈ w.tokenStore.lines, line.status = .revoked → w.Dead line.id

theorem Dead.of_store {i : String} (h : w.Dead i) (hstore : w'.tokenStore = w.tokenStore) :
    w'.Dead i := by
  refine ⟨?_, ?_⟩
  · rw [hstore]
    exact h.live
  · rw [hstore]
    exact h.filed

theorem RevokedStand.of_store (h : w.RevokedStand) (hstore : w'.tokenStore = w.tokenStore) :
    w'.RevokedStand := fun line hline hrevoked =>
  (h line (hstore ▸ hline) hrevoked).of_store hstore

theorem StandsApart.of_store {i : String} (h : w.StandsApart i) (hstore : w'.tokenStore = w.tokenStore) :
    w'.StandsApart i := fun line hline hrevoked =>
  ⟨(h line (hstore ▸ hline) hrevoked).1, (h line (hstore ▸ hline) hrevoked).2.of_store hstore⟩

/-! ## Saves -/

/-- The state with a token saved. -/
def savedToken (w : World) (faults : List Bool) (appended : Bool) (t : Token) : World :=
  { w with
    faults := faults
    tokenStore := w.tokenStore.save Token.id Token.image appended t }

variable {faults : List Bool} {appended : Bool} {t : Token}

theorem savedToken_live (i : String) : (w.savedToken faults appended t).tokenStore.live.get i =
    if i = t.id then some t else w.tokenStore.live.get i := OrderedMap.get_set ..

theorem savedToken_replay (i : String) :
    (Journal.replay Token.id (w.savedToken faults appended t).tokenStore.lines).get i =
      if i = t.id ∧ appended then some t.image
      else (Journal.replay Token.id w.tokenStore.lines).get i := by
  cases appended with
  | false => simp [savedToken, Journal.save]
  | true =>
    show (Journal.replay Token.id (w.tokenStore.lines ++ [t.image])).get i = _
    rw [Journal.replay_append, OrderedMap.get_set]
    show (if i = t.id then some t.image else _) = _
    simp only [and_true]

theorem mem_savedToken {line : Token} (h : line ∈ (w.savedToken faults appended t).tokenStore.lines) :
    line ∈ w.tokenStore.lines ∨ appended = true ∧ line = t.image := by
  cases appended with
  | false => exact .inl h
  | true =>
    exact (List.mem_append.mp h).imp_right fun h => ⟨rfl, List.mem_singleton.mp h⟩

/-- Other tokens stay as they are. -/
theorem Dead.savedToken {i : String} (h : w.Dead i) (hi : i = t.id → t.status = .revoked) :
    (w.savedToken faults appended t).Dead i := by
  refine ⟨?_, ?_⟩
  · rw [savedToken_live]
    split
    · next heq => exact ⟨t, rfl, hi heq⟩
    · exact h.live
  · rw [savedToken_replay]
    split
    · next heq => exact ⟨t.image, rfl, hi heq.1⟩
    · exact h.filed

/-- A revoked token is saved. -/
theorem RevokedStand.revoke (h : w.RevokedStand) (hrevoked : t.status = .revoked) :
    (w.savedToken faults appended t).RevokedStand := by
  intro line hline hstatus
  rcases mem_savedToken hline with hold | ⟨rfl, rfl⟩
  · exact (h line hold hstatus).savedToken fun _ => hrevoked
  · refine ⟨⟨t, ?_, hrevoked⟩, ⟨t.image, ?_, hrevoked⟩⟩
    · rw [savedToken_live]
      exact if_pos rfl
    · rw [savedToken_replay]
      exact if_pos ⟨rfl, rfl⟩

/-- An active token is saved under a new id. -/
theorem StandsApart.issue (h : w.StandsApart t.id) (hactive : t.status = .active) :
    (w.savedToken faults appended t).StandsApart t.id := by
  intro line hline hstatus
  rcases mem_savedToken hline with hold | ⟨rfl, rfl⟩
  · obtain ⟨hne, hdead⟩ := h line hold hstatus
    exact ⟨hne, hdead.savedToken fun heq => absurd heq hne⟩
  · rw [Token.image, hactive] at hstatus
    cases hstatus

/-! ## Operations -/

/-- Revocations that stand go on to. -/
def KeepsRevoked (w w' : World) : Prop := w.RevokedStand → w'.RevokedStand

def KeepsApart (i : String) (w w' : World) : Prop := w.StandsApart i → w'.StandsApart i

instance : Everyday KeepsRevoked where
  refl _ h := h
  trans _ _ _ h h' hw := h' (h hw)
  logged _ _ _ _ _ h := h.of_store rfl
  breaker _ _ h := h.of_store rfl
  anomaly _ _ h := h.of_store rfl
  endpoints _ _ h := h.of_store rfl
  identities _ _ _ h := h.of_store rfl
  rules _ _ _ h := h.of_store rfl
  requests _ _ _ _ h := h.of_store rfl

instance {i : String} : UncountedEffects (KeepsApart i) where
  refl _ h := h
  trans _ _ _ h h' hw := h' (h hw)
  logged _ _ _ _ _ h := h.of_store rfl
  breaker _ _ h := h.of_store rfl
  endpoints _ _ h := h.of_store rfl

/-- Ids stay drawn, and revocations that stand go on to. -/
def Stays (env : Env) (w w' : World) : Prop :=
  w.Grows env w' ∧ (w.IdsDrawn env → w.RevokedStand → w'.RevokedStand)

theorem Stays.of_keeps (h : w.Grows env w') (hkeeps : KeepsRevoked w w') : w.Stays env w' :=
  ⟨h, fun _ => hkeeps⟩

instance : Everyday (Stays env) where
  refl w := ⟨Std.Refl.refl w, fun _ h => h⟩
  trans _ _ _ h h' := ⟨IsTrans.trans _ _ _ h.1 h'.1, fun hids hw => h'.2 (h.1.2 hids) (h.2 hids hw)⟩
  logged w log supply faults hle :=
    .of_keeps (UncountedEffects.logged w log supply faults hle) fun h => h.of_store rfl
  breaker w b := .of_keeps (UncountedEffects.breaker w b) fun h => h.of_store rfl
  anomaly w detector := .of_keeps (SmallEffects.anomaly w detector) fun h => h.of_store rfl
  endpoints w systems := .of_keeps (UncountedEffects.endpoints w systems) fun h => h.of_store rfl
  identities w faults store :=
    .of_keeps (IdentitySaves.identities w faults store) fun h => h.of_store rfl
  rules w faults store := .of_keeps (RuleSaves.rules w faults store) fun h => h.of_store rfl
  requests w faults appended r :=
    .of_keeps (RequestSaves.requests w faults appended r) fun h => h.of_store rfl

theorem stays_policyStore_save (policy : Policy) : Along (Stays env) (PolicyStore.save env policy) :=
  fun w => .of_keeps (grows_policyStore_save policy w)
    (along_execute (along_saveRecord fun _ _ _ h => h.of_store rfl) w)

theorem stays_revokeToken (tokenId : String) (reasonCode : RevocationReason) (now : Int)
    (actor : Option String) : Along (Stays env) (revokeToken env tokenId reasonCode now actor) :=
  fun w => .of_keeps (grows_revokeToken tokenId reasonCode now actor w) <|
    along_revokeToken (fun _ _ _ _ => .inl fun _ _ => along_execute <| along_saveRecord
      fun _ _ _ h => h.revoke rfl) tokenId reasonCode now actor w

/-- The id of an issued token is new, and so is not one that the file says is revoked. -/
theorem stays_issue (frame : IssueFrame) : Along (Stays env) (frame.resume env) := by
  intro w
  refine ⟨grows_issue frame w, fun hids hw => ?_⟩
  have hapart : w.drawn.StandsApart (env.randomUUID w.supply) := by
    intro line hline hstatus
    refine ⟨fun heq => ?_, (hw line hline hstatus).of_store rfl⟩
    obtain ⟨k, hk, hdrawn⟩ := hids.lines line hline
    have := env.randomUUID_injective (hdrawn.symm.trans heq)
    omega
  have hsave : Along (KeepsApart (env.randomUUID w.supply))
      (TokenStore.save env (frame.token env (env.randomUUID w.supply))) :=
    along_execute (along_saveRecord fun _ _ _ h => h.issue rfl)
  have hrun : Effect.wp (frame.resume env)
      (fun _ w' => w'.StandsApart (env.randomUUID w.supply)) w := by
    refine wp_bind (wp_draw (wp_bind (wp_mono (hsave.wp w.drawn) fun r w' h => ?_)))
    cases r with
    | ok => exact wp_pure (h hapart)
    | error => exact h hapart
  exact fun line hline hstatus => ((wp_iff.mp hrun) line hline hstatus).2

theorem RevokedStand.restart (h : w.RevokedStand) : (w.restart env).RevokedStand :=
  fun line hline hstatus => ⟨(h line hline hstatus).filed, (h line hline hstatus).filed⟩

end World

/-! ## Runs -/

theorem revokedStand_run (acts : List (FaultyAction κ)) :
    ((faultyMachine κ env).run acts).world.RevokedStand := by
  induction acts using List.reverseRecOn with
  | nil =>
    have hids : World.initial.IdsDrawn env := by
      constructor
      · intro i t ht
        cases ht
      · intro t ht
        cases ht
      · intro i r hr
        cases hr
    have hinitial : World.initial.RevokedStand := fun line hline => by cases hline
    exact (related_boot (R := World.Stays env) World.initial).2 hids hinitial
  | append_singleton acts a ih =>
    have hids : ((faultyMachine κ env).run acts).world.IdsDrawn env := idsDrawn_run acts
    rw [Machine.run_snoc]
    generalize (faultyMachine κ env).run acts = c at ih hids
    have hsettle : ∀ client call inflight (x : Op (Progress Frame Outcome)),
        Along (World.Stays env) x →
        (Config.settle client call inflight (x c.world) : Config κ × _).1.world.RevokedStand := by
      intro client call inflight x hx
      rw [Config.settle_world]
      exact (hx c.world).2 hids ih
    cases a with
    | disk faults => exact ih.of_store rfl
    | process a =>
      cases a with
      | call client call =>
        exact hsettle client call c.inflight _
          (along_startCall World.stays_policyStore_save World.stays_revokeToken call)
      | resume i downstream =>
        show (c.exec env (.resume i downstream)).1.world.RevokedStand
        simp only [Config.exec]
        cases c.inflight[i]? with
        | none => exact ih
        | some x =>
          exact hsettle x.client x.call (c.inflight.eraseIdx i) _
            (along_resumeFrame World.stays_issue downstream x.frame fun f _ => f.along_resume)
      | clock t => exact ih.of_store rfl
      | restart =>
        exact (related_boot (R := World.Stays env) (c.world.restart env)).2 hids.restart ih.restart

/-- **A revocation that was answered stands**: from then on, whichever file operations fail (each as a
whole: a part of a line would swallow the revocation's), the token is revoked, in memory and after any
restart. -/
theorem revocation_stands (env : Env) (acts : List (FaultyAction κ)) : ∀ s ∈ settledOnDisk env acts,
    ∀ tokenId reasonCode now actor token, s.call = .revokeToken tokenId reasonCode now actor →
      s.outcome = .token token → ((faultyMachine κ env).run acts).world.Dead tokenId := by
  have hfiled := settledOnDisk_lasting env (Q := fun s w =>
      ∀ tokenId reasonCode now actor token, s.call = .revokeToken tokenId reasonCode now actor →
        s.outcome = .token token → ∃ line ∈ w.tokenStore.lines, line.id = tokenId ∧ line.status = .revoked)
    (fun s w w' hextends h tokenId reasonCode now actor token hcall houtcome => ?_)
    (fun s w h tokenId reasonCode now actor token hcall houtcome => ?_) acts
  · intro s hs tokenId reasonCode now actor token hcall houtcome
    obtain ⟨line, hline, rfl, hrevoked⟩ := hfiled s hs tokenId reasonCode now actor token hcall houtcome
    exact revokedStand_run acts line hline hrevoked
  · obtain ⟨line, hline, hrest⟩ := h tokenId reasonCode now actor token hcall houtcome
    exact ⟨line, hextends.tokens.subset hline, hrest⟩
  · rw [hcall, houtcome] at h
    rcases h with ⟨err, herr⟩ | hrecorded
    · cases herr
    · obtain ⟨⟨line, hline, -, hid, hrevoked⟩, -⟩ := List.forall_mem_cons.mp hrecorded
      exact ⟨line, hline, hid, hrevoked⟩

/-- A token is revoked, and nothing can be written any more until the restart. -/
def sampleRevokedOnDisk : List (FaultyAction Unit) :=
  [.process (.call () (.requestToken ⟨"agent", ["a"], .finite 60, none, none⟩ (some "alice") 0)),
   .process (.call () (.approveRequest ⟨"id-2", "alice", none, 0⟩)), .process (.resume 0 .responded),
   .process (.call () (.revokeToken "id-6" .compromised 0 (some "alice"))),
   .disk [true, true, true, true],
   .process (.call () (.revokeToken "id-6" .compromised 0 (some "alice"))), .process .restart]

/-- The call is a revocation of the token that has been answered. -/
def Settled.revokes (tokenId : String) (s : Settled κ) : Bool :=
  match s.call, s.outcome with
  | .revokeToken tokenId' _ _ _, .token _ => tokenId' = tokenId
  | _, _ => false

theorem revocation_stands_sample :
    ((faultyMachine Unit sampleEnv).run sampleRevokedOnDisk).world.Dead "id-6" := by
  have hany : (settledOnDisk sampleEnv sampleRevokedOnDisk).any (Settled.revokes "id-6") = true := by
    decide +kernel
  obtain ⟨⟨client, call, outcome⟩, hs, hrevokes⟩ := List.any_eq_true.mp hany
  unfold Settled.revokes at hrevokes
  split at hrevokes
  · next tokenId reasonCode now actor token hcall houtcome =>
    obtain rfl := of_decide_eq_true hrevokes
    exact revocation_stands sampleEnv sampleRevokedOnDisk _ hs _ _ _ _ _ hcall houtcome
  · cases hrevokes

end Ambit
