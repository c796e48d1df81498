import Ambit.RevocationClosure

/-! No use after revocation: it holds of every run in which no gateway call goes on, with a token
that it read before, after that token was revoked. -/

namespace Ambit

/-- The gateway, or a delegation, recorded that it let a token through. -/
def AuditEntryInput.isUse (e : AuditEntryInput) : Bool :=
  e.decision = .allowed && e.tokenId.isSome && e.outcome.isNone

/-- The second entry records a use of the token that the first one records the revocation of. -/
def usesRevoked (e e' : AuditEntryInput) : Bool :=
  e.decision = .revoked && e'.isUse && e'.tokenId = e.tokenId

/-! ## In the ledger -/

namespace Ledger

variable {p : Platform} {L : Ledger} {e : Event}

/-- What is logged as revoked is revoked, and is not logged as used afterwards. -/
structure LogClean (L : Ledger) : Prop where
  revoked : ∀ a ∈ L.log, a.decision = .revoked → ∃ i, a.tokenId = some i ∧ L.Revoked i
  unused : L.log.Pairwise fun a b => usesRevoked a b = false

/-- The entries of uses are those of delegations and of the gateway. -/
theorem use_of_mem_entries {a : AuditEntryInput} (ha : a ∈ e.entries) (huse : a.isUse = true) :
    ∃ t, a.tokenId = some t.id ∧ (e.issued = some t ∨ ∃ action now, e = .used t action now) := by
  cases e with
  | delegated parent t =>
    rw [List.mem_singleton.mp ha]
    exact ⟨t, rfl, .inl rfl⟩
  | used t action now =>
    rw [List.mem_singleton.mp ha]
    exact ⟨t, rfl, .inr ⟨action, now, rfl⟩⟩
  | revoked r =>
    obtain ⟨t, -, rfl⟩ := List.mem_map.mp ha
    cases huse
  | submitted | approved | escalated | claimed =>
    rw [List.mem_singleton.mp ha] at huse
    cases huse
  | _ => cases ha

/-- The entries of one event do not use what they revoke. -/
theorem entries_unused (e : Event) : e.entries.Pairwise fun a b => usesRevoked a b = false := by
  cases e with
  | revoked r =>
    refine List.pairwise_map.mpr (List.pairwise_of_forall fun a b => ?_)
    simp [usesRevoked, AuditEntryInput.isUse, Revocation.entry, revocationEntry]
  | noted | denied | restarted => exact .nil
  | _ => exact List.pairwise_singleton ..

theorem LogClean.after (h : L.LogClean) (he : L.Enabled p e)
    (hused : ∀ t action now, e = .used t action now → ¬ L.Revoked t.id) :
    (L.after e).LogClean where
  revoked a ha hrevoked := by
    rcases List.mem_append.mp ha with ha | ha
    · obtain ⟨i, hi, hold⟩ := h.revoked a ha hrevoked
      exact ⟨i, hi, hold.after he⟩
    · cases e with
      | revoked r =>
        obtain ⟨t, ht, rfl⟩ := List.mem_map.mp ha
        exact ⟨t.id, rfl, revoked_after (he.stored t ht) (List.mem_map_of_mem ht)⟩
      | submitted | approved | escalated | claimed | delegated | used =>
        rw [List.mem_singleton.mp ha] at hrevoked
        cases hrevoked
      | _ => cases ha
  unused := by
    refine List.pairwise_append.mpr ⟨h.unused, entries_unused e, fun a ha b hb => ?_⟩
    by_contra huses
    simp only [usesRevoked, Bool.and_eq_true, decide_eq_true_eq, Bool.not_eq_false] at huses
    obtain ⟨⟨hrevoked, huse⟩, hid⟩ := huses
    obtain ⟨i, hi, t', ht', hstatus⟩ := h.revoked a ha hrevoked
    obtain ⟨t, ht, hissued | ⟨action, now, rfl⟩⟩ := use_of_mem_entries hb huse
    · have hnew := (he.fresh hissued).isNew
      rw [hid, hi] at ht
      cases ht
      cases hnew.symm.trans ht'
    · rw [hid, hi] at ht
      cases ht
      exact hused t action now rfl ⟨t', ht', hstatus⟩

end Ledger

/-! ## Along a run -/

variable {κ : Type} {env : Env} {acts : List (Action κ)} {c : Config κ}

/-- In the audit log no use of a token stands after a revocation of it. -/
def World.NoUseAfterRevocation (w : World) : Prop :=
  w.auditLog.entries.Pairwise fun e e' =>
    usesRevoked e.toAuditEntryInput e'.toAuditEntryInput = false

/-- The action is the end of a gateway call on a revoked token that decides allowed. -/
def Config.AllowsRevoked (env : Env) (c : Config κ) (a : Action κ) : Prop :=
  ∃ i downstream x f t w', a = .resume i downstream ∧ c.inflight[i]? = some x ∧
    x.frame.gateway = some f ∧ f.resume env c.world = .ok .allowed w' ∧
    c.world.tokenStore.live.get f.tokenId = some t ∧ t.status = .revoked

/-- The token as the call read it passes every check of the gateway. -/
def EnforceFrame.SnapshotPasses (env : Env) (f : EnforceFrame) : Prop :=
  verifyPassword env.toPlatform f.providedSecret f.token.secretHash = true ∧
    f.token.status = .active ∧ f.action ∈ f.token.scope ∧
    f.token.expiresAt.getTime.le (Date.ms f.now).getTime = false

instance (f : EnforceFrame) : Decidable (f.SnapshotPasses env) :=
  inferInstanceAs (Decidable (_ ∧ _ ∧ _ ∧ _))

theorem EnforceFrame.allows_iff {f : EnforceFrame} : f.Allows env ↔ f.SnapshotPasses env :=
  and_congr_right fun _ => decide_eq_allowed

/-- A gateway call that goes on with a token that passed when it was read finds the stored record
of the token not revoked. -/
def Config.NotOvertaken (env : Env) (c : Config κ) : Action κ → Prop
  | .resume i _ =>
    match c.inflight[i]?.bind (·.frame.gateway) with
    | some f => f.SnapshotPasses env →
        (c.world.tokenStore.live.get f.tokenId).map Token.status ≠ some .revoked
    | none => True
  | _ => True

instance (c : Config κ) (a : Action κ) : Decidable (c.NotOvertaken env a) :=
  match a with
  | .resume i _ =>
    show Decidable (match c.inflight[i]?.bind (·.frame.gateway) with
      | some f => f.SnapshotPasses env →
          (c.world.tokenStore.live.get f.tokenId).map Token.status ≠ some .revoked
      | none => True) from
    match c.inflight[i]?.bind (·.frame.gateway) with
    | some _ => inferInstanceAs (Decidable (_ → _))
    | none => .isTrue trivial
  | .call .. | .clock _ | .restart => .isTrue trivial

theorem Config.NotOvertaken.of_gateway {i : ℕ} {downstream : Downstream} {x : InFlight κ}
    {f : EnforceFrame} {t : Token} (h : c.NotOvertaken env (.resume i downstream))
    (hx : c.inflight[i]? = some x) (hf : x.frame.gateway = some f) (hallows : f.Allows env)
    (ht : c.world.tokenStore.live.get f.tokenId = some t) : t.status ≠ .revoked := by
  simp only [Config.NotOvertaken, hx, Option.bind_some, hf] at h
  intro hrevoked
  refine h (EnforceFrame.allows_iff.mp hallows) ?_
  rw [ht, Option.map_some, hrevoked]

theorem logClean_run (hacts : (processMachine κ env).Meets (Config.NotOvertaken env) acts) :
    ((processMachine κ env).run acts).world.ledger.LogClean := by
  refine ledger_induction hacts ?_ fun c a e hc ha hadvances h => ?_
  · exact ⟨fun a ha => (List.not_mem_nil ha).elim, .nil⟩
  · refine h.after hadvances.enabled fun t action now he => ?_
    subst he
    obtain ⟨i, downstream, x, f, rfl, hx, hf, hallows, rfl, -⟩ := hadvances.explains.used
    rintro ⟨t, ht, hrevoked⟩
    obtain ⟨-, hid⟩ := (hc.frames x (List.mem_of_getElem? hx)).holds.gateway hf
    rw [hid] at ht
    exact ha.of_gateway hx hf hallows ht hrevoked

/-- **No use after revocation.** In a run whose gateway calls are not overtaken by a revocation of
their token, no gateway call on a revoked token decides allowed, and in the audit log no use of a
token stands after a revocation of it. -/
theorem noUseAfterRevocation_of_notOvertaken
    (hacts : (processMachine κ env).Meets (Config.NotOvertaken env) acts) :
    (processMachine κ env).Meets (fun c a => ¬ c.AllowsRevoked env a) acts ∧
      ((processMachine κ env).run acts).world.NoUseAfterRevocation := by
  constructor
  · rintro pre a post rfl ⟨i, downstream, x, f, t, w', rfl, hx, hf, hallowed, ht, hrevoked⟩
    have hc := @Config.sound_run env _ pre
    obtain ⟨hread, -⟩ := (hc.frames x (List.mem_of_getElem? hx)).holds.gateway hf
    obtain ⟨-, decision, hdecision, hallows⟩ := Effect.wp_ok (f.resume_spec hc.world hread) hallowed
    cases hdecision
    exact (hacts pre _ post rfl).of_gateway hx hf (hallows.mp rfl) ht hrevoked
  · have hclean := (logClean_run hacts).unused
    refine (List.pairwise_map.mp (List.pairwise_filter.mp hclean)).imp fun {e e'} h => ?_
    by_contra huses
    have huses' := huses
    simp only [usesRevoked, Bool.and_eq_true, decide_eq_true_eq, Bool.not_eq_false] at huses'
    obtain ⟨⟨hrevoked, huse⟩, -⟩ := huses'
    refine huses (h ?_ ?_)
    · simp [AuditEntryInput.noteworthy, hrevoked]
    · exact Bool.or_eq_true_iff.mpr (.inr huse)

/-! ## A revocation that overtakes the gateway -/

/-- A token is used, and then revoked. -/
def sampleUsedBefore : List (Action Unit) :=
  [.call () (.requestToken ⟨"agent", ["a", "b"], .finite 60, none, none⟩ (some "alice") 0),
   .call () (.approveRequest ⟨"id-2", "alice", none, 0⟩),
   .resume 0 .responded,
   .call () (.enforceToken "id-6" "secret-4" "a" 0),
   .resume 0 .responded,
   .call () (.revokeToken "id-6" .compromised 0 (some "alice"))]

theorem noUseAfterRevocation_of_notOvertaken_sample :
    (processMachine Unit sampleEnv).Meets (fun c a => ¬ c.AllowsRevoked sampleEnv a)
        sampleUsedBefore ∧
      ((processMachine Unit sampleEnv).run sampleUsedBefore).world.NoUseAfterRevocation :=
  noUseAfterRevocation_of_notOvertaken (Machine.meets_of_check (by decide +kernel))

/-- The token is revoked while the gateway waits for the possession check. -/
def sampleUsedAcross : List (Action Unit) :=
  [.call () (.requestToken ⟨"agent", ["a", "b"], .finite 60, none, none⟩ (some "alice") 0),
   .call () (.approveRequest ⟨"id-2", "alice", none, 0⟩),
   .resume 0 .responded,
   .call () (.enforceToken "id-6" "secret-4" "a" 0),
   .call () (.revokeToken "id-6" .compromised 0 (some "alice")),
   .resume 0 .responded]

instance (w : World) : Decidable w.NoUseAfterRevocation :=
  inferInstanceAs (Decidable (List.Pairwise _ _))

/-- The call is allowed, and its entry stands after the revocation. -/
theorem not_noUseAfterRevocation :
    ¬ ((processMachine Unit sampleEnv).run sampleUsedAcross).world.NoUseAfterRevocation := by
  decide +kernel

end Ambit
