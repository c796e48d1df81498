import Ambit.RetriedRevocation
import Ambit.RevocationEffect

/-! What is on record about a revocation. A cascade passes over the tokens that are revoked; a call
for a revoked token writes its record and its entry again, so the first revocation stands in
exactly those runs that have no such call. -/

namespace Ambit

open Effect Forest

/-- The entry is about the revocation of the token `i`. -/
def isRevocationOf (i : String) (e : AuditEntryInput) : Bool :=
  e.decision = .revoked ∧ e.tokenId = some i

/-- `b` has the revocation record of `a`. -/
structure Token.SameRevocation (a b : Token) : Prop where
  status_eq : b.status = a.status
  revokedAt_eq : b.revokedAt = a.revokedAt
  revocationReason_eq : b.revocationReason = a.revocationReason

namespace Token.SameRevocation

theorem refl (t : Token) : t.SameRevocation t := ⟨rfl, rfl, rfl⟩

theorem trans {a b c : Token} (h : a.SameRevocation b) (h' : b.SameRevocation c) :
    a.SameRevocation c :=
  ⟨h'.status_eq.trans h.status_eq, h'.revokedAt_eq.trans h.revokedAt_eq,
    h'.revocationReason_eq.trans h.revocationReason_eq⟩

end Token.SameRevocation

/-! ## The entries of one revocation -/

theorem filter_id {ts : List Token} {t : Token} (hnodup : (ts.map Token.id).Nodup) (ht : t ∈ ts) :
    ts.filter (·.id = t.id) = [t] := by
  induction ts with
  | nil => cases ht
  | cons t' ts ih =>
    obtain ⟨hnot, hnodup⟩ := List.nodup_cons.mp hnodup
    rcases List.mem_cons.mp ht with rfl | ht
    · rw [List.filter_cons_of_pos (by simp), List.filter_eq_nil_iff.mpr]
      intro t' ht' hid
      exact hnot (of_decide_eq_true hid ▸ List.mem_map_of_mem ht')
    · rw [List.filter_cons_of_neg, ih hnodup ht]
      intro hid
      exact hnot (of_decide_eq_true hid ▸ List.mem_map_of_mem ht)

/-- Tokens that are revoked once each have one entry each. -/
theorem filter_revocationEntries {ts : List Token} {t : Token} (reasonFor : Token → RevocationReason)
    (actor : Option String) (hnodup : (ts.map Token.id).Nodup) (ht : t ∈ ts) :
    (ts.map fun t => revocationEntry t.id t.subject (reasonFor t) actor).filter
        (isRevocationOf t.id) = [revocationEntry t.id t.subject (reasonFor t) actor] := by
  rw [List.filter_map]
  have hsame : isRevocationOf t.id ∘ (fun t => revocationEntry t.id t.subject (reasonFor t) actor) =
      fun t' : Token => Decidable.decide (t'.id = t.id) := by
    funext t'
    simp [isRevocationOf, revocationEntry]
  rw [hsame, filter_id hnodup ht]
  rfl

/-! ## In the ledger -/

namespace Ledger

variable {p : Platform} {L : Ledger} {e : Event} {r : Revocation} {i : String} {t : Token}

/-- The entries about the revocation of a token. -/
def revocationsOf (L : Ledger) (i : String) : List AuditEntryInput := L.log.filter (isRevocationOf i)

theorem revocationsOf_after :
    (L.after e).revocationsOf i = L.revocationsOf i ++ e.entries.filter (isRevocationOf i) :=
  List.filter_append ..

theorem entries_of_mem (h : L.Revokes r) (ht : L.tokens i = some t)
    (hi : i ∈ r.revoked.map Token.id) :
    (Event.revoked r).entries.filter (isRevocationOf i) = [r.entry t] := by
  obtain ⟨t', ht', rfl⟩ := List.mem_map.mp hi
  cases (h.stored t' ht').symm.trans ht
  exact filter_revocationEntries (fun t => r.reasonFor t.id) r.actor h.nodup ht'

theorem entries_of_not_mem (h : ∀ r, e = .revoked r → i ∉ r.revoked.map Token.id) :
    e.entries.filter (isRevocationOf i) = [] := by
  refine List.filter_eq_nil_iff.mpr fun a ha hrevocation => ?_
  obtain ⟨r, he, hi⟩ := revocation_mem_entries.mp ⟨a, ha, of_decide_eq_true hrevocation⟩
  exact h r he hi

/-- A token that an event does not revoke keeps its revocation record. -/
theorem sameRevocation_changedToken (h : ∀ r, e = .revoked r → i ∉ r.revoked.map Token.id) :
    t.SameRevocation (changedToken e i t) := by
  cases e with
  | revoked r =>
    rw [changedToken, if_neg (h r rfl)]
    exact .refl t
  | restarted => exact ⟨rfl, rfl, rfl⟩
  | _ => exact .refl t

/-- No revocation is asked for a token that is revoked. -/
def FirstRevocation (L : Ledger) (e : Event) : Prop := ∀ r, e = .revoked r → ¬ L.Revoked r.tokenId

/-- Then no token that is revoked is revoked again. -/
theorem FirstRevocation.not_mem (h : L.FirstRevocation e) (he : L.Enabled p e)
    (hrevoked : L.Revoked i) : ∀ r, e = .revoked r → i ∉ r.revoked.map Token.id := by
  rintro r rfl hi
  rcases (Revokes.reached he i).mp hi with rfl | hreached
  · exact h r rfl hrevoked
  · obtain ⟨t, ht, hrevoked⟩ := hrevoked
    exact (not_active_iff ht).mpr hrevoked hreached.target_alive.1

/-- Each revoked token has one revocation entry, which gives the reason that its record gives; and no
other token has one. -/
structure RevokedOnce (L : Ledger) : Prop where
  unrevoked : ∀ i, ¬ L.Revoked i → L.revocationsOf i = []
  revoked : ∀ i t, L.tokens i = some t → t.status = .revoked → ∃ reasonCode actor,
    t.revocationReason = some reasonCode ∧
      L.revocationsOf i = [revocationEntry i t.subject reasonCode actor]

theorem RevokedOnce.after (h : L.RevokedOnce) (he : L.Enabled p e) (hfirst : L.FirstRevocation e) :
    (L.after e).RevokedOnce where
  unrevoked i hnot := by
    rw [revocationsOf_after, h.unrevoked i fun hrevoked => hnot (hrevoked.after he), List.nil_append]
    refine entries_of_not_mem fun r her hi => ?_
    subst her
    obtain ⟨t, ht, rfl⟩ := List.mem_map.mp hi
    exact hnot (revoked_after (Revokes.stored he t ht) hi)
  revoked i t' ht' hrevoked := by
    rw [revocationsOf_after]
    rcases after_tokens ht' with ⟨hissued, -⟩ | ⟨t, ht, rfl⟩
    · rw [(he.fresh hissued).active] at hrevoked
      cases hrevoked
    by_cases hi : ∃ r, e = .revoked r ∧ i ∈ r.revoked.map Token.id
    · -- the token is revoked now
      obtain ⟨r, rfl, hi⟩ := hi
      have hnot : ¬ L.Revoked i := fun hrevoked => hfirst.not_mem he hrevoked r rfl hi
      rw [h.unrevoked i hnot, List.nil_append, entries_of_mem he ht hi, changedToken, if_pos hi]
      obtain ⟨t', ht'', rfl⟩ := List.mem_map.mp hi
      cases (Revokes.stored he t' ht'').symm.trans ht
      exact ⟨_, _, rfl, rfl⟩
    · -- it was revoked before
      have hi : ∀ r, e = .revoked r → i ∉ r.revoked.map Token.id := fun r her hmem => hi ⟨r, her, hmem⟩
      have hsame : t.SameRevocation (changedToken e i t) := sameRevocation_changedToken hi
      obtain ⟨reasonCode, actor, hreason, hentries⟩ :=
        h.revoked i t ht (hsame.status_eq.symm.trans hrevoked)
      refine ⟨reasonCode, actor, hsame.revocationReason_eq.trans hreason, ?_⟩
      rw [entries_of_not_mem hi, List.append_nil, hentries,
        (sameTerms_changedToken e i t).subject_eq]

/-- A token revoked once more has one entry more. -/
theorem RevocationsLogged.again (h : L.RevocationsLogged) (hrevoked : L.Revoked i)
    {entry : AuditEntryInput} {L' : Ledger} (hL' : L'.revocationsOf i = L.revocationsOf i ++ [entry]) :
    1 < (L'.revocationsOf i).length := by
  obtain ⟨a, ha, hrevocation⟩ := (h i).mp hrevoked
  have hmem : a ∈ L.revocationsOf i := List.mem_filter.mpr ⟨ha, decide_eq_true hrevocation⟩
  have hpos := List.length_pos_of_mem hmem
  rw [hL', List.length_append, List.length_singleton]
  omega

end Ledger

/-! ## One call -/

namespace World

variable {w w' : World} {i : String}

theorem noteworthy_of_isRevocationOf {e : AuditEntryInput} (h : isRevocationOf i e = true) :
    e.noteworthy = true := by
  obtain ⟨hdecision, -⟩ := of_decide_eq_true h
  simp [AuditEntryInput.noteworthy, hdecision]

theorem revocationsOf_ledger : w.ledger.revocationsOf i =
    (w.auditLog.entries.map (·.toAuditEntryInput)).filter (isRevocationOf i) :=
  ledger_log_filter fun _ => noteworthy_of_isRevocationOf

theorem revocationsOf_trail : w.trail.filter (isRevocationOf i) = w.ledger.revocationsOf i := by
  rw [revocationsOf_ledger, trail, List.filter_filter]
  refine List.filter_congr fun e _ => ?_
  cases hrevocation : isRevocationOf i e with
  | false => rfl
  | true =>
    obtain ⟨hdecision, -⟩ := of_decide_eq_true hrevocation
    simp [AuditEntryInput.reportsCircuit, hdecision]

end World

/-- A revocation that is let through writes one entry about its token, and one that the breaker
rejects writes none. -/
theorem RevocationEnds.revocationsOf {env : Env} {w w' : World} {token : Token}
    {reasonCode : RevocationReason} {now : Int} {actor : Option String} {r : Except Err Token}
    (h : RevocationEnds env w token reasonCode now actor r w') :
    (w.Rejects env ∧ w'.ledger.revocationsOf token.id = w.ledger.revocationsOf token.id) ∨
      ¬ w.Rejects env ∧ ∃ entry,
        w'.ledger.revocationsOf token.id = w.ledger.revocationsOf token.id ++ [entry] := by
  cases h with
  | rejected message _ hrejects htokens htrail =>
    refine .inl ⟨hrejects, ?_⟩
    rw [← World.revocationsOf_trail, htrail, World.revocationsOf_trail]
  | revoked revoked _ hadmits heffect =>
    obtain ⟨t, ht, hid⟩ := List.mem_map.mp ((heffect.reached token.id).mpr (.inl rfl))
    have hentries := filter_revocationEntries
      (fun t => if t.id = token.id then reasonCode else .parentRevoked) actor heffect.nodup ht
    rw [hid] at hentries
    refine .inr ⟨hadmits, ?_⟩
    rw [← World.revocationsOf_trail, heffect.trail, List.filter_append, World.revocationsOf_trail]
    exact ⟨_, congrArg _ hentries⟩

/-! ## Along a run -/

variable {κ : Type} {env : Env} {c : Config κ} {acts : List (Action κ)}

/-- A call to revoke a token does not find it revoked, unless the store does not admit the call
anyway. -/
def Config.NotYetRevoked (env : Env) (c : Config κ) : Action κ → Prop
  | .call _ (.revokeToken tokenId _ _ _) => c.world.Rejects env ∨
      (c.world.tokenStore.live.get tokenId).map Token.status ≠ some .revoked
  | _ => True

instance (c : Config κ) (a : Action κ) : Decidable (c.NotYetRevoked env a) :=
  match a with
  | .call _ call => match call with
    | .revokeToken .. => inferInstanceAs (Decidable (_ ∨ _))
    | .requestToken .. | .approveRequest _ | .denyRequest .. | .checkRequestTimeout ..
    | .claimTokenSecret .. | .delegateToken _ | .enforceToken .. | .accessMockEndpoint _
    | .accessCustomerData _ | .getTokenLineage _ | .createPolicy .. | .modifyPolicy ..
    | .createRedactionRule .. | .registerAgentIdentity .. | .authenticateAgent _
    | .recordLogin .. | .simulateOutage _ | .recordOutageToggle .. | .setDown .. => .isTrue trivial
  | .resume .. | .clock _ | .restart => .isTrue trivial

/-- The first revocation of each token stands: its record is never written again, and so the denial
says the same; it has at most one entry in the log, and the entry gives the reason of the record. -/
structure RevocationsStand (env : Env) (acts : List (Action κ)) : Prop where
  kept : ∀ pre post, acts = pre ++ post → ∀ i t,
    ((processMachine κ env).run pre).world.tokenStore.live.get i = some t → t.status = .revoked →
      ∃ t', ((processMachine κ env).run acts).world.tokenStore.live.get i = some t' ∧
        t.SameRevocation t' ∧ revokedMessage env t' = revokedMessage env t
  once : ∀ i, (((processMachine κ env).run acts).world.auditLog.entries.filter fun e =>
    e.decision = .revoked ∧ e.tokenId = some i).length ≤ 1
  cited : ∀ i t, ((processMachine κ env).run acts).world.tokenStore.live.get i = some t →
    t.status = .revoked → ∃ e ∈ ((processMachine κ env).run acts).world.auditLog.entries,
      e.decision = .revoked ∧ e.tokenId = some i ∧
        e.reasonCode = t.revocationReason.map RevocationReason.text

theorem Config.exec_revokeToken (client : κ) (id : String) (reasonCode : RevocationReason)
    (now : Int) (actor : Option String) :
    (c.exec env (.call client (.revokeToken id reasonCode now actor))).1.world =
      after (revokeToken env id reasonCode now actor) c.world := by
  exact settle_world.trans after_synchronously

/-- A call for a stored token writes one entry about it if and only if the store admits the call. -/
theorem Config.Sound.revocationsOf_exec (hc : c.Sound env) (client : κ) {token : Token}
    (htoken : c.world.tokenStore.live.get token.id = some token) (reasonCode : RevocationReason)
    (now : Int) (actor : Option String) {w' : World}
    (hw' : (c.exec env (.call client (.revokeToken token.id reasonCode now actor))).1.world = w') :
    (c.world.Rejects env ∧
      w'.ledger.revocationsOf token.id = c.world.ledger.revocationsOf token.id) ∨
      ¬ c.world.Rejects env ∧ ∃ entry,
        w'.ledger.revocationsOf token.id = c.world.ledger.revocationsOf token.id ++ [entry] := by
  rw [Config.exec_revokeToken] at hw'
  subst hw'
  exact (wp_iff.mp (revokeToken_ends hc.world.faults hc.world.tokens.keyed htoken)).revocationsOf

theorem Config.Sound.firstRevocation (hc : c.Sound env) {a : Action κ} {e : Event}
    (ha : c.NotYetRevoked env a) (h : c.Advances env a e (c.exec env a)) :
    c.world.ledger.FirstRevocation e := by
  rintro r rfl hrevoked
  obtain ⟨client, rfl⟩ := h.explains.revoked
  obtain ⟨token, rest, htoken, hrest⟩ := Ledger.Revokes.asked h.enabled
  have hid : r.tokenId = token.id := ((hc.world.tokens.keyed _ _ htoken)).symm
  have hmem : r.tokenId ∈ r.revoked.map Token.id := by
    rw [hrest, hid]
    exact List.mem_cons_self ..
  obtain ⟨t, ht, hstatus⟩ := hrevoked
  have hadmits := ha.resolve_right fun hnot => hnot (by
    rw [show c.world.tokenStore.live.get r.tokenId = some t from ht, Option.map_some, hstatus])
  rw [hid] at hmem htoken
  rcases hc.revocationsOf_exec client htoken r.reasonCode r.now r.actor rfl with
    ⟨-, hsame⟩ | ⟨hnot, -⟩
  · rw [hid] at h
    rw [h.ledger_eq, Ledger.revocationsOf_after, Ledger.entries_of_mem h.enabled htoken hmem] at hsame
    have hlength := congrArg List.length hsame
    simp at hlength
  · exact hnot hadmits

theorem revokedOnce_run (hacts : (processMachine κ env).Meets (Config.NotYetRevoked env) acts) :
    ((processMachine κ env).run acts).world.ledger.RevokedOnce := by
  refine ledger_induction hacts ⟨fun _ _ => rfl, fun i t ht => ?_⟩ fun c a e hc ha hadvances h => ?_
  · cases ht
  · exact h.after hadvances.enabled (hc.firstRevocation ha hadvances)

theorem sameRevocation_run {pre post : List (Action κ)} {i : String} {t : Token}
    (hacts : (processMachine κ env).Meets (Config.NotYetRevoked env) (pre ++ post))
    (ht : ((processMachine κ env).run pre).world.ledger.tokens i = some t)
    (hrevoked : t.status = .revoked) :
    ∃ t', ((processMachine κ env).run (pre ++ post)).world.ledger.tokens i = some t' ∧
      t.SameTerms t' ∧ t.SameRevocation t' := by
  induction post using List.reverseRecOn with
  | nil =>
    rw [List.append_nil]
    exact ⟨t, ht, .refl t, .refl t⟩
  | append_singleton post a ih =>
    rw [← List.append_assoc] at hacts ⊢
    obtain ⟨hacts, ha⟩ := Machine.meets_snoc.mp hacts
    obtain ⟨t', ht', hterms, hsame⟩ := ih hacts
    obtain ⟨e, hadvances, hledger⟩ := @ledger_snoc env _ (pre ++ post) a
    have hfirst := (Config.sound_run (pre ++ post)).firstRevocation ha hadvances
    have hnot := hfirst.not_mem hadvances.enabled ⟨t', ht', hsame.status_eq.trans hrevoked⟩
    refine ⟨_, ?_, hterms.trans (Ledger.sameTerms_changedToken e i t'),
      hsame.trans (Ledger.sameRevocation_changedToken hnot)⟩
    rw [hledger]
    exact hadvances.enabled.token_stays ht'

/-- An entry that is in the log stays there. -/
theorem revocationsOf_length_le (pre post : List (Action κ)) (i : String) :
    (((processMachine κ env).run pre).world.ledger.revocationsOf i).length ≤
      (((processMachine κ env).run (pre ++ post)).world.ledger.revocationsOf i).length := by
  induction post using List.reverseRecOn with
  | nil => rw [List.append_nil]
  | append_singleton post a ih =>
    obtain ⟨e, -, hledger⟩ := @ledger_snoc env _ (pre ++ post) a
    rw [← List.append_assoc, hledger, Ledger.revocationsOf_after, List.length_append]
    exact Nat.le_add_right_of_le ih

theorem length_revocationsOf {w : World} {i : String} :
    (w.ledger.revocationsOf i).length =
      (w.auditLog.entries.filter fun e => e.decision = .revoked ∧ e.tokenId = some i).length := by
  rw [World.revocationsOf_ledger, List.filter_map, List.length_map]
  rfl

/-- A call that is let through for a token that is revoked writes a second entry. -/
theorem twice_of_not_notYetRevoked {pre post : List (Action κ)} {a : Action κ}
    (ha : ¬ ((processMachine κ env).run pre).NotYetRevoked env a) :
    ∃ i, 1 < (((processMachine κ env).run (pre ++ a :: post)).world.ledger.revocationsOf i).length := by
  have hc := @Config.sound_run env _ pre
  unfold Config.NotYetRevoked at ha
  split at ha
  · rename_i client tokenId reasonCode now actor
    obtain ⟨hadmits, hstatus⟩ := not_or.mp ha
    obtain ⟨token, htoken, hrevoked⟩ := Option.map_eq_some_iff.mp (not_not.mp hstatus)
    obtain rfl : token.id = tokenId := hc.world.tokens.keyed _ _ htoken
    rcases hc.revocationsOf_exec client htoken reasonCode now actor rfl with
      ⟨hrejects, -⟩ | ⟨-, entry, hentry⟩
    · exact absurd hrejects hadmits
    refine ⟨token.id, ?_⟩
    rw [List.append_cons]
    refine lt_of_lt_of_le ?_ (revocationsOf_length_le (pre ++ [_]) post token.id)
    rw [Machine.run_snoc]
    exact (revocationsLogged_run pre).again ⟨token, htoken, hrevoked⟩ hentry
  · exact absurd trivial ha

/-- **The first revocation stands** in exactly the runs in which no call that is let through asks for
a token that is revoked already. -/
theorem revocationsStand_iff :
    RevocationsStand env acts ↔ (processMachine κ env).Meets (Config.NotYetRevoked env) acts := by
  constructor
  · rintro hstand pre a post rfl
    by_contra ha
    obtain ⟨i, htwice⟩ := twice_of_not_notYetRevoked ha
    rw [length_revocationsOf] at htwice
    exact absurd (hstand.once i) (not_le.mpr htwice)
  · intro hacts
    have honce := revokedOnce_run hacts
    refine ⟨?_, fun i => ?_, fun i t ht hrevoked => ?_⟩
    · rintro pre post rfl i t ht hrevoked
      obtain ⟨t', ht', hterms, hsame⟩ := sameRevocation_run hacts ht hrevoked
      refine ⟨t', ht', hsame, ?_⟩
      simp only [revokedMessage, hterms.id_eq, hterms.subject_eq, hsame.revokedAt_eq,
        hsame.revocationReason_eq]
    · rw [← length_revocationsOf]
      by_cases hi : ((processMachine κ env).run acts).world.ledger.Revoked i
      · obtain ⟨t, ht, hrevoked⟩ := hi
        obtain ⟨reasonCode, actor, -, hentries⟩ := honce.revoked i t ht hrevoked
        rw [hentries]
        exact le_rfl
      · rw [honce.unrevoked i hi]
        exact Nat.zero_le 1
    · obtain ⟨reasonCode, actor, hreason, hentries⟩ := honce.revoked i t ht hrevoked
      rw [World.revocationsOf_ledger] at hentries
      have hmem := hentries ▸ List.mem_singleton_self (revocationEntry i t.subject reasonCode actor)
      obtain ⟨hmem, -⟩ := List.mem_filter.mp hmem
      obtain ⟨e, he, hentry⟩ := List.mem_map.mp hmem
      refine ⟨e, he, ?_, ?_, ?_⟩
      · exact congrArg AuditEntryInput.decision hentry
      · exact congrArg AuditEntryInput.tokenId hentry
      · rw [hreason]
        exact congrArg AuditEntryInput.reasonCode hentry

/-! ## A revocation that is asked for twice -/

/-- A token is revoked, and half a second later once more. -/
def sampleRevokedTwice : List (Action Unit) :=
  [.call () (.requestToken ⟨"agent", ["a"], .finite 60, none, none⟩ (some "alice") 0),
   .call () (.approveRequest ⟨"id-2", "alice", none, 0⟩),
   .resume 0 .responded,
   .call () (.revokeToken "id-6" .compromised 0 (some "alice")),
   .call () (.revokeToken "id-6" .superseded 500 (some "alice"))]

/-- What is on record about the token after the first actions of the run. -/
def sampleRevocationRecord (n : ℕ) : Option (TokenStatus × Option Int × Option RevocationReason) :=
  (((processMachine Unit sampleEnv).run (sampleRevokedTwice.take n)).world.tokenStore.live.get
    "id-6").map fun t => (t.status, t.revokedAt, t.revocationReason)

/-- The second call writes over the time and the reason of the first, and writes a second entry. -/
theorem not_revocationsStand :
    sampleRevocationRecord 4 = some (.revoked, some 0, some .compromised) ∧
    sampleRevocationRecord 5 = some (.revoked, some 500, some .superseded) ∧
    ¬ RevocationsStand sampleEnv sampleRevokedTwice := by
  have hcheck : sampleRevocationRecord 4 = some (.revoked, some 0, some .compromised) ∧
      sampleRevocationRecord 5 = some (.revoked, some 500, some .superseded) ∧
      (((processMachine Unit sampleEnv).run sampleRevokedTwice).world.auditLog.entries.filter fun e =>
        e.decision = .revoked ∧ e.tokenId = some "id-6").length = 2 := by decide +kernel
  refine ⟨hcheck.1, hcheck.2.1, fun hstand => ?_⟩
  have honce := hstand.once "id-6"
  rw [hcheck.2.2] at honce
  exact absurd honce (by decide)

end Ambit
