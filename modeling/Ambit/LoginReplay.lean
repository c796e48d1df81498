import Mathlib.Data.Int.ConditionallyCompleteOrder
import Mathlib.Order.ConditionallyCompleteLattice.Basic
import Mathlib.Order.WithBot
import Ambit.OperatorDirectory
import Ambit.SamplePlatform

/-! Logins that overlap: who is let in, what a login that is not leaves as it was, and that no code
is accepted twice for one timestep. -/

namespace Ambit

variable {p : LoginPlatform}

/-! ## The verifiers -/

namespace VerifierCache

variable {cache : VerifierCache} {secret secret' : String}

theorem verifier_set {v : TotpVerifier} :
    VerifierCache.verifier (cache.set secret v) secret' =
      if secret' = secret then v else cache.verifier secret' := by
  rw [verifier, OrderedMap.get_set]
  by_cases h : secret' = secret
  · rw [if_pos h, if_pos h]
    rfl
  · rw [if_neg h, if_neg h]
    rfl

theorem verifier_getTotpVerifier :
    (cache.getTotpVerifier secret).verifier secret' = cache.verifier secret' := by
  unfold getTotpVerifier
  split
  · rename_i hnone
    rw [verifier_set]
    by_cases h : secret' = secret
    · rw [if_pos h, h, verifier, hnone]
      rfl
    · rw [if_neg h]
  · rfl

end VerifierCache

theorem verifier_resolveOperatorIdentity {cache : VerifierCache} {vars : OperatorVariables}
    {secret : String} :
    (resolveOperatorIdentity cache vars).2.verifier secret = cache.verifier secret := by
  unfold resolveOperatorIdentity
  split
  · rfl
  · exact VerifierCache.verifier_getTotpVerifier
  · rfl

theorem verifier_configuredIdentities {cache : VerifierCache} {vars : LoginVariables}
    {secret : String} :
    (configuredIdentities vars cache).2.verifier secret = cache.verifier secret :=
  verifier_resolveOperatorIdentity.trans verifier_resolveOperatorIdentity

/-- An identity has the name of an environment variable. -/
theorem username_of_resolved {cache : VerifierCache} {vars : OperatorVariables}
    {identity : OperatorIdentity}
    (h : (resolveOperatorIdentity cache vars).1 = .identity identity) :
    vars.username = some identity.username := by
  unfold resolveOperatorIdentity at h
  split at h
  · cases h
  · cases h
    assumption
  · cases h

theorem username_of_configured {cache : VerifierCache} {vars : LoginVariables}
    {identities : List OperatorIdentity} {identity : OperatorIdentity}
    (h : (configuredIdentities vars cache).1 = some identities) (hmem : identity ∈ identities) :
    vars.admin.username = some identity.username ∨
      vars.backupApprover.username = some identity.username := by
  simp only [configuredIdentities] at h
  split at h
  · rename_i _ primary _ hprimary _
    cases h
    cases List.mem_singleton.mp hmem
    exact .inl (username_of_resolved hprimary)
  · rename_i _ primary backup _ hprimary hbackup
    cases h
    rcases List.mem_cons.mp hmem with rfl | hmem
    · exact .inl (username_of_resolved hprimary)
    · cases List.mem_singleton.mp hmem
      exact .inr (username_of_resolved hbackup)
  · cases h

theorem username_of_attempt {body : LoginBody} {attempt : LoginAttempt}
    (h : body.attempt = some attempt) : body.username = some attempt.username := by
  unfold LoginBody.attempt at h
  split at h
  · cases h
    assumption
  · cases h

/-! ## One step -/

section
variable {attempt : LoginAttempt} {identities : List OperatorIdentity} {frame : LoginFrame p}

/-- The loop returns no operator before a password was checked. -/
theorem findAuthenticatedOperator_ne (matched : OperatorIdentity) :
    findAuthenticatedOperator p attempt identities ≠ .returned (some matched) := by
  induction identities with
  | nil => exact fun h => by cases h
  | cons identity rest ih =>
    rw [findAuthenticatedOperator]
    split
    · exact fun h => by cases h
    · exact ih

theorem findAuthenticatedOperator_awaiting
    (h : findAuthenticatedOperator p attempt identities = .awaiting frame) :
    frame.attempt = attempt ∧ frame.identity :: frame.rest <:+ identities := by
  induction identities with
  | nil => cases h
  | cons identity rest ih =>
    rw [findAuthenticatedOperator] at h
    split at h
    · cases h
      exact ⟨rfl, List.suffix_rfl⟩
    · obtain ⟨hattempt, hsuffix⟩ := ih h
      exact ⟨hattempt, hsuffix.trans (List.suffix_cons ..)⟩

end

/-- What the loop does from the check of a password on: nobody is let in and no verifier changes, or
the identity is let in and its verifier has accepted the code. -/
theorem LoginFrame.resume_cases (frame : LoginFrame p) (cache : VerifierCache) (now : Int) :
    ((∀ secret, (frame.resume p cache now).2.verifier secret = cache.verifier secret) ∧
      ((∃ err, (frame.resume p cache now).1 = .error err) ∨
        (frame.resume p cache now).1 =
          .ok (findAuthenticatedOperator p frame.attempt frame.rest))) ∨
    ∃ v, (frame.resume p cache now) = (.ok (.returned (some frame.identity)),
        cache.set frame.identity.totpSecret v) ∧
      verifyPassword p.toPlatform frame.attempt.password frame.identity.passwordHash = true ∧
      (cache.verifier frame.identity.totpSecret).verify p frame.attempt.totpCode now =
        .ok (true, v) := by
  unfold LoginFrame.resume
  by_cases hpassword :
      verifyPassword p.toPlatform frame.attempt.password frame.identity.passwordHash = true
  · simp only [if_pos hpassword]
    cases hverify : (cache.verifier frame.identity.totpSecret).verify p frame.attempt.totpCode
        now with
    | error err => exact .inl ⟨fun _ => rfl, .inl ⟨err, rfl⟩⟩
    | ok answer =>
      obtain ⟨accepted, v⟩ := answer
      rcases TotpVerifier.verify_spec hverify with ⟨rfl, rfl⟩ | ⟨rfl, -⟩
      · refine .inl ⟨fun secret => ?_, .inr rfl⟩
        rw [VerifierCache.verifier_set]
        split
        · rename_i hsecret
          rw [hsecret]
        · rfl
      · exact .inr ⟨v, rfl, hpassword, rfl⟩
  · rw [if_neg hpassword]
    exact .inl ⟨fun _ => rfl, .inr rfl⟩

namespace LoginServer

variable {s : LoginServer p} {inflight : List (LoginFrame p)} {cache : VerifierCache}

theorem settle_verifier (r : Progress (LoginFrame p) LoginReply × VerifierCache) :
    (settle inflight r).1.totpVerifierCache = r.2 := by
  obtain ⟨_ | _, _⟩ := r <;> rfl

theorem settle_reply (r : Progress (LoginFrame p) LoginReply × VerifierCache) {reply : LoginReply} :
    (settle inflight r).2 = some reply ↔ r.1 = .returned reply := by
  obtain ⟨_ | _, _⟩ := r
  · simp [settle]
  · simp [settle]

theorem mem_settle {r : Progress (LoginFrame p) LoginReply × VerifierCache} {frame : LoginFrame p}
    (h : frame ∈ (settle inflight r).1.inflight) : frame ∈ inflight ∨ r.1 = .awaiting frame := by
  obtain ⟨_ | frame', _⟩ := r
  · exact .inl h
  · rcases List.mem_append.mp h with h | h
    · exact .inl h
    · cases List.mem_singleton.mp h
      exact .inr rfl

/-- The identity that an action lets in, and what its verifier becomes. -/
structure LetsIn (s : LoginServer p) (a : LoginAction) (frame : LoginFrame p) (v : TotpVerifier) :
    Prop where
  resumes : ∃ i now, a = .resume i now ∧ s.inflight[i]? = some frame ∧
    (s.verifier frame.identity.totpSecret).verify p frame.attempt.totpCode now = .ok (true, v)
  password : verifyPassword p.toPlatform frame.attempt.password frame.identity.passwordHash = true
  reply : (s.exec a).2 = some (.session frame.identity)
  verifier : ∀ secret, (s.exec a).1.verifier secret =
    if secret = frame.identity.totpSecret then v else s.verifier secret

theorem postAuthLogin_cache {vars : LoginVariables} {body : LoginBody} :
    (postAuthLogin p vars body cache).2 = (configuredIdentities vars cache).2 := by
  unfold postAuthLogin
  rcases configuredIdentities vars cache with ⟨_ | identities, cache'⟩
  · rfl
  · dsimp only
    split <;> rfl

theorem loginReply_awaiting {attempt : LoginAttempt} {frame : LoginFrame p}
    {result : Except TotpError (Progress (LoginFrame p) (Option OperatorIdentity))}
    (h : loginReply p attempt result = .awaiting frame) : result = .ok (.awaiting frame) := by
  match result with
  | .error _ => cases h
  | .ok (.awaiting _) =>
    cases h
    rfl
  | .ok (.returned none) => cases h
  | .ok (.returned (some _)) => cases h

theorem loginReply_ne_session {attempt : LoginAttempt}
    {result : Except TotpError (Progress (LoginFrame p) (Option OperatorIdentity))}
    (h : ∀ matched, result ≠ .ok (.returned (some matched))) (identity : OperatorIdentity) :
    loginReply p attempt result ≠ .returned (.session identity) := by
  intro hreply
  match result with
  | .error _ => cases hreply
  | .ok (.awaiting _) => cases hreply
  | .ok (.returned none) => cases hreply
  | .ok (.returned (some matched)) => exact h matched rfl

/-- An action lets nobody in and changes no verifier, or it lets in an identity whose verifier has
accepted the code. -/
theorem exec_cases (s : LoginServer p) (a : LoginAction) :
    ((∀ secret, (s.exec a).1.verifier secret = s.verifier secret) ∧
      ∀ identity, (s.exec a).2 ≠ some (.session identity)) ∨ ∃ frame v, s.LetsIn a frame v := by
  cases a with
  | post vars body =>
    refine .inl ⟨fun secret => ?_, fun identity hreply => ?_⟩
    · show (settle _ _).1.totpVerifierCache.verifier secret = _
      rw [settle_verifier, postAuthLogin_cache]
      exact verifier_configuredIdentities
    · have hreply := (settle_reply _).mp hreply
      unfold postAuthLogin at hreply
      split at hreply
      · cases hreply
      · split at hreply
        · cases hreply
        · refine loginReply_ne_session (fun matched hmatched => ?_) identity hreply
          exact findAuthenticatedOperator_ne matched (Except.ok.inj hmatched)
  | resume i now =>
    cases hframe : s.inflight[i]? with
    | none =>
      refine .inl ?_
      simp only [exec, hframe]
      exact ⟨fun _ => trivial, fun _ => by simp⟩
    | some frame =>
      have hexec : s.exec (.resume i now) = settle (s.inflight.eraseIdx i)
          (loginReply p frame.attempt (frame.resume p s.totpVerifierCache now).1,
            (frame.resume p s.totpVerifierCache now).2) := by
        simp only [exec, hframe]
      rcases frame.resume_cases s.totpVerifierCache now with
        ⟨hkept, hresult⟩ | ⟨v, hresume, hpassword, hverify⟩
      · refine .inl ⟨fun secret => ?_, fun identity hreply => ?_⟩
        · rw [hexec, verifier, settle_verifier]
          exact hkept secret
        · rw [hexec] at hreply
          refine loginReply_ne_session (fun matched hmatched => ?_) identity
            ((settle_reply _).mp hreply)
          rcases hresult with ⟨err, hresult⟩ | hresult
          · cases hresult.symm.trans hmatched
          · exact findAuthenticatedOperator_ne matched (Except.ok.inj (hresult.symm.trans hmatched))
      · rw [hresume] at hexec
        refine .inr ⟨frame, v, ⟨i, now, rfl, hframe, hverify⟩, hpassword, ?_, fun secret => ?_⟩
        · rw [hexec]
          exact (settle_reply _).mpr rfl
        · rw [hexec, verifier, settle_verifier]
          exact VerifierCache.verifier_set

/-- Where a suspended login comes from: it was suspended before, or started now, or went on. -/
theorem mem_exec_inflight {a : LoginAction} {frame : LoginFrame p}
    (h : frame ∈ (s.exec a).1.inflight) :
    frame ∈ s.inflight ∨
      (∃ vars body identities, a = .post vars body ∧
        (configuredIdentities vars s.totpVerifierCache).1 = some identities ∧
        body.attempt = some frame.attempt ∧ frame.identity :: frame.rest <:+ identities) ∨
      ∃ old ∈ s.inflight, frame.attempt = old.attempt ∧ frame.identity :: frame.rest <:+ old.rest := by
  cases a with
  | post vars body =>
    rcases mem_settle h with h | h
    · exact .inl h
    · unfold postAuthLogin at h
      split at h
      · cases h
      · rename_i identities cache hidentities
        split at h
        · cases h
        · rename_i attempt hattempt
          obtain ⟨rfl, hsuffix⟩ :=
            findAuthenticatedOperator_awaiting (Except.ok.inj (loginReply_awaiting h))
          exact .inr (.inl ⟨vars, body, identities, rfl, congrArg Prod.fst hidentities, hattempt,
            hsuffix⟩)
  | resume i now =>
    cases hframe : s.inflight[i]? with
    | none =>
      simp only [exec, hframe] at h
      exact .inl h
    | some old =>
      simp only [exec, hframe] at h
      rcases mem_settle h with h | h
      · exact .inl (List.mem_of_mem_eraseIdx h)
      · have hresult := loginReply_awaiting h
        rcases old.resume_cases s.totpVerifierCache now with ⟨-, ⟨err, herr⟩ | hrest⟩ | ⟨v, hresume, -⟩
        · cases herr.symm.trans hresult
        · obtain ⟨hattempt, hsuffix⟩ :=
            findAuthenticatedOperator_awaiting (Except.ok.inj (hrest.symm.trans hresult))
          exact .inr (.inr ⟨old, List.mem_of_getElem? hframe, hattempt, hsuffix⟩)
        · rw [hresume] at hresult
          cases hresult

end LoginServer

/-! ## Along a run -/

/-- The username and the password are those of the identity. -/
def LoginAttempt.Matches (p : LoginPlatform) (attempt : LoginAttempt) (identity : OperatorIdentity) :
    Prop :=
  attempt.username = identity.username ∧
    verifyPassword p.toPlatform attempt.password identity.passwordHash = true

/-- The username of a login has the digest of a configured one only if it is the same. -/
def LoginAction.CollisionFree (p : LoginPlatform) : LoginAction → Prop
  | .post vars body => ∀ username configured, body.username = some username →
      vars.admin.username = some configured ∨ vars.backupApprover.username = some configured →
        p.sha256 configured = p.sha256 username → configured = username
  | .resume _ _ => True

/-- The login that an action is part of. -/
def LoginServer.attemptOf (s : LoginServer p) : LoginAction → Option LoginAttempt
  | .post _ body => body.attempt
  | .resume i _ => s.inflight[i]?.map LoginFrame.attempt

/-- The action lets in an operator, whose verifier has accepted the code for the timestep. -/
def LoginServer.SucceedsWith (s : LoginServer p) (secret : String) (timestep : Int)
    (a : LoginAction) : Prop :=
  ∃ identity, (s.exec a).2 = some (.session identity) ∧ identity.totpSecret = secret ∧
    ((s.exec a).1.verifier secret).lastAcceptedTimestep = some timestep

/-- What holds of every action of a run: whom it lets in, which verifiers it leaves as they are, and
that no action after it is let in for the same secret with the same timestep. -/
structure LoginsSound (p : LoginPlatform) (acts : List LoginAction) : Prop where
  matched : ∀ pre a post identity, acts = pre ++ a :: post →
    (((loginMachine p).run pre).exec a).2 = some (.session identity) →
      ∃ i now attempt v, a = .resume i now ∧
        ((loginMachine p).run pre).attemptOf a = some attempt ∧
        attempt.Matches p identity ∧
        (((loginMachine p).run pre).verifier identity.totpSecret).verify p
          attempt.totpCode now = .ok (true, v)
  kept : ∀ pre a post attempt (identity : OperatorIdentity), acts = pre ++ a :: post →
    ((loginMachine p).run pre).attemptOf a = some attempt →
      ¬ attempt.Matches p identity →
        ((loginMachine p).run (pre ++ [a])).verifier identity.totpSecret =
            ((loginMachine p).run pre).verifier identity.totpSecret ∨
          ∃ other, (((loginMachine p).run pre).exec a).2 = some (.session other) ∧
            attempt.Matches p other ∧ other.totpSecret = identity.totpSecret
  once : ∀ pre a mid b post secret timestep, acts = pre ++ a :: mid ++ b :: post →
    ((loginMachine p).run pre).SucceedsWith secret timestep a →
      ¬ ((loginMachine p).run (pre ++ a :: mid)).SucceedsWith secret timestep b

/-- The last timestep that a verifier has accepted, below all timesteps if there is none. -/
def TotpVerifier.lastAccepted (v : TotpVerifier) : WithBot ℤ := v.lastAcceptedTimestep

def LoginServer.lastAccepted (secret : String) (s : LoginServer p) : WithBot ℤ :=
  (s.verifier secret).lastAccepted

theorem TotpVerifier.lastAccepted_lt {v : TotpVerifier} {timestep : ℤ}
    (h : v.replays timestep = false) : v.lastAccepted < timestep := by
  unfold replays at h
  unfold lastAccepted
  cases hlast : v.lastAcceptedTimestep with
  | none => exact WithBot.bot_lt_coe timestep
  | some last =>
    rw [hlast] at h
    have hlt : ¬ timestep ≤ last := of_decide_eq_false h
    exact WithBot.coe_lt_coe.mpr (not_le.mp hlt)

namespace LoginServer

variable {s : LoginServer p} {a : LoginAction} {frame : LoginFrame p} {v : TotpVerifier}
  {secret : String}

/-- Whoever is let in raises the last timestep of its verifier. -/
theorem LetsIn.lt (h : s.LetsIn a frame v) : s.lastAccepted frame.identity.totpSecret <
    (s.exec a).1.lastAccepted frame.identity.totpSecret := by
  obtain ⟨i, now, -, -, hverify⟩ := h.resumes
  rcases TotpVerifier.verify_spec hverify with ⟨hfalse, -⟩ | ⟨-, timestep, -, hreplays, rfl⟩
  · cases hfalse
  · rw [lastAccepted, lastAccepted, h.verifier, if_pos rfl]
    exact TotpVerifier.lastAccepted_lt hreplays

theorem lastAccepted_le (secret : String) (s : LoginServer p) (a : LoginAction) :
    s.lastAccepted secret ≤ ((loginMachine p).step s a).lastAccepted secret := by
  rcases s.exec_cases a with ⟨hkept, -⟩ | ⟨frame, v, hlets⟩
  · exact le_of_eq (congrArg TotpVerifier.lastAccepted (hkept secret)).symm
  · by_cases hsecret : secret = frame.identity.totpSecret
    · rw [hsecret]
      exact hlets.lt.le
    · refine le_of_eq (congrArg TotpVerifier.lastAccepted ?_)
      show _ = (s.exec a).1.verifier secret
      rw [hlets.verifier, if_neg hsecret]

theorem SucceedsWith.lt {timestep : ℤ} (h : s.SucceedsWith secret timestep a) :
    s.lastAccepted secret < ((loginMachine p).step s a).lastAccepted secret := by
  obtain ⟨identity, hreply, rfl, -⟩ := h
  rcases s.exec_cases a with ⟨-, hnobody⟩ | ⟨frame, v, hlets⟩
  · exact absurd hreply (hnobody identity)
  · have hsame := hlets.reply.symm.trans hreply
    cases hsame
    exact hlets.lt

theorem SucceedsWith.lastAccepted_eq {timestep : ℤ} (h : s.SucceedsWith secret timestep a) :
    ((loginMachine p).step s a).lastAccepted secret = timestep := by
  obtain ⟨identity, -, -, htimestep⟩ := h
  exact htimestep

/-- Where digests do not collide, equal digests mean equal names. -/
def NamesFaithful (s : LoginServer p) : Prop :=
  ∀ frame ∈ s.inflight, ∀ identity ∈ frame.identity :: frame.rest,
    p.sha256 identity.username = p.sha256 frame.attempt.username →
      identity.username = frame.attempt.username

theorem NamesFaithful.exec (h : s.NamesFaithful) (ha : a.CollisionFree p) :
    (s.exec a).1.NamesFaithful := by
  intro frame hframe identity hidentity hdigest
  rcases mem_exec_inflight hframe with hold | ⟨vars, body, identities, rfl, hidentities, hattempt,
    hsuffix⟩ | ⟨old, hold, hattempt, hsuffix⟩
  · exact h frame hold identity hidentity hdigest
  · have hconfigured := username_of_configured hidentities (hsuffix.subset hidentity)
    exact ha _ _ (username_of_attempt hattempt) hconfigured hdigest
  · rw [hattempt] at hdigest ⊢
    exact h old hold identity (List.mem_cons_of_mem _ (hsuffix.subset hidentity)) hdigest

end LoginServer

theorem namesFaithful_run {acts : List LoginAction}
    (hacts : (loginMachine p).Meets (fun _ a => a.CollisionFree p) acts) :
    ((loginMachine p).run acts).NamesFaithful := by
  refine hacts.induction (P := fun acts => ((loginMachine p).run acts).NamesFaithful) ?_
    fun acts a _ ha ih => ?_
  · intro frame hframe
    cases hframe
  · rw [Machine.run_snoc]
    exact ih.exec ha

/-- **Logins cannot be replayed, and failed factors burn nothing**, however the logins overlap at the
checks of their passwords. -/
theorem loginsSound {acts : List LoginAction}
    (hacts : (loginMachine p).Meets (fun _ a => a.CollisionFree p) acts) :
    LoginsSound p acts := by
  have hmatches : ∀ pre a post frame v, acts = pre ++ a :: post →
      ((loginMachine p).run pre).LetsIn a frame v →
        ((loginMachine p).run pre).attemptOf a = some frame.attempt ∧
          frame.attempt.Matches p frame.identity := by
    intro pre a post frame v hsplit hlets
    obtain ⟨i, now, rfl, hframe, -⟩ := hlets.resumes
    subst hsplit
    refine ⟨congrArg (Option.map LoginFrame.attempt) hframe, ?_, hlets.password⟩
    exact (namesFaithful_run hacts.of_append frame (List.mem_of_getElem? hframe) _
      (List.mem_cons_self ..) (of_decide_eq_true frame.usernameEqual)).symm
  refine ⟨?_, ?_, ?_⟩
  · intro pre a post identity hsplit hreply
    rcases ((loginMachine p).run pre).exec_cases a with ⟨-, hnobody⟩ | ⟨frame, v, hlets⟩
    · exact absurd hreply (hnobody identity)
    · obtain ⟨hattempt, hmatch⟩ := hmatches pre a post frame v hsplit hlets
      have hsame := hlets.reply.symm.trans hreply
      cases hsame
      obtain ⟨i, now, rfl, -, hverify⟩ := hlets.resumes
      exact ⟨i, now, _, v, rfl, hattempt, hmatch, hverify⟩
  · intro pre a post attempt identity hsplit hattempt hnot
    rw [Machine.run_snoc]
    rcases ((loginMachine p).run pre).exec_cases a with ⟨hkept, -⟩ | ⟨frame, v, hlets⟩
    · exact .inl (hkept _)
    · obtain ⟨hattempt', hmatch⟩ := hmatches pre a post frame v hsplit hlets
      cases hattempt'.symm.trans hattempt
      by_cases hsecret : identity.totpSecret = frame.identity.totpSecret
      · exact .inr ⟨_, hlets.reply, hmatch, hsecret.symm⟩
      · exact .inl ((hlets.verifier _).trans (if_neg hsecret))
  · intro pre a mid b post secret timestep _ ha hb
    have hlt := Machine.lt_of_raised (LoginServer.lastAccepted_le secret)
      (fun s a (h : s.SucceedsWith secret timestep a) => h.lt) hb
    rw [Machine.run_snoc, ha.lastAccepted_eq, Machine.run_snoc, hb.lastAccepted_eq] at hlt
    exact lt_irrefl _ hlt

/-! ## Two operators with one secret -/

/-- Every code is `000000`. -/
def sampleLoginPlatform : LoginPlatform where
  toPlatform := samplePlatform
  toUpperCase := id
  hmacSha1 _ _ := List.replicate 20 0
  hmacSha1_length _ _ := by simp

/-- An operator and a backup approver with the same TOTP secret. -/
def sampleLoginVariables : LoginVariables where
  signingSecret := some "signing"
  admin := ⟨some "alice", some (hashPassword samplePlatform "a" [1]), some "AAAAAAAA"⟩
  backupApprover := ⟨some "bob", some (hashPassword samplePlatform "b" [1]), some "AAAAAAAA"⟩

/-- The backup approver logs in, and tries to log in with the same code again. -/
def sampleLogins : List LoginAction :=
  [.post sampleLoginVariables ⟨some "bob", some "b", some "000000"⟩,
   .resume 0 60000,
   .post sampleLoginVariables ⟨some "bob", some "b", some "000000"⟩,
   .resume 0 30000]

theorem collisionFree_sample (a : LoginAction) : a.CollisionFree sampleLoginPlatform := by
  cases a with
  | post vars body =>
    intro username configured _ _ hdigest
    exact (String.append_right_inj "sha256:").mp hdigest
  | resume => trivial

theorem loginsSound_sample : LoginsSound sampleLoginPlatform sampleLogins :=
  loginsSound fun _ a _ _ => collisionFree_sample a

/-- The backup approver's login changes the verifier of the operator, whose username and password it
does not have. -/
theorem not_kept :
    let before := (loginMachine sampleLoginPlatform).run (sampleLogins.take 1)
    let after := (loginMachine sampleLoginPlatform).run (sampleLogins.take 2)
    let alice : OperatorIdentity := ⟨"alice", hashPassword samplePlatform "a" [1], "AAAAAAAA"⟩
    before.attemptOf (.resume 0 60000) = some ⟨"bob", "b", "000000"⟩ ∧
      ¬ LoginAttempt.Matches sampleLoginPlatform ⟨"bob", "b", "000000"⟩ alice ∧
      (after.verifier alice.totpSecret).lastAcceptedTimestep ≠
        (before.verifier alice.totpSecret).lastAcceptedTimestep := by
  refine ⟨by decide +kernel, fun h => ?_, by decide +kernel⟩
  exact absurd h.1 (by decide)

end Ambit
