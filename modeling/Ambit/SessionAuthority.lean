import Ambit.Accountability
import Ambit.LoginReplay

/-! Where sessions come from: a token that the application has handed out lets its operator in, and no
other one, until it expires, and it was handed out to a login of that operator in which the password
and the code of a configured identity were checked. -/

namespace Ambit

variable {env : ServerEnv}

/-! ## Logins -/

/-- The variables configure the identity. -/
def EnvironmentVariables.Configures (vars : EnvironmentVariables) (identity : OperatorIdentity) : Prop :=
  let configured : OperatorVariables :=
    ⟨some identity.username, some identity.passwordHash, some identity.totpSecret⟩
  vars.admin = configured ∨ vars.backupApprover = configured

theorem configured_of_resolved {cache : VerifierCache} {vars : OperatorVariables}
    {identity : OperatorIdentity} (h : (resolveOperatorIdentity cache vars).1 = .identity identity) :
    vars = ⟨some identity.username, some identity.passwordHash, some identity.totpSecret⟩ := by
  obtain ⟨username, passwordHash, totpSecret⟩ := vars
  unfold resolveOperatorIdentity at h
  split at h
  · cases h
  · next husername hhash hsecret =>
    cases h
    cases husername
    cases hhash
    cases hsecret
    rfl
  · cases h

theorem configures_of_mem {cache : VerifierCache} {vars : EnvironmentVariables}
    {identities : List OperatorIdentity} {identity : OperatorIdentity}
    (h : (configuredIdentities vars.login cache).1 = some identities) (hmem : identity ∈ identities) :
    vars.Configures identity := by
  simp only [configuredIdentities] at h
  split at h
  · next hprimary _ =>
    cases h
    cases List.mem_singleton.mp hmem
    exact .inl (configured_of_resolved hprimary)
  · next hprimary hbackup =>
    cases h
    rcases List.mem_cons.mp hmem with rfl | hmem
    · exact .inl (configured_of_resolved hprimary)
    · cases List.mem_singleton.mp hmem
      exact .inr (configured_of_resolved hbackup)
  · cases h

theorem length_configuredIdentities {cache : VerifierCache} {vars : LoginVariables}
    {identities : List OperatorIdentity} (h : (configuredIdentities vars cache).1 = some identities) :
    identities.length ≤ 2 := by
  simp only [configuredIdentities] at h
  split at h
  · cases h
    exact Nat.le_succ 1
  · cases h
    exact le_rfl
  · cases h

namespace HttpServer

/-- The request begins the login: for a session of the configuration as it stands, and against
identities that are configured. -/
structure Begins (s : HttpServer env) (request : HttpRequest) (login : SuspendedLogin env) : Prop where
  request_eq : login.request = request
  body : ∃ body, request.target = .login body ∧ body.attempt = some login.frame.attempt
  sessionConfig : getSessionConfig env s.vars = some login.sessionConfig
  configured : ∀ identity ∈ login.frame.identity :: login.frame.rest, s.vars.Configures identity
  few : login.frame.rest.length ≤ 1

/-- The login ends with a session: its password and its code are those of the identity that it is
checked against, and what it is handed is a token for that operator. -/
structure LetsIn (s : HttpServer env) (a : HttpAction) (login : SuspendedLogin env) (token : String) :
    Prop where
  resumes : ∃ i, a = .resumeLogin i ∧ s.logins[i]? = some login
  password : verifyPassword env.toPlatform login.frame.attempt.password
    login.frame.identity.passwordHash = true
  code : ∃ v, (s.totpVerifierCache.verifier login.frame.identity.totpSecret).verify env.toLoginPlatform
    login.frame.attempt.totpCode s.now = .ok (true, v)
  token_eq : token = createSessionToken env.toSessionPlatform login.frame.identity.username
    login.sessionConfig s.now

end HttpServer

/-- The token that a response hands out. -/
def HttpReply.sessionToken (reply : HttpReply) : Option String :=
  match reply.body with
  | some (.session token) => some token
  | _ => none

/-- The tokens that a run hands out. -/
def sessionTokens (env : ServerEnv) (acts : List HttpAction) : List String :=
  (httpReplies env acts).filterMap HttpReply.sessionToken

/-! ## One action -/

namespace HttpServer

variable {s : HttpServer env} {request : HttpRequest}

/-- A reply that hands out no token. -/
def Tokenless (reply : Option HttpReply) : Prop := ∀ r ∈ reply, r.sessionToken = none

theorem tokenless_none : Tokenless none := fun _ h => by cases h

theorem tokenless_reply (response : Response) (connection : Option Connection) :
    Tokenless (some (response.on connection)) := by
  rintro r ⟨⟩
  unfold HttpReply.sessionToken Response.on
  cases response.body <;> rfl

theorem tokenless_map {reply : Option Reply} (connection : Reply → Option Connection) :
    Tokenless (reply.map fun reply => reply.response.on (connection reply)) := by
  cases reply with
  | none => exact tokenless_none
  | some reply => exact tokenless_reply _ _

theorem tokenless_sendRateLimited (retryAfterMs : ℤ) :
    Tokenless (some (sendRateLimited request retryAfterMs)) := by
  rintro r ⟨⟩
  rfl

/-- The end of a login that is not let in hands out nothing. -/
theorem tokenless_finishLogin (sessionConfig : SessionTokenConfig) {reply : LoginReply}
    (h : ∀ matched, reply ≠ .session matched) :
    Tokenless (s.finishLogin request sessionConfig reply).2 := by
  cases reply with
  | notConfigured | malformed | failed => exact tokenless_reply _ _
  | unauthorized username =>
    unfold finishLogin
    dsimp only
    split <;> exact tokenless_reply _ _
  | session matched => exact absurd rfl (h matched)

theorem finishLogin_logins (sessionConfig : SessionTokenConfig) (reply : LoginReply) :
    (s.finishLogin request sessionConfig reply).1.logins = s.logins := by
  cases reply with
  | notConfigured | malformed | failed => rfl
  | unauthorized | session =>
    unfold finishLogin
    dsimp only
    split <;> rfl

/-- What a login comes to that is not let in yet: it hands out nothing, and stands at a check or is
gone. -/
theorem continueLogin_cases (request : HttpRequest) (sessionConfig : SessionTokenConfig)
    (r : Progress (LoginFrame env.toLoginPlatform) LoginReply × VerifierCache)
    (h : ∀ matched, r.1 ≠ .returned (.session matched)) :
    Tokenless (s.continueLogin request sessionConfig r).2 ∧
    ∀ login ∈ (s.continueLogin request sessionConfig r).1.logins, login ∈ s.logins ∨
      ∃ frame, r.1 = .awaiting frame ∧ login = ⟨request, sessionConfig, frame⟩ := by
  obtain ⟨reply | frame, cache⟩ := r
  · refine ⟨tokenless_finishLogin sessionConfig fun matched hmatched => ?_, fun login hlogin => .inl ?_⟩
    · exact h matched (congrArg _ hmatched)
    · rw [continueLogin, finishLogin_logins] at hlogin
      exact hlogin
  · refine ⟨tokenless_none, fun login hlogin => ?_⟩
    rcases List.mem_append.mp hlogin with hlogin | hlogin
    · exact .inl hlogin
    · exact .inr ⟨frame, rfl, List.mem_singleton.mp hlogin⟩

/-- A login that begins is let in by nobody yet. -/
theorem postAuthLogin_ne {vars : LoginVariables} {body : LoginBody} {cache : VerifierCache}
    (matched : OperatorIdentity) :
    (postAuthLogin env.toLoginPlatform vars body cache).1 ≠ .returned (.session matched) := by
  intro h
  unfold postAuthLogin at h
  split at h
  · cases h
  · split at h
    · cases h
    · refine LoginServer.loginReply_ne_session (fun matched hmatched => ?_) matched h
      exact findAuthenticatedOperator_ne matched (Except.ok.inj hmatched)

/-- A login that begins stands at the check of a configured identity. -/
theorem postAuthLogin_awaiting {vars : EnvironmentVariables} {body : LoginBody} {cache : VerifierCache}
    {frame : LoginFrame env.toLoginPlatform}
    (h : (postAuthLogin env.toLoginPlatform vars.login body cache).1 = .awaiting frame) :
    body.attempt = some frame.attempt ∧ frame.rest.length ≤ 1 ∧
      ∀ identity ∈ frame.identity :: frame.rest, vars.Configures identity := by
  unfold postAuthLogin at h
  split at h
  · cases h
  · next identities cache hidentities =>
    split at h
    · cases h
    · next attempt hattempt =>
      obtain ⟨rfl, hsuffix⟩ :=
        findAuthenticatedOperator_awaiting (Except.ok.inj (LoginServer.loginReply_awaiting h))
      have hsome := congrArg Prod.fst hidentities
      refine ⟨hattempt, ?_, fun identity hmem => configures_of_mem hsome (hsuffix.subset hmem)⟩
      have hlength := hsuffix.length_le.trans (length_configuredIdentities hsome)
      rw [List.length_cons] at hlength
      omega

/-- What an action may do to the logins: a new one begins, or goes on to its next identity. -/
structure StepsLogins (s : HttpServer env) (a : HttpAction) (ran : HttpServer env × Option HttpReply) :
    Prop where
  login : ∀ login ∈ ran.1.logins, login ∈ s.logins ∨
    (∃ request, a = .arrive request ∧ s.Begins request login) ∨
    ∃ old ∈ s.logins, login.request = old.request ∧ login.sessionConfig = old.sessionConfig ∧
      login.frame.attempt = old.frame.attempt ∧
      login.frame.identity :: login.frame.rest <:+ old.frame.rest
  token : ∀ reply ∈ ran.2, ∀ token, reply.sessionToken = some token →
    ∃ login, s.LetsIn a login token

/-- An action that neither begins nor continues a login. -/
theorem StepsLogins.of_kept {a : HttpAction} {ran : HttpServer env × Option HttpReply}
    (hlogins : ∀ login ∈ ran.1.logins, login ∈ s.logins) (htoken : Tokenless ran.2) :
    StepsLogins s a ran := by
  refine ⟨fun login h => .inl (hlogins login h), fun reply hreply token h => ?_⟩
  cases (htoken reply hreply).symm.trans h

theorem dispatch_stepsLogins (request : HttpRequest) :
    StepsLogins s (.arrive request) (s.dispatch request) := by
  unfold dispatch
  cases htarget : request.target with
  | login body =>
    dsimp only
    split
    · exact .of_kept (fun _ h => h) (tokenless_sendRateLimited _)
    · unfold login
      cases hconfig : getSessionConfig env s.vars with
      | none =>
        dsimp only
        exact .of_kept (fun _ h => h) (tokenless_reply _ _)
      | some sessionConfig =>
        dsimp only
        obtain ⟨htoken, hlogins⟩ := continueLogin_cases
          (s := { s with loginRateLimiter :=
            (s.loginRateLimiter.check env.loginRateLimit (clientKey request) s.now).2 })
          request sessionConfig
          (postAuthLogin env.toLoginPlatform s.vars.login body s.totpVerifierCache) postAuthLogin_ne
        refine ⟨fun login hlogin => ?_, fun reply hreply token h => ?_⟩
        · rcases hlogins login hlogin with h | ⟨frame, hframe, rfl⟩
          · exact .inl h
          · obtain ⟨hattempt, hfew, hconfigured⟩ := postAuthLogin_awaiting hframe
            exact .inr (.inl ⟨request, rfl, rfl, ⟨body, htarget, hattempt⟩, hconfig, hconfigured, hfew⟩)
        · cases (htoken reply hreply).symm.trans h
  | api route =>
    dsimp only
    split
    · exact .of_kept (fun _ h => h) (tokenless_map _)
    · exact .of_kept (fun _ h => h) (tokenless_reply _ _)
  | unmatched =>
    refine .of_kept (fun _ h => h) ?_
    rintro r ⟨⟩
    rfl

theorem exec_stepsLogins (s : HttpServer env) (a : HttpAction) : StepsLogins s a (s.exec a) := by
  cases a with
  | arrive request =>
    simp only [exec, arrive]
    split
    · exact .of_kept (fun _ h => h) (tokenless_reply _ _)
    · split
      · exact .of_kept (fun _ h => h) (tokenless_sendRateLimited _)
      · obtain ⟨hlogin, htoken⟩ := @dispatch_stepsLogins env { s with generalRateLimiter :=
          (s.generalRateLimiter.check env.generalRateLimit (clientKey request) s.now).2 } request
        refine ⟨fun login h => ?_, fun reply hreply token h => ?_⟩
        · rcases hlogin login h with h | ⟨r, hr, hbegins⟩ | hold
          · exact .inl h
          · exact .inr (.inl ⟨r, hr, hbegins.request_eq, hbegins.body, hbegins.sessionConfig,
              hbegins.configured, hbegins.few⟩)
          · exact .inr (.inr hold)
        · obtain ⟨login, ⟨i, hi, -⟩, -⟩ := htoken reply hreply token h
          cases hi
  | resume i downstream => exact .of_kept (fun _ h => h) (tokenless_map _)
  | resumeLogin i =>
    cases hlogin : s.logins[i]? with
    | none =>
      simp only [exec, hlogin]
      exact .of_kept (fun _ h => h) tokenless_none
    | some old =>
      simp only [exec, hlogin]
      have hgone : ∀ login, login ∈ s.logins.eraseIdx i → login ∈ s.logins :=
        fun login => List.mem_of_mem_eraseIdx
      rcases old.frame.resume_cases s.totpVerifierCache s.now with
        ⟨-, hresult⟩ | ⟨v, hresume, hpassword, hverify⟩
      · -- nobody is let in
        have hnobody : ∀ matched, loginReply env.toLoginPlatform old.frame.attempt
            (old.frame.resume env.toLoginPlatform s.totpVerifierCache s.now).1 ≠
              .returned (.session matched) := by
          refine fun matched => LoginServer.loginReply_ne_session (fun other hother => ?_) matched
          rcases hresult with ⟨err, herr⟩ | hrest
          · cases herr.symm.trans hother
          · exact findAuthenticatedOperator_ne other (Except.ok.inj (hrest.symm.trans hother))
        obtain ⟨htoken, hlogins⟩ := continueLogin_cases
          (s := { s with logins := s.logins.eraseIdx i }) old.request old.sessionConfig
          (loginReply env.toLoginPlatform old.frame.attempt
            (old.frame.resume env.toLoginPlatform s.totpVerifierCache s.now).1,
            (old.frame.resume env.toLoginPlatform s.totpVerifierCache s.now).2) hnobody
        refine ⟨fun login h => ?_, fun reply hreply token h => ?_⟩
        · rcases hlogins login h with h | ⟨frame, hframe, rfl⟩
          · exact .inl (hgone login h)
          · have hawaiting := LoginServer.loginReply_awaiting hframe
            rcases hresult with ⟨err, herr⟩ | hrest
            · cases herr.symm.trans hawaiting
            · obtain ⟨hattempt, hsuffix⟩ :=
                findAuthenticatedOperator_awaiting (Except.ok.inj (hrest.symm.trans hawaiting))
              exact .inr (.inr ⟨old, List.mem_of_getElem? hlogin, rfl, rfl, hattempt, hsuffix⟩)
        · cases (htoken reply hreply).symm.trans h
      · rw [hresume]
        refine ⟨fun login h => .inl (hgone login ?_), fun reply hreply token h => ?_⟩
        · simp only [loginReply, continueLogin] at h
          rw [finishLogin_logins] at h
          exact h
        · refine ⟨old, ⟨i, rfl, hlogin⟩, hpassword, ⟨v, hverify⟩, ?_⟩
          simp only [loginReply, continueLogin, finishLogin] at hreply
          split at hreply
          · cases hreply
            cases h
            rfl
          · have hnone := tokenless_reply _ _ reply hreply
            cases hnone.symm.trans h
  | clock | setVariables => exact .of_kept (fun _ h => h) tokenless_none
  | restart => exact .of_kept (fun _ h => by cases h) tokenless_none

end HttpServer

/-! ## Along a run -/

section
variable {acts : List HttpAction}

/-- A suspended login was begun by a request of the run. -/
theorem logins_begun {login : SuspendedLogin env} (h : login ∈ ((httpMachine env).run acts).logins) :
    (httpMachine env).Happened (fun s a => ∃ request, a = .arrive request ∧ s.Begins request login)
      acts := by
  induction acts using List.reverseRecOn generalizing login with
  | nil => cases h
  | append_singleton acts a ih =>
    rw [Machine.run_snoc] at h
    rcases (((httpMachine env).run acts).exec_stepsLogins a).login login h with
      h | ⟨request, ha, hbegins⟩ | ⟨old, hold, hrequest, hconfig, hattempt, hsuffix⟩
    · exact (ih h).snoc a
    · exact .now ⟨request, ha, hbegins⟩
    · obtain ⟨pre, b, post, hacts, request, hb, hbegins⟩ := (ih hold).snoc a
      obtain ⟨body, htarget, hbody⟩ := hbegins.body
      refine ⟨pre, b, post, hacts, request, hb, hrequest.trans hbegins.request_eq,
        ⟨body, htarget, by rw [hattempt]; exact hbody⟩, by rw [hconfig]; exact hbegins.sessionConfig,
        fun identity hmem => ?_, ?_⟩
      · exact hbegins.configured identity (List.mem_cons_of_mem _ (hsuffix.subset hmem))
      · have hlength := hsuffix.length_le
        have hfew := hbegins.few
        rw [List.length_cons] at hlength
        omega

/-- The run hands the token out to the login, at the time, and the login was begun before. -/
structure HandedOut (env : ServerEnv) (acts : List HttpAction) (login : SuspendedLogin env)
    (token : String) (t : ℤ) : Prop where
  letIn : (httpMachine env).Happened (fun s a => s.LetsIn a login token ∧ s.now = t) acts
  begun : (httpMachine env).Happened (fun s a => ∃ request, a = .arrive request ∧ s.Begins request login)
    acts

theorem handedOut_of_mem {token : String} (h : token ∈ sessionTokens env acts) :
    ∃ login t, HandedOut env acts login token t := by
  induction acts using List.reverseRecOn with
  | nil => cases h
  | append_singleton acts a ih =>
    rw [sessionTokens, httpReplies, Machine.outputs_snoc, List.filterMap_append] at h
    rcases List.mem_append.mp h with h | h
    · obtain ⟨login, t, hletIn, hbegun⟩ := ih h
      exact ⟨login, t, hletIn.snoc a, hbegun.snoc a⟩
    · obtain ⟨reply, hreply, htoken⟩ := List.mem_filterMap.mp h
      obtain ⟨login, hletsIn⟩ := (((httpMachine env).run acts).exec_stepsLogins a).token reply
        (Option.mem_toList.mp hreply) token htoken
      obtain ⟨i, -, hlogin⟩ := hletsIn.resumes
      exact ⟨login, _, .now ⟨hletsIn, rfl⟩, (logins_begun (List.mem_of_getElem? hlogin)).snoc a⟩

theorem HandedOut.token_eq {login : SuspendedLogin env} {token : String} {t : ℤ}
    (h : HandedOut env acts login token t) : token = createSessionToken env.toSessionPlatform
      login.frame.identity.username login.sessionConfig t := by
  obtain ⟨pre, a, post, -, hletsIn, rfl⟩ := h.letIn
  exact hletsIn.token_eq

end

/-! ## Sessions -/

section
variable {p : SessionPlatform} {username : String} {config config' : SessionTokenConfig} {t now : ℤ}

/-- A token that was created is checked by its payload, whatever the secret: it is valid for nobody
but its user, and not once it has expired. -/
theorem valid_of_createSessionToken (hp : p.Sound) {username' : String}
    (h : verifySessionToken p (createSessionToken p username config t) config' now =
      .ok (.valid username')) :
    username = username' ∧ ∃ expires, config.expiresAt t = .finite expires ∧ (now : ℚ) < expires := by
  have hown : verifySessionToken p (createSessionToken p username config t) config now =
      .ok (.valid username') := by
    have hequal : ∀ s, timingSafeStringEqual p.toPlatform s s = true := fun s => decide_eq_true rfl
    have hsplit : splitAtDots (createSessionToken p username config t) =
        [payloadB64Of p username config t,
          sign p (payloadB64Of p username config t) config.signingSecret] :=
      splitAtDots_append (hp.base64url_dotless _) (hp.hmac_dotless _ _)
    unfold verifySessionToken at h ⊢
    rw [hsplit] at h ⊢
    dsimp only at h ⊢
    rw [if_pos (hequal _)]
    split at h
    · exact h
    · cases h
  cases hexpires : config.expiresAt t with
  | finite expires =>
    rw [verifySessionToken_created hp hexpires] at hown
    split at hown
    · next hlt =>
      cases hown
      exact ⟨rfl, expires, rfl, hlt⟩
    · cases hown
  | infinity | negInfinity | nan =>
    rw [verifySessionToken_not_finite hp (by rw [hexpires]; nofun)] at hown
    cases hown

/-- The check of a session looks at nothing of the configuration but the secret. -/
theorem verifySessionToken_config (hsecret : config'.signingSecret = config.signingSecret)
    (token : String) : verifySessionToken p token config' now = verifySessionToken p token config now := by
  unfold verifySessionToken
  rw [hsecret]

end

/-- What sessions come to in the states of a run: tokens are handed out to logins with both factors
checked; such a token is honoured, for its operator and until it expires, as long as the secret is the
same; and a token with which a request is let in is signed with the current secret, and unless it is
none that was ever handed out, for nobody but the operator who has logged in. -/
structure SessionsEarned (env : ServerEnv) (acts : List HttpAction) : Prop where
  handedOut : ∀ token ∈ sessionTokens env acts, ∃ login t, HandedOut env acts login token t
  honoured : ∀ login token t, HandedOut env acts login token t →
    ∀ config, getSessionConfig env ((httpMachine env).run acts).vars = some config →
    config.signingSecret = login.sessionConfig.signingSecret →
    ∀ expires, login.sessionConfig.expiresAt t = .finite expires →
    ∀ request arrival, ((httpMachine env).run acts).Routes request arrival →
    arrival.bearerToken = token →
      arrival.session = if (((httpMachine env).run acts).now : ℚ) < expires then
        .valid login.frame.identity.username else .invalid SessionInvalid.expired.text
  accepted : ∀ request arrival username, ((httpMachine env).run acts).Routes request arrival →
    arrival.session = .valid username →
    (∃ config payloadB64, getSessionConfig env ((httpMachine env).run acts).vars = some config ∧
      SignedFor env.toSessionPlatform arrival.bearerToken config.signingSecret username payloadB64
        ((httpMachine env).run acts).now) ∧
    ∀ login t, HandedOut env acts login arrival.bearerToken t →
      login.frame.identity.username = username ∧
        ∃ expires, login.sessionConfig.expiresAt t = .finite expires ∧
          (((httpMachine env).run acts).now : ℚ) < expires

/-- **A session is earned by a login**, in every state of every run. -/
theorem sessionsEarned (hp : env.toSessionPlatform.Sound) (acts : List HttpAction) :
    SessionsEarned env acts := by
  refine ⟨fun token h => handedOut_of_mem h, ?_, ?_⟩
  · rintro login token t hhanded config hconfig hsecret expires hexpires request arrival
      ⟨route, -, harrival⟩ hbearer
    obtain ⟨-, -, -, hcheck⟩ := HttpRequest.arrival_ok harrival
    rw [hconfig, sessionCheck, hbearer, verifySessionToken_config hsecret, hhanded.token_eq,
      verifySessionToken_created hp hexpires] at hcheck
    split at hcheck
    · next hlt =>
      rw [if_pos hlt]
      exact (Except.ok.inj hcheck).symm
    · next hlt =>
      rw [if_neg hlt]
      exact (Except.ok.inj hcheck).symm
  · rintro request arrival username ⟨route, -, harrival⟩ hsession
    obtain ⟨-, -, -, hcheck⟩ := HttpRequest.arrival_ok harrival
    rw [hsession] at hcheck
    cases hconfig : getSessionConfig env ((httpMachine env).run acts).vars with
    | none =>
      rw [hconfig] at hcheck
      cases Except.ok.inj hcheck
    | some config =>
      rw [hconfig, sessionCheck] at hcheck
      obtain ⟨username', payloadB64, hvalid, hsigned⟩ | ⟨reason, hinvalid⟩ :=
        verifySessionToken_cases hp arrival.bearerToken config ((httpMachine env).run acts).now
      · rw [hvalid] at hcheck
        cases Except.ok.inj hcheck
        refine ⟨⟨config, payloadB64, rfl, hsigned⟩, fun login t hhanded => ?_⟩
        rw [hhanded.token_eq] at hvalid
        exact valid_of_createSessionToken hp hvalid
      · rw [hinvalid] at hcheck
        cases Except.ok.inj hcheck

/-! ## A deployment -/

/-- The limits are those of the sources. -/
def sampleServerEnv : ServerEnv where
  toEnv := sampleEnv
  hmacSha256 := sampleSessionPlatform.hmacSha256
  toBase64url := sampleSessionPlatform.toBase64url
  fromBase64url := sampleSessionPlatform.fromBase64url
  stringifyPayload := sampleSessionPlatform.stringifyPayload
  parseJson := sampleSessionPlatform.parseJson
  toUpperCase := sampleLoginPlatform.toUpperCase
  hmacSha1 := sampleLoginPlatform.hmacSha1
  hmacSha1_length := sampleLoginPlatform.hmacSha1_length
  number _ := .nan
  generalRateLimit := { windowMs := 60000, maxRequests := 120 }
  loginRateLimit := { windowMs := 60000, maxRequests := 5 }
  accessMaxAttempts := none

/-- An operator logs in. -/
def sampleSession : List HttpAction :=
  [.setVariables { sessionSigningSecret := some "signing", admin := sampleLoginVariables.admin },
   .clock 60000,
   .arrive { target := .login ⟨some "alice", some "a", some "000000"⟩ },
   .resumeLogin 0]

theorem sessionsEarned_sample : (sessionTokens sampleServerEnv sampleSession).length = 1 ∧
    SessionsEarned sampleServerEnv sampleSession :=
  ⟨by decide +kernel, sessionsEarned sampleSessionPlatform_sound sampleSession⟩

end Ambit
