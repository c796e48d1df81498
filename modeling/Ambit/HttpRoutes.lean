import Ambit.HttpServer
import Ambit.IdempotentSubmission
import Ambit.Lib.Simulation

/-! The application and its routes: what limits, sessions and logins leave of a run is a run of the
routes, in which each request arrives when it is let through and each login when it ends. -/

namespace Ambit

open Effect

variable {env : ServerEnv}

/-! ## The requests that the routes see -/

section
variable (request : HttpRequest)

/-- A request that an error ends before its handler does anything. -/
def HttpRequest.failing : Arrival :=
  { route := .listTokens, malformed := true, connection := request.connection }

def HttpRequest.refused : Arrival :=
  { route := .listTokens, overLimit := true, connection := request.connection }

/-- A login that comes to its reply, as one request. Its handler looks at the password and the code
only when it matches them. -/
def HttpRequest.loginArrival : LoginReply → Arrival
  | .notConfigured =>
    { route := .login none none none none, settings := { loginConfigured := false },
      connection := request.connection }
  | .malformed => { route := .login none none none none, connection := request.connection }
  | .failed _ => request.failing
  | .unauthorized username =>
    { route := .login (some username) (some "") (some "") none, connection := request.connection }
  | .session matched =>
    { route := .login (some matched.username) (some "") (some "") (some matched.username),
      connection := request.connection }

end

namespace HttpServer

/-- A login is one request of the server, at the time when it ends. -/
def loginPieces (request : HttpRequest) :
    Progress (LoginFrame env.toLoginPlatform) LoginReply × VerifierCache → List ServerAction
  | (.returned reply, _) => [.arrive (request.loginArrival reply)]
  | (.awaiting _, _) => []

variable (s : HttpServer env)

def dispatchPieces (request : HttpRequest) : List ServerAction :=
  match request.target with
  | .login body =>
    if !(s.loginRateLimiter.check env.loginRateLimit (clientKey request) s.now).1.allowed then
      [.arrive request.refused]
    else
      match getSessionConfig env s.vars with
      | some _ =>
        loginPieces request (postAuthLogin env.toLoginPlatform s.vars.login body s.totpVerifierCache)
      | none => [.arrive (request.loginArrival .notConfigured)]
  | .api route =>
    match request.arrival env s.vars s.now route.val with
    | .ok arrival => [.arrive arrival]
    | .error _ => [.arrive request.failing]
  | .unmatched => []

/-- The actions of the routes that an action of the application comes to. -/
def pieces : HttpAction → List ServerAction
  | .arrive request =>
    if request.malformed then [.arrive request.failing]
    else
      if !(s.generalRateLimiter.check env.generalRateLimit (clientKey request) s.now).1.allowed then
        [.arrive request.refused]
      else s.dispatchPieces request
  | .resume i downstream => [.resume i downstream]
  | .resumeLogin i =>
    match s.logins[i]? with
    | none => []
    | some login =>
      let (result, cache) := login.frame.resume env.toLoginPlatform s.totpVerifierCache s.now
      loginPieces login.request
        (loginReply env.toLoginPlatform login.frame.attempt result, cache)
  | .clock t => [.clock t]
  | .setVariables _ => []
  | .restart => [.restart]

end HttpServer

/-- The reply is the response of the routes, with the token for the session of a login. -/
structure HttpReply.Shows (reply : HttpReply) (routed : Reply) : Prop where
  connection : reply.connection = routed.exchange.arrival.connection
  status : reply.status = routed.response.status
  body : match routed.response.body with
    | some (.session _) => ∃ token, reply.body = some (.session token)
    | body => reply.body = body.map .routed

/-- What a reply shows is the body of the routes, unless it is the token of a session. -/
theorem HttpReply.Shows.routed_body {reply : HttpReply} {routed : Reply} (h : reply.Shows routed)
    {body : Body} (hbody : reply.body = some (.routed body)) : routed.response.body = some body := by
  have hsame := h.body
  rw [hbody] at hsame
  cases hrouted : routed.response.body with
  | none =>
    rw [hrouted] at hsame
    cases hsame
  | some body' =>
    rw [hrouted] at hsame
    cases body' with
    | session username =>
      obtain ⟨token, htoken⟩ := hsame
      cases htoken
    | _ =>
      cases hsame
      rfl

/-- The reply is not the page for a request that no route matches. -/
def HttpReply.routed (reply : HttpReply) : Bool :=
  match reply.body with
  | some .notFound => false
  | _ => true

/-! ## No route but that of the logins opens a session -/

/-- A response that opens no session, or a first call that logs no login. -/
def Handled.Sessionless : Handled → Prop
  | .inl response => ∀ username, response.body ≠ some (.session username)
  | .inr (_, .recordLogin _ _ _) => False
  | .inr _ => True

theorem Handled.sessionless_error (status : ℕ) (message : String) :
    Handled.Sessionless (.inl (.error status message)) := fun _ => nofun

theorem Arrival.requireSession_sessionless (a : Arrival) {f : Exchange → String → Handled}
    (hf : ∀ x username, (f x username).Sessionless) : (a.requireSession f).Sessionless := by
  unfold Arrival.requireSession
  split
  · exact Handled.sessionless_error _ _
  · split <;> exact Handled.sessionless_error _ _
  · split
    · exact Handled.sessionless_error _ _
    · exact hf _ _

theorem handle_sessionless {a : Arrival} (w : World) (h : a.route.isLogin = false) :
    (a.handle env.toEnv w).Sessionless := by
  unfold Arrival.handle
  split
  · exact Handled.sessionless_error _ _
  split
  · exact Handled.sessionless_error _ _
  cases hroute : a.route with
  | login =>
    rw [hroute] at h
    cases h
  | submit | claimSecret =>
    dsimp only
    unfold Arrival.requireAgentCredential
    split
    · exact Handled.sessionless_error _ _
    · trivial
  | showRequest id =>
    dsimp only
    split
    · exact Handled.sessionless_error _ _
    · exact fun _ h => by cases h
  | registerAgent | deny | revoke | createPolicy | createRedactionRule =>
    refine a.requireSession_sessionless fun x username => ?_
    split <;> first | trivial | exact Handled.sessionless_error _ _
  | listAgents => exact a.requireSession_sessionless fun x username _ h => by cases h
  | approve | modifyPolicy => exact a.requireSession_sessionless fun x username => trivial
  | enforce | delegate | access | mockEndpointDown | simulateOutage =>
    dsimp only
    split <;> first | trivial | exact Handled.sessionless_error _ _
  | lineage | customerData => trivial
  | listRequests | showCircuitBreaker | listTokens | listPolicies | listRedactionRules | auditLog |
    verifyAuditLog => exact fun _ h => by cases h

/-- What a body tells of the call that it answers. -/
def Body.Tells (call : Call) (outcome : Outcome) : Body → Prop
  | .session username => outcome = .done ∧ ∃ now, call = .recordLogin username true now
  | .enforcement decision => outcome = .enforcement decision
  | .delegated _ _ => ∃ token secret, outcome = .delegation (.approved token secret)
  | .access result => outcome = .access result
  | .customer result => outcome = .customer result
  | .agents _ | .requests _ | .tokens _ | .policies _ | .redactionRules _ => False
  | .circuitBreaker _ | .auditLog _ | .verification _ => False
  | _ => True

theorem respond_tells {w : World} {call : Call} {outcome : Outcome} :
    ∀ body ∈ (respond w call outcome).body, body.Tells call outcome := by
  have hsent : ∀ {status : ℕ} {body : Body}, body.Tells call outcome →
      ∀ body' ∈ (Response.json status body).body, body'.Tells call outcome := by
    rintro _ _ h _ ⟨⟩
    exact h
  cases outcome with
  | failed err => cases call <;> cases err <;> exact hsent trivial
  | done =>
    cases call with
    | recordLogin username matched now =>
      cases matched with
      | false => exact hsent trivial
      | true => exact hsent ⟨rfl, now, rfl⟩
    | setDown | recordOutageToggle => exact hsent trivial
    | _ => exact fun _ h => by cases h
  | enforcement | access | customer => cases call <;> exact hsent rfl
  | delegation decision =>
    cases decision with
    | approved token secret => cases call <;> exact hsent ⟨token, secret, rfl⟩
    | denied => cases call <;> exact hsent trivial
  | lineage l => cases l <;> cases call <;> exact hsent trivial
  | identity i => cases i <;> cases call <;> exact hsent trivial
  | _ => cases call <;> exact hsent trivial

/-- Of what a call hands back only the end of a login's log entry opens a session. -/
theorem respond_sessionless {w : World} {call : Call} {outcome : Outcome}
    (h : outcome ≠ .done ∨ ∀ username matched now, call ≠ .recordLogin username matched now)
    (username : String) : (respond w call outcome).body ≠ some (.session username) := by
  intro hbody
  obtain ⟨hdone, now, hcall⟩ := respond_tells _ hbody
  rcases h with h | h
  · exact h hdone
  · exact h username true now hcall

theorem Exchange.next_ne_recordLogin {w : World} {x x' : Exchange} {call call' : Call}
    {outcome : Outcome} (h : x.next w call outcome = some (x', call')) (username : String)
    (matched : Bool) (now : Int) : call' ≠ .recordLogin username matched now := by
  unfold Exchange.next at h
  split at h
  · dsimp only at h
    split at h <;> cases h <;> nofun
  · split at h <;> cases h <;> nofun
  · cases h
    nofun
  · cases h

/-- A call that goes on ends with a value, or an error. -/
theorem resumeFrame_ne_done {e : Env} {downstream : Downstream} {frame : Frame} {w : World} :
    wp (resumeFrame e downstream frame) (fun r _ => r ≠ .ok (.returned .done)) w := by
  have hsync : ∀ {α : Type} {op : Op α} {outcome : α → Outcome}, (∀ a, outcome a ≠ .done) →
      wp (synchronously op outcome) (fun r _ => r ≠ .ok (.returned .done)) w := by
    intro α op outcome houtcome
    refine wp_bind (wp_any fun r w' => ?_)
    cases r with
    | error => nofun
    | ok a => exact wp_pure fun h => houtcome a (by injection h with h; injection h)
  have hmap : ∀ {φ α : Type} {op : Op (Progress φ α)} {onFrame : φ → Frame}
      {outcome : α → Outcome}, (∀ a, outcome a ≠ .done) →
      wp (do return (← op).map onFrame outcome) (fun r _ => r ≠ .ok (.returned .done)) w := by
    intro φ α op onFrame outcome houtcome
    refine wp_bind (wp_any fun r w' => ?_)
    cases r with
    | error => nofun
    | ok progress =>
      cases progress with
      | awaiting => exact wp_pure nofun
      | returned a => exact wp_pure fun h => houtcome a (by injection h with h; injection h)
  cases frame with
  | approve | enforce | customer => exact hsync fun _ => nofun
  | register => exact hsync fun _ => nofun
  | delegate | access => exact hmap fun _ => nofun
  | authenticate => exact wp_pure nofun

/-- What a handler sends that follows such a call opens no session. -/
theorem follow_sessionless {e : Env} {ran : Config Exchange × Option (Settled Exchange)} {reply : Reply}
    (hran : ∀ s ∈ ran.2,
      s.outcome ≠ .done ∨ ∀ username matched now, s.call ≠ .recordLogin username matched now)
    (h : (follow e ran).2 = some reply) (username : String) :
    reply.response.body ≠ some (.session username) := by
  obtain ⟨c, output⟩ := ran
  cases output with
  | none => cases h
  | some s =>
    simp only [follow] at h
    cases hnext : s.client.next c.world s.call s.outcome with
    | none =>
      rw [hnext] at h
      cases h
      exact respond_sessionless (hran s rfl) username
    | some next =>
      rw [hnext] at h
      obtain ⟨s', hs', rfl⟩ := Option.map_eq_some_iff.mp h
      have hcall : s'.call = next.2 := (Config.settle_settled.1 s' hs').2
      refine respond_sessionless (.inr ?_) username
      rw [hcall]
      exact Exchange.next_ne_recordLogin hnext

/-- A handler responds to the request that it handles. -/
theorem follow_arrival {e : Env} {ran : Config Exchange × Option (Settled Exchange)} {reply : Reply}
    (h : (follow e ran).2 = some reply) :
    ∃ s ∈ ran.2, reply.exchange.arrival = s.client.arrival := by
  obtain ⟨c, output⟩ := ran
  cases output with
  | none => cases h
  | some s =>
    refine ⟨s, rfl, ?_⟩
    simp only [follow] at h
    cases hnext : s.client.next c.world s.call s.outcome with
    | none =>
      rw [hnext] at h
      cases h
      rfl
    | some next =>
      rw [hnext] at h
      obtain ⟨s', hs', rfl⟩ := Option.map_eq_some_iff.mp h
      rw [(Config.settle_settled.1 s' hs').1]
      exact Exchange.next_arrival hnext

section
variable {c : Config Exchange} {reply : Reply}

theorem serve_arrive {a : Arrival} (hroute : a.route.isLogin = false)
    (h : (serve env.toEnv c (.arrive a)).2 = some reply) : reply.exchange.arrival = a ∧
      ∀ username, reply.response.body ≠ some (.session username) := by
  have hsessionless := @handle_sessionless env a c.world hroute
  simp only [serve] at h
  cases hhandle : a.handle env.toEnv c.world with
  | inl response =>
    rw [hhandle] at h hsessionless
    cases h
    exact ⟨rfl, hsessionless⟩
  | inr next =>
    obtain ⟨x, call⟩ := next
    rw [hhandle] at h hsessionless
    have hcall : ∀ username matched now, call ≠ .recordLogin username matched now := by
      rintro username matched now rfl
      exact hsessionless
    obtain ⟨s, hs, harrival⟩ := follow_arrival h
    refine ⟨?_, follow_sessionless (fun s' hs' => .inr ?_) h⟩
    · rw [harrival, (Config.settle_settled.1 s hs).1]
      exact handle_arrival hhandle
    · rw [(Config.settle_settled.1 s' hs').2]
      exact hcall

theorem serve_resume {e : Env} {i : ℕ} {downstream : Downstream}
    (h : (serve e c (.resume i downstream)).2 = some reply) (username : String) :
    reply.response.body ≠ some (.session username) := by
  refine follow_sessionless (fun s hs => .inl ?_) h username
  simp only [Config.exec] at hs
  cases hi : c.inflight[i]? with
  | none =>
    rw [hi] at hs
    cases hs
  | some x =>
    rw [hi] at hs
    have hdone := wp_iff.mp (@resumeFrame_ne_done e downstream x.frame c.world)
    unfold result at hdone
    dsimp only at hs
    rcases hrun : resumeFrame e downstream x.frame c.world with ⟨outcome | frame, w⟩ | ⟨err, w⟩
    · rw [hrun] at hs hdone
      cases hs
      intro houtcome
      rw [show outcome = .done from houtcome] at hdone
      exact hdone rfl
    · rw [hrun] at hs
      cases hs
    · rw [hrun] at hs
      cases hs
      exact fun h => by cases h

/-- The route of the logins, once it knows what comes of the login. -/
theorem serve_login {e : Env} {a : Arrival} {username : String} {matched : Bool}
    (hhandle : a.handle e c.world = .inr ({ arrival := a }, .recordLogin username matched c.world.clock)) :
    serve e c (.arrive a) =
      match recordLogin e username matched c.world.clock c.world with
      | .ok _ world => ({ c with world }, some ⟨{ arrival := a },
          if matched then .json 200 (.session username)
          else .error 401 "invalid username, password, or authentication code"⟩)
      | .error err world => ({ c with world }, some ⟨{ arrival := a }, .ofError err⟩) := by
  simp only [serve, hhandle, Config.exec, startCall]
  cases hrun : recordLogin e username matched c.world.clock c.world with
  | ok value world =>
    rw [synchronously, bind_of_ok hrun]
    rfl
  | error err world =>
    rw [synchronously, bind_of_error hrun]
    cases err <;> rfl

end

/-! ## The application follows its routes -/

/-- What the middleware makes of a request for a route. -/
theorem HttpRequest.arrival_ok {request : HttpRequest} {vars : EnvironmentVariables} {now : ℤ}
    {route : Route} {a : Arrival} (h : request.arrival env vars now route = .ok a) :
    a.route = route ∧ a.connection = request.connection ∧ a.settings = vars.settings env ∧
      sessionCheck env.toSessionPlatform (getSessionConfig env vars) a.bearerToken now =
        .ok a.session := by
  unfold HttpRequest.arrival at h
  dsimp only at h
  cases hsession : sessionCheck env.toSessionPlatform (getSessionConfig env vars)
      (Arrival.bearerToken { route, authorization := request.authorization }) now with
  | ok session =>
    have hsession' := hsession
    unfold Arrival.bearerToken at h hsession'
    rw [hsession'] at h
    cases h
    exact ⟨rfl, rfl, rfl, hsession⟩
  | error err =>
    unfold Arrival.bearerToken at h hsession
    rw [hsession] at h
    cases h

namespace HttpServer

variable {s : HttpServer env} {request : HttpRequest}

/-- What a piece of the application does is what the routes do. -/
structure Follows (s : HttpServer env) (ran : HttpServer env × Option HttpReply)
    (pieces : List ServerAction) : Prop where
  process : ran.1.process = pieces.foldl (serverMachine env.toEnv).step s.process
  replies : List.Forall₂ HttpReply.Shows (ran.2.filter HttpReply.routed).toList
    ((serverMachine env.toEnv).outputsFrom (fun c a => (serve env.toEnv c a).2) s.process pieces)

theorem follows_nothing {ran : HttpServer env × Option HttpReply} (hprocess : ran.1.process = s.process)
    (hreply : ran.2.filter HttpReply.routed = none) : Follows s ran [] :=
  ⟨hprocess, by rw [hreply]; exact .nil⟩

/-- A piece that the routes do in one action. -/
theorem follows_one {ran : HttpServer env × Option HttpReply} {a : ServerAction}
    (hprocess : ran.1.process = (serve env.toEnv s.process a).1)
    (hreplies : List.Forall₂ HttpReply.Shows (ran.2.filter HttpReply.routed).toList
      (serve env.toEnv s.process a).2.toList) : Follows s ran [a] := by
  refine ⟨hprocess, ?_⟩
  rw [Machine.outputsFrom, Machine.outputsFrom, List.append_nil]
  exact hreplies

theorem shows_on {routed : Reply} {connection : Option Connection}
    (hconnection : connection = routed.exchange.arrival.connection)
    (hbody : ∀ username, routed.response.body ≠ some (.session username)) :
    (routed.response.on connection).Shows routed := by
  refine ⟨hconnection, rfl, ?_⟩
  split
  · next username h => exact absurd h (hbody username)
  · rfl

/-- A response that the routes send, and that opens no session, is sent as it is. -/
theorem follows_routed {process : Config Exchange} {answer : Option Reply} {a : ServerAction}
    {connection : Reply → Option Connection} {s' : HttpServer env}
    (hserve : serve env.toEnv s.process a = (process, answer)) (hprocess : s'.process = process)
    (hconnection : ∀ reply ∈ answer, connection reply = reply.exchange.arrival.connection)
    (hbody : ∀ reply ∈ answer, ∀ username, reply.response.body ≠ some (.session username)) :
    Follows s (s', answer.map fun reply => reply.response.on (connection reply)) [a] := by
  refine follows_one ?_ ?_
  · rw [hserve]
    exact hprocess
  · rw [hserve]
    cases answer with
    | none => exact .nil
    | some reply =>
      have hrouted : (reply.response.on (connection reply)).routed = true := by
        unfold HttpReply.routed Response.on
        cases reply.response.body <;> rfl
      rw [Option.map_some, Option.filter_some, if_pos hrouted]
      exact .cons (shows_on (hconnection reply rfl) (hbody reply rfl)) .nil

theorem follows_error {a : Arrival} {status : ℕ} {message : String} {reply : HttpReply}
    (hhandle : a.handle env.toEnv s.process.world = .inl (.error status message))
    (hconnection : a.connection = request.connection) {s' : HttpServer env}
    (hprocess : s'.process = s.process) (hreply : reply.connection = request.connection ∧
      reply.status = status ∧ reply.body = some (.routed (.error message))) :
    Follows s (s', some reply) [.arrive a] := by
  obtain ⟨hon, hstatus, hbody⟩ := hreply
  refine follows_one ?_ ?_
  · simp only [serve, hhandle]
    exact hprocess
  · have hrouted : reply.routed = true := by rw [HttpReply.routed, hbody]
    simp only [serve, hhandle, Option.filter_some, hrouted, if_true]
    exact .cons ⟨hon.trans hconnection.symm, hstatus, hbody⟩ .nil

/-- The piece is one of a state with the same process. -/
theorem Follows.of_process {s' : HttpServer env} {ran : HttpServer env × Option HttpReply}
    {pieces : List ServerAction} (h : Follows s' ran pieces) (hprocess : s'.process = s.process) :
    Follows s ran pieces := by
  obtain ⟨hran, hreplies⟩ := h
  rw [hprocess] at hran hreplies
  exact ⟨hran, hreplies⟩

theorem finishLogin_follows (sessionConfig : SessionTokenConfig) (reply : LoginReply) :
    Follows s (s.finishLogin request sessionConfig reply) [.arrive (request.loginArrival reply)] := by
  cases reply with
  | notConfigured | malformed | failed => exact follows_error rfl rfl rfl ⟨rfl, rfl, rfl⟩
  | unauthorized username =>
    have hserve := serve_login (c := s.process) (e := env.toEnv)
      (a := request.loginArrival (.unauthorized username)) rfl
    simp only [finishLogin]
    cases hrun : recordLogin env.toEnv username false s.now s.process.world with
    | ok value world =>
      rw [show s.process.world.clock = s.now from rfl, hrun] at hserve
      exact follows_one (by rw [hserve]) (by rw [hserve]; exact .cons ⟨rfl, rfl, rfl⟩ .nil)
    | error err world =>
      rw [show s.process.world.clock = s.now from rfl, hrun] at hserve
      exact follows_one (by rw [hserve])
        (by rw [hserve]; cases err <;> exact .cons ⟨rfl, rfl, rfl⟩ .nil)
  | session matched =>
    have hserve := serve_login (c := s.process) (e := env.toEnv)
      (a := request.loginArrival (.session matched)) rfl
    simp only [finishLogin]
    cases hrun : recordLogin env.toEnv matched.username true s.now s.process.world with
    | ok value world =>
      rw [show s.process.world.clock = s.now from rfl, hrun] at hserve
      exact follows_one (by rw [hserve]) (by rw [hserve]; exact .cons ⟨rfl, rfl, _, rfl⟩ .nil)
    | error err world =>
      rw [show s.process.world.clock = s.now from rfl, hrun] at hserve
      exact follows_one (by rw [hserve])
        (by rw [hserve]; cases err <;> exact .cons ⟨rfl, rfl, rfl⟩ .nil)

theorem continueLogin_follows (sessionConfig : SessionTokenConfig)
    (r : Progress (LoginFrame env.toLoginPlatform) LoginReply × VerifierCache) :
    Follows s (s.continueLogin request sessionConfig r) (loginPieces request r) := by
  obtain ⟨reply | frame, cache⟩ := r
  · exact (finishLogin_follows sessionConfig reply).of_process rfl
  · exact follows_nothing rfl rfl

theorem dispatch_follows : Follows s (s.dispatch request) (s.dispatchPieces request) := by
  unfold dispatch dispatchPieces
  cases request.target with
  | login body =>
    dsimp only
    split
    · exact follows_error rfl rfl rfl ⟨rfl, rfl, rfl⟩
    · unfold login
      cases hconfig : getSessionConfig env s.vars with
      | some sessionConfig =>
        dsimp only
        exact (continueLogin_follows sessionConfig _).of_process rfl
      | none =>
        dsimp only
        exact follows_error rfl rfl rfl ⟨rfl, rfl, rfl⟩
  | api route =>
    dsimp only
    cases harrival : request.arrival env s.vars s.now route.val with
    | ok arrival =>
      obtain ⟨hroute, hconnection, -⟩ := HttpRequest.arrival_ok harrival
      have hreply : ∀ reply ∈ (serve env.toEnv s.process (.arrive arrival)).2,
          reply.exchange.arrival = arrival ∧ ∀ username, reply.response.body ≠ some (.session username) :=
        fun reply => serve_arrive (hroute ▸ route.property)
      have hsent : ∀ reply ∈ (serve env.toEnv s.process (.arrive arrival)).2,
          request.connection = reply.exchange.arrival.connection := by
        intro reply h
        rw [(hreply reply h).1, hconnection]
      exact follows_routed rfl rfl hsent fun reply h => (hreply reply h).2
    | error => exact follows_error rfl rfl rfl ⟨rfl, rfl, rfl⟩
  | unmatched => exact follows_nothing rfl rfl

theorem exec_follows (a : HttpAction) : Follows s (s.exec a) (s.pieces a) := by
  cases a with
  | arrive request =>
    simp only [exec, arrive, pieces]
    split
    · exact follows_error rfl rfl rfl ⟨rfl, rfl, rfl⟩
    · split
      · exact follows_error rfl rfl rfl ⟨rfl, rfl, rfl⟩
      · exact dispatch_follows.of_process rfl
  | resume i downstream =>
    exact follows_routed rfl rfl (fun _ _ => rfl) fun reply h => serve_resume h
  | resumeLogin i =>
    simp only [exec, pieces]
    cases s.logins[i]? with
    | none => exact follows_nothing rfl rfl
    | some login => exact (continueLogin_follows login.sessionConfig _).of_process rfl
  | clock t | restart => exact follows_one rfl .nil
  | setVariables => exact follows_nothing rfl rfl

/-- An action of the application is at most one of the routes. -/
theorem pieces_cases (a : HttpAction) : s.pieces a = [] ∨ ∃ b, s.pieces a = [b] := by
  have hlogin : ∀ (request : HttpRequest)
      (reply : Progress (LoginFrame env.toLoginPlatform) LoginReply × VerifierCache),
      loginPieces request reply = [] ∨ ∃ b, loginPieces request reply = [b] := by
    rintro request ⟨reply | frame, cache⟩
    · exact .inr ⟨_, rfl⟩
    · exact .inl rfl
  cases a with
  | arrive request =>
    rw [pieces]
    split
    · exact .inr ⟨_, rfl⟩
    split
    · exact .inr ⟨_, rfl⟩
    unfold dispatchPieces
    split
    · split
      · exact .inr ⟨_, rfl⟩
      · split
        · exact hlogin _ _
        · exact .inr ⟨_, rfl⟩
    · split
      · exact .inr ⟨_, rfl⟩
      · exact .inr ⟨_, rfl⟩
    · exact .inl rfl
  | resumeLogin i =>
    simp only [pieces]
    cases s.logins[i]? with
    | none => exact .inl rfl
    | some login => exact hlogin _ _
  | resume | clock | restart => exact .inr ⟨_, rfl⟩
  | setVariables => exact .inl rfl

/-- A response of the routes shows one that they send for the process as it is. -/
theorem exec_shows {a : HttpAction} {reply : HttpReply} (h : (s.exec a).2 = some reply)
    (hrouted : reply.routed = true) :
    ∃ b routed, (serve env.toEnv s.process b).2 = some routed ∧ reply.Shows routed := by
  have hreplies := (exec_follows (s := s) a).replies
  rw [h, Option.filter_some, if_pos hrouted, Option.toList_some] at hreplies
  rcases pieces_cases (s := s) a with hpieces | ⟨b, hpieces⟩
  · rw [hpieces] at hreplies
    cases hreplies
  · rw [hpieces, Machine.outputsFrom, Machine.outputsFrom, List.append_nil] at hreplies
    cases hserve : (serve env.toEnv s.process b).2 with
    | none =>
      rw [hserve] at hreplies
      cases hreplies
    | some routed =>
      rw [hserve] at hreplies
      cases hreplies with
      | cons hshows _ => exact ⟨b, routed, hserve, hshows⟩

end HttpServer

/-- The application as it looks to its routes. -/
def routesSimulation (env : ServerEnv) : Simulation (httpMachine env) (serverMachine env.toEnv) where
  view s := s.process
  pieces s a := s.pieces a
  view_init := rfl
  view_step _ a := (HttpServer.exec_follows a).process

theorem http_process (env : ServerEnv) (acts : List HttpAction) :
    ((httpMachine env).run acts).process =
      (serverMachine env.toEnv).run ((routesSimulation env).trace acts) :=
  (routesSimulation env).view_run acts

/-- The responses of a run without the pages for requests that no route matches. -/
def routedReplies (env : ServerEnv) (acts : List HttpAction) : List HttpReply :=
  (httpMachine env).outputs (fun s a => (s.exec a).2.filter HttpReply.routed) acts

/-- Each of these responses is one of the routes. -/
theorem routedReplies_shown (acts : List HttpAction) :
    List.Forall₂ HttpReply.Shows (routedReplies env acts)
      (replies env.toEnv ((routesSimulation env).trace acts)) :=
  (routesSimulation env).outputs (fun _ a => (HttpServer.exec_follows a).replies) acts

/-- **The application is its routes behind the limits, the sessions and the logins**: what they leave
of a run is a run of the routes, which leaves the same stores, log and suspended calls and sends the
same responses, but for the tokens that open the sessions. -/
theorem http_refines (acts : List HttpAction) :
    ((httpMachine env).run acts).process =
      (serverMachine env.toEnv).run ((routesSimulation env).trace acts) ∧
    List.Forall₂ HttpReply.Shows (routedReplies env acts)
      (replies env.toEnv ((routesSimulation env).trace acts)) :=
  ⟨http_process env acts, routedReplies_shown acts⟩

end Ambit
