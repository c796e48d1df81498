import Ambit.RateLimiter
import Ambit.SessionToken
import Mathlib.Data.Rat.Floor

/-! `server.ts`: the application in front of its routes. A request passes the two rate limiters, the
session, the admin key and the settings are read afresh from the environment, and a login is suspended
at each check of a password. -/

namespace Ambit

/-! ## The environment -/

/-- A deployment with the settings that are read once, when the server starts. -/
structure ServerEnv extends Env, SessionPlatform, LoginPlatform where
  /-- `Number(text)` -/
  number : String → JsNumber
  generalRateLimit : RateLimiterOptions
  loginRateLimit : RateLimiterOptions
  accessMaxAttempts : Option Int

/-- The variables of `process.env` that are read for each request. -/
structure EnvironmentVariables where
  sessionSigningSecret : Option String := none
  sessionTtlMs : Option String := none
  admin : OperatorVariables := ⟨none, none, none⟩
  backupApprover : OperatorVariables := ⟨none, none, none⟩
  adminToggleKey : Option String := none
  requestDecisionWindowMs : Option String := none

def EnvironmentVariables.login (vars : EnvironmentVariables) : LoginVariables :=
  { signingSecret := vars.sessionSigningSecret, admin := vars.admin,
    backupApprover := vars.backupApprover }

section
variable (env : ServerEnv)

def envNumber (raw : Option String) : Option JsNumber :=
  raw.bind fun raw =>
    match env.number raw with
    | .finite q => some (.finite q)
    | _ => none

def getSessionConfig (vars : EnvironmentVariables) : Option SessionTokenConfig :=
  (truthy vars.sessionSigningSecret).map fun signingSecret =>
    { signingSecret, ttlMs := envNumber env vars.sessionTtlMs }

/-! ## Requests -/

def Route.isLogin : Route → Bool
  | .login _ _ _ _ => true
  | _ => false

/-- The handler that a request is for. -/
inductive Target where
  | login (body : LoginBody)
  | api (route : { route : Route // route.isLogin = false })
  /-- No route matches. -/
  | unmatched

structure HttpRequest where
  target : Target
  /-- `req.socket.remoteAddress` -/
  remoteAddress : Option String := none
  authorization : Option String := none
  /-- The header `x-ambit-admin-key`. -/
  adminKey : Option String := none
  /-- `express.json` cannot read the body. -/
  malformed : Bool := false
  connection : Option Connection := none

def clientKey (request : HttpRequest) : String := request.remoteAddress.getD "unknown"

/-- `requireAdminToggleKey` -/
def toggleKeyCheck (vars : EnvironmentVariables) (request : HttpRequest) : ToggleKeyCheck :=
  match truthy vars.adminToggleKey with
  | none => .unconfigured
  | some configuredKey =>
    if timingSafeStringEqual env.toPlatform (request.adminKey.getD "") configuredKey then .matched
    else .mismatch

/-- The settings that the handlers of the routes read. -/
def EnvironmentVariables.settings (vars : EnvironmentVariables) : Settings where
  adminUsername := vars.admin.username
  backupApproverUsername := vars.backupApprover.username
  requestDecisionWindowMs := envNumber env vars.requestDecisionWindowMs
  accessMaxAttempts := env.accessMaxAttempts

/-- A request as the routes see it. -/
def HttpRequest.arrival (request : HttpRequest) (vars : EnvironmentVariables) (now : Int)
    (route : Route) : Except JsError Arrival := do
  let arrival : Arrival :=
    { route, authorization := request.authorization, toggleKey := toggleKeyCheck env vars request,
      settings := vars.settings env, connection := request.connection }
  let session ←
    sessionCheck env.toSessionPlatform (getSessionConfig env vars) arrival.bearerToken now
  return { arrival with session }

/-! ## Responses -/

inductive HttpBody where
  | routed (body : Body)
  /-- What a login hands out. -/
  | session (token : String)
  /-- The page of Express for a request that no route matches. -/
  | notFound

/-- What is sent, and on which connection. -/
structure HttpReply where
  connection : Option Connection
  status : Nat
  /-- The header `Retry-After`, in seconds. -/
  retryAfter : Option Int := none
  body : Option HttpBody

def Response.on (response : Response) (connection : Option Connection) : HttpReply :=
  { connection, status := response.status, body := response.body.map .routed }

def HttpRequest.reply (request : HttpRequest) (response : Response) : HttpReply :=
  response.on request.connection

def sendRateLimited (request : HttpRequest) (retryAfterMs : Int) : HttpReply :=
  { request.reply (.error 429 "rate limit exceeded — try again shortly") with
    retryAfter := some ⌈(retryAfterMs / 1000 : ℚ)⌉ }

/-! ## The server -/

/-- A login at the check of a password. -/
structure SuspendedLogin where
  request : HttpRequest
  sessionConfig : SessionTokenConfig
  frame : LoginFrame env.toLoginPlatform

structure HttpServer where
  process : Config Exchange
  vars : EnvironmentVariables
  generalRateLimiter : RateLimiter
  loginRateLimiter : RateLimiter
  totpVerifierCache : VerifierCache
  logins : List (SuspendedLogin env)

inductive HttpAction where
  | arrive (request : HttpRequest)
  /-- A handler of one of the routes goes on. -/
  | resume (i : Nat) (downstream : Downstream)
  /-- The check of a password has ended. -/
  | resumeLogin (i : Nat)
  | clock (t : Int)
  | setVariables (vars : EnvironmentVariables)
  | restart

namespace HttpServer

variable {env} (s : HttpServer env)

def now : Int := s.process.world.clock

/-- The login route once it knows what comes of the login. -/
def finishLogin (request : HttpRequest) (sessionConfig : SessionTokenConfig) :
    LoginReply → HttpServer env × Option HttpReply
  | .notConfigured => (s, some (request.reply (.error 503 loginUnconfiguredMessage)))
  | .malformed =>
    (s, some (request.reply (.error 400
      "username (string), password (string), and totpCode (string) are required")))
  | .failed _ => (s, some (request.reply (.error 500 "internal error")))
  | .unauthorized username =>
    match recordLogin env.toEnv username false s.now s.process.world with
    | .ok _ world =>
      ({ s with process := { s.process with world } }, some (request.reply
        (.error 401 "invalid username, password, or authentication code")))
    | .error err world =>
      ({ s with process := { s.process with world } }, some (request.reply (.ofError err)))
  | .session matched =>
    match recordLogin env.toEnv matched.username true s.now s.process.world with
    | .ok _ world =>
      let token := createSessionToken env.toSessionPlatform matched.username sessionConfig s.now
      ({ s with process := { s.process with world } },
        some { connection := request.connection, status := 200, body := some (.session token) })
    | .error err world =>
      ({ s with process := { s.process with world } }, some (request.reply (.ofError err)))

/-- The login route after a piece of `findAuthenticatedOperator`. -/
def continueLogin (request : HttpRequest) (sessionConfig : SessionTokenConfig) :
    Progress (LoginFrame env.toLoginPlatform) LoginReply × VerifierCache →
      HttpServer env × Option HttpReply
  | (.returned reply, cache) =>
    finishLogin { s with totpVerifierCache := cache } request sessionConfig reply
  | (.awaiting frame, cache) =>
    ({ s with totpVerifierCache := cache, logins := s.logins ++ [⟨request, sessionConfig, frame⟩] },
      none)

/-- `POST /auth/login`, up to its first await. -/
def login (request : HttpRequest) (body : LoginBody) : HttpServer env × Option HttpReply :=
  let post := postAuthLogin env.toLoginPlatform s.vars.login body s.totpVerifierCache
  match getSessionConfig env s.vars with
  | some sessionConfig => s.continueLogin request sessionConfig post
  -- the verifiers are made before the check
  | none =>
    ({ s with totpVerifierCache := post.2 },
      some (request.reply (.error 503 loginUnconfiguredMessage)))

/-- A request that has passed the general rate limiter. -/
def dispatch (request : HttpRequest) : HttpServer env × Option HttpReply :=
  match request.target with
  | .login body =>
    let (result, loginRateLimiter) :=
      s.loginRateLimiter.check env.loginRateLimit (clientKey request) s.now
    let s := { s with loginRateLimiter }
    if !result.allowed then (s, some (sendRateLimited request result.retryAfterMs))
    else s.login request body
  | .api route =>
    match request.arrival env s.vars s.now route.val with
    | .ok arrival =>
      let (process, reply) := serve env.toEnv s.process (.arrive arrival)
      ({ s with process }, reply.map fun reply => request.reply reply.response)
    | .error _ => (s, some (request.reply (.error 500 "internal error")))
  | .unmatched => (s, some { connection := request.connection, status := 404, body := some .notFound })

def arrive (request : HttpRequest) : HttpServer env × Option HttpReply :=
  if request.malformed then (s, some (request.reply (.error 500 "internal error")))
  else
    let (result, generalRateLimiter) :=
      s.generalRateLimiter.check env.generalRateLimit (clientKey request) s.now
    let s := { s with generalRateLimiter }
    if !result.allowed then (s, some (sendRateLimited request result.retryAfterMs))
    else s.dispatch request

def exec : HttpAction → HttpServer env × Option HttpReply
  | .arrive request => s.arrive request
  | .resume i downstream =>
    let (process, reply) := serve env.toEnv s.process (.resume i downstream)
    ({ s with process }, reply.map fun reply =>
      reply.response.on reply.exchange.arrival.connection)
  | .resumeLogin i =>
    match s.logins[i]? with
    | none => (s, none)
    | some login =>
      let (result, cache) := login.frame.resume env.toLoginPlatform s.totpVerifierCache s.now
      { s with logins := s.logins.eraseIdx i }.continueLogin login.request login.sessionConfig
        (loginReply env.toLoginPlatform login.frame.attempt result, cache)
  | .clock t => ({ s with process := (serve env.toEnv s.process (.clock t)).1 }, none)
  | .setVariables vars => ({ s with vars }, none)
  | .restart =>
    ({ process := (serve env.toEnv s.process .restart).1, vars := s.vars,
       generalRateLimiter := ⟨.empty⟩, loginRateLimiter := ⟨.empty⟩, totpVerifierCache := .empty,
       logins := [] }, none)

end HttpServer

/-- The runs of the application from its start on an empty data directory, without any variables. No
file operation fails in them. -/
def httpMachine : Machine (HttpServer env) HttpAction where
  init :=
    { process := .initial env.toEnv, vars := {}, generalRateLimiter := ⟨.empty⟩,
      loginRateLimiter := ⟨.empty⟩, totpVerifierCache := .empty, logins := [] }
  step s a := (s.exec a).1

/-- The responses of a run, in the order they are sent. -/
def httpReplies (acts : List HttpAction) : List HttpReply :=
  (httpMachine env).outputs (fun s a => (s.exec a).2) acts

end

end Ambit
