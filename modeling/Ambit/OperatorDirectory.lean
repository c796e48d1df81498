import Ambit.Totp
import Ambit.PasswordHash
import Ambit.Token
import Ambit.Lib.Machine
import Ambit.Lib.OrderedMap

/-! `operatorDirectory.ts`, and the login route of `server.ts` with the verifiers that it keeps. A
login is suspended at each check of a password. -/

namespace Ambit

/-- `timingSafeStringEqual`: the digests of the two strings are compared. -/
def timingSafeStringEqual (p : Platform) (a b : String) : Bool := p.sha256 a = p.sha256 b

/-- An operator. The verifier is the one that the cache holds under the secret. -/
structure OperatorIdentity where
  username : String
  passwordHash : String
  totpSecret : String
  deriving DecidableEq

structure LoginAttempt where
  username : String
  password : String
  totpCode : String
  deriving DecidableEq

/-! ## Verifiers -/

/-- `totpVerifierCache`. -/
abbrev VerifierCache := OrderedMap String TotpVerifier

namespace VerifierCache

/-- The verifier that `getTotpVerifier` returns. -/
def verifier (cache : VerifierCache) (secret : String) : TotpVerifier :=
  (cache.get secret).getD { secret }

/-- What `getTotpVerifier` leaves in the cache. -/
def getTotpVerifier (cache : VerifierCache) (secret : String) : VerifierCache :=
  match cache.get secret with
  | none => cache.set secret { secret }
  | some _ => cache

end VerifierCache

/-! ## The directory -/

variable (p : LoginPlatform)

/-- A login at the check of its password against one of the identities. -/
structure LoginFrame where
  attempt : LoginAttempt
  identity : OperatorIdentity
  /-- The identities that are still to be tried. -/
  rest : List OperatorIdentity
  usernameEqual : timingSafeStringEqual p.toPlatform identity.username attempt.username = true

/-- The loop of `findAuthenticatedOperator` up to its next await. -/
def findAuthenticatedOperator (attempt : LoginAttempt) :
    List OperatorIdentity → Progress (LoginFrame p) (Option OperatorIdentity)
  | [] => .returned none
  | identity :: rest =>
    if h : timingSafeStringEqual p.toPlatform identity.username attempt.username = true then
      .awaiting ⟨attempt, identity, rest, h⟩
    else findAuthenticatedOperator attempt rest

/-- The loop from the check of a password on. -/
def LoginFrame.resume (frame : LoginFrame p) (cache : VerifierCache) (now : Int) :
    Except TotpError (Progress (LoginFrame p) (Option OperatorIdentity)) × VerifierCache :=
  if verifyPassword p.toPlatform frame.attempt.password frame.identity.passwordHash then
    let secret := frame.identity.totpSecret
    match (cache.verifier secret).verify p frame.attempt.totpCode now with
    | .error err => (.error err, cache)
    | .ok (true, verifier) => (.ok (.returned (some frame.identity)), cache.set secret verifier)
    | .ok (false, verifier) =>
      (.ok (findAuthenticatedOperator p frame.attempt frame.rest), cache.set secret verifier)
  else (.ok (findAuthenticatedOperator p frame.attempt frame.rest), cache)

/-! ## The login route -/

/-- The three environment variables of one operator. -/
structure OperatorVariables where
  username : Option String
  passwordHash : Option String
  totpSecret : Option String

/-- The environment variables that a login reads. -/
structure LoginVariables where
  signingSecret : Option String
  admin : OperatorVariables
  backupApprover : OperatorVariables

/-- The fields of the body that are strings. -/
structure LoginBody where
  username : Option String
  password : Option String
  totpCode : Option String

inductive ResolvedIdentity where
  | unset
  | misconfigured
  | identity (identity : OperatorIdentity)

def resolveOperatorIdentity (cache : VerifierCache) (vars : OperatorVariables) :
    ResolvedIdentity × VerifierCache :=
  match vars.username, vars.passwordHash, vars.totpSecret with
  | none, none, none => (.unset, cache)
  | some username, some passwordHash, some totpSecret =>
    (.identity ⟨username, passwordHash, totpSecret⟩, cache.getTotpVerifier totpSecret)
  | _, _, _ => (.misconfigured, cache)

inductive LoginReply where
  /-- 503 -/
  | notConfigured
  /-- 400 -/
  | malformed
  /-- 401, after a denied entry about the username -/
  | unauthorized (username : String)
  /-- 200 with a session, after an allowed entry about the operator -/
  | session (matched : OperatorIdentity)
  /-- 500 -/
  | failed (err : TotpError)
  deriving DecidableEq

/-- The identities that a login is matched against. -/
def configuredIdentities (vars : LoginVariables) (cache : VerifierCache) :
    Option (List OperatorIdentity) × VerifierCache :=
  let (primary, cache) := resolveOperatorIdentity cache vars.admin
  let (backup, cache) := resolveOperatorIdentity cache vars.backupApprover
  let identities := match vars.signingSecret.filter (· ≠ ""), primary, backup with
    | some _, .identity primary, .unset => some [primary]
    | some _, .identity primary, .identity backup => some [primary, backup]
    | _, _, _ => none
  (identities, cache)

def LoginBody.attempt (body : LoginBody) : Option LoginAttempt :=
  match body.username, body.password, body.totpCode with
  | some username, some password, some totpCode => some ⟨username, password, totpCode⟩
  | _, _, _ => none

/-- The route once `findAuthenticatedOperator` has gone on. -/
def loginReply (attempt : LoginAttempt) :
    Except TotpError (Progress (LoginFrame p) (Option OperatorIdentity)) →
      Progress (LoginFrame p) LoginReply
  | .error err => .returned (.failed err)
  | .ok (.awaiting frame) => .awaiting frame
  | .ok (.returned none) => .returned (.unauthorized attempt.username)
  | .ok (.returned (some matched)) => .returned (.session matched)

/-- `POST /auth/login` up to its first await. -/
def postAuthLogin (vars : LoginVariables) (body : LoginBody) (cache : VerifierCache) :
    Progress (LoginFrame p) LoginReply × VerifierCache :=
  match configuredIdentities vars cache with
  | (none, cache) => (.returned .notConfigured, cache)
  | (some identities, cache) =>
    match body.attempt with
    | none => (.returned .malformed, cache)
    | some attempt => (loginReply p attempt (.ok (findAuthenticatedOperator p attempt identities)), cache)

/-! ## The server -/

/-- What the logins share, and those that are suspended. -/
structure LoginServer where
  totpVerifierCache : VerifierCache
  inflight : List (LoginFrame p)

inductive LoginAction where
  /-- A login arrives while the environment variables have these values. -/
  | post (vars : LoginVariables) (body : LoginBody)
  /-- The check of a password has ended; the clock is read afterwards. -/
  | resume (index : Nat) (now : Int)

namespace LoginServer

variable {p}

def settle (inflight : List (LoginFrame p)) :
    Progress (LoginFrame p) LoginReply × VerifierCache → LoginServer p × Option LoginReply
  | (.returned reply, cache) => (⟨cache, inflight⟩, some reply)
  | (.awaiting frame, cache) => (⟨cache, inflight ++ [frame]⟩, none)

def exec (s : LoginServer p) : LoginAction → LoginServer p × Option LoginReply
  | .post vars body => settle s.inflight (postAuthLogin p vars body s.totpVerifierCache)
  | .resume i now =>
    match s.inflight[i]? with
    | none => (s, none)
    | some frame =>
      let (result, cache) := frame.resume p s.totpVerifierCache now
      settle (s.inflight.eraseIdx i) (loginReply p frame.attempt result, cache)

/-- The verifier that is kept for a secret. -/
def verifier (s : LoginServer p) (secret : String) : TotpVerifier :=
  s.totpVerifierCache.verifier secret

end LoginServer

/-- The server from its start on. -/
def loginMachine : Machine (LoginServer p) LoginAction where
  init := ⟨.empty, []⟩
  step s a := (s.exec a).1

end Ambit
