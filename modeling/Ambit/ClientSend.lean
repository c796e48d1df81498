import Ambit.AmbitClient
import Ambit.Lib.JsonFields
import Mathlib.Data.Nat.Cast.Order.Ring
import Mathlib.Tactic.Linarith

/-! `ambitClient.ts`: the loop of `#send`, over any sequence of ways in which its attempts end, and
what it makes of failures. -/

namespace Ambit

open Json

/-! ## An attempt -/

/-- What is read of the body of a response: its bytes, or nothing, when the connection is lost or the
timeout runs out before the end. -/
inductive BodyRead where
  | complete (bytes : Json.Text)
  | lost

/-- How an attempt ends. -/
inductive Attempt where
  | noConnection (message : String)
  /-- The timeout runs out before the headers. -/
  | timedOut
  | response (status : Nat) (body : BodyRead)

/-- `AmbitClientError`, with a message that is a string or was made of a JSON value. -/
structure AmbitClientError where
  message : String ⊕ Json.Value
  status : Nat

/-- `response.json()` of a complete body, which may start with a byte order mark. -/
def bodyJson : Json.Text → Option Json.Value
  | 0xEF :: 0xBB :: 0xBF :: bytes => Json.parse bytes
  | bytes => Json.parse bytes

/-- `await response.json().catch(() => undefined)` -/
def BodyRead.payload : BodyRead → Option Json.Value
  | .complete bytes => bodyJson bytes
  | .lost => none

/-- `payload?.error`, where it is not `null` -/
def errorField : Option Json.Value → Option Json.Value
  | some (.object members) =>
    match Json.lookup "error" members with
    | some (.word .null) => none
    | found => found
  | _ => none

mutual

/-- JavaScript makes a string of the value: it throws on an object whose own `toString`, which is
no function, hides the inherited one. -/
def printable : Json.Value → Bool
  | .word _ | .number _ | .string _ => true
  | .array items => printableItems items
  | .object members => (Json.lookup "toString" members).isNone

def printableItems : List Json.Value → Bool
  | [] => true
  | item :: items => printable item && printableItems items

end

/-- `response.ok` -/
def isOk (status : Nat) : Prop := 200 ≤ status ∧ status < 300

instance (status : Nat) : Decidable (isOk status) := inferInstanceAs (Decidable (_ ∧ _))

/-- The arguments of `#send`, with the timeout as it is printed. -/
structure Sending where
  method : String
  path : String
  maxAttempts : JsNumber
  requiresAgentCredential : Bool
  agentCredential : Option String
  timeoutText : String

namespace Sending

variable (s : Sending)

/-- The errors that `fetch` or the body of the `try` throw, as the `catch` hands them on. -/
def failed (message : String) : AmbitClientError :=
  ⟨.inl (s.method ++ " " ++ s.path ++ " failed: " ++ message), 0⟩

/-- What the `try` of an attempt comes to: the payload, or the error that the `catch` keeps. -/
def tryAttempt : Attempt → Except AmbitClientError (Option Json.Value)
  | .noConnection message => .error (s.failed message)
  | .timedOut =>
    .error ⟨.inl (s.method ++ " " ++ s.path ++ " timed out after " ++ s.timeoutText ++ "ms"), 0⟩
  | .response status body =>
    if isOk status then .ok body.payload
    else
      match errorField body.payload with
      | none =>
        .error ⟨.inl (s.method ++ " " ++ s.path ++ " failed with status " ++ toString status), status⟩
      | some value =>
        -- the constructor of the error makes a string of its message
        if printable value then .error ⟨.inr value, status⟩
        else .error (s.failed "Cannot convert object to primitive value")

end Sending

/-- `retryable` -/
def AmbitClientError.retryable (err : AmbitClientError) : Prop := err.status = 0 ∨ 500 ≤ err.status

instance (err : AmbitClientError) : Decidable err.retryable :=
  inferInstanceAs (Decidable (_ ∨ _))

/-! ## The loop -/

/-- Where a call stands: the `fetch` of an attempt is out, or it has ended after some attempts. -/
inductive SendState where
  | fetching (attempt : Nat)
  | returned (attempts : Nat) (payload : Option Json.Value)
  | threw (attempts : Nat) (err : AmbitClientError)

/-- The attempts that were made. -/
def SendState.attempts : SendState → Nat
  | .fetching attempt => attempt
  | .returned attempts _ | .threw attempts _ => attempts

namespace Sending

variable (s : Sending)

/-- `attempt <= maxAttempts` -/
def Allows (attempt : Nat) : Prop := (JsNumber.finite attempt).le s.maxAttempts = true

instance (attempt : Nat) : Decidable (s.Allows attempt) := inferInstanceAs (Decidable (_ = true))

/-- The head of the loop after some attempts: the next one, or the end of the loop. -/
def head (attempts : Nat) (lastError : Option AmbitClientError) : SendState :=
  if s.Allows (attempts + 1) then .fetching (attempts + 1)
  else .threw attempts (lastError.getD ⟨.inl (s.method ++ " " ++ s.path ++ " failed"), 0⟩)

/-- A credential is there, or none is required. -/
def Admitted : Prop := s.requiresAgentCredential = true → (truthy s.agentCredential).isSome = true

instance : Decidable s.Admitted := inferInstanceAs (Decidable (_ → _))

/-- `#send`, up to its first `fetch`. -/
def start : SendState :=
  if s.Admitted then s.head 0 none
  else .threw 0 ⟨.inl (s.method ++ " " ++ s.path ++ " requires an agentCredential — configure one " ++
    "via AmbitClientConfig (get one from POST /agent-identities)"), 0⟩

/-- An attempt ends: the call returns, throws, or sleeps and goes on. -/
def step : SendState → Attempt → SendState
  | .fetching attempt, a =>
    match s.tryAttempt a with
    | .ok payload => .returned attempt payload
    | .error err =>
      if ¬ err.retryable ∨ s.maxAttempts.le (.finite attempt) then .threw attempt err
      else s.head attempt (some err)
  | ended, _ => ended

def machine : Machine SendState Attempt where
  init := s.start
  step := s.step

end Sending

/-! ## The calls of the client -/

/-- A client as it is configured. -/
structure SdkClient extends AmbitClientConfig where
  timeoutMs : JsNumber := .finite 5000

/-- The functions of JavaScript that a call makes its texts with. -/
structure SdkPlatform where
  encodeURIComponent : String → String
  numberText : JsNumber → String

inductive SdkCall where
  | requestToken (params : RequestTokenParams)
  | getRequest (id : String)
  | claimTokenSecret (requestId : String)

/-- The arguments that a call gives to `#send`. -/
def SdkCall.sending (p : SdkPlatform) (client : SdkClient) : SdkCall → Sending
  | .requestToken params =>
    { method := "POST", path := "/requests",
      maxAttempts := if (truthy params.idempotencyKey).isSome then client.maxAttempts else .finite 1,
      requiresAgentCredential := true, agentCredential := client.agentCredential,
      timeoutText := p.numberText client.timeoutMs }
  | .getRequest id =>
    { method := "GET", path := "/requests/" ++ p.encodeURIComponent id,
      maxAttempts := client.maxAttempts, requiresAgentCredential := false,
      agentCredential := client.agentCredential, timeoutText := p.numberText client.timeoutMs }
  | .claimTokenSecret requestId =>
    { method := "POST", path := "/requests/" ++ p.encodeURIComponent requestId ++ "/token-secret",
      maxAttempts := .finite 1, requiresAgentCredential := true,
      agentCredential := client.agentCredential, timeoutText := p.numberText client.timeoutMs }

/-! ## Attempts that are tried again -/

/-- The body is an object whose `error` no string can be made of. -/
def BodyRead.Unprintable (body : BodyRead) : Prop :=
  ∃ value ∈ errorField body.payload, printable value = false

/-- The attempt ends in a failure that the loop tries again after. -/
def Attempt.Retried : Attempt → Prop
  | .noConnection _ | .timedOut => True
  | .response status body => ¬ isOk status ∧ (status = 0 ∨ 500 ≤ status ∨ body.Unprintable)

/-- The attempt is answered with a success or with a 4xx. -/
def Attempt.Final : Attempt → Prop
  | .noConnection _ | .timedOut => False
  | .response status _ => isOk status ∨ 400 ≤ status ∧ status < 500

/-- The attempt is answered with a success whose body is not read to its end, or is no JSON. -/
def Attempt.Unread : Attempt → Prop
  | .noConnection _ | .timedOut => False
  | .response status body => isOk status ∧ body.payload = none

/-- The attempt is answered with a 4xx whose `error` no string can be made of. -/
def Attempt.Misread : Attempt → Prop
  | .noConnection _ | .timedOut => False
  | .response status body => 400 ≤ status ∧ status < 500 ∧ body.Unprintable

theorem Attempt.misread_iff {a : Attempt} : a.Misread ↔ a.Final ∧ a.Retried := by
  cases a with
  | noConnection message => exact ⟨fun h => h.elim, fun h => h.1.elim⟩
  | timedOut => exact ⟨fun h => h.elim, fun h => h.1.elim⟩
  | response status body =>
    constructor
    · rintro ⟨hlow, hhigh, hbody⟩
      exact ⟨.inr ⟨hlow, hhigh⟩, fun hok => absurd hok.2 (by omega), .inr (.inr hbody)⟩
    · rintro ⟨hok | ⟨hlow, hhigh⟩, hnot, hretried⟩
      · exact absurd hok hnot
      · exact ⟨hlow, hhigh, hretried.elim (by omega) fun h => h.resolve_left (by omega)⟩

namespace Sending

variable {s : Sending} {a : Attempt} {outcomes : List Attempt} {n : ℕ}

theorem tryAttempt_retried : (∃ err, s.tryAttempt a = .error err ∧ err.retryable) ↔ a.Retried := by
  cases a with
  | noConnection message => exact iff_of_true ⟨_, rfl, .inl rfl⟩ trivial
  | timedOut => exact iff_of_true ⟨_, rfl, .inl rfl⟩ trivial
  | response status body =>
    simp only [tryAttempt, Attempt.Retried, BodyRead.Unprintable]
    by_cases hok : isOk status
    · rw [if_pos hok]
      refine iff_of_false ?_ fun h => h.1 hok
      rintro ⟨err, herr, -⟩
      cases herr
    · rw [if_neg hok]
      cases hvalue : errorField body.payload with
      | none =>
        constructor
        · rintro ⟨err, herr, hretryable⟩
          cases herr
          exact ⟨hok, hretryable.imp_right .inl⟩
        · rintro ⟨-, h | h | ⟨value, hmem, -⟩⟩
          · exact ⟨_, rfl, .inl h⟩
          · exact ⟨_, rfl, .inr h⟩
          · cases hmem
      | some value =>
        dsimp only
        by_cases hprintable : printable value = true
        · rw [if_pos hprintable]
          constructor
          · rintro ⟨err, herr, hretryable⟩
            cases herr
            exact ⟨hok, hretryable.imp_right .inl⟩
          · rintro ⟨-, h | h | ⟨value', hmem, hprint⟩⟩
            · exact ⟨_, rfl, .inl h⟩
            · exact ⟨_, rfl, .inr h⟩
            · cases hmem
              cases hprintable.symm.trans hprint
        · rw [if_neg hprintable]
          exact iff_of_true ⟨_, rfl, .inl rfl⟩
            ⟨hok, .inr (.inr ⟨value, rfl, Bool.not_eq_true _ ▸ hprintable⟩)⟩

theorem tryAttempt_ok {payload : Option Json.Value} :
    s.tryAttempt a = .ok payload ↔
      ∃ status body, a = .response status body ∧ isOk status ∧ payload = body.payload := by
  constructor
  · intro h
    cases a with
    | noConnection message => cases h
    | timedOut => cases h
    | response status body =>
      by_cases hok : isOk status
      · rw [tryAttempt, if_pos hok] at h
        cases h
        exact ⟨status, body, rfl, hok, rfl⟩
      · rw [tryAttempt, if_neg hok] at h
        split at h
        · cases h
        · split at h
          · cases h
          · cases h
  · rintro ⟨status, body, rfl, hok, rfl⟩
    exact if_pos hok

/-! ## The run of a call -/

theorem allows_of_le {m : ℕ} (hle : m ≤ n) (h : s.Allows n) : s.Allows m := by
  unfold Allows at h ⊢
  cases hmax : s.maxAttempts with
  | finite q =>
    rw [hmax] at h
    have hcast : (m : ℚ) ≤ n := Nat.cast_le.mpr hle
    exact decide_eq_true (hcast.trans (of_decide_eq_true h))
  | infinity => rfl
  | negInfinity =>
    rw [hmax] at h
    cases h
  | nan =>
    rw [hmax] at h
    cases h

theorem not_allows_of_le (h : s.maxAttempts.le (.finite n) = true) : ¬ s.Allows (n + 1) := by
  unfold Allows
  cases hmax : s.maxAttempts with
  | finite q =>
    rw [hmax] at h
    have hle : q ≤ n := of_decide_eq_true h
    intro hnext
    have hnext : ((n + 1 : ℕ) : ℚ) ≤ q := of_decide_eq_true hnext
    rw [Nat.cast_add, Nat.cast_one] at hnext
    linarith
  | infinity =>
    rw [hmax] at h
    cases h
  | negInfinity => exact Bool.false_ne_true
  | nan => exact Bool.false_ne_true

/-- A run so far: the attempts before the last were tried again, the last is out, was a success, or
failed for good. -/
def Went (s : Sending) (outcomes : List Attempt) : SendState → Prop
  | .fetching n => n = outcomes.length + 1 ∧ (∀ b ∈ outcomes, b.Retried) ∧ s.Allows n
  | .returned n payload => ∃ before a after, outcomes = before ++ a :: after ∧
      n = before.length + 1 ∧ (∀ b ∈ before, b.Retried) ∧ s.Allows n ∧ s.tryAttempt a = .ok payload
  | .threw n err => ∃ before a after, outcomes = before ++ a :: after ∧
      n = before.length + 1 ∧ (∀ b ∈ before, b.Retried) ∧ s.Allows n ∧
      s.tryAttempt a = .error err ∧ (a.Retried → ¬ s.Allows (n + 1))

/-- The step of the loop. -/
theorem step_fetching (s : Sending) (n : ℕ) (a : Attempt) :
    (∃ payload, s.tryAttempt a = .ok payload ∧ s.step (.fetching n) a = .returned n payload) ∨
    (∃ err, s.tryAttempt a = .error err ∧ (a.Retried → ¬ s.Allows (n + 1)) ∧
      s.step (.fetching n) a = .threw n err) ∨
    (a.Retried ∧ s.Allows (n + 1) ∧ s.step (.fetching n) a = .fetching (n + 1)) := by
  cases htry : s.tryAttempt a with
  | ok payload =>
    refine .inl ⟨payload, rfl, ?_⟩
    rw [step, htry]
  | error err =>
    have hretried : a.Retried ↔ err.retryable := by
      rw [← tryAttempt_retried (s := s), htry]
      exact ⟨fun ⟨_, heq, h⟩ => by cases heq; exact h, fun h => ⟨err, rfl, h⟩⟩
    by_cases hends : ¬ err.retryable ∨ s.maxAttempts.le (.finite n)
    · refine .inr (.inl ⟨err, rfl, fun h => ?_, ?_⟩)
      · exact not_allows_of_le (hends.resolve_left (not_not.mpr (hretried.mp h)))
      · rw [step, htry]
        exact if_pos hends
    · have hstep : s.step (.fetching n) a = s.head n (some err) := by
        rw [step, htry]
        exact if_neg hends
      by_cases hallows : s.Allows (n + 1)
      · refine .inr (.inr ⟨hretried.mpr (not_not.mp (not_or.mp hends).1), hallows, ?_⟩)
        rw [hstep, head, if_pos hallows]
      · refine .inr (.inl ⟨err, rfl, fun _ => hallows, ?_⟩)
        rw [hstep, head, if_neg hallows]
        rfl

theorem start_fetching (hadmitted : s.Admitted) (hallows : s.Allows 1) : s.start = .fetching 1 := by
  rw [start, if_pos hadmitted, head, if_pos hallows]

theorem went_run (hadmitted : s.Admitted) (hallows : s.Allows 1) (outcomes : List Attempt) :
    s.Went outcomes (s.machine.run outcomes) := by
  induction outcomes using List.reverseRecOn with
  | nil =>
    show s.Went [] s.start
    rw [start_fetching hadmitted hallows]
    exact ⟨rfl, fun b hb => absurd hb List.not_mem_nil, hallows⟩
  | append_singleton outcomes a ih =>
    rw [Machine.run_snoc]
    show s.Went (outcomes ++ [a]) (s.step (s.machine.run outcomes) a)
    cases hrun : s.machine.run outcomes with
    | fetching n =>
      rw [hrun] at ih
      obtain ⟨hn, hretried, hallows⟩ := ih
      obtain ⟨payload, htry, hstep⟩ | ⟨err, htry, hends, hstep⟩ | ⟨ha, hnext, hstep⟩ :=
        s.step_fetching n a
      · rw [hstep]
        exact ⟨outcomes, a, [], rfl, hn, hretried, hallows, htry⟩
      · rw [hstep]
        exact ⟨outcomes, a, [], rfl, hn, hretried, hallows, htry, hends⟩
      · rw [hstep]
        refine ⟨by rw [hn, List.length_append, List.length_singleton], fun b hb => ?_, hnext⟩
        rcases List.mem_append.mp hb with hb | hb
        · exact hretried b hb
        · exact List.mem_singleton.mp hb ▸ ha
    | returned n payload =>
      rw [hrun] at ih
      obtain ⟨before, b, after, rfl, hrest⟩ := ih
      exact ⟨before, b, after ++ [a], by simp, hrest⟩
    | threw n err =>
      rw [hrun] at ih
      obtain ⟨before, b, after, rfl, hrest⟩ := ih
      exact ⟨before, b, after ++ [a], by simp, hrest⟩

theorem attempts_step (s : Sending) (st : SendState) (a : Attempt) :
    st.attempts ≤ (s.step st a).attempts := by
  cases st with
  | fetching n =>
    obtain ⟨payload, -, hstep⟩ | ⟨err, -, -, hstep⟩ | ⟨-, -, hstep⟩ := s.step_fetching n a
    · rw [hstep]
      exact le_rfl
    · rw [hstep]
      exact le_rfl
    · rw [hstep]
      exact Nat.le_succ n
  | returned n payload => exact le_rfl
  | threw n err => exact le_rfl

/-- A call that has ended stays as it is. -/
theorem foldl_returned {payload : Option Json.Value} (outcomes : List Attempt) :
    outcomes.foldl s.step (.returned n payload) = .returned n payload := by
  induction outcomes with
  | nil => rfl
  | cons a outcomes ih => exact ih

/-- After failures that are tried again, the next attempt is out. -/
theorem run_retried (hadmitted : s.Admitted) (hallows : s.Allows (outcomes.length + 1))
    (hretried : ∀ b ∈ outcomes, b.Retried) :
    s.machine.run outcomes = .fetching (outcomes.length + 1) := by
  have hwent := went_run hadmitted (allows_of_le (Nat.le_add_left 1 _) hallows) outcomes
  cases hrun : s.machine.run outcomes with
  | fetching n =>
    rw [hrun] at hwent
    rw [hwent.1]
  | returned n payload =>
    rw [hrun] at hwent
    obtain ⟨before, a, after, rfl, -, -, -, htry⟩ := hwent
    have ha := hretried a (List.mem_append_right _ (List.mem_cons_self ..))
    obtain ⟨err, herr, -⟩ := tryAttempt_retried.mpr ha
    cases herr.symm.trans htry
  | threw n err =>
    rw [hrun] at hwent
    obtain ⟨before, a, after, rfl, rfl, -, -, -, hends⟩ := hwent
    have ha := hretried a (List.mem_append_right _ (List.mem_cons_self ..))
    refine absurd (allows_of_le ?_ hallows) (hends ha)
    rw [List.length_append, List.length_cons]
    omega

/-- No attempt that the call makes is a success whose body is not read, and none but the last that it
may make is a 4xx whose `error` no string can be made of. -/
def AllRead (s : Sending) (outcomes : List Attempt) : Prop :=
  ∀ before a after, outcomes = before ++ a :: after → s.Admitted → (∀ b ∈ before, b.Retried) →
    s.Allows (before.length + 1) → ¬ a.Unread ∧ (a.Misread → ¬ s.Allows (before.length + 2))

/-- What a call makes of its failures: it returns what was parsed from the complete body of a success
or throws, after no more attempts than it may make and none after a success or a 4xx. -/
structure FailuresSurface (s : Sending) (outcomes : List Attempt) : Prop where
  returned : ∀ n payload, s.machine.run outcomes = .returned n payload →
    ∃ status bytes value, .response status (.complete bytes) ∈ outcomes.take n ∧ isOk status ∧
      bodyJson bytes = some value ∧ payload = some value
  ends : s.maxAttempts.le (.finite outcomes.length) = true →
    ∀ n, s.machine.run outcomes ≠ .fetching n
  bounded : s.Allows (s.machine.run outcomes).attempts
  final : ∀ before a after, outcomes = before ++ a :: after → a.Final →
    (s.machine.run outcomes).attempts ≤ before.length + 1

/-- A call that is refused makes no attempt. -/
theorem run_refused (h : ¬ s.Admitted) (outcomes : List Attempt) :
    ∃ err, s.machine.run outcomes = .threw 0 err := by
  induction outcomes using List.reverseRecOn with
  | nil => exact ⟨_, if_neg h⟩
  | append_singleton outcomes a ih =>
    obtain ⟨err, hrun⟩ := ih
    refine ⟨err, ?_⟩
    rw [Machine.run_snoc, hrun]
    rfl

theorem allRead_of_surface (h : s.FailuresSurface outcomes) : s.AllRead outcomes := by
  intro before a after houtcomes hadmitted hretried hnext
  have hbefore := run_retried hadmitted hnext hretried
  constructor
  · intro hunread
    cases a with
    | noConnection message => exact hunread
    | timedOut => exact hunread
    | response status body =>
      obtain ⟨hok, hnone⟩ := hunread
      have hrun : s.machine.run outcomes = .returned (before.length + 1) none := by
        rw [houtcomes, Machine.run_append, hbefore, List.foldl_cons]
        have htry : s.tryAttempt (.response status body) = .ok none := by
          rw [tryAttempt, if_pos hok, hnone]
        show after.foldl s.step (s.step (.fetching (before.length + 1)) (.response status body)) = _
        rw [step, htry]
        exact foldl_returned after
      obtain ⟨_, _, value, -, -, -, hvalue⟩ := h.returned _ _ hrun
      cases hvalue
  · intro hmisread hmore
    obtain ⟨hfinal, ha⟩ := Attempt.misread_iff.mp hmisread
    have hthis := run_retried hadmitted
      (by rw [List.length_append]; exact hmore) fun b hb => (List.mem_append.mp hb).elim
        (hretried b) fun hb => List.mem_singleton.mp hb ▸ ha
    have hle := h.final before a after houtcomes hfinal
    have hgrows := s.machine.le_run (m := SendState.attempts) s.attempts_step (before ++ [a]) after
    rw [hthis, ← List.append_cons, ← houtcomes] at hgrows
    rw [List.length_append, List.length_singleton] at hgrows
    exact absurd (hgrows.trans hle) (by simp [SendState.attempts])

/-- Where every body is read, no attempt is made after one that is answered with a success or a
4xx. -/
theorem length_le_of_final (hread : s.AllRead outcomes) (hadmitted : s.Admitted) {m : ℕ}
    (hretried : ∀ b ∈ outcomes.take m, b.Retried) (hallows : s.Allows (m + 1))
    {before after : List Attempt} {a : Attempt} (h : outcomes = before ++ a :: after)
    (hfinal : a.Final) : m ≤ before.length := by
  by_contra hlt
  rw [not_le] at hlt
  have htake : outcomes.take m = before ++ a :: after.take (m - before.length - 1) := by
    rw [h, List.take_append, List.take_of_length_le hlt.le]
    congr 1
    rw [← Nat.succ_pred_eq_of_pos (Nat.sub_pos_of_lt hlt)]
    rfl
  have hmem : ∀ b ∈ before ++ [a], b.Retried := by
    intro b hb
    refine hretried b (htake ▸ ?_)
    rcases List.mem_append.mp hb with hb | hb
    · exact List.mem_append_left _ hb
    · rw [List.mem_singleton.mp hb]
      exact List.mem_append_right _ (List.mem_cons_self ..)
  have hmisread : a.Misread := Attempt.misread_iff.mpr
    ⟨hfinal, hmem a (List.mem_append_right _ (List.mem_singleton_self a))⟩
  have hmore : s.Allows (before.length + 2) := allows_of_le (by omega) hallows
  exact (hread before a after h hadmitted (fun b hb => hmem b (List.mem_append_left _ hb))
    (allows_of_le (Nat.le_succ _) hmore)).2 hmisread hmore

theorem Went.attempts {st : SendState} (h : s.Went outcomes st) :
    1 ≤ st.attempts ∧ s.Allows st.attempts := by
  cases st with
  | fetching n => exact ⟨h.1 ▸ Nat.le_add_left 1 _, h.2.2⟩
  | returned n payload =>
    obtain ⟨before, a, after, -, rfl, -, hallows, -⟩ := h
    exact ⟨Nat.le_add_left 1 _, hallows⟩
  | threw n err =>
    obtain ⟨before, a, after, -, rfl, -, hallows, -⟩ := h
    exact ⟨Nat.le_add_left 1 _, hallows⟩

theorem Went.attempts_le {st : SendState} (hwent : s.Went outcomes st) (hread : s.AllRead outcomes)
    (hadmitted : s.Admitted) {before after : List Attempt} {a : Attempt}
    (h : outcomes = before ++ a :: after) (hfinal : a.Final) : st.attempts ≤ before.length + 1 := by
  have hlast : ∀ {before' after' : List Attempt} {a' : Attempt}, outcomes = before' ++ a' :: after' →
      (∀ b ∈ before', b.Retried) → s.Allows (before'.length + 1) → before'.length ≤ before.length := by
    intro before' after' a' houtcomes hretried hallows
    refine length_le_of_final hread hadmitted ?_ hallows h hfinal
    rw [houtcomes, List.take_left]
    exact hretried
  cases st with
  | fetching n =>
    obtain ⟨rfl, hretried, hnext⟩ := hwent
    refine Nat.succ_le_succ (length_le_of_final hread hadmitted ?_ hnext h hfinal)
    rwa [List.take_length]
  | returned n payload =>
    obtain ⟨before', a', after', houtcomes, rfl, hretried, hallows, -⟩ := hwent
    exact Nat.succ_le_succ (hlast houtcomes hretried hallows)
  | threw n err =>
    obtain ⟨before', a', after', houtcomes, rfl, hretried, hallows, -⟩ := hwent
    exact Nat.succ_le_succ (hlast houtcomes hretried hallows)

theorem surface_of_allRead (hallows : s.Allows 1) (hread : s.AllRead outcomes) :
    s.FailuresSurface outcomes := by
  by_cases hadmitted : s.Admitted
  · have hwent := went_run hadmitted hallows outcomes
    refine ⟨fun n payload hrun => ?_, fun hends n hrun => ?_, hwent.attempts.2,
      fun before a after h hfinal => hwent.attempts_le hread hadmitted h hfinal⟩
    · rw [hrun] at hwent
      obtain ⟨before, a, after, houtcomes, rfl, hretried, hthis, htry⟩ := hwent
      obtain ⟨status, body, rfl, hok, rfl⟩ := tryAttempt_ok.mp htry
      have hunread := (hread before _ after houtcomes hadmitted hretried hthis).1
      cases body with
      | lost => exact absurd ⟨hok, rfl⟩ hunread
      | complete bytes =>
        obtain ⟨value, hvalue⟩ := Option.ne_none_iff_exists'.mp fun hnone => hunread ⟨hok, hnone⟩
        refine ⟨status, bytes, value, ?_, hok, hvalue, hvalue⟩
        rw [houtcomes, List.append_cons, List.take_left' (by simp)]
        exact List.mem_append_right _ (List.mem_singleton_self _)
    · rw [hrun] at hwent
      obtain ⟨hn, -, hnext⟩ := hwent
      exact absurd (hn ▸ hnext) (not_allows_of_le hends)
  · obtain ⟨err, hrun⟩ := run_refused hadmitted outcomes
    refine ⟨fun _ _ h => ?_, fun _ n h => ?_, ?_, fun before a after _ _ => ?_⟩
    · cases hrun.symm.trans h
    · cases hrun.symm.trans h
    · rw [hrun]
      exact allows_of_le (Nat.zero_le 1) hallows
    · rw [hrun]
      exact Nat.zero_le _

/-- A call that is given one attempt makes one. -/
theorem attempts_eq_one (hone : s.maxAttempts = .finite 1) (hadmitted : s.Admitted)
    (outcomes : List Attempt) : (s.machine.run outcomes).attempts = 1 := by
  have hallows : s.Allows 1 := by
    rw [Allows, hone]
    rfl
  obtain ⟨hle, hbound⟩ := (went_run hadmitted hallows outcomes).attempts
  rw [Allows, hone] at hbound
  have hcast : ((s.machine.run outcomes).attempts : ℚ) ≤ ((1 : ℕ) : ℚ) := by
    rw [Nat.cast_one]
    exact of_decide_eq_true hbound
  exact le_antisymm (Nat.cast_le.mp hcast) hle

end Sending

namespace SdkCall

variable {p : SdkPlatform} {client : SdkClient} {call : SdkCall} {outcomes : List Attempt}

/-- The calls that are never repeated: a claim, and a submission without a key. -/
def Single : SdkCall → Prop
  | .requestToken params => truthy params.idempotencyKey = none
  | .getRequest _ => False
  | .claimTokenSecret _ => True

/-- What a call makes of its failures, and how many attempts it makes. -/
structure FailuresSurface (p : SdkPlatform) (client : SdkClient) (call : SdkCall)
    (outcomes : List Attempt) : Prop extends (call.sending p client).FailuresSurface outcomes where
  single : call.Single → (call.sending p client).Admitted →
    ((call.sending p client).machine.run outcomes).attempts = 1

theorem allows_one (hmax : (JsNumber.finite 1).le client.maxAttempts = true) :
    (call.sending p client).Allows 1 := by
  have hmax : (JsNumber.finite (1 : ℕ)).le client.maxAttempts = true := by
    rw [Nat.cast_one]
    exact hmax
  cases call with
  | requestToken params =>
    show (JsNumber.finite (1 : ℕ)).le (if _ then _ else _) = true
    split
    · exact hmax
    · rfl
  | getRequest id => exact hmax
  | claimTokenSecret requestId => rfl

theorem maxAttempts_of_single (h : call.Single) : (call.sending p client).maxAttempts = .finite 1 := by
  cases call with
  | requestToken params =>
    show (if _ then _ else _) = _
    rw [show truthy params.idempotencyKey = none from h]
    rfl
  | getRequest id => exact h.elim
  | claimTokenSecret requestId => rfl

/-- **Failures surface exactly where every body is read**: what goes wrong are successes whose body is
lost or no JSON, and 4xx answers whose `error` no string can be made of. -/
theorem failuresSurface_iff (hmax : (JsNumber.finite 1).le client.maxAttempts = true) :
    FailuresSurface p client call outcomes ↔ (call.sending p client).AllRead outcomes := by
  constructor
  · intro h
    exact Sending.allRead_of_surface h.toFailuresSurface
  · intro h
    exact ⟨Sending.surface_of_allRead (allows_one hmax) h, fun hsingle hadmitted =>
      Sending.attempts_eq_one (maxAttempts_of_single hsingle) hadmitted outcomes⟩

/-- Texts as JavaScript makes them, of what is printed as it is. -/
def samplePlatform : SdkPlatform where
  encodeURIComponent component := component
  numberText
    | .finite q => toString q.num
    | _ => "NaN"

theorem failuresSurface_iff_sample :
    FailuresSurface samplePlatform {} (.getRequest "id-1")
        [.noConnection "fetch failed", .response 200 (.complete (Json.utf8 "null"))] ↔
      ((getRequest "id-1").sending samplePlatform {}).AllRead
        [.noConnection "fetch failed", .response 200 (.complete (Json.utf8 "null"))] :=
  failuresSurface_iff (by decide)

/-- The connection is lost while the body of a success is read: the call returns `undefined`. -/
theorem not_failuresSurface :
    ¬ FailuresSurface samplePlatform {} (.getRequest "id-1") [.response 200 .lost] := by
  intro h
  obtain ⟨_, _, value, -, -, -, hvalue⟩ := h.returned 1 none rfl
  cases hvalue

end SdkCall

end Ambit
