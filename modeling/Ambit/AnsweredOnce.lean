import Ambit.SessionAuthority
import Mathlib.Algebra.Order.BigOperators.Group.List

/-! Every request is answered once, on its own connection, unless a restart drops it while its handler
is suspended; and no handler is suspended more often than its request allows. -/

namespace Ambit

open Effect

variable {env : Env}

/-! ## What the routes wait for -/

/-- The requests whose handlers are suspended. -/
def Config.waiting (c : Config Exchange) : List Arrival := c.inflight.map fun x => x.client.arrival

/-- A suspended call has ended, or is suspended again. -/
theorem settle_accounts {client : Exchange} {call : Call} {inflight : List (InFlight Exchange)}
    {r : EStateM.Result Err World (Progress Frame Outcome)} :
    List.Perm
      (((Config.settle client call inflight r).2.toList.map fun s => s.client.arrival) ++
        (Config.settle client call inflight r).1.waiting)
      (client.arrival :: inflight.map fun x => x.client.arrival) := by
  unfold Config.settle
  split
  · exact .refl _
  · simp only [Config.waiting, Option.toList_none, List.map_nil, List.nil_append, List.map_append,
      List.map_cons]
    exact List.perm_append_singleton ..
  · exact .refl _

/-- A handler keeps the request that it is for, until it responds to it. -/
theorem follow_accounts {ran : Config Exchange × Option (Settled Exchange)} {requests : List Arrival}
    (h : List.Perm ((ran.2.toList.map fun s => s.client.arrival) ++ ran.1.waiting) requests) :
    List.Perm (((follow env ran).2.toList.map fun reply => reply.exchange.arrival) ++
      (follow env ran).1.waiting) requests := by
  obtain ⟨c, output⟩ := ran
  cases output with
  | none => exact h
  | some s =>
    simp only [follow]
    cases hnext : s.client.next c.world s.call s.outcome with
    | none => exact h
    | some next =>
      obtain ⟨x, call⟩ := next
      have hmade : List.Perm (((c.exec env (.call x call)).2.toList.map fun s => s.client.arrival) ++
          (c.exec env (.call x call)).1.waiting) (x.arrival :: c.waiting) := settle_accounts
      rw [Exchange.next_arrival hnext] at hmade
      refine List.Perm.trans ?_ h
      dsimp only
      cases hout : (c.exec env (.call x call)).2 with
      | none =>
        rw [hout] at hmade
        exact hmade
      | some s' =>
        rw [hout] at hmade
        exact hmade

/-- The requests that an action of the routes brings. -/
def ServerAction.brings : ServerAction → List Arrival
  | .arrive a => [a]
  | _ => []

/-- An action answers a request, or leaves it waiting. -/
theorem serve_accounts (c : Config Exchange) {a : ServerAction} (ha : a ≠ .restart) :
    List.Perm (((serve env c a).2.toList.map fun reply => reply.exchange.arrival) ++
      (serve env c a).1.waiting) (a.brings ++ c.waiting) := by
  cases a with
  | arrive a =>
    simp only [serve]
    cases hhandle : a.handle env c.world with
    | inl response => exact .refl _
    | inr next =>
      obtain ⟨x, call⟩ := next
      have hmade : List.Perm (((c.exec env (.call x call)).2.toList.map fun s => s.client.arrival) ++
          (c.exec env (.call x call)).1.waiting) (x.arrival :: c.waiting) := settle_accounts
      rw [handle_arrival hhandle] at hmade
      exact follow_accounts hmade
  | resume i downstream =>
    refine follow_accounts ?_
    simp only [Config.exec]
    cases hx : c.inflight[i]? with
    | none => exact .refl _
    | some x =>
      obtain ⟨hlt, rfl⟩ := List.getElem?_eq_some_iff.mp hx
      refine settle_accounts.trans ?_
      have hperm := (List.getElem_cons_eraseIdx_perm hlt).map fun x : InFlight Exchange =>
        x.client.arrival
      rw [List.map_cons] at hperm
      exact hperm
  | clock t => exact .refl _
  | restart => exact absurd rfl ha

/-! ## What the application waits for -/

section
variable {env : ServerEnv}

/-- The connections of the requests whose handlers are suspended. -/
def HttpServer.waiting (s : HttpServer env) : List (Option Connection) :=
  s.logins.map (fun login => login.request.connection) ++
    s.process.waiting.map fun a => a.connection

/-- The connections of the requests that an action brings. -/
def HttpAction.brings : HttpAction → List (Option Connection)
  | .arrive request => [request.connection]
  | _ => []

namespace HttpServer

variable {s : HttpServer env} {request : HttpRequest}

/-- The state waits for what is left of these requests when the response is sent. -/
def Accounts (ran : HttpServer env × Option HttpReply) (connections : List (Option Connection)) : Prop :=
  List.Perm (ran.2.toList.map HttpReply.connection ++ ran.1.waiting) connections

theorem accounts_reply {s' : HttpServer env} {reply : HttpReply} (hwaiting : s'.waiting = s.waiting) :
    Accounts (s', some reply) (reply.connection :: s.waiting) := by
  show List.Perm (reply.connection :: s'.waiting) _
  rw [hwaiting]

theorem finishLogin_accounts (sessionConfig : SessionTokenConfig) (reply : LoginReply) :
    Accounts (s.finishLogin request sessionConfig reply) (request.connection :: s.waiting) := by
  cases reply with
  | notConfigured | malformed | failed => exact accounts_reply rfl
  | unauthorized | session =>
    unfold finishLogin
    dsimp only
    split <;> exact accounts_reply rfl

theorem continueLogin_accounts (request : HttpRequest) (sessionConfig : SessionTokenConfig)
    (r : Progress (LoginFrame env.toLoginPlatform) LoginReply × VerifierCache) :
    Accounts (s.continueLogin request sessionConfig r) (request.connection :: s.waiting) := by
  obtain ⟨reply | frame, cache⟩ := r
  · exact finishLogin_accounts sessionConfig reply
  · rw [Accounts, continueLogin, waiting, waiting, List.map_append, List.append_assoc]
    exact List.perm_middle

/-- What the routes answer of a request, and what is left of it, with the logins beside. -/
theorem serve_accounts_connections {a : ServerAction} (ha : a ≠ .restart)
    {ran : HttpServer env × Option HttpReply} (hlogins : ran.1.logins = s.logins)
    (hprocess : ran.1.process = (serve env.toEnv s.process a).1)
    (hreply : ran.2.toList.map HttpReply.connection = (serve env.toEnv s.process a).2.toList.map
      fun reply => reply.exchange.arrival.connection) :
    Accounts ran ((a.brings.map fun a => a.connection) ++ s.waiting) := by
  have hserve := (@serve_accounts env.toEnv s.process a ha).map fun a : Arrival => a.connection
  rw [List.map_append, List.map_append, List.map_map] at hserve
  rw [Accounts, hreply, waiting, hlogins, hprocess, waiting]
  refine (List.perm_append_comm_assoc _ _ _).trans (List.Perm.trans ?_
    (List.perm_append_comm_assoc _ _ _))
  exact hserve.append_left _

theorem dispatch_accounts : Accounts (s.dispatch request) (request.connection :: s.waiting) := by
  unfold dispatch
  cases request.target with
  | login body =>
    dsimp only
    split
    · exact accounts_reply rfl
    · unfold login
      cases getSessionConfig env s.vars with
      | none => exact accounts_reply rfl
      | some sessionConfig => exact continueLogin_accounts request sessionConfig _
  | api route =>
    dsimp only
    cases harrival : request.arrival env s.vars s.now route.val with
    | ok arrival =>
      obtain ⟨hroute, hconnection, -⟩ := HttpRequest.arrival_ok harrival
      rw [← hconnection]
      refine serve_accounts_connections (a := .arrive arrival) nofun rfl rfl ?_
      dsimp only
      cases hout : (serve env.toEnv s.process (.arrive arrival)).2 with
      | none => rfl
      | some reply =>
        have hsent := (serve_arrive (hroute ▸ route.property) hout).1
        show [request.connection] = [reply.exchange.arrival.connection]
        rw [hsent, hconnection]
    | error => exact accounts_reply rfl
  | unmatched => exact accounts_reply rfl

theorem exec_accounts (s : HttpServer env) {a : HttpAction} (ha : a ≠ .restart) :
    Accounts (s.exec a) (a.brings ++ s.waiting) := by
  cases a with
  | arrive request =>
    simp only [exec, arrive]
    split
    · exact accounts_reply rfl
    · split
      · exact accounts_reply rfl
      · exact dispatch_accounts
  | resume i downstream =>
    refine serve_accounts_connections (a := .resume i downstream) (fun h => by cases h) rfl rfl ?_
    simp only [exec]
    cases (serve env.toEnv s.process (.resume i downstream)).2 <;> rfl
  | resumeLogin i =>
    cases hlogin : s.logins[i]? with
    | none =>
      simp only [exec, hlogin]
      exact .refl _
    | some login =>
      simp only [exec, hlogin]
      obtain ⟨hlt, rfl⟩ := List.getElem?_eq_some_iff.mp hlogin
      refine (continueLogin_accounts _ _ _).trans ?_
      have hperm := (List.getElem_cons_eraseIdx_perm hlt).map fun login : SuspendedLogin env =>
        login.request.connection
      rw [List.map_cons] at hperm
      exact hperm.append_right _
  | clock | setVariables => exact .refl _
  | restart => exact absurd rfl ha

/-- The connections that a restart drops. -/
def drops (s : HttpServer env) : HttpAction → List (Option Connection)
  | .restart => s.waiting
  | _ => []

/-- What an action responds to, keeps and drops is what it brings and what was waiting. -/
theorem exec_accounts_dropped (s : HttpServer env) (a : HttpAction) :
    List.Perm ((s.exec a).2.toList.map HttpReply.connection ++ ((s.exec a).1.waiting ++ s.drops a))
      (a.brings ++ s.waiting) := by
  by_cases ha : a = .restart
  · subst ha
    exact .refl _
  · have hdrops : s.drops a = [] := by
      cases a with
      | restart => exact absurd rfl ha
      | _ => rfl
    rw [hdrops, List.append_nil]
    exact s.exec_accounts ha

end HttpServer

/-- The connections of the requests that a run drops. -/
def dropped (env : ServerEnv) (acts : List HttpAction) : List (Option Connection) :=
  (httpMachine env).trace HttpServer.drops acts

/-- **No response is lost or sent twice**: the connections on which a run has responded, those it
still waits for and those that restarts have dropped are those of the requests, each once. -/
theorem answered_once (env : ServerEnv) (acts : List HttpAction) :
    List.Perm ((httpReplies env acts).map HttpReply.connection ++
      (((httpMachine env).run acts).waiting ++ dropped env acts)) (acts.flatMap HttpAction.brings) := by
  induction acts using List.reverseRecOn with
  | nil => exact .refl _
  | append_singleton acts a ih =>
    have hrun : (httpMachine env).run (acts ++ [a]) = (((httpMachine env).run acts).exec a).1 :=
      Machine.run_snoc ..
    have hstep := ((httpMachine env).run acts).exec_accounts_dropped a
    rw [httpReplies, Machine.outputs_snoc, dropped, Machine.trace_snoc, List.map_append, hrun,
      List.flatMap_append, List.flatMap_singleton]
    rw [httpReplies, dropped] at ih
    rw [List.perm_iff_count] at ih hstep ⊢
    intro connection
    have hbefore := ih connection
    have hnow := hstep connection
    simp only [List.count_append] at hbefore hnow ⊢
    omega

end

/-! ## Every handler ends -/

/-- How many more times a suspended call goes on, at most: twice for each attempt of an access but the
last one. -/
def Frame.budget : Frame → ℕ
  | .delegate (.verifying _ _) => 2
  | .access (.enforcing input _) => 1 + (2 * input.maxAttempts - 1).toNat
  | .access (.calling loop _) => 1 + (2 * (loop.input.maxAttempts - loop.attempt)).toNat
  | .access (.sleeping loop _) => max 1 (2 * (loop.input.maxAttempts - loop.attempt)).toNat
  | _ => 1

theorem Frame.budget_pos (frame : Frame) : 0 < frame.budget := by
  unfold budget
  split <;> omega

section
variable {w : World} {n : ℕ}

/-- The piece is suspended, if at all, in a frame with no larger budget. -/
def BudgetedBy (n : ℕ) (r : Except Err (Progress Frame Outcome)) : Prop :=
  ∀ frame, r = .ok (.awaiting frame) → frame.budget ≤ n

theorem budgetedBy_error (err : Err) : BudgetedBy n (.error err) := fun _ h => by cases h

theorem budgetedBy_returned (outcome : Outcome) : BudgetedBy n (.ok (.returned outcome)) :=
  fun _ h => by cases h

theorem budgetedBy_awaiting {frame : Frame} (h : frame.budget ≤ n) :
    BudgetedBy n (.ok (.awaiting frame)) := by
  intro frame' h'
  cases h'
  exact h

/-- A call that never awaits. -/
theorem wp_synchronously_budgeted {α : Type} (op : Op α) (outcome : α → Outcome) :
    wp (synchronously op outcome) (fun r _ => BudgetedBy n r) w := by
  refine wp_bind (wp_any fun r w' => ?_)
  cases r with
  | error err => exact budgetedBy_error err
  | ok a => exact wp_pure (budgetedBy_returned _)

theorem wp_map_budgeted {φ α : Type} {op : Op (Progress φ α)} {onFrame : φ → Frame}
    {onValue : α → Outcome}
    (h : wp op (fun r _ => ∀ f, r = .ok (.awaiting f) → (onFrame f).budget ≤ n) w) :
    wp (do return (← op).map onFrame onValue) (fun r _ => BudgetedBy n r) w := by
  refine wp_bind (wp_mono h fun r w' hr => ?_)
  cases r with
  | error err => exact budgetedBy_error err
  | ok progress =>
    cases progress with
    | awaiting f => exact wp_pure (budgetedBy_awaiting (hr f rfl))
    | returned a => exact wp_pure (budgetedBy_returned _)

end

section
variable {w : World}

/-- The head of the loop is suspended in an attempt that is left. -/
theorem AccessLoop.wp_next_awaiting (loop : AccessLoop) (lastError : Err) :
    wp (loop.next env lastError) (fun r _ => ∀ f, r = .ok (.awaiting f) →
      loop.attempt ≤ loop.input.maxAttempts ∧ ∃ accepted, f = .calling loop accepted) w := by
  unfold AccessLoop.next
  split
  · next hle =>
    refine wp_bind (wp_get (wp_pure fun f hf => ?_))
    cases hf
    exact ⟨hle, _, rfl⟩
  · split
    · refine wp_bind (wp_any fun r w' => ?_)
      cases r with
      | error err => exact fun f hf => by cases hf
      | ok => exact wp_pure fun f hf => by cases hf
    · exact wp_throw fun f hf => by cases hf

/-- An attempt that fails is suspended for less than the attempt was. -/
theorem AccessLoop.wp_failed_budget (loop : AccessLoop) (accepted : Bool) (err : Err) :
    wp (loop.failed env err) (fun r _ => ∀ f, r = .ok (.awaiting f) →
      (Frame.access f).budget + 1 ≤ (Frame.access (.calling loop accepted)).budget) w := by
  unfold AccessLoop.failed
  split
  · refine wp_pure fun f hf => ?_
    cases hf
    simp only [Frame.budget]
    omega
  · refine wp_mono (AccessLoop.wp_next_awaiting _ err) fun r w' hr f hf => ?_
    obtain ⟨hle, -⟩ := hr f hf
    dsimp only at hle
    omega

/-- After the gateway's decision the first attempt is suspended. -/
theorem accessAfter_budget (input : AccessInput) (decision : EnforcementDecision) :
    wp (accessAfter env input decision) (fun r _ => ∀ f, r = .ok (.awaiting f) →
      (Frame.access f).budget ≤ (2 * input.maxAttempts - 1).toNat) w := by
  cases decision with
  | denied => exact wp_pure fun f hf => by cases hf
  | allowed =>
    refine wp_bind (wp_any fun r w' => ?_)
    cases r with
    | error err => exact fun f hf => by cases hf
    | ok token =>
      refine wp_mono (AccessLoop.wp_next_awaiting _ _) fun r w'' hr f hf => ?_
      obtain ⟨hle, accepted, rfl⟩ := hr f hf
      dsimp only at hle
      simp only [Frame.budget]
      omega

/-- A refusal for the store's sake ends a delegation; otherwise it goes on. -/
theorem catchCircuitOpen_awaiting {α : Type} {input : DelegationInput} {result : Except Err α}
    {k : α → Op (Progress DelegateFrame DelegationDecision)} {P : DelegateFrame → Prop}
    (hk : ∀ a w, wp (k a) (fun r _ => ∀ f, r = .ok (.awaiting f) → P f) w) :
    wp (catchCircuitOpen env input result k) (fun r _ => ∀ f, r = .ok (.awaiting f) → P f) w := by
  cases result with
  | ok a => exact hk a w
  | error err =>
    cases err with
    | circuitOpen =>
      refine wp_bind (wp_any fun r w' => ?_)
      cases r with
      | error err => exact fun f hf => by cases hf
      | ok => exact wp_pure fun f hf => by cases hf
    | _ => exact wp_throw fun f hf => by cases hf

/-- A delegation that goes on is suspended at most once more. -/
theorem DelegateFrame.wp_resume_budget (frame : DelegateFrame) :
    wp (frame.resume env) (fun r _ => ∀ f, r = .ok (.awaiting f) →
      (Frame.delegate f).budget ≤ (Frame.delegate frame).budget - 1) w := by
  cases frame with
  | verifying input parent =>
    unfold DelegateFrame.resume
    dsimp only
    split
    · refine wp_bind (wp_any fun r w' => ?_)
      cases r with
      | error err => exact fun f hf => by cases hf
      | ok => exact wp_pure fun f hf => by cases hf
    · refine wp_bind (wp_any fun r w' => ?_)
      cases r with
      | error err => exact fun f hf => by cases hf
      | ok issue =>
        refine catchCircuitOpen_awaiting fun issue w => wp_pure fun f hf => ?_
        cases hf
        exact le_rfl
  | issuing input issue =>
    refine wp_bind (wp_any fun r w' => ?_)
    cases r with
    | error err => exact fun f hf => by cases hf
    | ok issued =>
      refine catchCircuitOpen_awaiting fun issued w => wp_bind (wp_any fun r w' => ?_)
      cases r with
      | error err => exact fun f hf => by cases hf
      | ok => exact wp_pure fun f hf => by cases hf

/-- A suspended call that goes on ends, or is suspended for less. -/
theorem resumeFrame_budget (downstream : Downstream) (frame : Frame) :
    wp (resumeFrame env downstream frame) (fun r _ => BudgetedBy (frame.budget - 1) r) w := by
  cases frame with
  | approve | enforce | customer | register => exact wp_synchronously_budgeted _ _
  | authenticate => exact wp_pure (budgetedBy_returned _)
  | delegate frame =>
    exact wp_map_budgeted frame.wp_resume_budget
  | access frame =>
    refine wp_map_budgeted ?_
    cases frame with
    | enforcing input enforce =>
      refine wp_bind (wp_any fun r w' => ?_)
      cases r with
      | error err => exact fun f hf => by cases hf
      | ok decision =>
        refine wp_mono (accessAfter_budget input decision) fun r w'' hr f hf => (hr f hf).trans ?_
        exact le_of_eq (Nat.add_sub_cancel_left ..).symm
    | calling loop accepted =>
      have hfailed : ∀ err w, wp (loop.failed env err) (fun r _ => ∀ f, r = .ok (.awaiting f) →
          (Frame.access f).budget ≤ (Frame.access (.calling loop accepted)).budget - 1) w := by
        intro err w
        refine wp_mono (loop.wp_failed_budget accepted err) fun r w' hr f hf => ?_
        have := hr f hf
        omega
      simp only [AccessFrame.resume]
      split
      · refine wp_bind (wp_any fun r w' => ?_)
        cases r with
        | error err => exact fun f hf => by cases hf
        | ok recorded =>
          cases recorded with
          | ok => exact wp_pure fun f hf => by cases hf
          | error err => exact hfailed err w'
      · exact hfailed _ w
    | sleeping loop lastError =>
      refine wp_mono (AccessLoop.wp_next_awaiting _ lastError) fun r w' hr f hf => ?_
      obtain ⟨hle, accepted, rfl⟩ := hr f hf
      dsimp only at hle
      simp only [Frame.budget]
      omega

/-- The call never awaits. -/
def Call.Prompt (env : Env) (call : Call) : Prop :=
  ∀ w, wp (startCall env call) (fun r _ => BudgetedBy 0 r) w

/-- What a handler calls after a call that was suspended never awaits. -/
theorem Exchange.next_prompt {x x' : Exchange} {call call' : Call} {outcome : Outcome} {frame : Frame}
    (hawaits : call.Awaits frame) (h : x.next w call outcome = some (x', call')) : call'.Prompt env := by
  unfold Exchange.next at h
  split at h
  · dsimp only at h
    split at h
    · cases h
      exact fun w => wp_synchronously_budgeted _ _
    · cases h
      exact fun w => wp_synchronously_budgeted _ _
    · cases h
  · exact hawaits.elim
  · exact hawaits.elim
  · cases h

end

/-- How often the handler of a request goes on, at most, where an access makes `m` attempts. -/
def handlerBudget (m : ℤ) : ℕ := max 2 (2 * m).toNat

theorem BudgetedBy.mono {n n' : ℕ} {r : Except Err (Progress Frame Outcome)} (h : BudgetedBy n r)
    (hle : n ≤ n') : BudgetedBy n' r := fun frame hframe => (h frame hframe).trans hle

/-- A call is suspended in a frame with the budget of its kind. -/
theorem startCall_budget {call : Call} {m : ℤ} {w : World}
    (h : ∀ input, call = .accessMockEndpoint input → input.maxAttempts = m) :
    wp (startCall env call) (fun r _ => BudgetedBy (handlerBudget m) r) w := by
  have htwo : 2 ≤ handlerBudget m := le_max_left ..
  have hsync : ∀ {α : Type} (op : Op α) (outcome : α → Outcome) (w : World),
      wp (synchronously op outcome) (fun r _ => BudgetedBy (handlerBudget m) r) w :=
    fun op outcome w => wp_mono (wp_synchronously_budgeted op outcome) fun r w' hr =>
      hr.mono (Nat.zero_le _)
  have honce : ∀ {φ : Type} (op : Op φ) (onFrame : φ → Frame) (w : World),
      (∀ f, (onFrame f).budget ≤ 2) → wp (do return Progress.awaiting (onFrame (← op)))
        (fun r _ => BudgetedBy (handlerBudget m) r) w := by
    intro φ op onFrame w honFrame
    refine wp_bind (wp_any fun r w' => ?_)
    cases r with
    | error err => exact budgetedBy_error err
    | ok f => exact wp_pure (budgetedBy_awaiting ((honFrame f).trans htwo))
  have hmap : ∀ {φ α : Type} (op : Op (Progress φ α)) (onFrame : φ → Frame) (onValue : α → Outcome)
      (w : World), (∀ f, (onFrame f).budget ≤ 2) → wp (do return (← op).map onFrame onValue)
        (fun r _ => BudgetedBy (handlerBudget m) r) w :=
    fun op onFrame onValue w honFrame =>
      wp_map_budgeted (wp_any fun r w' f _ => (honFrame f).trans htwo)
  cases call with
  | approveRequest input => exact honce _ _ _ fun _ => Nat.le_succ 1
  | registerAgentIdentity => exact honce _ _ _ fun _ => Nat.le_succ 1
  | enforceToken | accessCustomerData | authenticateAgent => exact hmap _ _ _ _ fun _ => Nat.le_succ 1
  | delegateToken input =>
    refine hmap _ _ _ _ fun frame => ?_
    cases frame with
    | verifying => exact le_rfl
    | issuing => exact Nat.le_succ 1
  | accessMockEndpoint input =>
    have hm := h input rfl
    have henforcing : ∀ enforce, (Frame.access (.enforcing input enforce)).budget ≤ handlerBudget m := by
      intro enforce
      simp only [Frame.budget, handlerBudget, hm]
      omega
    refine wp_map_budgeted (wp_bind (wp_any fun r w' => ?_))
    cases r with
    | error err => exact fun f hf => by cases hf
    | ok progress =>
      cases progress with
      | awaiting frame =>
        refine wp_pure fun f hf => ?_
        cases hf
        exact henforcing frame
      | returned decision =>
        refine wp_mono (accessAfter_budget input decision) fun r w'' hr f hf => (hr f hf).trans ?_
        rw [handlerBudget, hm]
        omega
  | getTokenLineage tokenId => exact wp_bind (wp_get (hsync _ _ _))
  | _ => exact hsync _ _ _

/-! ## What is left to do -/

/-- How often the suspended calls go on, at most. -/
def Config.work {κ : Type} (c : Config κ) : ℕ := (c.inflight.map fun x => x.frame.budget).sum

theorem settle_work {κ : Type} (client : κ) (call : Call) (inflight : List (InFlight κ))
    {piece : Op (Progress Frame Outcome)} {w : World} {n : ℕ}
    (hpiece : wp piece (fun r _ => BudgetedBy n r) w) :
    (Config.settle client call inflight (piece w)).1.work ≤
      (inflight.map fun x => x.frame.budget).sum + n := by
  unfold Config.settle
  cases hrun : piece w with
  | error err w' => exact Nat.le_add_right _ _
  | ok progress w' =>
    cases progress with
    | returned outcome => exact Nat.le_add_right _ _
    | awaiting frame =>
      have hframe := wp_ok hpiece hrun frame rfl
      simp only [Config.work, List.map_append, List.sum_append, List.map_cons, List.map_nil,
        List.sum_singleton]
      omega

/-- What a handler calls next adds nothing, if the call never awaits. -/
theorem follow_work {ran : Config Exchange × Option (Settled Exchange)}
    (h : ∀ s ∈ ran.2, ∀ next, s.client.next ran.1.world s.call s.outcome = some next →
      next.2.Prompt env) : (follow env ran).1.work ≤ ran.1.work := by
  obtain ⟨c, output⟩ := ran
  cases output with
  | none => exact le_rfl
  | some s =>
    simp only [follow]
    cases hnext : s.client.next c.world s.call s.outcome with
    | none => exact le_rfl
    | some next =>
      exact settle_work next.1 next.2 c.inflight (h s rfl next hnext c.world)

/-- A handler that goes on has less left to do. -/
theorem serve_resume_work {c : Config Exchange} (hc : c.Sound env) {i : ℕ} (downstream : Downstream)
    {x : InFlight Exchange} (hx : c.inflight[i]? = some x) :
    (serve env c (.resume i downstream)).1.work < c.work := by
  have hrun : (c.exec env (.resume i downstream)).1.work < c.work := by
    simp only [Config.exec, hx]
    have hwork := settle_work x.client x.call (c.inflight.eraseIdx i)
      (@resumeFrame_budget env c.world downstream x.frame)
    obtain ⟨hlt, rfl⟩ := List.getElem?_eq_some_iff.mp hx
    have hperm := ((List.getElem_cons_eraseIdx_perm hlt).map fun x : InFlight Exchange =>
      x.frame.budget).sum_eq
    have hpos := (c.inflight[i]).frame.budget_pos
    rw [List.map_cons, List.sum_cons] at hperm
    show _ < (c.inflight.map fun x => x.frame.budget).sum
    omega
  refine (follow_work fun s hs next hnext => ?_).trans_lt hrun
  simp only [Config.exec, hx] at hs
  have hcall := (Config.settle_settled.1 s hs).2
  have hawaits := (hc.frames x (List.mem_of_getElem? hx)).awaits
  rw [← hcall] at hawaits
  exact Exchange.next_prompt hawaits hnext

/-- The runs whose accesses make `m` attempts. -/
def punctuality (env : Env) (m : ℤ) : CallInvariant env where
  allowed call := ∀ input, call = .accessMockEndpoint input → input.maxAttempts = m
  world _ := True
  frame _ frame := frame.budget ≤ handlerBudget m
  outcome _ _ _ := True
  boots _ _ := trivial
  restarts _ _ := trivial
  clock _ _ _ := trivial
  starts w call _ h := wp_mono (startCall_budget h) fun r w' hr => ⟨trivial, hr, fun _ _ => trivial⟩
  resumes w call downstream frame _ hframe := by
    refine wp_mono (resumeFrame_budget downstream frame) fun r w' hr => ⟨trivial, ?_, fun _ _ => trivial⟩
    exact hr.mono ((Nat.sub_le _ _).trans hframe)

section
variable {env : ServerEnv}

namespace HttpServer

variable {s : HttpServer env} {request : HttpRequest}

/-- How often the suspended handlers go on, at most. -/
def work (s : HttpServer env) : ℕ :=
  (s.logins.map fun login => login.frame.rest.length + 1).sum + s.process.work

/-- The action goes on with a suspended handler. -/
def resumes (s : HttpServer env) : HttpAction → Option Unit
  | .resume i _ => s.process.inflight[i]?.map fun _ => ()
  | .resumeLogin i => s.logins[i]?.map fun _ => ()
  | _ => none

theorem work_eq_zero_iff : s.work = 0 ↔ s.waiting = [] := by
  have hlogins : (s.logins.map fun login => login.frame.rest.length + 1).sum = 0 ↔ s.logins = [] := by
    cases s.logins <;> simp
  have hprocess : s.process.work = 0 ↔ s.process.inflight = [] := by
    unfold Config.work
    cases s.process.inflight with
    | nil => simp
    | cons x inflight =>
      have := x.frame.budget_pos
      simp only [List.map_cons, List.sum_cons, reduceCtorEq, iff_false]
      omega
  rw [work, Nat.add_eq_zero_iff, hlogins, hprocess, waiting, List.append_eq_nil_iff, List.map_eq_nil_iff,
    List.map_eq_nil_iff, Config.waiting, List.map_eq_nil_iff]

theorem finishLogin_work (sessionConfig : SessionTokenConfig) (reply : LoginReply) :
    (s.finishLogin request sessionConfig reply).1.work = s.work := by
  cases reply with
  | notConfigured | malformed | failed => rfl
  | unauthorized | session =>
    unfold finishLogin
    dsimp only
    split <;> rfl

/-- A login is suspended for the identities that are left. -/
theorem continueLogin_work (request : HttpRequest) (sessionConfig : SessionTokenConfig)
    {r : Progress (LoginFrame env.toLoginPlatform) LoginReply × VerifierCache} {n : ℕ}
    (h : ∀ frame, r.1 = .awaiting frame → frame.rest.length + 1 ≤ n) :
    (s.continueLogin request sessionConfig r).1.work ≤ s.work + n := by
  obtain ⟨reply | frame, cache⟩ := r
  · rw [continueLogin, finishLogin_work]
    exact Nat.le_add_right _ _
  · have hframe := h frame rfl
    simp only [continueLogin, work, List.map_append, List.sum_append, List.map_cons, List.map_nil,
      List.sum_singleton]
    omega

/-- Whatever goes on has less left to do, and without new requests nothing has more. -/
theorem exec_work (hs : s.process.Sound env.toEnv) {a : HttpAction} (ha : a.brings = [])
    (hrestart : a ≠ .restart) : (s.resumes a).toList.length + (s.exec a).1.work ≤ s.work := by
  cases a with
  | arrive request => cases ha
  | resume i downstream =>
    cases hx : s.process.inflight[i]? with
    | none =>
      have hsame : (serve env.toEnv s.process (.resume i downstream)).1 = s.process := by
        simp only [serve, Config.exec, hx]
        rfl
      simp only [resumes, hx, exec, work, hsame]
      exact le_of_eq (Nat.zero_add _)
    | some x =>
      have hless := serve_resume_work hs downstream hx
      simp only [resumes, hx, exec, work, Option.map_some, Option.toList_some, List.length_singleton]
      omega
  | resumeLogin i =>
    cases hlogin : s.logins[i]? with
    | none =>
      simp only [resumes, exec, hlogin]
      exact le_of_eq (Nat.zero_add _)
    | some old =>
      have hless : ∀ frame, loginReply env.toLoginPlatform old.frame.attempt
          (old.frame.resume env.toLoginPlatform s.totpVerifierCache s.now).1 = .awaiting frame →
          frame.rest.length + 1 ≤ old.frame.rest.length := by
        intro frame hframe
        have hawaiting := LoginServer.loginReply_awaiting hframe
        rcases old.frame.resume_cases s.totpVerifierCache s.now with
          ⟨-, ⟨err, herr⟩ | hrest⟩ | ⟨v, hresume, -⟩
        · cases herr.symm.trans hawaiting
        · obtain ⟨-, hsuffix⟩ :=
            findAuthenticatedOperator_awaiting (Except.ok.inj (hrest.symm.trans hawaiting))
          exact hsuffix.length_le
        · rw [hresume] at hawaiting
          cases hawaiting
      have hwork := continueLogin_work (s := { s with logins := s.logins.eraseIdx i }) old.request
        old.sessionConfig (r := (loginReply env.toLoginPlatform old.frame.attempt
          (old.frame.resume env.toLoginPlatform s.totpVerifierCache s.now).1,
          (old.frame.resume env.toLoginPlatform s.totpVerifierCache s.now).2)) hless
      obtain ⟨hlt, hold⟩ := List.getElem?_eq_some_iff.mp hlogin
      have hperm := ((List.getElem_cons_eraseIdx_perm hlt).map fun login : SuspendedLogin env =>
        login.frame.rest.length + 1).sum_eq
      rw [List.map_cons, List.sum_cons, hold] at hperm
      simp only [resumes, hlogin, exec, Option.map_some, Option.toList_some, List.length_singleton]
      have hbefore : s.work = (s.logins.map fun login => login.frame.rest.length + 1).sum +
        s.process.work := rfl
      have hafter : ({ s with logins := s.logins.eraseIdx i } : HttpServer env).work =
        ((s.logins.eraseIdx i).map fun login => login.frame.rest.length + 1).sum + s.process.work := rfl
      omega
  | clock | setVariables => exact le_of_eq (Nat.zero_add _)
  | restart => exact absurd rfl hrestart

end HttpServer

variable {acts : List HttpAction}

theorem sound_foldl {κ : Type} {env : Env} {c : Config κ} (hc : c.Sound env) (acts : List (Action κ)) :
    (acts.foldl (Config.step env) c).Sound env := by
  induction acts generalizing c with
  | nil => exact hc
  | cons a acts ih =>
    obtain ⟨e, hadvances⟩ := hc.exec a
    exact ih hadvances.sound

theorem HttpServer.exec_sound {s : HttpServer env} (hs : s.process.Sound env.toEnv) (a : HttpAction) :
    (s.exec a).1.process.Sound env.toEnv := by
  rw [(HttpServer.exec_follows a).process]
  generalize s.pieces a = acts
  generalize s.process = c at hs
  induction acts generalizing c with
  | nil => exact hs
  | cons a acts ih =>
    refine ih _ ?_
    show (serve env.toEnv c a).1.Sound env.toEnv
    rw [serve_fst]
    exact sound_foldl hs _

theorem process_sound (env : ServerEnv) (acts : List HttpAction) :
    ((httpMachine env).run acts).process.Sound env.toEnv := by
  rw [http_process, server_run]
  exact Config.sound_run _

/-- A suspended call has a budget of the deployment. -/
theorem budget_le {x : InFlight Exchange} (hx : x ∈ ((httpMachine env).run acts).process.inflight) :
    x.frame.budget ≤ handlerBudget (env.accessMaxAttempts.getD 2) := by
  rw [http_process, server_run] at hx
  refine ((punctuality env.toEnv (env.accessMaxAttempts.getD 2)).run trivial ?_).frames x hx
  rintro client _ hcall input rfl
  obtain ⟨hroute, -, hattempts⟩ := (trace_makes _ _ _ hcall).asks
  obtain ⟨pre, act, post, -, hmem⟩ := (routesSimulation env).mem_trace (arrived_of_call hcall)
  rcases HttpServer.mem_pieces hmem with ⟨request, -, route, -, harrival⟩ | hanonymous
  · obtain ⟨-, -, hsettings, -⟩ := HttpRequest.arrival_ok harrival
    rw [hattempts, hsettings]
    rfl
  · rcases hanonymous.route with hlist | hlogin
    · cases hroute.symm.trans hlist
    · rw [hroute] at hlogin
      cases hlogin

/-- What is left to do in a state: it is done when nothing waits; until then each suspended handler
goes on no more often than its request allows; and whatever order they go on in, without new requests
they come to their ends. -/
structure HandlersEnd (env : ServerEnv) (acts : List HttpAction) : Prop where
  idle : ((httpMachine env).run acts).work = 0 ↔ ((httpMachine env).run acts).waiting = []
  bounded : ((httpMachine env).run acts).work ≤
    ((httpMachine env).run acts).waiting.length * handlerBudget (env.accessMaxAttempts.getD 2)
  falls : ∀ more, (∀ a ∈ more, a.brings = [] ∧ a ≠ .restart) →
    ((httpMachine env).outputsFrom HttpServer.resumes ((httpMachine env).run acts) more).length +
      ((httpMachine env).run (acts ++ more)).work ≤ ((httpMachine env).run acts).work

/-- **Every handler comes to its end**, in every state of every run and in every order. -/
theorem handlers_end (env : ServerEnv) (acts : List HttpAction) : HandlersEnd env acts := by
  refine ⟨HttpServer.work_eq_zero_iff, ?_, fun more hmore => ?_⟩
  · have hbudget : 2 ≤ handlerBudget (env.accessMaxAttempts.getD 2) := le_max_left ..
    have hlogins := List.sum_le_card_nsmul
      (((httpMachine env).run acts).logins.map fun login => login.frame.rest.length + 1)
      (handlerBudget (env.accessMaxAttempts.getD 2)) (by
        intro n hn
        obtain ⟨login, hlogin, rfl⟩ := List.mem_map.mp hn
        obtain ⟨pre, a, post, -, request, -, hbegins⟩ := logins_begun hlogin
        have := hbegins.few
        omega)
    have hprocess := List.sum_le_card_nsmul
      (((httpMachine env).run acts).process.inflight.map fun x => x.frame.budget)
      (handlerBudget (env.accessMaxAttempts.getD 2)) (by
        intro n hn
        obtain ⟨x, hx, rfl⟩ := List.mem_map.mp hn
        exact budget_le hx)
    rw [List.length_map, nsmul_eq_mul, Nat.cast_id] at hlogins hprocess
    rw [HttpServer.work, HttpServer.waiting, List.length_append, List.length_map, List.length_map,
      Config.waiting, List.length_map, Nat.add_mul]
    exact Nat.add_le_add hlogins hprocess
  · rw [Machine.run_append]
    refine Machine.length_outputsFrom_le (I := fun s => s.process.Sound env.toEnv)
      (fun s a ha hs => ?_) (process_sound env acts)
    obtain ⟨hbrings, hrestart⟩ := hmore a ha
    exact ⟨HttpServer.exec_sound hs a, HttpServer.exec_work hs hbrings hrestart⟩

end

end Ambit
