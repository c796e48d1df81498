import Ambit.AmbitClient

/-! Submissions that are retried over a network: what a client's call sends, what arrives of it,
and that its attempts come to one request. -/

namespace Ambit

open Effect

variable {env : Env}

/-! ## What the server handles -/

theorem followUp_arrival {ran : Config Exchange × Option (Settled Exchange)} {x : Exchange}
    {call : Call} (h : Action.call x call ∈ followUp ran) :
    ∃ s, ran.2 = some s ∧ x.arrival = s.client.arrival := by
  obtain ⟨⟨x', call'⟩, hnext, hcall⟩ := Option.map_eq_some_iff.mp (Option.mem_toList.mp h)
  obtain ⟨s, hs, hnext⟩ := Option.bind_eq_some_iff.mp hnext
  cases hcall
  exact ⟨s, hs, Exchange.next_arrival hnext⟩

/-- A call of the process is made for a request that has arrived. -/
theorem arrived_of_call {acts : List ServerAction} {x : Exchange} {call : Call}
    (h : Action.call x call ∈ processTrace env acts) : .arrive x.arrival ∈ acts := by
  induction acts using List.reverseRecOn generalizing x call with
  | nil => cases h
  | append_singleton acts a ih =>
    rw [processTrace, Machine.trace_snoc] at h
    rcases List.mem_append.mp h with h | h
    · exact List.mem_append_left _ (ih h)
    · cases a with
      | arrive a =>
        suffices harrival : x.arrival = a by
          rw [harrival]
          exact List.mem_append_right _ (List.mem_singleton.mpr rfl)
        simp only [pieces] at h
        split at h
        · cases h
        · rename_i x' call' hhandle
          rcases List.mem_cons.mp h with hcall | hmem
          · cases hcall
            exact handle_arrival hhandle
          · obtain ⟨s, hs, harrival⟩ := followUp_arrival hmem
            rw [harrival, (Config.settle_settled.1 s hs).1]
            exact handle_arrival hhandle
      | resume i downstream =>
        rcases List.mem_cons.mp h with hcall | hmem
        · cases hcall
        · obtain ⟨s, hs, harrival⟩ := followUp_arrival hmem
          rw [server_run] at hs
          simp only [Config.exec] at hs
          split at hs
          · cases hs
          · -- the call in flight was made for a request that had arrived
            rename_i y hy
            rw [harrival, (Config.settle_settled.1 s hs).1]
            exact List.mem_append_left _ (ih (started_of_inflight (List.mem_of_getElem? hy)))
      | clock | restart => cases List.mem_singleton.mp h

/-- A reply is to a request that has arrived. -/
theorem reply_arrived {acts : List ServerAction} {reply : Reply} (h : reply ∈ replies env acts) :
    .arrive reply.exchange.arrival ∈ acts := by
  rcases reply_cases h with ⟨arrival, w, response, harrived, -, rfl⟩ | ⟨s, hs, hanswers⟩
  · exact harrived
  · rw [hanswers.1]
    exact arrived_of_call (started_of_settled hs)

/-! ## What a call sends -/

namespace ClientCall

variable {call call' : ClientCall}

/-- What a call sends until it stands where it stands. -/
def sent (call : ClientCall) (index : Nat) : List Post :=
  match call.config.agentCredential with
  | some agentCredential =>
    (List.range call.attempt).map fun k => ⟨⟨index, k + 1⟩, agentCredential, call.params⟩
  | none => []

theorem sent_of_credential {agentCredential : String}
    (h : call.config.agentCredential = some agentCredential) (index : Nat) : call.sent index =
      (List.range call.attempt).map fun k => ⟨⟨index, k + 1⟩, agentCredential, call.params⟩ := by
  rw [sent, h]

theorem sent_params {index : Nat} {post : Post} (h : post ∈ call.sent index) :
    post.params = call.params := by
  unfold sent at h
  split at h
  · obtain ⟨k, -, rfl⟩ := List.mem_map.mp h
    rfl
  · cases h

theorem sent_credential {index : Nat} {post : Post} (h : post ∈ call.sent index) :
    call.config.agentCredential = some post.agentCredential := by
  unfold sent at h
  split at h
  · rename_i hcredential
    obtain ⟨k, -, rfl⟩ := List.mem_map.mp h
    exact hcredential
  · cases h

/-- A call after a step of its loop: it makes its next attempt, or sends nothing. -/
structure Follows (call call' : ClientCall) : Prop where
  config_eq : call'.config = call.config
  params_eq : call'.params = call.params
  attempts : (call'.attempt = call.attempt ∧ call'.phase ≠ .waiting) ∨
    (call'.attempt = call.attempt + 1 ∧ call'.phase = .waiting ∧
      (JsNumber.finite call'.attempt).le call.maxAttempts = true)

theorem next_follows (lastStatus : Nat) : call.Follows (call.next lastStatus) := by
  unfold next
  split
  · rename_i hle
    exact ⟨rfl, rfl, .inr ⟨rfl, rfl, hle⟩⟩
  · exact ⟨rfl, rfl, .inl ⟨rfl, by simp⟩⟩

theorem fails_follows (status : Nat) : call.Follows (call.fails status) := by
  unfold fails
  dsimp only
  split <;> exact ⟨rfl, rfl, .inl ⟨rfl, by simp⟩⟩

theorem receives_follows (response : Response) (truncated : Bool) :
    call.Follows (call.receives response truncated) := by
  unfold receives
  split
  · exact ⟨rfl, rfl, .inl ⟨rfl, by simp⟩⟩
  · exact fails_follows _

theorem post_of_not_waiting (h : call.phase ≠ .waiting) (index : Nat) : call.post index = none := by
  unfold post
  split
  · rename_i hphase _
    exact absurd hphase h
  · rfl

theorem post_of_waiting (h : call.phase = .waiting) {agentCredential : String}
    (hcredential : call.config.agentCredential = some agentCredential) (index : Nat) :
    call.post index = some ⟨⟨index, call.attempt⟩, agentCredential, call.params⟩ := by
  rw [post, h, hcredential]

theorem post_call {index : Nat} {post : Post} (h : call.post index = some post) :
    post.connection.call = index := by
  unfold ClientCall.post at h
  split at h
  · cases h
    rfl
  · cases h

/-- A step adds to what has been sent the post that it sends. -/
theorem Follows.sent_eq (h : call.Follows call')
    (hcredential : (truthy call.config.agentCredential).isSome) (index : Nat) :
    call'.sent index = call.sent index ++ (call'.post index).toList := by
  obtain ⟨agentCredential, htruthy⟩ := Option.isSome_iff_exists.mp hcredential
  obtain ⟨hcredential, -⟩ := truthy_eq_some.mp htruthy
  have hcredential' : call'.config.agentCredential = some agentCredential := h.config_eq ▸ hcredential
  rw [sent_of_credential hcredential, sent_of_credential hcredential', h.params_eq]
  rcases h.attempts with ⟨hattempt, hphase⟩ | ⟨hattempt, hphase, -⟩
  · rw [post_of_not_waiting hphase, hattempt, Option.toList_none, List.append_nil]
  · rw [post_of_waiting hphase hcredential', hattempt, List.range_succ, List.map_append, h.params_eq]
    rfl

/-- What holds of a call wherever it stands. -/
structure Sound (call : ClientCall) : Prop where
  bounded : call.attempt = 0 ∨ (JsNumber.finite call.attempt).le call.maxAttempts = true
  /-- Without a credential the call throws before its loop. -/
  refused : truthy call.config.agentCredential = none → call.attempt = 0 ∧ call.phase = .failed 0
  tried : (truthy call.config.agentCredential).isSome →
    (JsNumber.finite 1).le call.maxAttempts = true → 1 ≤ call.attempt

theorem Sound.sent_length (h : call.Sound) (index : Nat) :
    (call.sent index).length = call.attempt := by
  cases hcredential : call.config.agentCredential with
  | none =>
    have hnone : truthy call.config.agentCredential = none := by rw [hcredential]; rfl
    rw [(h.refused hnone).1, sent, hcredential, List.length_nil]
  | some => rw [sent_of_credential hcredential, List.length_map, List.length_range]

theorem Follows.maxAttempts_eq (h : call.Follows call') : call'.maxAttempts = call.maxAttempts := by
  rw [maxAttempts, maxAttempts, h.config_eq, h.params_eq]

theorem Follows.attempt_le (h : call.Follows call') : call.attempt ≤ call'.attempt := by
  rcases h.attempts with ⟨hattempt, -⟩ | ⟨hattempt, -⟩ <;> omega

theorem Sound.follows (hcall : call.Sound) (h : call.Follows call')
    (hlive : call.phase ≠ .failed 0) : call'.Sound := by
  refine ⟨?_, fun hnone => ?_, fun hsome hle => ?_⟩
  · rw [h.maxAttempts_eq]
    rcases h.attempts with ⟨hattempt, -⟩ | ⟨-, -, hle⟩
    · rw [hattempt]
      exact hcall.bounded
    · exact .inr hle
  · rw [h.config_eq] at hnone
    exact absurd (hcall.refused hnone).2 hlive
  · rw [h.maxAttempts_eq] at hle
    rw [h.config_eq] at hsome
    exact (hcall.tried hsome hle).trans h.attempt_le

variable (config : AmbitClientConfig) (params : RequestTokenParams)

/-- A call before its loop. -/
def begun : ClientCall := { config, params, attempt := 0, phase := .failed 0 }

theorem start_refused (h : truthy config.agentCredential = none) :
    start config params = begun config params := by
  simp [start, begun, h]

theorem start_next (h : (truthy config.agentCredential).isSome) :
    start config params = (begun config params).next 0 := by
  simp [start, begun, h]

theorem start_config : (start config params).config = config := by
  cases h : truthy config.agentCredential with
  | none => rw [start_refused _ _ h, begun]
  | some => rw [start_next _ _ (by rw [h]; rfl), (next_follows 0).config_eq, begun]

theorem start_params : (start config params).params = params := by
  cases h : truthy config.agentCredential with
  | none => rw [start_refused _ _ h, begun]
  | some => rw [start_next _ _ (by rw [h]; rfl), (next_follows 0).params_eq, begun]

theorem start_sound : (start config params).Sound := by
  cases h : truthy config.agentCredential with
  | none =>
    rw [start_refused _ _ h]
    exact ⟨.inl rfl, fun _ => ⟨rfl, rfl⟩, fun hsome => by simp [begun, h] at hsome⟩
  | some agentCredential =>
    have hsome : (truthy config.agentCredential).isSome := by rw [h]; rfl
    rw [start_next _ _ hsome]
    have hfollows : (begun config params).Follows ((begun config params).next 0) := next_follows 0
    refine ⟨?_, fun hnone => ?_, fun _ hle => ?_⟩
    · rw [hfollows.maxAttempts_eq]
      rcases hfollows.attempts with ⟨hattempt, -⟩ | ⟨-, -, hle⟩
      · exact .inl hattempt
      · exact .inr hle
    · rw [hfollows.config_eq] at hnone
      cases hnone.symm.trans h
    · rw [hfollows.maxAttempts_eq] at hle
      have hfirst : (JsNumber.finite (((begun config params).attempt + 1 : Nat) : ℚ)).le
          (begun config params).maxAttempts = true := by simpa [begun] using hle
      rw [next, if_pos hfirst]
      exact Nat.le_refl 1

theorem start_sent (index : Nat) :
    (start config params).sent index = ((start config params).post index).toList := by
  cases h : truthy config.agentCredential with
  | none =>
    rw [start_refused _ _ h, post_of_not_waiting (by simp [begun]), sent]
    split <;> rfl
  | some agentCredential =>
    have hsome : (truthy config.agentCredential).isSome := by rw [h]; rfl
    have hnil : (begun config params).sent index = [] := by
      rw [sent]
      split <;> rfl
    rw [start_next _ _ hsome, (next_follows 0).sent_eq hsome, hnil, List.nil_append]

/-- The ways in which a call goes on, with the responses that may have arrived for it. -/
inductive Moves (arrived : Response → Prop) (call : ClientCall) : ClientCall → Prop
  | receives {response : Response} (truncated : Bool) (hphase : call.phase = .waiting)
      (harrived : arrived response) : Moves arrived call (call.receives response truncated)
  | fails (hphase : call.phase = .waiting) : Moves arrived call (call.fails 0)
  | wakes {lastStatus : Nat} (hphase : call.phase = .sleeping lastStatus) :
      Moves arrived call (call.next lastStatus)

variable {arrived : Response → Prop}

theorem Moves.follows (h : call.Moves arrived call') : call.Follows call' := by
  cases h with
  | receives => exact receives_follows _ _
  | fails => exact fails_follows _
  | wakes => exact next_follows _

theorem Moves.live (h : call.Moves arrived call') : call.phase ≠ .failed 0 := by
  cases h with
  | receives _ hphase | fails hphase | wakes hphase =>
    rw [hphase]
    simp

/-- A call returns what a response that was `ok` carries. -/
theorem Moves.returned (h : call.Moves arrived call') {body : Body}
    (hphase : call'.phase = .returned (some body)) :
    ∃ response, arrived response ∧ response.ok = true ∧ response.body = some body := by
  have hfails : ∀ status, (call.fails status).phase ≠ .returned (some body) := by
    intro status
    unfold ClientCall.fails
    dsimp only
    split <;> simp
  cases h with
  | @receives response truncated _ harrived =>
    unfold ClientCall.receives at hphase
    split at hphase
    · rename_i hok
      refine ⟨response, harrived, hok, ?_⟩
      cases truncated with
      | true => cases hphase
      | false => exact ClientPhase.returned.inj hphase
    · exact absurd hphase (hfails _)
  | fails => exact absurd hphase (hfails 0)
  | wakes =>
    unfold next at hphase
    split at hphase <;> cases hphase

end ClientCall

/-! ## A step of the network -/

namespace Network

variable {n : Network} {a : NetworkAction}

theorem take_server : (n.take a).server = n.server := by cases a <;> rfl

theorem exec_calls : (n.exec env a).calls = setCall n.calls (n.movedCall a) := by
  unfold exec
  dsimp only
  split <;> rfl

theorem exec_server :
    (n.exec env a).server = (n.serverAction a).toList.foldl (serverMachine env).step n.server := by
  unfold exec
  dsimp only
  split
  · rename_i hserver
    rw [hserver]
    rfl
  · rename_i hserver
    rw [hserver]
    exact take_server

theorem mem_exec_requests {post : Post} (h : post ∈ (n.exec env a).requests) :
    post ∈ n.requests ∨ n.sentPost a = some post := by
  have hmem : post ∈ (n.take a).requests ++ (n.sentPost a).toList := by
    unfold exec at h
    dsimp only at h
    split at h <;> exact h
  rcases List.mem_append.mp hmem with htake | hsent
  · refine .inl ?_
    cases a with
    | deliverRequest | loseRequest => exact List.mem_of_mem_eraseIdx htake
    | _ => exact htake
  · exact .inr (Option.mem_toList.mp hsent)

/-- A response in flight was there before, or the server has just sent it. -/
theorem mem_exec_responses {connection : Connection} {response : Response}
    (h : (connection, response) ∈ (n.exec env a).responses) :
    (connection, response) ∈ n.responses ∨
      ∃ action reply, n.serverAction a = some action ∧
        (serve env n.server action).2 = some reply ∧
        reply.exchange.arrival.connection = some connection ∧ reply.response = response := by
  have htake : ∀ {message}, message ∈ (n.take a).responses → message ∈ n.responses := by
    intro message hmem
    cases a with
    | deliverResponse | loseResponse => exact List.mem_of_mem_eraseIdx hmem
    | _ => exact hmem
  unfold exec at h
  dsimp only at h
  split at h
  · rename_i action haction
    rcases List.mem_append.mp h with hold | hnew
    · exact .inl (htake hold)
    · obtain ⟨reply, hreply, hmessage⟩ := Option.bind_eq_some_iff.mp (Option.mem_toList.mp hnew)
      obtain ⟨connection', hconnection, hpair⟩ := Option.map_eq_some_iff.mp hmessage
      cases hpair
      exact .inr ⟨action, reply, haction, hreply, hconnection, rfl⟩
  · exact .inl (htake h)

/-- The responses in flight to a call. -/
def Arrives (n : Network) (index : Nat) (response : Response) : Prop :=
  ∃ attempt, (⟨index, attempt⟩, response) ∈ n.responses

/-- The call that an action moves is new, or goes on from where it stood. -/
theorem movedCall_cases {index : Nat} {call' : ClientCall}
    (h : n.movedCall a = some (index, call')) :
    (∃ config params, a = .invoke config params ∧ index = n.calls.length ∧
      call' = .start config params) ∨
    ∃ call, n.calls[index]? = some call ∧ call.Moves (n.Arrives index) call' := by
  cases a with
  | invoke config params =>
    cases h
    exact .inl ⟨config, params, rfl, rfl, rfl⟩
  | deliverResponse i truncated =>
    obtain ⟨⟨connection, response⟩, hmem, h⟩ := Option.bind_eq_some_iff.mp h
    obtain ⟨call, hcall, h⟩ := Option.bind_eq_some_iff.mp h
    split at h
    · rename_i hphase
      split at h
      · cases h
        exact .inr ⟨call, hcall, .receives truncated hphase ⟨_, List.mem_of_getElem? hmem⟩⟩
      · cases h
    · cases h
  | giveUp i =>
    obtain ⟨call, hcall, h⟩ := Option.bind_eq_some_iff.mp h
    split at h
    · rename_i hphase
      cases h
      exact .inr ⟨call, hcall, .fails hphase⟩
    · cases h
  | wake i =>
    obtain ⟨call, hcall, h⟩ := Option.bind_eq_some_iff.mp h
    split at h
    · rename_i hphase
      cases h
      exact .inr ⟨call, hcall, .wakes hphase⟩
    · cases h
  | _ => cases h

theorem exec_length : n.calls.length ≤ (n.exec env a).calls.length := by
  rw [exec_calls]
  unfold setCall
  split
  · split <;> simp
  · exact Nat.le_refl _

theorem exec_moved {index : Nat} {call : ClientCall} (h : n.movedCall a = some (index, call)) :
    index < (n.exec env a).calls.length := by
  rw [exec_calls, h]
  unfold setCall
  dsimp only
  split
  · rename_i hlt
    rwa [List.length_set]
  · rcases movedCall_cases h with ⟨_, _, -, rfl, -⟩ | ⟨old, hold, -⟩
    · simp
    · rename_i hge
      exact absurd (List.getElem?_eq_some_iff.mp hold).1 hge

/-- A call after a step is the one that moved, or one that was there and did not. -/
theorem exec_call {index : Nat} {call : ClientCall} (h : (n.exec env a).calls[index]? = some call) :
    n.movedCall a = some (index, call) ∨
      (n.calls[index]? = some call ∧ ∀ call', n.movedCall a ≠ some (index, call')) := by
  rw [exec_calls] at h
  cases hmoved : n.movedCall a with
  | none =>
    rw [hmoved] at h
    exact .inr ⟨h, by simp⟩
  | some moved =>
    obtain ⟨j, call'⟩ := moved
    rw [hmoved, setCall] at h
    split at h
    · by_cases hj : j = index
      · subst hj
        rename_i hlt
        rw [List.getElem?_set_self hlt] at h
        cases h
        exact .inl rfl
      · rw [List.getElem?_set_ne hj] at h
        exact .inr ⟨h, fun call'' heq => hj (congrArg Prod.fst (Option.some.inj heq))⟩
    · -- a new call, behind the others
      have hj : j = n.calls.length := by
        rcases movedCall_cases hmoved with ⟨_, _, -, hj, -⟩ | ⟨old, hold, -⟩
        · exact hj
        · rename_i hge
          exact absurd (List.getElem?_eq_some_iff.mp hold).1 hge
      subst hj
      by_cases hindex : index < n.calls.length
      · rw [List.getElem?_append_left hindex] at h
        refine .inr ⟨h, fun call'' heq => ?_⟩
        cases heq
        exact Nat.lt_irrefl _ hindex
      · rw [List.getElem?_append_right (by omega)] at h
        obtain ⟨hzero, rfl⟩ : index - n.calls.length = 0 ∧ call' = call := by
          rcases hk : index - n.calls.length with _ | k
          · rw [hk] at h
            exact ⟨rfl, Option.some.inj h⟩
          · rw [hk] at h
            cases h
        obtain rfl : index = n.calls.length := by omega
        exact .inl rfl

end Network

/-! ## A run of the network -/

theorem posts_snoc (acts : List NetworkAction) (a : NetworkAction) :
    posts env (acts ++ [a]) =
      posts env acts ++ (((networkMachine env).run acts).sentPost a).toList :=
  Machine.outputs_snoc

theorem serverTrace_snoc (acts : List NetworkAction) (a : NetworkAction) :
    serverTrace env (acts ++ [a]) =
      serverTrace env acts ++ (((networkMachine env).run acts).serverAction a).toList :=
  Machine.trace_snoc

/-- The server's part of a run is a run of the server. -/
theorem network_server (acts : List NetworkAction) :
    ((networkMachine env).run acts).server = (serverMachine env).run (serverTrace env acts) := by
  induction acts using List.reverseRecOn with
  | nil => rfl
  | append_singleton acts a ih =>
    rw [Machine.run_snoc, serverTrace_snoc, Machine.run_append, ← ih]
    exact Network.exec_server

/-- A post in flight was sent by a call. -/
theorem posts_of_requests {acts : List NetworkAction} {post : Post}
    (h : post ∈ ((networkMachine env).run acts).requests) : post ∈ posts env acts := by
  induction acts using List.reverseRecOn with
  | nil => cases h
  | append_singleton acts a ih =>
    rw [Machine.run_snoc] at h
    rw [posts_snoc]
    rcases Network.mem_exec_requests h with hold | hsent
    · exact List.mem_append_left _ (ih hold)
    · exact List.mem_append_right _ (Option.mem_toList.mpr hsent)

/-- What arrives on a client's connection is the post that the client sent on it. -/
theorem post_of_arrived {acts : List NetworkAction} {a : Arrival} {connection : Connection}
    (h : .arrive a ∈ serverTrace env acts) (hconnection : a.connection = some connection) :
    ∃ post ∈ posts env acts, post.connection = connection ∧ a.route = post.route := by
  induction acts using List.reverseRecOn with
  | nil => cases h
  | append_singleton acts b ih =>
    rw [serverTrace_snoc] at h
    rw [posts_snoc]
    rcases List.mem_append.mp h with h | h
    · obtain ⟨post, hpost, hsame⟩ := ih h
      exact ⟨post, List.mem_append_left _ hpost, hsame⟩
    · have haction := Option.mem_toList.mp h
      cases b with
      | deliverRequest i overLimit settings =>
        obtain ⟨post, hpost, harrive⟩ := Option.map_eq_some_iff.mp haction
        cases harrive
        refine ⟨post, List.mem_append_left _ ?_, Option.some.inj hconnection, rfl⟩
        exact posts_of_requests (List.mem_of_getElem? hpost)
      | server action =>
        cases action with
        | arrive =>
          cases haction
          cases hconnection
        | _ => cases haction
      | _ => cases haction

theorem replies_trace_snoc (acts : List NetworkAction) (a : NetworkAction) :
    replies env (serverTrace env (acts ++ [a])) = replies env (serverTrace env acts) ++
      ((((networkMachine env).run acts).serverAction a).bind fun action =>
        (serve env ((networkMachine env).run acts).server action).2).toList := by
  rw [serverTrace_snoc, network_server]
  cases ((networkMachine env).run acts).serverAction a with
  | none => rw [Option.toList_none, List.append_nil, Option.bind_none, Option.toList_none,
      List.append_nil]
  | some action => exact replies_snoc _ _

/-- A response in flight was sent by the server, on the connection that it is on. -/
theorem reply_of_response {acts : List NetworkAction} {connection : Connection}
    {response : Response} (h : (connection, response) ∈ ((networkMachine env).run acts).responses) :
    ∃ reply ∈ replies env (serverTrace env acts),
      reply.exchange.arrival.connection = some connection ∧ reply.response = response := by
  induction acts using List.reverseRecOn with
  | nil => cases h
  | append_singleton acts a ih =>
    rw [Machine.run_snoc] at h
    rw [replies_trace_snoc]
    rcases Network.mem_exec_responses h with hold | ⟨action, reply, haction, hreply, hsame⟩
    · obtain ⟨reply, hmem, hsame⟩ := ih hold
      exact ⟨reply, List.mem_append_left _ hmem, hsame⟩
    · refine ⟨reply, List.mem_append_right _ ?_, hsame⟩
      rw [haction]
      exact Option.mem_toList.mpr hreply

/-- The calls of `requestToken` that are made along a run. -/
def invocations (acts : List NetworkAction) : List (AmbitClientConfig × RequestTokenParams) :=
  acts.filterMap fun
    | .invoke config params => some (config, params)
    | _ => none

/-- The posts that a call has sent. -/
def postsOf (env : Env) (acts : List NetworkAction) (index : Nat) : List Post :=
  (posts env acts).filter (·.connection.call = index)

theorem postsOf_snoc (acts : List NetworkAction) (a : NetworkAction) (index : Nat) :
    postsOf env (acts ++ [a]) index = postsOf env acts index ++
      (((networkMachine env).run acts).sentPost a).toList.filter (·.connection.call = index) := by
  rw [postsOf, posts_snoc, List.filter_append, postsOf]

/-- What a step sends, it sends for the call that it moves. -/
theorem Network.sentPost_filter {n : Network} {a : NetworkAction} {moved index : Nat}
    {call : ClientCall} (h : n.movedCall a = some (moved, call)) :
    (n.sentPost a).toList.filter (·.connection.call = index) =
      if moved = index then (call.post index).toList else [] := by
  have hsent : n.sentPost a = call.post moved := by rw [Network.sentPost, h, Option.bind_some]
  rw [hsent]
  cases hpost : call.post moved with
  | none =>
    split
    · rename_i hindex
      rw [← hindex, hpost]
      rfl
    · rfl
  | some post =>
    have hcall := ClientCall.post_call hpost
    split
    · rename_i hindex
      rw [← hindex, hpost]
      simp [hcall]
    · rename_i hindex
      simp [hcall, hindex]

/-- What holds of the calls of a run: each stands where its loop can bring it, and has sent what
it must have sent to get there. -/
structure CallsSound (env : Env) (acts : List NetworkAction) : Prop where
  sound : ∀ index call, ((networkMachine env).run acts).calls[index]? = some call →
    call.Sound ∧ postsOf env acts index = call.sent index
  fresh : ∀ index, ((networkMachine env).run acts).calls.length ≤ index → postsOf env acts index = []

theorem CallsSound.nil : CallsSound env [] :=
  ⟨(fun index call h => by cases h), fun _ _ => rfl⟩

theorem CallsSound.snoc {acts : List NetworkAction} (h : CallsSound env acts) (a : NetworkAction) :
    CallsSound env (acts ++ [a]) := by
  constructor
  · intro index call hcall
    rw [Machine.run_snoc] at hcall
    rw [postsOf_snoc]
    rcases Network.exec_call hcall with hmoved | ⟨hold, hunmoved⟩
    · rw [Network.sentPost_filter hmoved, if_pos rfl]
      rcases Network.movedCall_cases hmoved with ⟨config, params, -, rfl, rfl⟩ | ⟨old, hold, hmoves⟩
      · rw [h.fresh _ (Nat.le_refl _), List.nil_append]
        exact ⟨ClientCall.start_sound config params, (ClientCall.start_sent config params _).symm⟩
      · obtain ⟨hsound, hsent⟩ := h.sound index old hold
        have hcredential : (truthy old.config.agentCredential).isSome := by
          by_contra hnone
          exact hmoves.live (hsound.refused (Option.not_isSome_iff_eq_none.mp hnone)).2
        rw [hsent, hmoves.follows.sent_eq hcredential]
        exact ⟨hsound.follows hmoves.follows hmoves.live, rfl⟩
    · obtain ⟨hsound, hsent⟩ := h.sound index call hold
      refine ⟨hsound, ?_⟩
      rw [hsent]
      cases hmoved : ((networkMachine env).run acts).movedCall a with
      | none => rw [Network.sentPost, hmoved, Option.bind_none, Option.toList_none, List.filter_nil,
          List.append_nil]
      | some moved =>
        obtain ⟨j, call'⟩ := moved
        have hj : j ≠ index := by
          rintro rfl
          exact hunmoved _ hmoved
        rw [Network.sentPost_filter hmoved, if_neg hj, List.append_nil]
  · intro index hle
    rw [Machine.run_snoc] at hle
    rw [postsOf_snoc, h.fresh index (Network.exec_length.trans hle), List.nil_append]
    cases hmoved : ((networkMachine env).run acts).movedCall a with
    | none => rw [Network.sentPost, hmoved, Option.bind_none, Option.toList_none, List.filter_nil]
    | some moved =>
      obtain ⟨j, call'⟩ := moved
      have hlt : j < index := (Network.exec_moved hmoved).trans_le hle
      rw [Network.sentPost_filter hmoved, if_neg hlt.ne]

theorem callsSound_run (acts : List NetworkAction) : CallsSound env acts :=
  Machine.run_induction acts .nil fun _ a ih => ih.snoc a

/-- The calls are those that were made, in order, with their parameters. -/
theorem calls_invocations (acts : List NetworkAction) :
    ((networkMachine env).run acts).calls.map (fun call => (call.config, call.params)) =
      invocations acts := by
  induction acts using List.reverseRecOn with
  | nil => rfl
  | append_singleton acts a ih =>
    rw [Machine.run_snoc, invocations, List.filterMap_append, ← invocations, ← ih]
    show (Network.exec _ _ _).calls.map _ = _
    rw [Network.exec_calls]
    cases hmoved : ((networkMachine env).run acts).movedCall a with
    | none =>
      cases a with
      | invoke => cases hmoved
      | _ => exact (List.append_nil _).symm
    | some moved =>
      obtain ⟨index, call'⟩ := moved
      rcases Network.movedCall_cases hmoved with ⟨config, params, rfl, rfl, rfl⟩ | ⟨call, hcall, hmoves⟩
      · rw [Network.setCall, if_neg (Nat.lt_irrefl _), List.map_append, List.map_singleton,
          ClientCall.start_config, ClientCall.start_params]
        rfl
      · obtain ⟨hlt, hcall⟩ := List.getElem?_eq_some_iff.mp hcall
        have hnone : [a].filterMap (fun | .invoke config params => some (config, params) | _ => none)
            = ([] : List (AmbitClientConfig × RequestTokenParams)) := by
          cases a with
          | invoke =>
            cases hmoved
            exact absurd hlt (Nat.lt_irrefl _)
          | _ => rfl
        rw [hnone, List.append_nil, Network.setCall, if_pos hlt, List.map_set,
          hmoves.follows.config_eq, hmoves.follows.params_eq, ← hcall]
        exact List.ext_getElem (by simp) fun k hk hk' => by
          simp only [List.getElem_set, List.getElem_map]
          split
          · rename_i hindex
            subst hindex
            rfl
          · rfl

/-- What a call returns is what a response to it carries. -/
theorem reply_of_returned {acts : List NetworkAction} {index : Nat} {call : ClientCall} {body : Body}
    (h : ((networkMachine env).run acts).calls[index]? = some call)
    (hphase : call.phase = .returned (some body)) :
    ∃ reply ∈ replies env (serverTrace env acts), ∃ attempt,
      reply.exchange.arrival.connection = some ⟨index, attempt⟩ ∧ reply.response.ok = true ∧
      reply.response.body = some body := by
  induction acts using List.reverseRecOn generalizing call with
  | nil => cases h
  | append_singleton acts a ih =>
    rw [replies_trace_snoc]
    rw [Machine.run_snoc] at h
    rcases Network.exec_call h with hmoved | ⟨hunmoved, -⟩
    · rcases Network.movedCall_cases hmoved with ⟨config, params, -, rfl, rfl⟩ | ⟨old, -, hmoves⟩
      · unfold ClientCall.start at hphase
        dsimp only at hphase
        split at hphase
        · unfold ClientCall.next at hphase
          split at hphase <;> cases hphase
        · cases hphase
      · obtain ⟨response, ⟨attempt, hresponse⟩, hok, hbody⟩ := hmoves.returned hphase
        obtain ⟨reply, hmem, hconnection, rfl⟩ := reply_of_response hresponse
        exact ⟨reply, List.mem_append_left _ hmem, attempt, hconnection, hok, hbody⟩
    · obtain ⟨reply, hmem, hsame⟩ := ih hunmoved hphase
      exact ⟨reply, List.mem_append_left _ hmem, hsame⟩

/-! ## What submissions come to -/

/-- The response to a submission of the subject under the key, with which it succeeded. -/
def Reply.Succeeds (reply : Reply) (subject key : String) : Prop :=
  reply.response.ok = true ∧ reply.exchange.agentIdentity = some subject ∧
    ∃ scope ttlSeconds, reply.exchange.arrival.route = .submit scope ttlSeconds (some key)

/-- The payload that a call under a key returns is the body of a response to its submission. -/
theorem succeeds_of_returned {acts : List NetworkAction} {index : Nat} {call : ClientCall}
    {body : Body} (h : ((networkMachine env).run acts).calls[index]? = some call)
    (hphase : call.phase = .returned (some body)) {key : String}
    (hkey : truthy call.params.idempotencyKey = some key) :
    ∃ reply ∈ replies env (serverTrace env acts), ∃ subject, reply.Succeeds subject key ∧
      reply.response.body = some body := by
  obtain ⟨reply, hmem, attempt, hconnection, hok, hbody⟩ := reply_of_returned h hphase
  obtain ⟨post, hpost, hpostConnection, hroute⟩ := post_of_arrived (reply_arrived hmem) hconnection
  have hof : post ∈ postsOf env acts index := by
    rw [postsOf, List.mem_filter]
    exact ⟨hpost, by simp [hpostConnection]⟩
  rw [((callsSound_run acts).sound index call h).2] at hof
  have hparams : post.params = call.params := call.sent_params hof
  rw [Post.route, hparams, (truthy_eq_some.mp hkey).1] at hroute
  obtain ⟨pending, hsubmitted⟩ := reply_submitted hmem hroute hok
  exact ⟨reply, hmem, pending.subject, ⟨hok, hsubmitted.agent, _, _, hroute⟩, hbody⟩

/-- **Successful responses under a key tell the subjects apart**, and nothing else. -/
theorem succeeds_same {acts : List NetworkAction} {reply reply' : Reply}
    (h : reply ∈ replies env (serverTrace env acts))
    (h' : reply' ∈ replies env (serverTrace env acts)) {subject subject' key : String}
    (hne : key ≠ "") (hsucceeds : reply.Succeeds subject key)
    (hsucceeds' : reply'.Succeeds subject' key) :
    ∃ r r', reply.response.body = some (.request r) ∧ reply'.response.body = some (.request r') ∧
      (r.id = r'.id ↔ subject = subject') := by
  obtain ⟨hok, hagent, _, _, hroute⟩ := hsucceeds
  obtain ⟨hok', hagent', _, _, hroute'⟩ := hsucceeds'
  obtain ⟨r, hr⟩ := reply_submitted h hroute hok
  obtain ⟨r', hr'⟩ := reply_submitted h' hroute' hok'
  have htruthy : truthy (some key) = some key := truthy_eq_some.mpr ⟨rfl, hne⟩
  obtain ⟨s, hs, hagrees⟩ := hr.stored
  obtain ⟨s', hs', hagrees'⟩ := hr'.stored
  obtain rfl : r.subject = subject := Option.some.inj (hr.agent.symm.trans hagent)
  obtain rfl : r'.subject = subject' := Option.some.inj (hr'.agent.symm.trans hagent')
  refine ⟨r, r', hr.body_eq, hr'.body_eq, fun hid => ?_, fun hsubject => ?_⟩
  · rw [hid] at hs
    cases hs.symm.trans hs'
    rw [← hagrees.subject_eq, ← hagrees'.subject_eq]
  · have hunique := (@submissionsSound_run _ env (processTrace env (serverTrace env acts))).unique
    rw [← server_run] at hunique
    refine hunique _ _ s s' r.subject key hs hs' (hagrees.isFor.mpr ⟨rfl, hr.key_eq key htruthy⟩)
      (hagrees'.isFor.mpr ⟨hsubject.symm, hr'.key_eq key htruthy⟩) hne


/-- The posts of a call: the same one in each attempt, and no more of them than it may make. -/
theorem postsOf_invocation {acts : List NetworkAction} {index : Nat} {config : AmbitClientConfig}
    {params : RequestTokenParams} (h : (invocations acts)[index]? = some (config, params)) :
    (∀ post ∈ postsOf env acts index, post.params = params ∧
      config.agentCredential = some post.agentCredential) ∧
    ((truthy params.idempotencyKey).isSome → postsOf env acts index = [] ∨
      (JsNumber.finite (postsOf env acts index).length).le config.maxAttempts = true) ∧
    (truthy params.idempotencyKey = none → (postsOf env acts index).length =
      if (truthy config.agentCredential).isSome then 1 else 0) := by
  rw [← @calls_invocations env, List.getElem?_map] at h
  obtain ⟨call, hcall, hsame⟩ := Option.map_eq_some_iff.mp h
  cases hsame
  obtain ⟨hsound, hsent⟩ := (callsSound_run acts).sound index call hcall
  have hlength := hsound.sent_length index
  rw [hsent]
  refine ⟨fun post hpost => ⟨call.sent_params hpost, call.sent_credential hpost⟩, fun hkey => ?_,
    fun hkey => ?_⟩
  · have hmax : call.maxAttempts = call.config.maxAttempts := if_pos hkey
    rw [hlength, ← hmax]
    exact hsound.bounded.imp_left fun hzero => List.eq_nil_of_length_eq_zero (hlength.trans hzero)
  · have hmax : call.maxAttempts = .finite 1 := if_neg (by rw [hkey]; simp)
    rw [hlength]
    split
    · rename_i hcredential
      have hone : 1 ≤ call.attempt := hsound.tried hcredential (by rw [hmax]; rfl)
      rcases hsound.bounded with hzero | hle
      · omega
      · rw [hmax] at hle
        have hle : (call.attempt : ℚ) ≤ 1 := of_decide_eq_true hle
        exact le_antisymm (by exact_mod_cast hle) hone
    · rename_i hnone
      exact (hsound.refused (Option.not_isSome_iff_eq_none.mp hnone)).1

/-- **Submission is idempotent** over any network: a subject and a key come to one request, one
entry about its submission and one id in the responses, whatever is sent again, lost or late. -/
theorem submission_idempotent (env : Env) (acts : List NetworkAction) :
    let n := (networkMachine env).run acts
    let w := n.server.world
    let sent := replies env (serverTrace env acts)
    (∀ i j r r' subject key, w.requestStore.live.get i = some r →
      w.requestStore.live.get j = some r' → key ≠ "" → r.IsFor subject key →
      r'.IsFor subject key → i = j) ∧
    (∀ subject key, key ≠ "" → Reached (processTrace env (serverTrace env acts)) subject key →
      w.submissions subject key = 1) ∧
    (∀ reply ∈ sent, ∀ reply' ∈ sent, ∀ subject subject' key, key ≠ "" →
      reply.Succeeds subject key → reply'.Succeeds subject' key →
      ∃ r r', reply.response.body = some (.request r) ∧
        reply'.response.body = some (.request r') ∧ (r.id = r'.id ↔ subject = subject')) ∧
    (∀ (index : Nat) (call : ClientCall) key body, n.calls[index]? = some call →
      truthy call.params.idempotencyKey = some key → call.phase = .returned (some body) →
      ∃ reply ∈ sent, ∃ subject, reply.Succeeds subject key ∧ reply.response.body = some body) ∧
    ∀ index config params, (invocations acts)[index]? = some (config, params) →
      (∀ post ∈ postsOf env acts index, post.params = params ∧
        config.agentCredential = some post.agentCredential) ∧
      ((truthy params.idempotencyKey).isSome → postsOf env acts index = [] ∨
        (JsNumber.finite (postsOf env acts index).length).le config.maxAttempts = true) ∧
      (truthy params.idempotencyKey = none → (postsOf env acts index).length =
        if (truthy config.agentCredential).isSome then 1 else 0) := by
  intro n w sent
  have hledger : w.ledger = ((processMachine Exchange env).run
      (processTrace env (serverTrace env acts))).world.ledger := by
    rw [← server_run, ← network_server]
  have hsound : SubmissionsSound w.ledger := by
    rw [hledger]
    exact submissionsSound_run _
  refine ⟨fun i j r r' subject key hr hr' hne hfor hfor' => ?_, fun subject key hne hreached => ?_,
    fun reply h reply' h' subject subject' key hne hsucceeds hsucceeds' => ?_,
    fun index call key body hcall hkey hphase => ?_, fun index config params h => ?_⟩
  · exact hsound.unique i j r r' subject key hr hr' hfor hfor' hne
  · obtain ⟨i, r, hr, hfor⟩ := @stored_of_reached _ env _ _ _ hreached hne
    rw [← hledger] at hr
    exact World.submissions_eq_one hsound hr hfor hne
  · exact succeeds_same h h' hne hsucceeds hsucceeds'
  · exact succeeds_of_returned hcall hphase hkey
  · exact postsOf_invocation h

/-! ## A response that is lost -/

def sampleClient : AmbitClientConfig := { agentCredential := some "id-2.secret-3" }

def sampleParams (idempotencyKey : Option String) : RequestTokenParams :=
  { scope := ["a"], ttlSeconds := .finite 60, idempotencyKey }

/-- The response to a call's first attempt is lost, and its second attempt arrives. -/
def sampleResent : List NetworkAction :=
  [.server (sampleOperator (.registerAgent (some "agent"))), .server (.resume 0 .responded),
   .invoke sampleClient (sampleParams (some "key")),
   .deliverRequest 0 false {}, .server (.resume 0 .responded), .giveUp 0, .wake 0,
   .deliverRequest 0 false {}, .loseResponse 0, .server (.resume 0 .responded),
   .deliverResponse 0 false]

theorem submission_idempotent_sample :
    (postsOf sampleEnv sampleResent 0).length = 2 ∧
      ((replies sampleEnv (serverTrace sampleEnv sampleResent)).map (·.response.status)) =
        [201, 201, 201] ∧
      ((networkMachine sampleEnv).run sampleResent).server.world.submissions "agent" "key" = 1 := by
  refine ⟨by decide +kernel, by decide +kernel, ?_⟩
  exact (submission_idempotent sampleEnv sampleResent).2.1 "agent" "key" (by decide)
    (by decide +kernel)

/-- A client without a credential throws before it sends anything. -/
theorem not_one_post : ¬ ∀ (env : Env) acts index config params,
    (invocations acts)[index]? = some (config, params) → truthy params.idempotencyKey = none →
      (postsOf env acts index).length = 1 := by
  intro h
  have hone := h sampleEnv [.invoke {} (sampleParams none)] 0 {} (sampleParams none) rfl rfl
  have hzero : (postsOf sampleEnv [.invoke {} (sampleParams none)] 0).length = 0 := by
    decide +kernel
  omega

end Ambit
