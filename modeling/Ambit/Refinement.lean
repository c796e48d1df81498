import Ambit.Calls

/-! The process refines the ledger: whatever calls are in flight, each of its actions is one event,
and what a suspended call holds stays true of the ledger until the call goes on. -/

namespace Ambit

open Effect

variable {env : Env} {w : World}

/-! ## Restarts -/

namespace World

/-- A clean restart gives the ledger as it reads back, and a breaker that admits. -/
theorem Sound.restart (h : w.Sound env) : (w.restart env).Sound env where
  faults := h.faults
  kept := by
    show (AuditLog.construct env.audit w.auditLog.files).Kept env.audit
    rw [h.kept.construct]
    exact h.kept
  tokens := h.tokens.reopen (fun _ => rfl) Token.image_image
  requests := h.requests.reopen (fun _ => rfl) PendingRequest.image_image
  tokenDrawn i t ht := by
    simp only [World.restart, h.tokens.durable.reopen_live, OrderedMap.get_mapValues] at ht
    obtain ⟨t', ht', rfl⟩ := Option.map_eq_some_iff.mp ht
    exact h.tokenDrawn i t' ht'
  requestDrawn i r hr := by
    simp only [World.restart, h.requests.durable.reopen_live, OrderedMap.get_mapValues] at hr
    obtain ⟨r', hr', rfl⟩ := Option.map_eq_some_iff.mp hr
    exact h.requestDrawn i r' hr'

theorem ledger_restart (h : w.Sound env) : (w.restart env).ledger = w.ledger.after .restarted := by
  refine Ledger.ext ?_ ?_ ?_
  · funext i
    show (w.tokenStore.reopen Token.id).live.get i = (w.tokenStore.live.get i).map Token.image
    rw [h.tokens.durable.reopen_live, OrderedMap.get_mapValues]
  · funext i
    show (w.requestStore.reopen PendingRequest.id).live.get i =
      (w.requestStore.live.get i).map PendingRequest.image
    rw [h.requests.durable.reopen_live, OrderedMap.get_mapValues]
  · show ((AuditLog.construct env.audit w.auditLog.files).entries.map _).filter _ =
      w.ledger.log ++ []
    rw [h.kept.construct, List.append_nil]
    rfl

theorem boot_quiet (h : w.Sound env) : w.Quiet env (w.boot env) := by
  have hquiet := defaultRedactionRule_quietly w h
  unfold World.boot
  cases hrun : defaultRedactionRule env w with
  | ok rule w' => exact (wp_ok hquiet hrun).1
  | error err w' => exact (wp_error hquiet hrun).1

theorem restart_boot_steps (h : w.Sound env) :
    w.Steps env .restarted ((w.restart env).boot env) := by
  have hstep : w.Steps env .restarted (w.restart env) :=
    ⟨h.restart, trivial, ledger_restart h, le_rfl, fun _ => ⟨rfl, rfl, rfl⟩⟩
  exact hstep.quiet (boot_quiet h.restart)

theorem sound_initial : World.initial.Sound env where
  faults := rfl
  kept := by
    have hfresh : FreshDirectory env.audit .empty := ⟨rfl, by simp [OrderedMap.keys, OrderedMap.empty]⟩
    exact ⟨[], (AuditLog.keptAs_construct_of_fresh hfresh).1⟩
  tokens := Journal.sound_empty
  requests := Journal.sound_empty
  tokenDrawn i t ht := by cases ht
  requestDrawn i r hr := by cases hr

end World

/-! ## The process -/

/-- The stores are sound, the ledger is linked, and suspended calls hold what is true of it. -/
structure Config.Sound (env : Env) {κ : Type} (c : Config κ) : Prop where
  world : c.world.Sound env
  linked : c.world.ledger.Linked env.toPlatform
  frames : ∀ x ∈ c.inflight, x.frame.Sound env c.world.ledger c.world.supply x.call

variable {κ : Type} {c : Config κ}

/-- What an event says of the action that it is part of. -/
def Config.Explains (env : Env) (c : Config κ) (output : Option (Settled κ)) (e : Event) :
    Action κ → Prop
  | .call client call => ∃ outcome, output = outcome.map (⟨client, call, ·⟩) ∧
      call.Explains c.world outcome e
  | .resume i _ => (c.inflight[i]? = none ∧ output = none ∧ e = .noted) ∨
      ∃ x outcome, c.inflight[i]? = some x ∧ output = outcome.map (⟨x.client, x.call, ·⟩) ∧
        x.frame.Explains env c.world x.call outcome e
  | .clock _ => output = none ∧ e = .noted
  | .restart => output = none ∧ e = .restarted

namespace Config.Explains

variable {output : Option (Settled κ)} {a : Action κ}

theorem approved {pending : PendingRequest} {token : Token} {secret approver : String}
    {policyId : Option String}
    (h : c.Explains env output (.approved pending token secret approver policyId) a) :
    ∃ i downstream x f, a = .resume i downstream ∧ c.inflight[i]? = some x ∧ x.frame = .approve f ∧
      ¬ c.world.Rejects env ∧ f.pending = pending ∧ f.input.approver = approver ∧
      f.issue.token env token.id = token ∧ f.issue.secret = secret ∧
      output = some ⟨x.client, x.call, .token token⟩ := by
  cases a with
  | call =>
    obtain ⟨_, -, hf⟩ := h
    exact hf.elim
  | resume i downstream =>
    obtain ⟨-, -, he⟩ | ⟨x, outcome, hx, rfl, f, hf, hadmits, hpending, happrover, -, htoken, hsecret,
      rfl⟩ := h
    · cases he
    · exact ⟨i, downstream, x, f, rfl, hx, hf, hadmits, hpending, happrover, htoken, hsecret, rfl⟩
  | clock => cases h.2
  | restart => cases h.2

theorem delegated {parent token : Token} (h : c.Explains env output (.delegated parent token) a) :
    ∃ i downstream x input issue, a = .resume i downstream ∧ c.inflight[i]? = some x ∧
      x.frame = .delegate (.issuing input issue) ∧ ¬ c.world.Rejects env ∧ input.Passes parent ∧
      issue.token env token.id = token ∧
      issue.For env input.tokenRequest (some parent) c.world.supply ∧
      output = some ⟨x.client, x.call, .delegation (.approved token issue.secret)⟩ := by
  cases a with
  | call =>
    obtain ⟨_, -, hf⟩ := h
    exact hf.elim
  | resume i downstream =>
    obtain ⟨-, -, he⟩ | ⟨x, outcome, hx, rfl, input, issue, hframe, hadmits, hpasses, htoken, hissue,
      rfl⟩ := h
    · cases he
    · exact ⟨i, downstream, x, input, issue, rfl, hx, hframe, hadmits, hpasses, htoken, hissue, rfl⟩
  | clock => cases h.2
  | restart => cases h.2

theorem used {token : Token} {action : String} {now : Int}
    (h : c.Explains env output (.used token action now) a) :
    ∃ i downstream x f, a = .resume i downstream ∧ c.inflight[i]? = some x ∧
      x.frame.gateway = some f ∧ f.Allows env ∧ f.token = token ∧ f.action = action ∧
      f.now = now := by
  cases a with
  | call =>
    obtain ⟨_, -, hf⟩ := h
    exact hf.elim
  | resume i downstream =>
    obtain ⟨-, -, he⟩ | ⟨x, outcome, hx, -, f, hf, hallows, htoken, haction, hnow, -⟩ := h
    · cases he
    · exact ⟨i, downstream, x, f, rfl, hx, hf, hallows, htoken, haction, hnow⟩
  | clock => cases h.2
  | restart => cases h.2

theorem denied {pending : PendingRequest} (h : c.Explains env output (.denied pending) a) :
    ∃ client approver reasonCode now,
      a = .call client (.denyRequest pending.id approver reasonCode now) ∧
      pending.eligible approver ∧
      output = some ⟨client, .denyRequest pending.id approver reasonCode now, .done⟩ := by
  cases a with
  | call client call =>
    obtain ⟨outcome, rfl, approver, reasonCode, now, rfl, heligible, rfl⟩ := h
    exact ⟨client, approver, reasonCode, now, rfl, heligible, rfl⟩
  | resume =>
    obtain ⟨-, -, he⟩ | ⟨x, outcome, hx, -, hf⟩ := h
    · cases he
    · exact hf.elim
  | clock => cases h.2
  | restart => cases h.2

theorem claimed {r : PendingRequest} {tokenId secret : String}
    (h : c.Explains env output (.claimed r tokenId secret) a) :
    ∃ client now, a = .call client (.claimTokenSecret r.id r.subject now) ∧
      output = some ⟨client, .claimTokenSecret r.id r.subject now, .claimed tokenId secret⟩ := by
  cases a with
  | call client call =>
    obtain ⟨outcome, rfl, now, rfl, rfl⟩ := h
    exact ⟨client, now, rfl, rfl⟩
  | resume =>
    obtain ⟨-, -, he⟩ | ⟨x, outcome, hx, -, hf⟩ := h
    · cases he
    · exact hf.elim
  | clock => cases h.2
  | restart => cases h.2

theorem revoked {r : Revocation} (h : c.Explains env output (.revoked r) a) :
    ∃ client, a = .call client (.revokeToken r.tokenId r.reasonCode r.now r.actor) := by
  cases a with
  | call client call =>
    obtain ⟨outcome, -, rfl⟩ := h
    exact ⟨client, rfl⟩
  | resume =>
    obtain ⟨-, -, he⟩ | ⟨x, outcome, hx, -, hf⟩ := h
    · cases he
    · exact hf.elim
  | clock => cases h.2
  | restart => cases h.2

end Config.Explains

/-- The calls that an action leaves in flight. -/
def Config.remaining (c : Config κ) : Action κ → List (InFlight κ)
  | .call _ _ | .clock _ => c.inflight
  | .resume i _ => c.inflight.eraseIdx i
  | .restart => []

theorem Config.mem_of_mem_remaining {a : Action κ} {x : InFlight κ} (h : x ∈ c.remaining a) :
    x ∈ c.inflight := by
  cases a with
  | call | clock => exact h
  | resume => exact List.mem_of_mem_eraseIdx h
  | restart => cases h

/-- Where a call that an action suspends comes from: it started with it, or went on with it. -/
def Config.Enters (env : Env) (c : Config κ) (a : Action κ) (x : InFlight κ) : Prop :=
  (a = .call x.client x.call ∧ x.frame.Starts env c.world) ∨
    ∃ i downstream y, a = .resume i downstream ∧ c.inflight[i]? = some y ∧
      x.client = y.client ∧ x.call = y.call ∧ x.frame.GoesOn env c.world

/-- An action takes the process one event further. -/
structure Config.Advances (env : Env) (c : Config κ) (a : Action κ) (e : Event)
    (next : Config κ × Option (Settled κ)) : Prop where
  sound : next.1.Sound env
  enabled : c.world.ledger.Enabled env.toPlatform e
  ledger_eq : next.1.world.ledger = c.world.ledger.after e
  supply_le : c.world.supply ≤ next.1.world.supply
  flows : (∀ client, a ≠ .call client (.simulateOutage true)) → c.world.Flowing →
    next.1.world.Flowing
  explains : c.Explains env next.2 e a
  answers : ∀ s ∈ next.2, s.call.Answers s.outcome
  inflight : ∃ new : Option (InFlight κ), next.1.inflight = c.remaining a ++ new.toList ∧
    ∀ x ∈ new, c.Enters env a x ∧ next.2 = none

theorem Config.Advances.enters {a : Action κ} {e : Event}
    {next : Config κ × Option (Settled κ)} (h : c.Advances env a e next) {x : InFlight κ}
    (hx : x ∈ next.1.inflight) : x ∈ c.inflight ∨ c.Enters env a x := by
  obtain ⟨new, hnext, hnew⟩ := h.inflight
  rw [hnext] at hx
  rcases List.mem_append.mp hx with hx | hx
  · exact .inl (Config.mem_of_mem_remaining hx)
  · exact .inr (hnew x (Option.mem_toList.mp hx)).1

/-- What a piece of a call does to the process. -/
theorem Config.Sound.settle (hc : c.Sound env) {a : Action κ} {client : κ} {call : Call}
    {x : Op (Progress Frame Outcome)} {F : Frame → Prop} {explains : Option Outcome → Event → Prop}
    (hrun : wp x (fun r w' => ∃ e, Ran env c.world call F e r w' ∧ explains (outcomeOf r) e) c.world)
    (hanswers : wp x (fun r _ => call.AnswersIn r) c.world)
    (hoccurs : ∀ outcome e, explains outcome e →
      c.Explains env (outcome.map (⟨client, call, ·⟩)) e a ∧ e ≠ .restarted)
    (hflows : (∀ client, a ≠ .call client (.simulateOutage true)) → call ≠ .simulateOutage true)
    (henters : ∀ frame, F frame → c.Enters env a ⟨client, call, frame⟩) :
    ∃ e, c.Advances env a e (Config.settle client call (c.remaining a) (x c.world)) := by
  have hadvances : ∀ (r : Except Err (Progress Frame Outcome)) (w' : World)
      (next : Config κ × Option (Settled κ)) (new : Option (InFlight κ)),
      (∃ e, Ran env c.world call F e r w' ∧ explains (outcomeOf r) e) → call.AnswersIn r →
      next.1 = ⟨w', c.remaining a ++ new.toList⟩ →
      next.2 = (outcomeOf r).map (⟨client, call, ·⟩) →
      (∀ y ∈ new, ∃ frame, r = .ok (.awaiting frame) ∧ y = ⟨client, call, frame⟩) →
      ∃ e, c.Advances env a e next := by
    rintro r w' ⟨⟨_, _⟩, output⟩ new ⟨e, hran, hexplains⟩ hanswers ⟨⟩ rfl hnew
    obtain ⟨hoccurs, hrun⟩ := hoccurs _ _ hexplains
    have hledger := hran.ledger_eq
    refine ⟨e, ⟨hran.sound, ?_, fun y hy => ?_⟩, hran.enabled, hledger, hran.supply_le,
      fun ha => hran.flows (hflows ha), hoccurs, ?_, new, rfl, ?_⟩
    · show w'.ledger.Linked env.toPlatform
      rw [hledger]
      exact hc.linked.after hran.enabled
    · show y.frame.Sound env w'.ledger w'.supply y.call
      rcases List.mem_append.mp hy with hy | hy
      · rw [hledger]
        exact (hc.frames y (Config.mem_of_mem_remaining hy)).after hran.enabled hrun hran.supply_le
      · obtain ⟨frame, rfl, rfl⟩ := hnew y (Option.mem_toList.mp hy)
        exact hran.frame.1
    · intro s hs
      obtain ⟨o, ho, rfl⟩ := Option.map_eq_some_iff.mp hs
      exact hanswers o ho
    · intro y hy
      obtain ⟨frame, rfl, rfl⟩ := hnew y hy
      exact ⟨henters frame hran.frame.2, rfl⟩
  unfold Config.settle
  cases hx : x c.world with
  | ok progress w' =>
    have hran := wp_ok hrun hx
    have hanswers := wp_ok hanswers hx
    cases progress with
    | returned outcome =>
      refine hadvances _ w' _ none hran hanswers ?_ rfl fun y hy => by cases hy
      simp
    | awaiting frame =>
      refine hadvances _ w' _ (some ⟨client, call, frame⟩) hran hanswers rfl rfl fun y hy => ?_
      cases hy
      exact ⟨frame, rfl, rfl⟩
  | error err w' =>
    refine hadvances _ w' _ none (wp_error hrun hx) (wp_error hanswers hx) ?_ rfl
      fun y hy => by cases hy
    simp

/-- **The process refines the ledger.** Every action is one event of the ledger. -/
theorem Config.Sound.exec (hc : c.Sound env) (a : Action κ) :
    ∃ e, c.Advances env a e (c.exec env a) := by
  have hquiet : ∀ w', c.world.Quiet env w' → ∀ a : Action κ, c.remaining a = c.inflight →
      c.Explains env none .noted a → c.Advances env a .noted (⟨w', c.inflight⟩, none) := by
    intro w' hq a hremaining hexplains
    have hstep := hq.steps
    refine ⟨⟨hq.sound, ?_, fun x hx => ?_⟩, hstep.enabled, hstep.ledger_eq, hq.supply_le,
      fun _ => hq.flows, hexplains, (fun s hs => by cases hs), none, ?_, (fun x hx => by cases hx)⟩
    · show w'.ledger.Linked env.toPlatform
      rw [hq.ledger_eq]
      exact hc.linked
    · show x.frame.Sound env w'.ledger w'.supply x.call
      rw [hstep.ledger_eq]
      exact (hc.frames x hx).after hstep.enabled Event.noConfusion hq.supply_le
    · rw [hremaining]
      exact (List.append_nil _).symm
  cases a with
  | call client call =>
    refine hc.settle (startCall_spec hc.world call) (startCall_answers call)
      (fun outcome e h => ?_) ?_ ?_
    · refine ⟨⟨outcome, rfl, h⟩, ?_⟩
      rintro rfl
      exact h
    · rintro ha rfl
      exact ha client rfl
    · exact fun frame hF => .inl ⟨rfl, hF⟩
  | resume i downstream =>
    simp only [Config.exec]
    cases hx : c.inflight[i]? with
    | none =>
      refine ⟨_, hquiet _ (.refl hc.world) _ ?_ (.inl ⟨hx, rfl, rfl⟩)⟩
      exact List.eraseIdx_of_length_le (List.getElem?_eq_none_iff.mp hx)
    | some x =>
      have hmem := List.mem_of_getElem? hx
      have hframe := hc.frames x hmem
      refine hc.settle (a := .resume i downstream) (resumeFrame_spec hc.world downstream hframe)
        (resumeFrame_answers downstream hframe.awaits) (fun outcome e h => ?_) ?_ ?_
      · refine ⟨.inr ⟨x, outcome, hx, rfl, h⟩, ?_⟩
        rintro rfl
        exact h
      · intro _ hcall
        have hawaits := hframe.awaits
        rw [hcall] at hawaits
        exact hawaits
      · exact fun frame hF => .inr ⟨i, downstream, x, rfl, hx, rfl, rfl, hF⟩
  | clock t =>
    refine ⟨_, hquiet { c.world with clock := t } ⟨?_, rfl, le_rfl, fun hf => hf.of_breaker rfl⟩
      (.clock t) rfl ⟨rfl, rfl⟩⟩
    have h := hc.world
    exact ⟨h.faults, h.kept, h.tokens, h.requests, h.tokenDrawn, h.requestDrawn⟩
  | restart =>
    have hstep := World.restart_boot_steps hc.world
    refine ⟨.restarted, ⟨hstep.sound, ?_, ?_⟩, trivial, hstep.ledger_eq, hstep.supply_le,
      fun _ => hstep.flows, ⟨rfl, rfl⟩, (fun s hs => by cases hs), none, rfl, (fun x hx => by cases hx)⟩
    · show ((c.world.restart env).boot env).ledger.Linked env.toPlatform
      rw [hstep.ledger_eq]
      exact hc.linked.after hstep.enabled
    · exact fun x hx => by cases hx

theorem Config.sound_initial : (Config.initial env : Config κ).Sound env := by
  have hq := World.boot_quiet (@World.sound_initial env)
  refine ⟨hq.sound, ?_, fun x hx => by cases hx⟩
  show (World.initial.boot env).ledger.Linked env.toPlatform
  rw [hq.ledger_eq]
  exact Ledger.linked_empty

/-- Every reachable state of the process is sound. -/
theorem Config.sound_run (acts : List (Action κ)) : ((processMachine κ env).run acts).Sound env := by
  refine Machine.run_induction (P := fun acts => ((processMachine κ env).run acts).Sound env) acts
    Config.sound_initial fun acts a ih => ?_
  rw [Machine.run_snoc]
  obtain ⟨e, hadvances⟩ := ih.exec a
  exact hadvances.sound

theorem ledger_snoc (acts : List (Action κ)) (a : Action κ) :
    ∃ e, ((processMachine κ env).run acts).Advances env a e
        (((processMachine κ env).run acts).exec env a) ∧
      ((processMachine κ env).run (acts ++ [a])).world.ledger =
        ((processMachine κ env).run acts).world.ledger.after e := by
  obtain ⟨e, hadvances⟩ := (@Config.sound_run env _ acts).exec a
  refine ⟨e, hadvances, ?_⟩
  rw [Machine.run_snoc]
  exact hadvances.ledger_eq

/-- The ledger with which a deployment starts. -/
theorem ledger_boot : (World.initial.boot env).ledger = Ledger.empty :=
  (World.boot_quiet World.sound_initial).ledger_eq

/-- What every action keeps of the ledger, in a run whose actions meet a condition. -/
theorem ledger_induction {C : Config κ → Action κ → Prop} {P : Ledger → Prop} {acts : List (Action κ)}
    (hacts : (processMachine κ env).Meets C acts) (hempty : P .empty)
    (hafter : ∀ (c : Config κ) a e, c.Sound env → C c a → c.Advances env a e (c.exec env a) →
      P c.world.ledger → P (c.world.ledger.after e)) :
    P ((processMachine κ env).run acts).world.ledger := by
  refine hacts.induction (P := fun acts => P ((processMachine κ env).run acts).world.ledger) ?_
    fun acts a _ ha ih => ?_
  · show P (World.initial.boot env).ledger
    rw [ledger_boot]
    exact hempty
  · obtain ⟨e, hadvances, hledger⟩ := @ledger_snoc env _ acts a
    rw [hledger]
    exact hafter _ a e (Config.sound_run acts) ha hadvances ih

/-- What every action keeps of the ledger. -/
theorem ledger_invariant {P : Ledger → Prop} (acts : List (Action κ)) (hempty : P .empty)
    (hafter : ∀ (c : Config κ) a e, c.Advances env a e (c.exec env a) → P c.world.ledger →
      P (c.world.ledger.after e)) : P ((processMachine κ env).run acts).world.ledger :=
  ledger_induction (C := fun _ _ => True) (fun _ _ _ _ => trivial) hempty
    fun c a e _ _ => hafter c a e

/-- The outcomes of the calls that ended along a run. -/
def settledCalls (env : Env) (acts : List (Action κ)) : List (Settled κ) :=
  (processMachine κ env).outputs (fun c a => (c.exec env a).2) acts

theorem settledCalls_snoc (acts : List (Action κ)) (a : Action κ) :
    settledCalls env (acts ++ [a]) =
      settledCalls env acts ++ (((processMachine κ env).run acts).exec env a).2.toList :=
  Machine.outputs_snoc

theorem Config.settle_settled {client : κ} {call : Call} {inflight : List (InFlight κ)}
    {r : EStateM.Result Err World (Progress Frame Outcome)} :
    (∀ s ∈ (Config.settle client call inflight r).2, s.client = client ∧ s.call = call) ∧
    ∀ x ∈ (Config.settle client call inflight r).1.inflight,
      x ∈ inflight ∨ x.client = client ∧ x.call = call := by
  unfold Config.settle
  split
  · refine ⟨fun s hs => ?_, fun x hx => .inl hx⟩
    cases hs
    exact ⟨rfl, rfl⟩
  · refine ⟨(fun s hs => by cases hs), fun x hx => ?_⟩
    rcases List.mem_append.mp hx with hx | hx
    · exact .inl hx
    · cases List.mem_singleton.mp hx
      exact .inr ⟨rfl, rfl⟩
  · refine ⟨fun s hs => ?_, fun x hx => .inl hx⟩
    cases hs
    exact ⟨rfl, rfl⟩

/-- A call in flight was started. -/
theorem started_of_inflight {acts : List (Action κ)} {x : InFlight κ}
    (h : x ∈ ((processMachine κ env).run acts).inflight) : Action.call x.client x.call ∈ acts := by
  induction acts using List.reverseRecOn generalizing x with
  | nil => cases h
  | append_singleton acts a ih =>
    rw [Machine.run_snoc] at h
    have hold : ∀ {x}, x ∈ ((processMachine κ env).run acts).inflight →
        Action.call x.client x.call ∈ acts ++ [a] := fun hx => List.mem_append_left _ (ih hx)
    cases a with
    | call client call =>
      rcases Config.settle_settled.2 x h with hx | ⟨hclient, hcall⟩
      · exact hold hx
      · rw [hclient, hcall]
        exact List.mem_append_right _ (List.mem_singleton.mpr rfl)
    | resume i downstream =>
      simp only [processMachine, Config.step, Config.exec] at h
      split at h
      · exact hold h
      · rename_i y hy
        rcases Config.settle_settled.2 x h with hx | ⟨hclient, hcall⟩
        · exact hold (List.mem_of_mem_eraseIdx hx)
        · rw [hclient, hcall]
          exact hold (List.mem_of_getElem? hy)
    | clock => exact hold h
    | restart => cases h

/-- A call that has ended was started. -/
theorem started_of_settled {acts : List (Action κ)} {s : Settled κ}
    (h : s ∈ settledCalls env acts) : Action.call s.client s.call ∈ acts := by
  induction acts using List.reverseRecOn with
  | nil => cases h
  | append_singleton acts a ih =>
    rw [settledCalls_snoc] at h
    rcases List.mem_append.mp h with h | h
    · exact List.mem_append_left _ (ih h)
    · have hs := Option.mem_toList.mp h
      cases a with
      | call client call =>
        obtain ⟨hclient, hcall⟩ := Config.settle_settled.1 s hs
        rw [hclient, hcall]
        exact List.mem_append_right _ (List.mem_singleton.mpr rfl)
      | resume i downstream =>
        simp only [Config.exec] at hs
        split at hs
        · cases hs
        · rename_i y hy
          obtain ⟨hclient, hcall⟩ := Config.settle_settled.1 s hs
          rw [hclient, hcall]
          exact List.mem_append_left _ (started_of_inflight (List.mem_of_getElem? hy))
      | clock => cases hs
      | restart => cases hs

end Ambit
