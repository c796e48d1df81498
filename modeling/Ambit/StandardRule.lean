import Ambit.Refinement
import Ambit.Server
import Ambit.Untouched

/-! The rule for the customers' personal data. The server makes it when it first starts, and it stands
first and unchanged from then on, whatever rules the operators make. -/

namespace Ambit

open Effect

variable {env : Env} {w w' : World}

/-! ## The store of rules -/

/-- No rule is saved. -/
def RulesKept (w w' : World) : Prop :=
  w'.redactionRuleStore = w.redactionRuleStore ∧ w.supply ≤ w'.supply

instance : SmallEffects RulesKept where
  refl _ := ⟨rfl, le_rfl⟩
  trans _ _ _ h h' := ⟨h'.1.trans h.1, h.2.trans h'.2⟩
  logged _ _ _ _ hle := ⟨rfl, hle⟩
  breaker _ _ := ⟨rfl, le_rfl⟩
  anomaly _ _ := ⟨rfl, le_rfl⟩
  endpoints _ _ := ⟨rfl, le_rfl⟩

instance : RequestSaves RulesKept where
  requests _ _ _ _ := ⟨rfl, le_rfl⟩

instance : IdentitySaves RulesKept where
  identities _ _ _ := ⟨rfl, le_rfl⟩

theorem rulesKept_tokenStore_save (t : Token) : Along RulesKept (TokenStore.save env t) :=
  along_execute (along_saveRecord fun _ _ _ => ⟨rfl, le_rfl⟩)

theorem rulesKept_policyStore_save (policy : Policy) : Along RulesKept (PolicyStore.save env policy) :=
  along_execute (along_saveRecord fun _ _ _ => ⟨rfl, le_rfl⟩)

theorem rulesKept_issue (frame : IssueFrame) : Along RulesKept (frame.resume env) :=
  Along.bind along_draw fun _ => Along.bind (rulesKept_tokenStore_save _) fun _ => Along.pure

theorem rulesKept_startCall {call : Call}
    (hcall : ∀ input authoredBy now, call ≠ .createRedactionRule input authoredBy now) :
    Along RulesKept (startCall env call) := by
  apply along_startCall_except
  · exact rulesKept_policyStore_save
  · intro tokenId reasonCode now actor
    exact along_revokeToken (fun _ _ _ _ => .inl fun _ _ => rulesKept_tokenStore_save _) _ _ _ _
  · exact fun _ _ _ _ => along_requestToken _ _ _
  · exact fun input authoredBy now h => absurd h (hcall input authoredBy now)

theorem rulesKept_resumeFrame (downstream : Downstream) (frame : Frame) :
    Along RulesKept (resumeFrame env downstream frame) :=
  along_resumeFrame rulesKept_issue downstream frame fun f _ => f.along_resume

/-! ## Making a rule -/

theorem RedactionRuleInput.wp_validate (input : RedactionRuleInput) :
    wp input.validate (fun _ w' => w' = w) w := by
  refine wp_bind (wp_throwIf (fun _ => rfl) fun _ => wp_bind (wp_throwIf (fun _ => rfl) fun _ => ?_))
  cases fieldError input.sensitiveFields with
  | some err => exact wp_throw rfl
  | none => exact wp_pure rfl

/-- The rule that comes of the input. -/
def RedactionRuleInput.rule (env : Env) (supply : ℕ) (input : RedactionRuleInput)
    (authoredBy : String) (now : Int) : RedactionRule where
  id := env.randomUUID supply
  name := input.name
  sensitiveFields := input.sensitiveFields
  authoredBy := authoredBy
  createdAt := now

/-- The rule is saved, under an id that was drawn for it. -/
def World.SavesRule (w : World) (rule : RedactionRule) (w' : World) : Prop :=
  w'.redactionRuleStore = w.redactionRuleStore.save RedactionRule.id (fun r => r) true rule ∧
    w.supply < w'.supply

/-- An input that passes the checks makes its rule, and no other input does anything. -/
theorem wp_createRedactionRule (h : w.Sound env) (input : RedactionRuleInput) (authoredBy : String)
    (now : Int) : wp (createRedactionRule env input authoredBy now) (fun _ w' =>
      (w' = w ∧ ∃ err, input.validate w = .error err w) ∨
        w.SavesRule (input.rule env w.supply authoredBy now) w') w := by
  unfold createRedactionRule
  cases hvalid : input.validate w with
  | error err w₁ =>
    obtain rfl := wp_error (input.wp_validate (w := w)) hvalid
    exact wp_bind (wp_of_error hvalid (.inl ⟨rfl, err, rfl⟩))
  | ok _ w₁ =>
    obtain rfl := wp_ok (input.wp_validate (w := w)) hvalid
    refine wp_bind (wp_of_ok hvalid (wp_bind (wp_draw (wp_bind ?_))))
    refine RedactionRuleStore.wp_save h.drawn ?_
    have hrest : Along RulesKept (do
        auditRecord env
          { subject := authoredBy, action := "create_redaction_rule", decision := .redactionRuleCreated,
            reasonCode := some (env.randomUUID w₁.supply) } now
        return input.rule env w₁.supply authoredBy now : Op RedactionRule) :=
      Along.bind (along_auditRecord _ _) fun _ => Along.pure
    refine wp_mono (hrest.wp _) fun _ w' hkept => .inr ⟨hkept.1, ?_⟩
    exact Nat.lt_of_lt_of_le (Nat.lt_succ_self w₁.supply) hkept.2

/-! ## The first rule -/

/-- The rule that the server makes when it first starts. -/
def firstRule (env : Env) : RedactionRule :=
  standardRule.rule env World.initial.supply "system" World.initial.clock

/-- The rules read back as they are, their ids were drawn, and the first of them is the one that the
server made when it first started. -/
structure World.RulesSound (env : Env) (w : World) : Prop where
  store : w.redactionRuleStore.Sound RedactionRule.id (fun r => r)
  drawn : ∀ i r, w.redactionRuleStore.live.get i = some r → ∃ n < w.supply, i = env.randomUUID n
  first : ∃ rest, w.redactionRuleStore.live.entries = ((firstRule env).id, firstRule env) :: rest

namespace World.RulesSound

theorem get_first (h : w.RulesSound env) :
    w.redactionRuleStore.live.get (firstRule env).id = some (firstRule env) := by
  obtain ⟨rest, hentries⟩ := h.first
  apply OrderedMap.mem_entries_iff.mp
  rw [hentries]
  exact List.mem_cons_self ..

theorem find_first (h : w.RulesSound env) :
    (w.redactionRuleStore.live.values.find? fun r => r.name = standardRule.name) =
      some (firstRule env) := by
  obtain ⟨rest, hentries⟩ := h.first
  rw [OrderedMap.values, hentries]
  rfl

/-- The rule under which the server gives out customer data is the first. -/
theorem defaultRuleId_eq (h : w.RulesSound env) : Arrival.defaultRuleId w = (firstRule env).id := by
  rw [Arrival.defaultRuleId, h.find_first]
  rfl

theorem kept (h : w.RulesSound env) (hkept : RulesKept w w') : w'.RulesSound env := by
  obtain ⟨hstore, hle⟩ := hkept
  refine ⟨?_, ?_, ?_⟩
  · rw [hstore]
    exact h.store
  · rw [hstore]
    intro i r hr
    obtain ⟨n, hn, hi⟩ := h.drawn i r hr
    exact ⟨n, hn.trans_le hle, hi⟩
  · rw [hstore]
    exact h.first

/-- A new rule comes after those that are there. -/
theorem saves (h : w.RulesSound env) {rule : RedactionRule} (hid : rule.id = env.randomUUID w.supply)
    (hsaves : w.SavesRule rule w') : w'.RulesSound env := by
  obtain ⟨hstore, hlt⟩ := hsaves
  refine ⟨?_, ?_, ?_⟩
  · rw [hstore]
    exact h.store.save rule rfl
  · rw [hstore]
    intro i r hr
    rw [Journal.save_live, OrderedMap.get_set] at hr
    split at hr
    · next hi => exact ⟨w.supply, hlt, hi.trans hid⟩
    · obtain ⟨n, hn, hi⟩ := h.drawn i r hr
      exact ⟨n, hn.trans hlt, hi⟩
  · obtain ⟨n, hn, hfirst⟩ := h.drawn _ _ h.get_first
    obtain ⟨rest, hentries⟩ := h.first
    have hne : (firstRule env).id ≠ rule.id := by
      rw [hfirst, hid]
      exact fun heq => hn.ne (env.randomUUID_injective heq)
    refine ⟨OrderedMap.setEntries rule.id rule rest, ?_⟩
    rw [hstore, Journal.save_live]
    show OrderedMap.setEntries _ _ _ = _
    rw [hentries, OrderedMap.setEntries, if_neg hne]

theorem restart (h : w.RulesSound env) : (w.restart env).RulesSound env := by
  have hlive : (w.restart env).redactionRuleStore.live = w.redactionRuleStore.live := by
    show (w.redactionRuleStore.reopen RedactionRule.id).live = _
    rw [h.store.durable.reopen_live, OrderedMap.mapValues_id]
  refine ⟨h.store.reopen (fun _ => rfl) fun _ => rfl, ?_, ?_⟩
  · rw [hlive]
    exact h.drawn
  · rw [hlive]
    exact h.first

/-- A server that starts again finds the rule. -/
theorem boot (h : w.RulesSound env) : w.boot env = w := by
  have hget : (get : Op World) w = .ok w w := rfl
  have hrun : defaultRedactionRule env w = .ok (firstRule env) w := by
    unfold defaultRedactionRule
    rw [bind_of_ok hget, h.find_first]
    rfl
  rw [World.boot, hrun]

end World.RulesSound

/-- A server that starts on an empty directory makes the rule. -/
theorem rulesSound_initial : (World.initial.boot env).RulesSound env := by
  have hget : (get : Op World) .initial = .ok .initial .initial := rfl
  have hrun : defaultRedactionRule env .initial =
      createRedactionRule env standardRule "system" World.initial.clock .initial := rfl
  have hboot : World.initial.boot env =
      after (createRedactionRule env standardRule "system" World.initial.clock) .initial := by
    rw [World.boot, hrun, after]
    cases createRedactionRule env standardRule "system" World.initial.clock World.initial <;> rfl
  rw [hboot]
  rcases wp_iff.mp (wp_createRedactionRule (@World.sound_initial env) standardRule "system"
    World.initial.clock) with ⟨-, err, hinvalid⟩ | ⟨hstore, hlt⟩
  · cases hinvalid
  · refine ⟨?_, ?_, ?_⟩
    · rw [hstore]
      exact Journal.sound_empty.save _ rfl
    · rw [hstore]
      intro i r hr
      rw [Journal.save_live, OrderedMap.get_set] at hr
      split at hr
      · next hi => exact ⟨_, hlt, hi⟩
      · cases hr
    · rw [hstore]
      exact ⟨[], rfl⟩

/-! ## Along every run -/

variable {κ : Type} {c : Config κ}

/-- Every action keeps the rules sound. -/
theorem Config.rulesSound_exec (hc : c.Sound env) (h : c.world.RulesSound env) (a : Action κ) :
    (c.exec env a).1.world.RulesSound env := by
  cases a with
  | call client call =>
    show (Config.settle _ _ _ _).1.world.RulesSound env
    rw [Config.settle_world]
    cases call with
    | createRedactionRule input authoredBy now =>
      show (after (synchronously _ _) c.world).RulesSound env
      rw [after_synchronously]
      rcases wp_iff.mp (wp_createRedactionRule hc.world input authoredBy now) with ⟨hsame, -⟩ | hsaves
      · rw [hsame]
        exact h
      · exact h.saves rfl hsaves
    | _ => exact h.kept (rulesKept_startCall (fun _ _ _ h => by cases h) c.world)
  | resume i downstream =>
    simp only [Config.exec]
    cases c.inflight[i]? with
    | none => exact h
    | some x =>
      show (Config.settle _ _ _ _).1.world.RulesSound env
      rw [Config.settle_world]
      exact h.kept (rulesKept_resumeFrame downstream x.frame c.world)
  | clock t => exact h.kept ⟨rfl, le_rfl⟩
  | restart =>
    show ((c.world.restart env).boot env).RulesSound env
    rw [h.restart.boot]
    exact h.restart

/-- **The first rule stands**: in every run it is the one that the server made when it first started. -/
theorem rulesSound_run (acts : List (Action κ)) :
    ((processMachine κ env).run acts).world.RulesSound env := by
  induction acts using List.reverseRecOn with
  | nil => exact rulesSound_initial
  | append_singleton acts a ih =>
    rw [Machine.run_snoc]
    exact Config.rulesSound_exec (Config.sound_run acts) ih a

end Ambit
