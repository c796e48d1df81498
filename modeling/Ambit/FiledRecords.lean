import Ambit.DataDirectory

/-! What an operation has put into the files when it returns: a save its line, a call of `record` its
entry. Both stay there, whatever else the operation does, on a disk that fails in any pattern. -/

namespace Ambit

open Effect

variable {env : Env} {α β : Type}

/-! ## Well-kept files -/

/-- The log is laid out, and the requests and the tokens are under their ids. -/
structure World.WellFiled (env : Env) (w : World) : Prop where
  laidOut : w.LaidOut env
  tokens : w.tokenStore.Keyed Token.id
  requests : w.requestStore.Keyed PendingRequest.id

/-- Nothing makes the files or the ids wrong. -/
def filing (env : Env) : Lasting env :=
  have hlog : ∀ w w' : World, w.Advances env w' → w.WellFiled env → w'.tokenStore.Keyed Token.id →
      w'.requestStore.Keyed PendingRequest.id → w'.WellFiled env :=
    fun _ _ hadvances h htokens hrequests => ⟨(hadvances h.laidOut).1, htokens, hrequests⟩
  { holds := World.WellFiled env
    unrecorded := fun w w' h hsame => hlog w w' (.of_same hsame) h (hsame.tokenStore ▸ h.tokens)
      (hsame.requestStore ▸ h.requests)
    logged := fun w call _ h => hlog w _ (w.advances_logged call) h h.tokens h.requests
    tokenSaved := fun _ appended t h => ⟨h.laidOut, h.tokens.save appended t, h.requests⟩
    requestSaved := fun _ appended r h => ⟨h.laidOut, h.tokens, h.requests.save appended r⟩
    policySaved := fun _ _ _ h => ⟨h.laidOut, h.tokens, h.requests⟩
    identitySaved := fun _ _ _ h => ⟨h.laidOut, h.tokens, h.requests⟩
    ruleSaved := fun _ _ _ h => ⟨h.laidOut, h.tokens, h.requests⟩
    restarted := fun w h =>
      ⟨h.laidOut, w.tokenStore.keyed_reopen, w.requestStore.keyed_reopen⟩ }

/-! ## Facts about the files -/

/-- An entry of the files of the log satisfies `P`. -/
def World.Filed (env : Env) (w : World) (P : AuditEntryInput → Prop) : Prop :=
  ∃ entry ∈ w.filedEntries env, P entry.toAuditEntryInput

/-- The files hold a line, or the log an entry, that satisfies a condition. -/
inductive FileFact where
  | token (P : Token → Prop)
  | request (P : PendingRequest → Prop)
  | policy (P : Policy → Prop)
  | identity (P : AgentIdentity → Prop)
  | rule (P : RedactionRule → Prop)
  | entry (P : AuditEntryInput → Prop)

def FileFact.Holds (env : Env) (w : World) : FileFact → Prop
  | .token P => ∃ t ∈ w.tokenStore.lines, P t
  | .request P => ∃ r ∈ w.requestStore.lines, P r
  | .policy P => ∃ policy ∈ w.policyStore.lines, P policy
  | .identity P => ∃ identity ∈ w.agentIdentityStore.lines, P identity
  | .rule P => ∃ rule ∈ w.redactionRuleStore.lines, P rule
  | .entry P => w.Filed env P

section
variable {w w' : World}

theorem FileFact.Holds.extend (h : w.Extends env w') {fact : FileFact} (hw : fact.Holds env w) :
    fact.Holds env w' := by
  cases fact with
  | token P =>
    obtain ⟨t, ht, hP⟩ := hw
    exact ⟨t, h.tokens.subset ht, hP⟩
  | request P =>
    obtain ⟨r, hr, hP⟩ := hw
    exact ⟨r, h.requests.subset hr, hP⟩
  | policy P =>
    obtain ⟨policy, hpolicy, hP⟩ := hw
    exact ⟨policy, h.policies.subset hpolicy, hP⟩
  | identity P =>
    obtain ⟨identity, hidentity, hP⟩ := hw
    exact ⟨identity, h.identities.subset hidentity, hP⟩
  | rule P =>
    obtain ⟨rule, hrule, hP⟩ := hw
    exact ⟨rule, h.rules.subset hrule, hP⟩
  | entry P =>
    obtain ⟨entry, hentry, hP⟩ := hw
    exact ⟨entry, h.entries.subset hentry, hP⟩

end

/-- A fact about the files, once it holds, lasts. -/
def FileFact.lasting (env : Env) (fact : FileFact) : Lasting env :=
  Ambit.lasting env (fact.Holds env) fun _ _ h hfact => hfact.extend h

/-! ## What an operation gives -/

/-- Two invariants at once. -/
def RecordInvariant.and {operators : Option String → Prop} {agents : String → Prop}
    (I J : RecordInvariant env operators agents) : RecordInvariant env operators agents where
  holds w := I.holds w ∧ J.holds w
  unrecorded w w' h hsame := ⟨I.unrecorded w w' h.1 hsame, J.unrecorded w w' h.2 hsame⟩
  logged w call hentry h := ⟨I.logged w call hentry h.1, J.logged w call hentry h.2⟩
  tokenSaved w appended t h := ⟨I.tokenSaved w appended t h.1, J.tokenSaved w appended t h.2⟩
  requestSaved w appended r h := ⟨I.requestSaved w appended r h.1, J.requestSaved w appended r h.2⟩
  policySaved w appended p h := ⟨I.policySaved w appended p h.1, J.policySaved w appended p h.2⟩
  identitySaved w appended i h := ⟨I.identitySaved w appended i h.1, J.identitySaved w appended i h.2⟩
  ruleSaved w appended r h := ⟨I.ruleSaved w appended r h.1, J.ruleSaved w appended r h.2⟩
  restarted w h := ⟨I.restarted w h.1, J.restarted w h.2⟩

/-- What holds of any files. -/
def nothing (env : Env) : Lasting env := lasting env (fun _ => True) fun _ _ _ h => h

/-- From well-kept files with `C`, the operation leaves such files, and `J` of its value if it returns
one. -/
def Gives (C : Lasting env) (J : α → World → Prop) (x : Op α) : Prop :=
  ∀ w, ((filing env).and C).holds w →
    wp x (fun r w' => ((filing env).and C).holds w' ∧ OnOk (fun a => J a w') r) w

namespace Gives

variable {C : Lasting env} {J : α → World → Prop} {x : Op α} {g : α → Op β} {K : β → World → Prop}

theorem pure {a : α} (h : ∀ w, w.WellFiled env → C.holds w → J a w) :
    Gives C J (pure a) := fun w hw => wp_pure ⟨hw, h w hw.1 hw.2⟩

theorem throw {err : Err} : Gives C J (throw err) := fun _ hw => wp_throw ⟨hw, trivial⟩

theorem mono {J' : α → World → Prop} (h : Gives C J x) (hJ : ∀ a w, C.holds w → J a w → J' a w) :
    Gives C J' x := by
  refine fun w hw => wp_mono (h w hw) fun r w' hr => ⟨hr.1, ?_⟩
  cases r with
  | ok a => exact hJ a w' hr.1.2 hr.2
  | error => trivial

theorem get_bind {g : World → Op β} (hg : ∀ w, w.WellFiled env → C.holds w → Gives C K (g w)) :
    Gives C K (MonadState.get >>= g) := fun w hw => wp_bind (wp_get (hg w hw.1 hw.2 w hw))

/-- A step that gives nothing of interest. -/
theorem after (hx : Respects ((filing env).and C).toRecordPredicate x) (hg : ∀ a, Gives C K (g a)) :
    Gives C K (x >>= g) := by
  refine fun w hw => wp_bind (wp_mono (hx w hw) fun r w' hr => ?_)
  cases r with
  | ok a => exact hg a w' hr.state
  | error => exact ⟨hr.state, trivial⟩

/-- What a step gives lasts through the rest. -/
theorem bind {L : α → FileFact} (hx : Gives C (fun a => (L a).Holds env) x)
    (hg : ∀ a, Gives (C.and ((L a).lasting env)) K (g a)) : Gives C K (x >>= g) := by
  refine fun w hw => wp_bind (wp_mono (hx w hw) fun r w' hr => ?_)
  cases r with
  | error => exact ⟨hr.1, trivial⟩
  | ok a =>
    refine wp_mono (hg a w' ⟨hr.1.1, hr.1.2, hr.1.1.laidOut, hr.2⟩) fun r w'' h => ?_
    exact ⟨⟨h.1.1, h.1.2.1⟩, h.2⟩

/-- What a step says of its value alone. -/
theorem bind_value {P : α → Prop} (hx : Gives C (fun a _ => P a) x) (hg : ∀ a, P a → Gives C K (g a)) :
    Gives C K (x >>= g) := by
  refine fun w hw => wp_bind (wp_mono (hx w hw) fun r w' hr => ?_)
  cases r with
  | error => exact ⟨hr.1, trivial⟩
  | ok a => exact hg a hr.2 w' hr.1

/-- The value is wrapped. -/
theorem map {f : α → β} (hx : Gives C (fun a => K (f a)) x) : Gives C K (do return f (← x)) := by
  refine fun w hw => wp_bind (wp_mono (hx w hw) fun r w' hr => ?_)
  cases r with
  | ok a => exact wp_pure hr
  | error => exact hr

theorem ite {c : Prop} [Decidable c] {y : Op α} (hx : c → Gives C J x) (hy : ¬ c → Gives C J y) :
    Gives C J (if c then x else y) := by
  split
  · next h => exact hx h
  · next h => exact hy h

/-- A check that throws. -/
theorem throwIf_bind {c : Prop} [Decidable c] {err : Err} {g : Unit → Op β}
    (hg : Gives C K (g ())) : Gives C K (throwIf c err >>= g) :=
  after (Keeps.throwIf trivial) fun _ => hg

/-- An operation that is tried. -/
theorem attempt_bind {g : Except Err α → Op β} {P : α → Prop} (hx : Gives C (fun a _ => P a) x)
    (hok : ∀ a, P a → Gives C K (g (.ok a))) (herror : ∀ err, Gives C K (g (.error err))) :
    Gives C K (attempt x >>= g) := by
  refine fun w hw => wp_bind (wp_attempt (wp_mono (hx w hw) fun r w' hr => ?_))
  cases r with
  | error err => exact herror err w' hr.1
  | ok a => exact hok a hr.2 w' hr.1

/-- An operation that is tried, and what it gives if it returns. -/
theorem attempt_bind_fact {g : Except Err α → Op β} {L : α → FileFact}
    (hx : Gives C (fun a => (L a).Holds env) x)
    (hok : ∀ a, Gives (C.and ((L a).lasting env)) K (g (.ok a)))
    (herror : ∀ err, Gives C K (g (.error err))) : Gives C K (attempt x >>= g) := by
  refine fun w hw => wp_bind (wp_attempt (wp_mono (hx w hw) fun r w' hr => ?_))
  cases r with
  | error err => exact herror err w' hr.1
  | ok a =>
    refine wp_mono (hok a w' ⟨hr.1.1, hr.1.2, hr.1.1.laidOut, hr.2⟩) fun r w'' h => ?_
    exact ⟨⟨h.1.1, h.1.2.1⟩, h.2⟩

/-- An operation that stops at a frame, or returns. -/
theorem bind_progress {φ : Type} {x : Op (Progress φ α)} {g : Progress φ α → Op β} {F : φ → Prop}
    {L : α → FileFact}
    (hx : Gives C (fun progress w => progress.Meets F (fun a => (L a).Holds env) w) x)
    (hawaiting : ∀ f, F f → Gives C K (g (.awaiting f)))
    (hreturned : ∀ a, Gives (C.and ((L a).lasting env)) K (g (.returned a))) :
    Gives C K (x >>= g) := by
  refine fun w hw => wp_bind (wp_mono (hx w hw) fun r w' hr => ?_)
  rcases r with err | a | f
  · exact ⟨hr.1, trivial⟩
  · refine wp_mono (hreturned a w' ⟨hr.1.1, hr.1.2, hr.1.1.laidOut, hr.2⟩) fun r w'' h => ?_
    exact ⟨⟨h.1.1, h.1.2.1⟩, h.2⟩
  · exact hawaiting f hr.2 w' hr.1

/-- What the breaker lets through gives what it gives. -/
theorem execute {L : α → FileFact} (hx : Gives C (fun a => (L a).Holds env) x) :
    Gives C (fun a => (L a).Holds env) (execute env x) := by
  refine get_bind fun w hw hC => ite (fun _ => throw) fun _ => ?_
  have hset := ((filing env).and C).unrecorded w
  refine after (Keeps.set (hset _ ⟨hw, hC⟩ ⟨rfl, rfl, rfl, rfl, rfl, rfl⟩)) fun _ => ?_
  refine attempt_bind_fact (L := L) (ite (fun _ => throw) fun _ => ?_) (fun a => ?_) fun err => ?_
  · exact bind hx fun a => after (respects_breakerTransition _) fun _ => pure fun w _ h => h.2.2
  · exact pure fun w _ h => h.2.2
  · exact after (respects_breakerTransition _) fun _ => throw

end Gives

/-! ## What the saves and the log give -/

section
variable {C : Lasting env}

/-- A save that returns has appended its line. -/
theorem wp_saveRecord_filed {ρ : Type} {key : ρ → String} {image : ρ → ρ}
    {store : World → Journal String ρ} {put : World → Journal String ρ → World} {record : ρ}
    (hput : ∀ w j, store (put w j) = j) (w : World) :
    wp (saveRecord key image store put record)
      (fun r w' => OnOk (fun _ => ∃ line ∈ (store w').lines, line = image record) r) w := by
  refine wp_iff.mpr ?_
  simp only [result, after, saveRecord]
  cases (nextFault w.faults).1 with
  | true => trivial
  | false =>
    show ∃ line ∈ (store (put _ _)).lines, line = image record
    rw [hput]
    exact ⟨_, List.mem_append_right _ (List.mem_singleton_self _), rfl⟩

/-- What the files hold when a step returns. -/
theorem Gives.of_respects {x : Op α} {J : World → Prop} (hx : Respects ((filing env).and C).toRecordPredicate x)
    (h : ∀ w, w.WellFiled env → wp x (fun r w' => OnOk (fun _ => J w') r) w) :
    Gives C (fun _ => J) x :=
  fun w hw => wp_mono (wp_and (hx w hw) (h w hw.1)) fun _ _ ⟨hkept, hr⟩ => ⟨hkept.state, hr⟩

theorem gives_tokenStore_save (t : Token) :
    Gives C (fun _ => (FileFact.token (· = t.image)).Holds env) (TokenStore.save env t) :=
  Gives.execute (L := fun _ => .token (· = t.image)) <| .of_respects (respects_saveToken t)
    fun w _ => wp_saveRecord_filed (fun _ _ => rfl) w

theorem gives_policyStore_save (policy : Policy) :
    Gives C (fun _ => (FileFact.policy (· = policy.image)).Holds env) (PolicyStore.save env policy) :=
  Gives.execute (L := fun _ => .policy (· = policy.image)) <| .of_respects (respects_savePolicy policy)
    fun w _ => wp_saveRecord_filed (fun _ _ => rfl) w

theorem gives_requestStore_save (r : PendingRequest) :
    Gives C (fun _ => (FileFact.request (· = r.image)).Holds env) (RequestStore.save r) :=
  .of_respects (respects_requestStore_save r) fun w _ => wp_saveRecord_filed (fun _ _ => rfl) w

theorem gives_identityStore_save (identity : AgentIdentity) :
    Gives C (fun _ => (FileFact.identity (· = identity)).Holds env) (AgentIdentityStore.save identity) :=
  .of_respects (respects_identityStore_save identity) fun w _ => wp_saveRecord_filed (fun _ _ => rfl) w

theorem gives_ruleStore_save (rule : RedactionRule) :
    Gives C (fun _ => (FileFact.rule (· = rule)).Holds env) (RedactionRuleStore.save rule) :=
  .of_respects (respects_ruleStore_save rule) fun w _ => wp_saveRecord_filed (fun _ _ => rfl) w

/-- A `record` that returns has appended its entry. -/
theorem gives_auditRecord {entry : AuditEntryInput}
    (h : entry.AttributedTo (fun _ => True) (fun _ => True)) (now : Int) :
    Gives C (fun _ => (FileFact.entry (· = entry)).Holds env) (auditRecord env entry now) := by
  refine .of_respects (respects_auditRecord h now) fun w hw =>
    wp_mono (wp_auditRecord_call entry now w) ?_
  rintro r w' ⟨call, rfl, hsame, hr⟩
  cases r with
  | error => trivial
  | ok =>
    obtain ⟨full, hfull⟩ := hr
    obtain ⟨segments, hlayout⟩ := hw.laidOut
    obtain ⟨segments', added, hlayout', hentries, hadded⟩ := hlayout.call (p := env.toPlatform) call
    obtain ⟨hmem, hinput⟩ := hadded full hfull
    refine ⟨full, ?_, hinput⟩
    have hfiles : w'.filedEntries env = World.filedEntries env
        { w with auditLog := (w.auditLog.call env.toPlatform env.audit call).2 } := by
      rw [World.filedEntries, World.filedEntries, hsame.auditLog]
    rw [hfiles, World.filedEntries_eq hlayout', hentries]
    exact List.mem_append_right _ hmem

/-- What is read from the stores stands under its id. -/
theorem gives_tokenStore_get (id : String) :
    Gives C (fun found _ => ∀ t, found = some t → t.id = id) (TokenStore.get env id) := by
  intro w hw
  refine wp_mono (wp_and (respects_tokenStore_get id w hw) (TokenStore.wp_get_stored id)) ?_
  rintro r w' ⟨hkept, hr⟩
  refine ⟨hkept.state, ?_⟩
  cases r with
  | error => trivial
  | ok found =>
    rintro t rfl
    exact hw.1.tokens id t (hr t rfl)

theorem gives_requestStore_get (id : String) :
    Gives C (fun found _ => ∀ r, found = some r → r.id = id) (RequestStore.get id) :=
  .get_bind fun _ hw _ => .pure fun _ _ _ r hr => hw.requests id r hr

theorem gives_getPending (requestId verb : String) :
    Gives C (fun pending _ => pending.id = requestId) (getPending requestId verb) := by
  refine .bind_value (gives_requestStore_get requestId) fun found hfound => ?_
  cases found with
  | none => exact .throw
  | some pending => exact .throwIf_bind (.pure fun _ _ _ => hfound pending rfl)

end

end Ambit
