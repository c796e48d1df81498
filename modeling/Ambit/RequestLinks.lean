import Ambit.Refinement

/-! Requests and tokens stay linked along every run: an approved request, and no other, names a
stored token with its terms, and the secret that it holds and hands out opens that token. -/

namespace Ambit

variable {κ : Type} {env : Env} {c : Config κ}

/-- A claim that succeeds: the request, its token, and their one subject. -/
theorem claimTokenSecret_returns (hc : c.Sound env) {requestId subject tokenId secret : String}
    {now : Int} {w' : World}
    (hclaim : claimTokenSecret env requestId subject now c.world = .ok (tokenId, secret) w') :
    ∃ request token, c.world.ledger.requests requestId = some request ∧ request.subject = subject ∧
      request.tokenId = some tokenId ∧ c.world.ledger.tokens tokenId = some token ∧
      token.subject = subject ∧ verifyPassword env.toPlatform secret token.secretHash = true ∧
      w'.Sound env ∧ w'.ledger.tokens tokenId = some token := by
  obtain ⟨-, hr⟩ | ⟨request, _, _, rfl, rfl, hstep, hr⟩ :=
    Effect.wp_ok (claimTokenSecret_spec hc.world requestId subject now) hclaim
  · cases hr
  · cases hr
    obtain ⟨hrequest, -, htokenId, hsecret⟩ := hstep.enabled
    have hlinked := hc.linked.requests.linked _ _ hrequest
    obtain ⟨token, htoken, hsubject, -⟩ := hlinked.token tokenId htokenId
    obtain ⟨-, j, t, hj, ht, hverify⟩ := hlinked.secret secret hsecret
    cases htokenId.symm.trans hj
    cases htoken.symm.trans ht
    refine ⟨request, token, hrequest, rfl, htokenId, htoken, hsubject, hverify, hstep.sound, ?_⟩
    rw [hstep.ledger_eq, hstep.enabled.token_stays htoken]
    rfl

/-- The gateway's possession check passes for a secret that opens the stored token. -/
theorem enforceToken_possessed {w w' : World} (h : w.Sound env)
    {tokenId secret action : String} {now : Int} {token : Token} {frame : EnforceFrame}
    (htoken : w.ledger.tokens tokenId = some token)
    (hverify : verifyPassword env.toPlatform secret token.secretHash = true)
    (hrun : enforceToken env tokenId secret action now w = .ok (.awaiting frame) w') :
    frame.possessed env = true := by
  obtain ⟨-, hfor⟩ := Effect.wp_ok (enforceToken_spec h tokenId secret action now) hrun
  have hframe : frame.For w.ledger tokenId secret action now := hfor
  cases htoken.symm.trans hframe.token_eq
  rw [EnforceFrame.possessed, hframe.providedSecret_eq]
  exact hverify

/-- A claim by anyone but the submitter fails and changes no request. -/
theorem claimTokenSecret_wrong_subject (now : Int) (hc : c.Sound env) {requestId subject : String}
    {request : PendingRequest} (hrequest : c.world.ledger.requests requestId = some request)
    (hsubject : request.subject ≠ subject) :
    ∃ err w', claimTokenSecret env requestId subject now c.world = .error err w' ∧
      w'.ledger.requests = c.world.ledger.requests := by
  have hspec := claimTokenSecret_spec hc.world requestId subject now
  cases hclaim : claimTokenSecret env requestId subject now c.world with
  | ok claimed w' =>
    obtain ⟨-, hr⟩ | ⟨_, _, _, rfl, hpending, hstep, -⟩ := Effect.wp_ok hspec hclaim
    · cases hr
    · cases hstep.enabled.1.symm.trans hrequest
      exact absurd hpending hsubject
  | error err w' =>
    refine ⟨err, w', rfl, ?_⟩
    obtain ⟨hq, -⟩ | ⟨_, _, _, -, -, -, hr⟩ := Effect.wp_error hspec hclaim
    · rw [hq.ledger_eq]
    · cases hr

/-- **Request and token records stay linked.** In every reachable state a request names a token if
and only if it is approved, and the token has its subject and scope; a secret that it holds opens
that token; and a claim hands such a secret to the submitter, who is the token's subject, and to no
one else. -/
theorem requests_tokens_linked (env : Env) (acts : List (Action κ)) :
    let w := ((processMachine κ env).run acts).world
    (∀ i r, w.requestStore.live.get i = some r →
      (r.tokenId.isSome ↔ r.status = .approved) ∧
      (∀ j, r.tokenId = some j → ∃ t, w.tokenStore.live.get j = some t ∧
        t.subject = r.subject ∧ t.scope = r.scope) ∧
      (∀ s, r.tokenSecret = some s → r.status = .approved ∧ ∃ j t, r.tokenId = some j ∧
        w.tokenStore.live.get j = some t ∧
        verifyPassword env.toPlatform s t.secretHash = true)) ∧
    (∀ requestId subject now tokenId secret w',
      claimTokenSecret env requestId subject now w = .ok (tokenId, secret) w' →
      (∃ request token, w.requestStore.live.get requestId = some request ∧
        request.subject = subject ∧ request.tokenId = some tokenId ∧
        w.tokenStore.live.get tokenId = some token ∧ token.subject = subject) ∧
      ∀ action now' frame w'',
        enforceToken env tokenId secret action now' w' = .ok (.awaiting frame) w'' →
        frame.possessed env = true) ∧
    (∀ requestId subject now request, w.requestStore.live.get requestId = some request →
      request.subject ≠ subject →
      ∃ err w', claimTokenSecret env requestId subject now w = .error err w' ∧
        ∀ i, w'.requestStore.live.get i = w.requestStore.live.get i) := by
  intro w
  have hc : ((processMachine κ env).run acts).Sound env := Config.sound_run acts
  refine ⟨fun i r hr => ?_, ?_, ?_⟩
  · have hlinked := hc.linked.requests.linked i r hr
    refine ⟨hlinked.approved_iff, hlinked.token, fun s hs => ?_⟩
    obtain ⟨-, j, t, hj, ht, hverify⟩ := hlinked.secret s hs
    exact ⟨hlinked.approved_iff.mp (by simp [hj]), j, t, hj, ht, hverify⟩
  · intro requestId subject now tokenId secret w' hclaim
    obtain ⟨request, token, hrequest, hsubject, hid, htoken, hsame, hverify, hsound, htoken'⟩ :=
      claimTokenSecret_returns hc hclaim
    refine ⟨⟨request, token, hrequest, hsubject, hid, htoken, hsame⟩, ?_⟩
    exact fun action now' frame w'' hrun => enforceToken_possessed hsound htoken' hverify hrun
  · intro requestId subject now request hrequest hsubject
    obtain ⟨err, w', hclaim, hrequests⟩ :=
      claimTokenSecret_wrong_subject now hc hrequest hsubject
    exact ⟨err, w', hclaim, congrFun hrequests⟩

end Ambit
