import Ambit.SamplePlatform
import Ambit.Untouched
import Mathlib.Data.Rat.Floor

/-! Which of the tokens that are issued are ever valid: the expiry is a whole millisecond, and no
later than that of the parent as it is then. -/

namespace Ambit

open Effect

variable {env : Env} {w w' : World} {request : TokenRequest} {frame : IssueFrame}

/-- The token expires after it was issued. -/
def Token.Lives (token : Token) : Prop :=
  (Date.ms token.issuedAt).getTime.lt token.expiresAt.getTime = true

/-- At some time from its issuance on the gateway allows every action in the token's scope. -/
def Token.Usable (env : Env) (token : Token) : Prop :=
  ∃ t, token.issuedAt ≤ t ∧ ∀ action ∈ token.scope, decide env token action t = .allowed

theorem Token.Lives.usable {token : Token} (h : token.Lives) (hactive : token.status = .active) :
    token.Usable env := by
  refine ⟨token.issuedAt, le_rfl, fun action haction => ?_⟩
  obtain ⟨s, t, hs, ht, hlt⟩ := Date.lt_iff.mp h
  cases hs
  have hunexpired : ¬ token.expiresAt.getTime.le (Date.ms token.issuedAt).getTime = true := by
    intro hle
    obtain ⟨t', s', ht', hs', hle⟩ := Date.le_iff.mp hle
    cases hs'
    cases ht.symm.trans ht'
    omega
  rw [decide, if_neg (not_not.mpr hactive), if_neg hunexpired, if_neg (not_not.mpr haction)]

/-! ## Whole milliseconds -/

theorem tdiv_num_den (q : ℚ) : q.num.tdiv q.den = if 0 ≤ q then ⌊q⌋ else ⌈q⌉ := by
  have hpos : ∀ q : ℚ, 0 ≤ q → q.num.tdiv q.den = ⌊q⌋ := by
    intro q hq
    rw [Rat.floor_def', Int.tdiv_eq_ediv_of_nonneg (Rat.num_nonneg.mpr hq)]
  split
  · exact hpos q ‹_›
  · rename_i hneg
    have h := hpos (-q) (by linarith)
    rw [Rat.num_neg_eq_neg_num, Rat.den_neg_eq_den, Int.neg_tdiv, Int.floor_neg] at h
    omega

/-- A truncated time is in a later millisecond if it is a millisecond away, or before the epoch, from
where truncation goes forward. -/
theorem lt_tdiv_iff {c : ℤ} {q : ℚ} :
    c < q.num.tdiv q.den ↔ (c : ℚ) + 1 ≤ q ∨ c < 0 ∧ (c : ℚ) < q := by
  have hcast : c < 0 ↔ (c : ℚ) < 0 := by exact_mod_cast Iff.rfl
  rw [tdiv_num_den, hcast]
  split
  · rename_i hq
    rw [Int.lt_iff_add_one_le, Int.le_floor, Int.cast_add, Int.cast_one]
    refine ⟨Or.inl, ?_⟩
    rintro (hle | ⟨hneg, -⟩)
    · exact hle
    · have hle : ((c + 1 : ℤ) : ℚ) ≤ 0 := by exact_mod_cast hcast.mpr hneg
      push_cast at hle
      linarith
  · rename_i hq
    rw [Int.lt_ceil]
    constructor
    · intro hlt
      exact .inr ⟨by linarith, hlt⟩
    · rintro (hle | ⟨-, hlt⟩)
      · linarith
      · exact hlt

/-- From now on the lifetime, as a double, reaches into a later millisecond, and to a date that there
is. -/
def JsNumber.Reaches (ttlSeconds : JsNumber) (now : Int) : Prop :=
  ∃ q, (JsNumber.finite now).add (ttlSeconds.scale 1000) = .finite q ∧
    (now + 1 ≤ q ∨ now < 0 ∧ now < q) ∧ |q| ≤ Date.maxTime

theorem requestedExpiry_later_iff {issuedAt : Int} {ttlSeconds : JsNumber} :
    (Date.ms issuedAt).getTime.lt (requestedExpiry issuedAt ttlSeconds).getTime = true ↔
      ttlSeconds.Reaches issuedAt := by
  unfold JsNumber.Reaches requestedExpiry
  show (Date.ms issuedAt).getTime.lt (Date.ofNumber
    ((JsNumber.finite issuedAt).add (ttlSeconds.scale 1000))).getTime = true ↔ _
  cases (JsNumber.finite issuedAt).add (ttlSeconds.scale 1000) with
  | finite q =>
    rw [Date.ofNumber]
    constructor
    · intro hlt
      split at hlt
      · rename_i hrange
        obtain ⟨s, t, hs, ht, hst⟩ := Date.lt_iff.mp hlt
        cases hs
        cases ht
        exact ⟨q, rfl, lt_tdiv_iff.mp hst, hrange⟩
      · cases hlt
    · rintro ⟨_, ⟨⟩, hreaches, hrange⟩
      rw [if_pos hrange]
      exact Date.lt_iff.mpr ⟨_, _, rfl, rfl, lt_tdiv_iff.mpr hreaches⟩
  | infinity | negInfinity | nan =>
    refine iff_of_false (fun hlt => by cases hlt) ?_
    rintro ⟨q, hq, -⟩
    cases hq

/-! ## Issuance -/

/-- The expiry, capped by that of the parent. -/
theorem capExpiry_later_iff {now : Int} {expiresAt : Date} {parent : Option Token} :
    (Date.ms now).getTime.lt (capExpiry expiresAt parent).getTime = true ↔
      (Date.ms now).getTime.lt expiresAt.getTime = true ∧
      ∀ t, parent = some t → t.expiresAt.getTime.le (Date.ms now).getTime = false := by
  cases parent with
  | none => simp [capExpiry]
  | some t =>
    have hparent : (∀ t', some t = some t' → t'.expiresAt.getTime.le (Date.ms now).getTime = false) ↔
        ¬ t.expiresAt.getTime.le (Date.ms now).getTime = true := by
      simp
    rw [hparent, capExpiry]
    split
    · rename_i hcapped
      obtain ⟨s, e, hs, rfl, hse⟩ := Date.lt_iff.mp hcapped
      rw [hs, Date.lt_iff, Date.lt_iff, Date.le_iff]
      constructor
      · rintro ⟨_, _, ⟨⟩, ⟨⟩, hlt⟩
        refine ⟨⟨now, e, rfl, rfl, by omega⟩, ?_⟩
        rintro ⟨_, _, ⟨⟩, ⟨⟩, hle⟩
        omega
      · rintro ⟨-, hlate⟩
        refine ⟨now, s, rfl, rfl, ?_⟩
        by_contra hle
        exact hlate ⟨s, now, rfl, rfl, by omega⟩
    · rename_i huncapped
      rw [iff_self_and]
      intro hlt hle
      obtain ⟨_, e, ⟨⟩, rfl, hlt⟩ := Date.lt_iff.mp hlt
      obtain ⟨s, _, hs, ⟨⟩, hle⟩ := Date.le_iff.mp hle
      refine huncapped (Date.lt_iff.mpr ⟨s, e, hs, rfl, by omega⟩)

/-- The token store and the clock are as before. -/
def IssuanceUndisturbed (w w' : World) : Prop :=
  w'.tokenStore = w.tokenStore ∧ w'.clock = w.clock

instance : SmallEffects IssuanceUndisturbed where
  refl _ := ⟨rfl, rfl⟩
  trans _ _ _ h h' := ⟨h'.1.trans h.1, h'.2.trans h.2⟩
  logged _ _ _ _ _ := ⟨rfl, rfl⟩
  breaker _ _ := ⟨rfl, rfl⟩
  anomaly _ _ := ⟨rfl, rfl⟩
  endpoints _ _ := ⟨rfl, rfl⟩

/-- What `issueToken` hands on at its await. -/
theorem wp_issueToken_frame (hasPolicyStore : Bool) :
    wp (issueToken env request hasPolicyStore) (fun r _ => OnOk (fun frame =>
      frame.issuedAt = w.clock ∧
        frame.expiresAt = capExpiry (requestedExpiry w.clock request.ttlSeconds)
          ((truthy request.parentTokenId).bind w.tokenStore.live.get)) r) w := by
  refine wp_bind (wp_throwIf (fun _ => trivial) fun _ => ?_)
  refine wp_bind (wp_throwIf (fun _ => trivial) fun _ => wp_bind ?_)
  refine wp_mono (Along.wp (R := IssuanceUndisturbed) ?_ w) ?_
  · cases truthy request.policyId with
    | some policyId => exact along_checkPolicy request policyId hasPolicyStore
    | none => exact Along.pure
  rintro r w₁ ⟨htokens, hclock⟩
  cases r with
  | error => trivial
  | ok =>
    refine wp_bind (wp_now (wp_bind ?_))
    refine wp_mono (Q := fun r _ =>
      OnOk (· = (truthy request.parentTokenId).bind w.tokenStore.live.get) r) ?_ fun r _ hr => ?_
    · cases truthy request.parentTokenId with
      | none => exact wp_pure rfl
      | some parentTokenId =>
        rw [← htokens]
        exact TokenStore.wp_get_found parentTokenId
    cases r with
    | error => trivial
    | ok parent =>
      obtain rfl : parent = _ := hr
      exact wp_bind (wp_draw (wp_bind (wp_draw (wp_pure ⟨hclock, by rw [hclock]⟩))))

/-- A suspended issuance stores its token, or none. -/
theorem IssueFrame.wp_resume_stored (frame : IssueFrame) : wp (frame.resume env) (fun _ w' =>
    (w'.tokenStore = w.tokenStore ∧ w.drawn.Rejects env) ∨ w'.tokenStore.live =
      w.tokenStore.live.set (env.randomUUID w.supply)
        (frame.token env (env.randomUUID w.supply))) w := by
  refine wp_bind (wp_draw (wp_bind (wp_mono (TokenStore.wp_save_failing _) ?_)))
  intro r w' hr
  have hstored : (w'.tokenStore = w.tokenStore ∧ w.drawn.Rejects env) ∨ w'.tokenStore.live =
      w.tokenStore.live.set (env.randomUUID w.supply)
        (frame.token env (env.randomUUID w.supply)) := by
    split at hr
    · exact .inl ⟨hr.2.tokenStore_eq, ‹_›⟩
    · exact .inr hr.1.live_eq
  cases r with
  | error => exact hstored
  | ok => exact wp_pure hstored

/-- Every token that the issuance stores, whenever it goes on after its await, is valid for a
time. -/
def IssuesLiving (env : Env) (request : TokenRequest) (hasPolicyStore : Bool) (w : World) : Prop :=
  ∀ frame w' w₁, issueToken env request hasPolicyStore w = .ok frame w' →
    ∀ i t, (after (frame.resume env) w₁).tokenStore.live.get i = some t →
      w₁.tokenStore.live.get i = some t ∨ t.Lives ∧ t.Usable env

/-- From the empty stores a suspended issuance stores its token. -/
theorem IssueFrame.resume_initial (frame : IssueFrame) :
    (after (frame.resume env) World.initial).tokenStore.live.get (env.randomUUID 0) =
      some (frame.token env (env.randomUUID 0)) := by
  have hflowing : World.initial.drawn.Flowing := ⟨rfl, rfl, rfl⟩
  have hstored : (after (frame.resume env) World.initial).tokenStore.live =
      OrderedMap.empty.set (env.randomUUID 0) (frame.token env (env.randomUUID 0)) :=
    (wp_iff.mp frame.wp_resume_stored).resolve_left fun h => hflowing.not_rejects h.2
  rw [hstored]
  exact OrderedMap.get_set_self ..

/-- The lifetime reaches into a later millisecond, and that of the parent, as it is now, too. -/
def TokenRequest.Outlasts (request : TokenRequest) (w : World) : Prop :=
  request.ttlSeconds.Reaches w.clock ∧
  ∀ parent, (truthy request.parentTokenId).bind w.tokenStore.live.get = some parent →
    parent.expiresAt.getTime.le (Date.ms w.clock).getTime = false

/-- **When a token is not issued already expired.** A request that is accepted issues a token that
lives exactly if its lifetime reaches into a later millisecond, and its parent has not expired by
then. -/
theorem issuesLiving_iff {hasPolicyStore : Bool}
    (haccepted : (result (issueToken env request hasPolicyStore) w).isOk = true) :
    IssuesLiving env request hasPolicyStore w ↔ request.Outlasts w := by
  have hlives : ∀ frame w', issueToken env request hasPolicyStore w = .ok frame w' →
      ∀ id, (frame.token env id).Lives ↔ request.Outlasts w := by
    intro frame w' hrun id
    obtain ⟨hissued, hexpires⟩ := wp_ok (wp_issueToken_frame hasPolicyStore) hrun
    rw [Token.Lives, IssueFrame.token, hexpires, hissued, capExpiry_later_iff,
      requestedExpiry_later_iff]
    rfl
  constructor
  · intro hissues
    cases hrun : issueToken env request hasPolicyStore w with
    | error err w' =>
      rw [result, hrun] at haccepted
      cases haccepted
    | ok frame w' =>
      rcases hissues frame w' World.initial hrun _ _ frame.resume_initial with hold | ⟨hlive, -⟩
      · cases hold
      · exact (hlives frame w' hrun _).mp hlive
  · intro houtlasts frame w' w₁ hrun i t ht
    rcases wp_iff.mp (frame.wp_resume_stored (w := w₁)) with ⟨hsame, -⟩ | hstored
    · rw [hsame] at ht
      exact .inl ht
    · rw [hstored, OrderedMap.get_set] at ht
      split at ht
      · cases ht
        have hlive := (hlives frame w' hrun (env.randomUUID w₁.supply)).mpr houtlasts
        exact .inr ⟨hlive, hlive.usable rfl⟩
      · exact .inl ht

/-! ## A token that expires when it is issued -/

/-- A lifetime of half a millisecond. -/
def sampleShort : TokenRequest :=
  { subject := "agent", scope := ["a"], ttlSeconds := .finite (1 / 2000) }

theorem issuesLiving_iff_sample :
    IssuesLiving sampleEnv sampleShort true World.initial ↔ sampleShort.Outlasts World.initial :=
  issuesLiving_iff (by decide +kernel)

/-- A token with a lifetime of half a millisecond expires when it is issued. -/
theorem not_issuesLiving : ¬ IssuesLiving sampleEnv sampleShort true World.initial := by
  intro hissues
  cases hrun : issueToken sampleEnv sampleShort true World.initial with
  | error err w' =>
    have haccepted : (result (issueToken sampleEnv sampleShort true) World.initial).isOk = true := by
      decide +kernel
    rw [result, hrun] at haccepted
    cases haccepted
  | ok frame w' =>
    obtain ⟨hissued, hexpires⟩ := wp_ok (wp_issueToken_frame true) hrun
    have hnow : capExpiry (requestedExpiry World.initial.clock sampleShort.ttlSeconds) none =
        .ms World.initial.clock := by
      decide +kernel
    rcases hissues frame w' World.initial hrun _ _ frame.resume_initial with hold | ⟨hlive, -⟩
    · cases hold
    · rw [Token.Lives, IssueFrame.token, hexpires, hissued] at hlive
      obtain ⟨_, _, ⟨⟩, ht, hlt⟩ := Date.lt_iff.mp hlive
      cases ht.symm.trans hnow
      exact lt_irrefl _ hlt

end Ambit
