import Ambit.LoginReplay

/-! Runs of a `TotpVerifier`: exactly what each call accepts, and what is remembered of it. -/

namespace Ambit

variable {p : LoginPlatform}

/-! ## Codes -/

section
variable {secret code : String} {stepSeconds digits : ℕ} {timestep : ℤ} {key : List UInt8}

/-- A timestep survives its way through milliseconds. -/
theorem counter_of_timestep (hstep : 1 ≤ stepSeconds) :
    timestep * stepSeconds * 1000 / 1000 / stepSeconds = timestep := by
  rw [Int.mul_ediv_cancel _ (by decide), Int.mul_ediv_cancel _ (by omega)]

theorem key_of_generateTotpCode {timeMs : ℤ}
    (h : generateTotpCode p secret timeMs stepSeconds digits = .ok code) :
    ∃ key, base32Decode p secret = .ok key := by
  unfold generateTotpCode at h
  cases hkey : base32Decode p secret with
  | ok key => exact ⟨key, rfl⟩
  | error err =>
    rw [hkey] at h
    simp only [bind, Except.bind] at h
    split at h
    · cases h
    · cases h

/-- With a secret that decodes, every timestep that fits 32 bits has a code. -/
theorem exists_generateTotpCode (hkey : base32Decode p secret = .ok key) (hstep : 1 ≤ stepSeconds)
    (hlow : 0 ≤ timestep) (hhigh : timestep ≤ 0xffffffff) :
    ∃ code, generateTotpCode p secret (timestep * stepSeconds * 1000) stepSeconds digits =
      .ok code :=
  ⟨_, generateTotpCode_of_key hstep (counter_of_timestep hstep) hlow hhigh hkey⟩

end

namespace TotpVerifier

variable {v : TotpVerifier} {code : String} {now : ℤ}

/-- The timestep of a time. -/
def current (v : TotpVerifier) (now : ℤ) : ℤ := now / 1000 / v.stepSeconds

/-- The timesteps around a time can be written in 32 bits. -/
def InRange (v : TotpVerifier) (now : ℤ) : Prop :=
  v.driftSteps ≤ v.current now ∧ v.current now ≤ 0xffffffff - v.driftSteps

instance (v : TotpVerifier) (now : ℤ) : Decidable (v.InRange now) :=
  inferInstanceAs (Decidable (_ ∧ _))

/-- The timestep has this code. -/
def HasCode (p : LoginPlatform) (v : TotpVerifier) (timestep : ℤ) (code : String) : Prop :=
  generateTotpCode p v.secret (timestep * v.stepSeconds * 1000) v.stepSeconds v.digits = .ok code

/-- The timestep is within the drift of the current one, after the last one that was accepted, and
has the code. -/
structure Acceptable (p : LoginPlatform) (v : TotpVerifier) (code : String) (now timestep : ℤ) :
    Prop where
  low : v.current now - v.driftSteps ≤ timestep
  high : timestep ≤ v.current now + v.driftSteps
  fresh : ∀ last ∈ v.lastAcceptedTimestep, last < timestep
  code : v.HasCode p timestep code

theorem timesteps_eq : v.timesteps now =
    (List.range (2 * v.driftSteps + 1)).map fun k : ℕ => v.current now - v.driftSteps + k := by
  have hcast : (do let k ← List.range (2 * v.driftSteps + 1); pure (k : ℤ) : List ℤ) =
      (List.range (2 * v.driftSteps + 1)).map fun k : ℕ => (k : ℤ) := List.flatMap_pure_eq_map ..
  rw [timesteps, hcast, List.map_map]
  rfl

theorem mem_timesteps {timestep : ℤ} : timestep ∈ v.timesteps now ↔
    v.current now - v.driftSteps ≤ timestep ∧ timestep ≤ v.current now + v.driftSteps := by
  rw [timesteps_eq]
  simp only [List.mem_map, List.mem_range]
  constructor
  · rintro ⟨k, hk, rfl⟩
    omega
  · rintro ⟨hlow, hhigh⟩
    exact ⟨(timestep - (v.current now - v.driftSteps)).toNat, by omega, by omega⟩

theorem timesteps_sorted : (v.timesteps now).Pairwise (· < ·) := by
  rw [timesteps_eq]
  exact List.pairwise_map.mpr (List.pairwise_lt_range.imp fun hlt => by omega)

theorem replays_eq_false {timestep : ℤ} :
    v.replays timestep = false ↔ ∀ last ∈ v.lastAcceptedTimestep, last < timestep := by
  unfold replays
  cases v.lastAcceptedTimestep <;> simp

theorem acceptable_iff {timestep : ℤ} : v.Acceptable p code now timestep ↔
    timestep ∈ v.timesteps now ∧ v.replays timestep = false ∧ v.HasCode p timestep code := by
  rw [mem_timesteps, replays_eq_false]
  exact ⟨fun ⟨hlow, hhigh, hfresh, hcode⟩ => ⟨⟨hlow, hhigh⟩, hfresh, hcode⟩,
    fun ⟨⟨hlow, hhigh⟩, hfresh, hcode⟩ => ⟨hlow, hhigh, hfresh, hcode⟩⟩

/-! ## The loop -/

/-- What the loop of `verify` comes to: the first timestep that is not a replay and has the code;
none of them; or an error, if some timestep has no code at all. -/
theorem findTimestep_cases (code : String) (steps : List ℤ) :
    match v.findTimestep p code steps with
    | .ok (some timestep) => ∃ before after, steps = before ++ timestep :: after ∧
        v.replays timestep = false ∧ v.HasCode p timestep code ∧
        ∀ t ∈ before, v.replays t = false → ¬ v.HasCode p t code
    | .ok none => ∀ t ∈ steps, v.replays t = false → ¬ v.HasCode p t code
    | .error _ => ∃ t ∈ steps, ∀ code, ¬ v.HasCode p t code := by
  induction steps with
  | nil => exact fun t ht => absurd ht List.not_mem_nil
  | cons step rest ih =>
    have hskip : (v.replays step = false → ¬ v.HasCode p step code) →
        match v.findTimestep p code rest with
        | .ok (some timestep) => ∃ before after, step :: rest = before ++ timestep :: after ∧
            v.replays timestep = false ∧ v.HasCode p timestep code ∧
            ∀ t ∈ before, v.replays t = false → ¬ v.HasCode p t code
        | .ok none => ∀ t ∈ step :: rest, v.replays t = false → ¬ v.HasCode p t code
        | .error _ => ∃ t ∈ step :: rest, ∀ code, ¬ v.HasCode p t code := by
      intro hstep
      cases hfind : v.findTimestep p code rest with
      | error err =>
        rw [hfind] at ih
        obtain ⟨t, ht, hcode⟩ := ih
        exact ⟨t, List.mem_cons_of_mem _ ht, hcode⟩
      | ok found =>
        rw [hfind] at ih
        cases found with
        | none => exact List.forall_mem_cons.mpr ⟨hstep, ih⟩
        | some timestep =>
          obtain ⟨before, after, rfl, hfresh, hcode, hbefore⟩ := ih
          exact ⟨step :: before, after, rfl, hfresh, hcode, List.forall_mem_cons.mpr ⟨hstep, hbefore⟩⟩
    rw [findTimestep]
    cases hreplays : v.replays step with
    | true => exact hskip fun hfresh => Bool.noConfusion (hreplays.symm.trans hfresh)
    | false =>
      rw [if_neg Bool.false_ne_true]
      cases hcode : generateTotpCode p v.secret (step * v.stepSeconds * 1000) v.stepSeconds v.digits with
      | error err => exact ⟨step, List.mem_cons_self .., fun _ h => by cases hcode.symm.trans h⟩
      | ok candidate =>
        simp only [bind, Except.bind]
        by_cases heq : candidate = code
        · rw [if_pos heq]
          exact ⟨[], rest, rfl, hreplays, heq ▸ hcode, fun t ht => absurd ht List.not_mem_nil⟩
        · rw [if_neg heq]
          refine hskip fun _ h => heq ?_
          cases hcode.symm.trans h
          rfl

/-! ## A call -/

/-- A call accepts the first acceptable timestep and remembers it, or there is none. -/
theorem verify_cases (code : String) (hstep : 1 ≤ v.stepSeconds) (hrange : v.InRange now) :
    match v.verify p code now with
    | .ok (true, v') => ∃ t, v.Acceptable p code now t ∧
        (∀ t', v.Acceptable p code now t' → t ≤ t') ∧ v' = { v with lastAcceptedTimestep := some t }
    | .ok (false, v') => v' = v ∧ ¬ ∃ t, v.Acceptable p code now t
    | .error _ => ¬ ∃ t, v.Acceptable p code now t := by
  have hcases := findTimestep_cases (p := p) (v := v) code (v.timesteps now)
  unfold verify
  cases hfind : v.findTimestep p code (v.timesteps now) with
  | error err =>
    rw [hfind] at hcases
    obtain ⟨step, hmem, hcodeless⟩ := hcases
    rintro ⟨t, ht⟩
    -- the secret decodes, so that every timestep in range has a code
    obtain ⟨key, hkey⟩ := key_of_generateTotpCode ht.code
    obtain ⟨hlow, hhigh⟩ := mem_timesteps.mp hmem
    obtain ⟨hfrom, hto⟩ := hrange
    have hlow' : 0 ≤ step := by omega
    have hhigh' : step ≤ 0xffffffff := by omega
    obtain ⟨code', hcode'⟩ := exists_generateTotpCode hkey hstep hlow' hhigh'
    exact hcodeless code' hcode'
  | ok found =>
    rw [hfind] at hcases
    cases found with
    | none =>
      refine ⟨rfl, ?_⟩
      rintro ⟨t, ht⟩
      obtain ⟨hmem, hfresh, hcode⟩ := acceptable_iff.mp ht
      exact hcases t hmem hfresh hcode
    | some timestep =>
      obtain ⟨before, after, hsteps, hfresh, hcode, hbefore⟩ := hcases
      have hmem : timestep ∈ v.timesteps now := by
        rw [hsteps]
        exact List.mem_append_right _ (List.mem_cons_self ..)
      refine ⟨timestep, acceptable_iff.mpr ⟨hmem, hfresh, hcode⟩, fun t' ht' => ?_, rfl⟩
      obtain ⟨hmem', hfresh', hcode'⟩ := acceptable_iff.mp ht'
      have hsorted : (v.timesteps now).Pairwise (· < ·) := timesteps_sorted
      rw [hsteps] at hmem' hsorted
      rcases List.mem_append.mp hmem' with hbefore' | hafter
      · exact absurd hcode' (hbefore t' hbefore' hfresh')
      · rcases List.mem_cons.mp hafter with rfl | hafter
        · exact le_rfl
        · have hlt := List.rel_of_pairwise_cons (List.pairwise_append.mp hsorted).2.1 hafter
          exact hlt.le

/-- What a call does: it accepts if and only if some timestep is acceptable, and then remembers the
first of them; otherwise it changes nothing. -/
structure Exact (p : LoginPlatform) (v : TotpVerifier) (code : String) (now : ℤ) : Prop where
  accepts : (∃ v', v.verify p code now = .ok (true, v')) ↔ ∃ t, v.Acceptable p code now t
  records : ∀ v', v.verify p code now = .ok (true, v') → ∃ t, v.Acceptable p code now t ∧
    (∀ t', v.Acceptable p code now t' → t ≤ t') ∧ v' = { v with lastAcceptedTimestep := some t }
  keeps : ∀ v', v.verify p code now = .ok (false, v') → v' = v

theorem exact (hstep : 1 ≤ v.stepSeconds) (hrange : v.InRange now) : v.Exact p code now := by
  have hcases := verify_cases (p := p) code hstep hrange
  rcases hverify : v.verify p code now with err | ⟨_ | _, v'⟩
  · rw [hverify] at hcases
    refine ⟨⟨?_, fun h => absurd h hcases⟩, ?_, ?_⟩ <;> simp [hverify]
  · rw [hverify] at hcases
    refine ⟨⟨?_, fun h => absurd h hcases.2⟩, ?_, ?_⟩
    · simp [hverify]
    · simp [hverify]
    · rintro _ h
      cases hverify.symm.trans h
      exact hcases.1
  · rw [hverify] at hcases
    obtain ⟨t, ht, hfirst, rfl⟩ := hcases
    refine ⟨⟨fun _ => ⟨t, ht⟩, fun _ => ⟨_, hverify⟩⟩, ?_, ?_⟩
    · rintro _ h
      cases hverify.symm.trans h
      exact ⟨t, ht, hfirst, rfl⟩
    · simp [hverify]

/-! ## Runs -/

/-- A call that was accepted: its timestep, and the current one at the time. -/
structure Acceptance where
  timestep : ℤ
  current : ℤ

/-- The acceptance of a call, if it is accepted. -/
def acceptance (p : LoginPlatform) (v : TotpVerifier) (call : String × ℤ) : Option Acceptance :=
  match v.verify p call.1 call.2 with
  | .ok (true, v') => v'.lastAcceptedTimestep.map (⟨·, v.current call.2⟩)
  | _ => none

/-- A verifier that has not accepted a code yet, and its calls: any codes at any times. -/
def machine (p : LoginPlatform) (fresh : TotpVerifier) : Machine TotpVerifier (String × ℤ) where
  init := { fresh with lastAcceptedTimestep := none }
  step v call :=
    match v.verify p call.1 call.2 with
    | .ok (_, v') => v'
    | .error _ => v

/-- What a run has accepted, in order. -/
def acceptances (p : LoginPlatform) (fresh : TotpVerifier) (calls : List (String × ℤ)) :
    List Acceptance :=
  (machine p fresh).outputs (acceptance p) calls

/-- A run so far: the settings are as they were, the verifier remembers the last acceptance, and each
was after those before it, and within the drift. -/
structure Ran (p : LoginPlatform) (v fresh : TotpVerifier) (accepted : List Acceptance) : Prop where
  settings : v = { fresh with lastAcceptedTimestep := v.lastAcceptedTimestep }
  last : v.lastAcceptedTimestep = accepted.getLast?.map (·.timestep)
  before : ∀ a ∈ accepted, ∃ last ∈ v.lastAcceptedTimestep, a.timestep ≤ last
  rises : (accepted.map (·.timestep)).Pairwise (· < ·)
  drift : ∀ a ∈ accepted, a.timestep ≤ a.current + fresh.driftSteps

section
variable {fresh : TotpVerifier} {accepted : List Acceptance}

theorem Ran.stepSeconds_eq (h : v.Ran p fresh accepted) : v.stepSeconds = fresh.stepSeconds :=
  (congrArg TotpVerifier.stepSeconds h.settings :)

theorem Ran.driftSteps_eq (h : v.Ran p fresh accepted) : v.driftSteps = fresh.driftSteps :=
  (congrArg TotpVerifier.driftSteps h.settings :)

theorem Ran.current_eq (h : v.Ran p fresh accepted) (now : ℤ) : v.current now = fresh.current now := by
  rw [current, current, h.stepSeconds_eq]

theorem Ran.inRange (h : v.Ran p fresh accepted) (hrange : fresh.InRange now) : v.InRange now := by
  rw [InRange, h.current_eq, h.driftSteps_eq]
  exact hrange

theorem Ran.hasCode_iff (h : v.Ran p fresh accepted) {timestep : ℤ} :
    v.HasCode p timestep code ↔ fresh.HasCode p timestep code := by
  rw [h.settings]
  rfl

theorem ran_initial : Ran p { fresh with lastAcceptedTimestep := none } fresh [] :=
  ⟨rfl, rfl, fun _ ha => absurd ha List.not_mem_nil, List.Pairwise.nil,
    fun _ ha => absurd ha List.not_mem_nil⟩

theorem Ran.next (h : v.Ran p fresh accepted) (hstep : 1 ≤ fresh.stepSeconds) {call : String × ℤ}
    (hrange : fresh.InRange call.2) :
    Ran p ((machine p fresh).step v call) fresh (accepted ++ (acceptance p v call).toList) := by
  have hcases := verify_cases (p := p) call.1 (h.stepSeconds_eq ▸ hstep) (h.inRange hrange)
  unfold acceptance
  simp only [machine]
  rcases hverify : v.verify p call.1 call.2 with err | ⟨_ | _, v'⟩
  · simpa using h
  · rw [hverify] at hcases
    obtain ⟨rfl, -⟩ := hcases
    simpa using h
  · rw [hverify] at hcases
    obtain ⟨t, ht, -, rfl⟩ := hcases
    have hafter : ∀ a ∈ accepted, a.timestep < t := by
      intro a ha
      obtain ⟨last, hlast, hle⟩ := h.before a ha
      exact hle.trans_lt (ht.fresh last hlast)
    simp only [Option.map_some, Option.toList_some]
    refine ⟨?_, by simp, ?_, ?_, ?_⟩
    · rw [h.settings]
    · intro a ha
      refine ⟨t, rfl, ?_⟩
      rcases List.mem_append.mp ha with ha | ha
      · exact (hafter a ha).le
      · obtain rfl := List.mem_singleton.mp ha
        exact le_rfl
    · rw [List.map_append, List.pairwise_append]
      refine ⟨h.rises, List.pairwise_singleton _ _, fun s hs s' hs' => ?_⟩
      obtain ⟨a, ha, rfl⟩ := List.mem_map.mp hs
      obtain rfl := List.mem_singleton.mp hs'
      exact hafter a ha
    · intro a ha
      rcases List.mem_append.mp ha with ha | ha
      · exact h.drift a ha
      · obtain rfl := List.mem_singleton.mp ha
        rw [← h.driftSteps_eq]
        exact ht.high

theorem ran_run (hstep : 1 ≤ fresh.stepSeconds) {calls : List (String × ℤ)}
    (hrange : ∀ call ∈ calls, fresh.InRange call.2) :
    Ran p ((machine p fresh).run calls) fresh (acceptances p fresh calls) := by
  induction calls using List.reverseRecOn with
  | nil => exact ran_initial
  | append_singleton calls call ih =>
    have ih := ih fun call' hcall' => hrange call' (List.mem_append_left _ hcall')
    rw [Machine.run_snoc, acceptances, Machine.outputs_snoc]
    exact ih.next hstep (hrange call (List.mem_append_right _ (List.mem_singleton_self _)))

/-- What a verifier does in a run: every next call is exact, the accepted timesteps rise, and once the
current timestep is more than the drift after that of the last acceptance, its code is accepted. -/
structure VerifiesExactly (p : LoginPlatform) (fresh : TotpVerifier) (calls : List (String × ℤ)) :
    Prop where
  exact : ∀ code now, fresh.InRange now → ((machine p fresh).run calls).Exact p code now
  rises : ((acceptances p fresh calls).map (·.timestep)).Pairwise (· < ·)
  noLockout : ∀ code now, fresh.InRange now →
    (∀ a ∈ (acceptances p fresh calls).getLast?,
      a.current + fresh.driftSteps < fresh.current now) →
    fresh.HasCode p (fresh.current now) code →
    ∃ v', ((machine p fresh).run calls).verify p code now = .ok (true, v')

/-- **Verification is exact and never goes back.** -/
theorem verifiesExactly (hstep : 1 ≤ fresh.stepSeconds) {calls : List (String × ℤ)}
    (hrange : ∀ call ∈ calls, fresh.InRange call.2) : VerifiesExactly p fresh calls := by
  have hran := ran_run (p := p) hstep hrange
  have hexact : ∀ code now, fresh.InRange now → ((machine p fresh).run calls).Exact p code now :=
    fun code now hnow => TotpVerifier.exact (hran.stepSeconds_eq ▸ hstep) (hran.inRange hnow)
  refine ⟨hexact, hran.rises, fun code now hnow hlater hcode => ?_⟩
  refine (hexact code now hnow).accepts.mpr ⟨fresh.current now, ?_, ?_, ?_, hran.hasCode_iff.mpr hcode⟩
  · rw [hran.current_eq]
    omega
  · rw [hran.current_eq]
    omega
  · intro last hlast
    rw [hran.last] at hlast
    obtain ⟨a, ha, rfl⟩ := Option.mem_map.mp hlast
    have hdrift := hran.drift a (List.mem_of_getLast? ha)
    have hafter := hlater a ha
    omega

/-- A code is accepted, and tried again in the next timestep. -/
theorem verifiesExactly_sample : VerifiesExactly sampleLoginPlatform { secret := "AAAAAAAA" }
    [("000000", 60000), ("000000", 90000)] :=
  verifiesExactly (by decide) (by decide)

end

end TotpVerifier

end Ambit
