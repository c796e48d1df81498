import Ambit.Refinement
import Ambit.SamplePlatform

/-! Provenance: as long as no outage of the stores is simulated, the lineage of every stored token
is found, complete and correct, in every reachable state. -/

namespace Ambit

variable {κ : Type} {env : Env} {acts : List (Action κ)}

/-- The action does not switch the simulated outage of the stores on. -/
def Action.NoOutage (a : Action κ) : Prop := ∀ client, a ≠ .call client (.simulateOutage true)

/-- Without a simulated outage the breaker never trips: nothing else makes an access fail. -/
theorem flowing_run (hacts : ∀ a ∈ acts, a.NoOutage) :
    ((processMachine κ env).run acts).world.Flowing := by
  induction acts using List.reverseRecOn with
  | nil => exact (World.boot_quiet World.sound_initial).flows ⟨rfl, rfl, rfl⟩
  | append_singleton acts a ih =>
    rw [Machine.run_snoc]
    obtain ⟨e, hadvances⟩ := (@Config.sound_run env _ acts).exec a
    refine hadvances.flows (hacts a (by simp)) (ih fun b hb => hacts b ?_)
    exact List.mem_append_left _ hb

/-- **Provenance is complete and correct.** For every stored token `getTokenLineage` comes to an
end, whatever bound above the number of tokens its loop is given, and returns the chain of current
records from a root down to the token, without repetition, and the origin that the one approval
entry of the root records. -/
theorem getTokenLineage_complete (env : Env) (acts : List (Action κ))
    (hacts : ∀ a ∈ acts, a.NoOutage) :
    let w := ((processMachine κ env).run acts).world
    ∀ i token, w.tokenStore.live.get i = some token →
      ∀ fuel, w.tokenStore.live.values.length < fuel →
        ∃ lineage : TokenLineage, getTokenLineage env fuel i w = .ok (some lineage) w ∧
          lineage.Complete w token := by
  intro w i token htoken fuel hfuel
  have hc : ((processMachine κ env).run acts).Sound env := Config.sound_run acts
  obtain rfl : token.id = i := hc.world.tokens.keyed i token htoken
  have hspec := getTokenLineage_spec hc.world (flowing_run hacts) hc.linked hfuel htoken
  cases hrun : getTokenLineage env fuel token.id w with
  | ok result w' =>
    obtain ⟨rfl, lineage, hresult, hcomplete⟩ := Effect.wp_ok hspec hrun
    cases hresult
    exact ⟨lineage, rfl, hcomplete⟩
  | error err w' =>
    obtain ⟨-, lineage, hresult, -⟩ := Effect.wp_error hspec hrun
    cases hresult

/-- A request is approved, and its token delegated. -/
def sampleDelegation : List (Action Unit) :=
  [.call () (.requestToken ⟨"agent", ["a", "b"], .finite 60, none, none⟩ (some "alice") 0),
   .call () (.approveRequest ⟨"id-2", "alice", none, 0⟩),
   .resume 0 .responded,
   .call () (.delegateToken ⟨"id-6", "secret-4", "child", ["a"], .finite 30, 0⟩),
   .resume 0 .responded,
   .resume 0 .responded]

theorem getTokenLineage_complete_sample :
    ∃ token lineage,
      ((processMachine Unit sampleEnv).run sampleDelegation).world.tokenStore.live.get "id-10" =
        some token ∧
      getTokenLineage sampleEnv 3 "id-10" ((processMachine Unit sampleEnv).run
        sampleDelegation).world =
          .ok (some lineage) ((processMachine Unit sampleEnv).run sampleDelegation).world ∧
      lineage.Complete ((processMachine Unit sampleEnv).run sampleDelegation).world token := by
  have hstored : (((processMachine Unit sampleEnv).run
      sampleDelegation).world.tokenStore.live.get "id-10").isSome = true := by decide +kernel
  have hfuel : ((processMachine Unit sampleEnv).run
      sampleDelegation).world.tokenStore.live.values.length < 3 := by decide +kernel
  have hacts : ∀ a ∈ sampleDelegation, a.NoOutage := by
    simp only [sampleDelegation, Action.NoOutage]
    simp
  have hcomplete := getTokenLineage_complete sampleEnv sampleDelegation hacts
  generalize ((processMachine Unit sampleEnv).run sampleDelegation).world = w at *
  obtain ⟨token, htoken⟩ := Option.isSome_iff_exists.mp hstored
  obtain ⟨lineage, hlineage⟩ := hcomplete "id-10" token htoken 3 hfuel
  exact ⟨token, lineage, htoken, hlineage⟩

end Ambit
