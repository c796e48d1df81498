import Ambit.Lib.Effect

/-! Two runs of programs seen through a view of the state: started in states that look the same, they
throw the same exception or return values that look the same, and end in states that look the same.
One rule a construct, so that a proof follows the text of the two programs; the rule for `bind`
lets the rest of each program depend on the value that its own run returned. -/

namespace Effect

variable {ε σ τ α β γ δ : Type}

/-- What can be seen of how a run ends. -/
def seen (v : σ → τ) (f : α → γ) : EStateM.Result ε σ α → EStateM.Result ε τ γ
  | .ok a s => .ok (f a) (v s)
  | .error e s => .error e (v s)

theorem seen_eq_cases {v : σ → τ} {f : α → γ} {r r' : EStateM.Result ε σ α}
    (h : seen v f r = seen v f r') :
    (∃ a b s s', r = .ok a s ∧ r' = .ok b s' ∧ f a = f b ∧ v s = v s') ∨
      ∃ e s s', r = .error e s ∧ r' = .error e s' ∧ v s = v s' := by
  cases r with
  | ok a s =>
    cases r' with
    | ok b s' =>
      obtain ⟨hab, hs⟩ := EStateM.Result.ok.inj h
      exact .inl ⟨a, b, s, s', rfl, rfl, hab, hs⟩
    | error => cases h
  | error e s =>
    cases r' with
    | ok => cases h
    | error e' s' =>
      obtain ⟨rfl, hs⟩ := EStateM.Result.error.inj h
      exact .inr ⟨e, s, s', rfl, rfl, hs⟩

/-- Started in states that look the same, the two programs end alike. -/
def Alike (v : σ → τ) (f : α → γ) (x y : EStateM ε σ α) : Prop :=
  ∀ s s', v s = v s' → seen v f (x s) = seen v f (y s')

namespace Alike

variable {v : σ → τ} {f : α → γ} {g : β → δ} {x y : EStateM ε σ α}

theorem mono {f' : α → δ} (h : Alike v f x y) (hf : ∀ a b, f a = f b → f' a = f' b) :
    Alike v f' x y := by
  intro s s' hs
  rcases seen_eq_cases (h s s' hs) with ⟨a, b, t, t', hx, hy, hab, ht⟩ | ⟨e, t, t', hx, hy, ht⟩
  · rw [hx, hy, seen, seen, hf a b hab, ht]
  · rw [hx, hy, seen, seen, ht]

theorem pure {a b : α} (h : f a = f b) :
    Alike v f (pure a : EStateM ε σ α) (pure b) := by
  intro s s' hs
  show EStateM.Result.ok (f a) (v s) = .ok (f b) (v s')
  rw [h, hs]

theorem throw {e : ε} : Alike v f (throw e : EStateM ε σ α) (throw e) := by
  intro s s' hs
  exact congrArg (EStateM.Result.error e) hs

theorem get : Alike v v (get : EStateM ε σ σ) get := by
  intro s s' hs
  show EStateM.Result.ok (v s) (v s) = .ok (v s') (v s')
  rw [hs]

theorem set {t t' : σ} (h : v t = v t') : Alike v id (set t : EStateM ε σ PUnit) (set t') :=
  fun _ _ _ => congrArg (EStateM.Result.ok PUnit.unit) h

theorem modify {m : σ → σ} (h : ∀ s s', v s = v s' → v (m s) = v (m s')) :
    Alike v id (modify m : EStateM ε σ PUnit) (modify m) :=
  fun s s' hs => congrArg (EStateM.Result.ok PUnit.unit) (h s s' hs)

theorem bind {k k' : α → EStateM ε σ β} (hx : Alike v f x y)
    (hk : ∀ a b, f a = f b → Alike v g (k a) (k' b)) : Alike v g (x >>= k) (y >>= k') := by
  intro s s' hs
  rcases seen_eq_cases (hx s s' hs) with ⟨a, b, t, t', hxs, hys, hab, ht⟩ | ⟨e, t, t', hxs, hys, ht⟩
  · rw [bind_of_ok hxs, bind_of_ok hys]
    exact hk a b hab t t' ht
  · rw [bind_of_error hxs, bind_of_error hys, seen, seen, ht]

/-- The rest of the program, where the values are the same. -/
theorem bind_id {k k' : α → EStateM ε σ β} (hx : Alike v id x y)
    (hk : ∀ a, Alike v g (k a) (k' a)) : Alike v g (x >>= k) (y >>= k') := by
  refine bind hx fun a b hab => ?_
  obtain rfl : a = b := hab
  exact hk a

theorem attempt (h : Alike v f x y) : Alike v (Except.map f) (attempt x) (attempt y) := by
  intro s s' hs
  unfold Effect.attempt
  rcases seen_eq_cases (h s s' hs) with ⟨a, b, t, t', hx, hy, hab, ht⟩ | ⟨e, t, t', hx, hy, ht⟩
  · rw [hx, hy, seen, seen, ht]
    exact congrArg (fun c => EStateM.Result.ok (Except.ok c) _) hab
  · rw [hx, hy, seen, seen, ht]

theorem ite {c c' : Prop} [Decidable c] [Decidable c'] {x' y' : EStateM ε σ α} (hc : c ↔ c')
    (hx : Alike v f x y) (hy : Alike v f x' y') :
    Alike v f (if c then x else x') (if c' then y else y') := by
  by_cases h : c
  · rw [if_pos h, if_pos (hc.mp h)]
    exact hx
  · rw [if_neg h, if_neg fun h' => h (hc.mpr h')]
    exact hy

theorem throwIf {c c' : Prop} [Decidable c] [Decidable c'] {e : ε} (hc : c ↔ c') :
    Alike v id (throwIf c e : EStateM ε σ Unit) (throwIf c' e) :=
  ite hc throw (pure rfl)

/-- Two loops over lists that look the same. -/
theorem forM {k k' : α → EStateM ε σ PUnit} (hk : ∀ a b, f a = f b → Alike v id (k a) (k' b))
    {as bs : List α} (h : as.map f = bs.map f) : Alike v id (as.forM k) (bs.forM k') := by
  induction as generalizing bs with
  | nil =>
    obtain rfl : bs = [] := by simpa using h.symm
    exact pure rfl
  | cons a as ih =>
    cases bs with
    | nil => cases h
    | cons b bs =>
      obtain ⟨hab, htail⟩ := List.cons.inj h
      exact bind_id (hk a b hab) fun _ => ih htail

end Alike

end Effect
