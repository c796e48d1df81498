import Mathlib.Order.Defs.Unbundled

/-! Weakest preconditions for programs that update a state and may throw. An exception keeps the
state reached when it was thrown, so a postcondition speaks of the result, value or exception,
and of the state in both cases. One rule a construct; a proof about a program applies the rules
along its text and never unfolds the monad. -/

namespace Effect

variable {ε σ α β : Type}

/-- `x`, started in `s`, ends with a result and a state that satisfy `Q`. -/
def wp (x : EStateM ε σ α) (Q : Except ε α → σ → Prop) (s : σ) : Prop :=
  match x s with
  | .ok a s' => Q (.ok a) s'
  | .error e s' => Q (.error e) s'

/-- Run `x` and hand its outcome back as a value. -/
def attempt (x : EStateM ε σ α) : EStateM ε σ (Except ε α) := fun s =>
  match x s with
  | .ok a s' => .ok (.ok a) s'
  | .error e s' => .ok (.error e) s'

/-- What holds of the value, if there is one. -/
def OnOk (P : α → Prop) : Except ε α → Prop
  | .ok a => P a
  | .error _ => True

/-- Throw `e` if `c` holds. -/
def throwIf (c : Prop) [Decidable c] (e : ε) : EStateM ε σ Unit :=
  if c then throw e else pure ()

/-- The value that `x` returns, or the exception that it throws. -/
def result (x : EStateM ε σ α) (s : σ) : Except ε α :=
  match x s with
  | .ok a _ => .ok a
  | .error e _ => .error e

/-- The state that `x` ends in. -/
def after (x : EStateM ε σ α) (s : σ) : σ :=
  match x s with
  | .ok _ s' => s'
  | .error _ s' => s'

@[simp] theorem isOk_ok (a : α) : (Except.ok a : Except ε α).isOk = true := rfl

@[simp] theorem isOk_error (e : ε) : (Except.error e : Except ε α).isOk = false := rfl

variable {x : EStateM ε σ α} {Q Q' : Except ε α → σ → Prop} {s : σ}

theorem wp_iff : wp x Q s ↔ Q (result x s) (after x s) := by
  unfold wp result after
  cases x s <;> exact Iff.rfl

theorem wp_mono (h : wp x Q s) (hQ : ∀ r s', Q r s' → Q' r s') : wp x Q' s := by
  unfold wp at h ⊢
  split <;> rename_i hx <;> rw [hx] at h <;> exact hQ _ _ h

theorem wp_any (h : ∀ r s', Q r s') : wp x Q s := by
  unfold wp
  split <;> exact h _ _

theorem wp_pure {a : α} (h : Q (.ok a) s) : wp (pure a) Q s := h

theorem wp_throw {e : ε} (h : Q (.error e) s) : wp (throw e) Q s := h

theorem wp_bind {f : α → EStateM ε σ β} {Q : Except ε β → σ → Prop}
    (h : wp x (fun r s' => match r with
      | .ok a => wp (f a) Q s'
      | .error e => Q (.error e) s') s) : wp (x >>= f) Q s := by
  unfold wp at h
  show wp (EStateM.bind x f) Q s
  unfold wp EStateM.bind
  cases hx : x s with
  | ok a s' => rw [hx] at h; exact h
  | error e s' => rw [hx] at h; exact h

theorem wp_attempt {Q : Except ε (Except ε α) → σ → Prop}
    (h : wp x (fun r s' => Q (.ok r) s') s) : wp (attempt x) Q s := by
  unfold wp at h
  unfold wp attempt
  cases hx : x s with
  | ok a s' => rw [hx] at h; exact h
  | error e s' => rw [hx] at h; exact h

theorem wp_get {Q : Except ε σ → σ → Prop} (h : Q (.ok s) s) :
    wp (get : EStateM ε σ σ) Q s := h

theorem wp_set {s' : σ} {Q : Except ε PUnit → σ → Prop} (h : Q (.ok ()) s') :
    wp (set s' : EStateM ε σ PUnit) Q s := h

theorem wp_modify {f : σ → σ} {Q : Except ε PUnit → σ → Prop} (h : Q (.ok ()) (f s)) :
    wp (modify f : EStateM ε σ PUnit) Q s := h

theorem wp_ite {c : Prop} [Decidable c] {y : EStateM ε σ α} (ht : c → wp x Q s)
    (he : ¬ c → wp y Q s) : wp (if c then x else y) Q s := by
  split
  · exact ht ‹_›
  · exact he ‹_›

theorem wp_throwIf {c : Prop} [Decidable c] {e : ε} {Q : Except ε Unit → σ → Prop}
    (ht : c → Q (.error e) s) (he : ¬ c → Q (.ok ()) s) : wp (throwIf c e) Q s :=
  wp_ite (fun h => wp_throw (ht h)) fun h => wp_pure (he h)

/-- A loop over a list that never throws: the invariant speaks of the elements already visited. -/
theorem wp_forM {f : α → EStateM ε σ PUnit} {Q : Except ε PUnit → σ → Prop} {xs : List α}
    {I : List α → σ → Prop} (hinit : I [] s)
    (hstep : ∀ visited a todo s, xs = visited ++ a :: todo → I visited s →
      wp (f a) (fun r s' => r = .ok () ∧ I (visited ++ [a]) s') s)
    (hend : ∀ s', I xs s' → Q (.ok ()) s') : wp (xs.forM f) Q s := by
  suffices H : ∀ visited todo s, xs = visited ++ todo → I visited s → wp (todo.forM f) Q s from
    H [] xs s rfl hinit
  intro visited todo
  induction todo generalizing visited with
  | nil =>
    intro s hxs hI
    rw [List.append_nil] at hxs
    exact wp_pure (hend s (hxs ▸ hI))
  | cons a todo ih =>
    intro s hxs hI
    show wp (f a >>= fun _ => todo.forM f) Q s
    refine wp_bind (wp_mono (hstep visited a todo s hxs hI) ?_)
    rintro _ s' ⟨rfl, hI'⟩
    exact ih (visited ++ [a]) s' (by simp [hxs]) hI'

theorem wp_ok {a : α} {s' : σ} (h : wp x Q s) (hx : x s = .ok a s') : Q (.ok a) s' := by
  simpa [wp, hx] using h

theorem wp_error {e : ε} {s' : σ} (h : wp x Q s) (hx : x s = .error e s') : Q (.error e) s' := by
  simpa [wp, hx] using h

theorem wp_of_ok {a : α} {s' : σ} (hx : x s = .ok a s') (h : Q (.ok a) s') : wp x Q s := by
  rw [wp, hx]
  exact h

theorem wp_of_error {e : ε} {s' : σ} (hx : x s = .error e s') (h : Q (.error e) s') : wp x Q s := by
  rw [wp, hx]
  exact h

theorem run_of_wp {a : α} {s₁ : σ} (h : wp x (fun r s' => r = .ok a ∧ s' = s₁) s) :
    x s = .ok a s₁ := by
  cases hx : x s with
  | ok b s' =>
    obtain ⟨⟨⟩, rfl⟩ := wp_ok h hx
    rfl
  | error e s' =>
    obtain ⟨⟨⟩, -⟩ := wp_error h hx

/-- Two programs that do the same in `s`. -/
theorem wp_congr {y : EStateM ε σ α} (heq : x s = y s) (h : wp y Q s) : wp x Q s := by
  rw [wp, heq]
  exact h

/-- Two postconditions of one program. -/
theorem wp_and (h : wp x Q s) (h' : wp x Q' s) : wp x (fun r s' => Q r s' ∧ Q' r s') s :=
  wp_iff.mpr ⟨wp_iff.mp h, wp_iff.mp h'⟩

theorem bind_of_ok {f : α → EStateM ε σ β} {a : α} {s' : σ} (h : x s = .ok a s') :
    (x >>= f) s = f a s' := by
  show EStateM.bind x f s = _
  rw [EStateM.bind, h]

/-- Where two programs run alike, what follows them does. -/
theorem bind_of_run {y : EStateM ε σ α} {f : α → EStateM ε σ β} (h : x s = y s) :
    (x >>= f) s = (y >>= f) s := by
  show EStateM.bind x f s = EStateM.bind y f s
  rw [EStateM.bind, EStateM.bind, h]

theorem bind_of_error {f : α → EStateM ε σ β} {e : ε} {s' : σ} (h : x s = .error e s') :
    (x >>= f) s = .error e s' := by
  show EStateM.bind x f s = _
  rw [EStateM.bind, h]

/-! ## What a program does to the state -/

/-- However it ends, `x` takes every state to a related one. -/
def Along (R : σ → σ → Prop) (x : EStateM ε σ α) : Prop := ∀ s, R s (after x s)

namespace Along

variable {R : σ → σ → Prop} {g : α → EStateM ε σ β}

theorem of_wp (h : ∀ s, wp x (fun _ s' => R s s') s) : Along R x := fun s => wp_iff.mp (h s)

theorem wp (h : Along R x) (s : σ) : wp x (fun _ s' => R s s') s := wp_iff.mpr (h s)

theorem modify {f : σ → σ} (h : ∀ s, R s (f s)) :
    Along R (modify f : EStateM ε σ PUnit) := h

section
variable [Std.Refl R]

theorem pure {a : α} : Along R (pure a : EStateM ε σ α) := fun s => Std.Refl.refl s

theorem throw {e : ε} : Along R (throw e : EStateM ε σ α) := fun s => Std.Refl.refl s

theorem get : Along R (get : EStateM ε σ σ) := fun s => Std.Refl.refl s

theorem throwIf {c : Prop} [Decidable c] {e : ε} : Along R (throwIf c e : EStateM ε σ Unit) := by
  unfold Effect.throwIf
  split
  · exact throw
  · exact pure

end

theorem ite {c : Prop} [Decidable c] {y : EStateM ε σ α} (hx : Along R x) (hy : Along R y) :
    Along R (if c then x else y) := by
  split
  · exact hx
  · exact hy

theorem attempt (hx : Along R x) : Along R (attempt x) := of_wp fun s => wp_attempt (hx.wp s)

section
variable [IsTrans σ R]

theorem bind (hx : Along R x) (hg : ∀ a, Along R (g a)) : Along R (x >>= g) := by
  refine of_wp fun s => wp_bind (wp_mono (hx.wp s) fun r s' hs => ?_)
  cases r with
  | ok a => exact wp_mono ((hg a).wp s') fun _ _ hs' => IsTrans.trans _ _ _ hs hs'
  | error => exact hs

theorem forM [Std.Refl R] {g : α → EStateM ε σ PUnit} {as : List α}
    (hg : ∀ a ∈ as, Along R (g a)) : Along R (as.forM g) := by
  induction as with
  | nil => exact pure
  | cons a as ih =>
    exact bind (hg a (List.mem_cons_self ..)) fun _ => ih fun b hb => hg b (List.mem_cons_of_mem _ hb)

end

end Along

/-! ## What a program keeps -/

/-- The end of a run: a state with `I`, and with `E` for an exception. -/
structure Kept (I : σ → Prop) (E : ε → Prop) (r : Except ε α) (s : σ) : Prop where
  state : I s
  error : ∀ e, r = .error e → E e

/-- From a state with `I`, `x` ends in one, and throws only exceptions with `E`. -/
def Keeps (I : σ → Prop) (E : ε → Prop) (x : EStateM ε σ α) : Prop := ∀ s, I s → wp x (Kept I E) s

section
variable {I : σ → Prop} {E E' : ε → Prop}

theorem kept_ok {a : α} {s : σ} (h : I s) : Kept I E (.ok a : Except ε α) s :=
  ⟨h, fun _ he => by cases he⟩

theorem kept_error {e : ε} {s : σ} (h : I s) (he : E e) : Kept I E (.error e : Except ε α) s := by
  refine ⟨h, ?_⟩
  rintro _ ⟨⟩
  exact he

theorem wp_bind_keeps {g : α → EStateM ε σ β} (hx : wp x (Kept I E) s) (hg : ∀ a, Keeps I E (g a)) :
    wp (x >>= g) (Kept I E) s := by
  refine wp_bind (wp_mono hx fun r s' ⟨hI, he⟩ => ?_)
  cases r with
  | ok a => exact hg a s' hI
  | error e => exact kept_error hI (he e rfl)

/-- An exception that is caught is one that the program may throw. -/
theorem wp_attempt_keeps {g : Except ε α → EStateM ε σ β} (hx : wp x (Kept I E') s)
    (hok : ∀ a, Keeps I E (g (.ok a))) (herror : ∀ e, E' e → Keeps I E (g (.error e))) :
    wp (attempt x >>= g) (Kept I E) s := by
  refine wp_bind (wp_attempt (wp_mono hx fun r s' ⟨hI, he⟩ => ?_))
  cases r with
  | ok a => exact hok a s' hI
  | error e => exact herror e (he e rfl) s' hI

end

namespace Keeps

variable {I : σ → Prop} {E E' : ε → Prop} {g : α → EStateM ε σ β}

theorem of_ok {a : α} {f : σ → σ} (h : ∀ s, I s → x s = .ok a (f s) ∧ I (f s)) : Keeps I E x := by
  intro s hs
  obtain ⟨hx, hI⟩ := h s hs
  rw [wp, hx]
  exact kept_ok hI

theorem pure {a : α} : Keeps I E (pure a : EStateM ε σ α) := fun _ hs => wp_pure (kept_ok hs)

theorem throw {e : ε} (h : E e) : Keeps I E (throw e : EStateM ε σ α) :=
  fun _ hs => wp_throw (kept_error hs h)

theorem get : Keeps I E (get : EStateM ε σ σ) := fun _ hs => wp_get (kept_ok hs)

theorem set {s' : σ} (h : I s') : Keeps I E (set s' : EStateM ε σ PUnit) :=
  fun _ _ => wp_set (kept_ok h)

theorem modify {f : σ → σ} (h : ∀ s, I s → I (f s)) : Keeps I E (modify f : EStateM ε σ PUnit) :=
  fun s hs => wp_modify (kept_ok (h s hs))

theorem bind (hx : Keeps I E x) (hg : ∀ a, Keeps I E (g a)) : Keeps I E (x >>= g) :=
  fun s hs => wp_bind_keeps (hx s hs) hg

/-- An exception that is caught is a value. -/
theorem attempt (hx : Keeps I E' x) : Keeps I E (attempt x) :=
  fun s hs => wp_attempt (wp_mono (hx s hs) fun _ _ h => kept_ok h.state)

/-- The state that is read is one that the program may start in. -/
theorem get_bind {g : σ → EStateM ε σ β} (hg : ∀ s, I s → Keeps I E (g s)) :
    Keeps I E (MonadState.get >>= g) := fun s hs => wp_bind (wp_get (hg s hs s hs))

theorem ite {c : Prop} [Decidable c] {y : EStateM ε σ α} (hx : Keeps I E x) (hy : Keeps I E y) :
    Keeps I E (if c then x else y) := by
  split
  · exact hx
  · exact hy

theorem throwIf {c : Prop} [Decidable c] {e : ε} (h : E e) :
    Keeps I E (throwIf c e : EStateM ε σ Unit) := ite (throw h) pure

/-- The rest of a program, behind a check. -/
theorem throwIf_bind {c : Prop} [Decidable c] {e : ε} {g : Unit → EStateM ε σ β} (h : E e)
    (hg : ¬ c → Keeps I E (g ())) : Keeps I E (Effect.throwIf c e >>= g) :=
  fun s hs => wp_bind (wp_throwIf (fun _ => kept_error hs h) fun hc => hg hc s hs)

theorem forM {g : α → EStateM ε σ PUnit} {as : List α} (hg : ∀ a ∈ as, Keeps I E (g a)) :
    Keeps I E (as.forM g) := by
  induction as with
  | nil => exact pure
  | cons a as ih =>
    exact bind (hg a (List.mem_cons_self ..)) fun _ => ih fun b hb => hg b (List.mem_cons_of_mem _ hb)

end Keeps

-- A program is run by the rules: no unifier looks inside it.
attribute [irreducible] wp

end Effect
