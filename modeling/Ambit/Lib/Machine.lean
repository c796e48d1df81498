import Mathlib.Data.List.Forall2
import Mathlib.Data.List.Induction
import Mathlib.Order.Basic

/-! Deterministic labelled machines and their runs. A run is the list of the actions taken; `Meets`
says that each action of a run is taken in a state that satisfies a side condition, `Happened`
that some action of it was taken in such a state. Both are stated over prefixes, so that an
induction on the run from its last action proves invariants and facts about the history alike. -/

structure Machine (σ α : Type) where
  init : σ
  step : σ → α → σ

namespace Machine

variable {σ α : Type} (M : Machine σ α)

def run (acts : List α) : σ := acts.foldl M.step M.init

@[simp] theorem run_nil : M.run [] = M.init := rfl

@[simp] theorem run_snoc (acts : List α) (a : α) : M.run (acts ++ [a]) = M.step (M.run acts) a := by
  simp [run]

theorem run_append (acts more : List α) : M.run (acts ++ more) = more.foldl M.step (M.run acts) :=
  List.foldl_append

/-- Each action of the run is taken in a state where it satisfies `C`. -/
def Meets (C : σ → α → Prop) (acts : List α) : Prop :=
  ∀ pre a post, acts = pre ++ a :: post → C (M.run pre) a

/-- Some action of the run was taken in a state where it satisfies `E`. -/
def Happened (E : σ → α → Prop) (acts : List α) : Prop :=
  ∃ pre a post, acts = pre ++ a :: post ∧ E (M.run pre) a

variable {M} {C E : σ → α → Prop} {acts : List α} {a : α}

theorem append_cons_eq_snoc {pre post acts : List α} {a b : α}
    (h : acts ++ [b] = pre ++ a :: post) :
    (post = [] ∧ a = b ∧ pre = acts) ∨ ∃ post', post = post' ++ [b] ∧ acts = pre ++ a :: post' := by
  rcases List.eq_nil_or_concat post with rfl | ⟨post', c, rfl⟩
  · obtain ⟨rfl, hb⟩ := List.append_inj' h rfl
    cases hb
    exact .inl ⟨rfl, rfl, rfl⟩
  · rw [List.concat_eq_append, ← List.cons_append, ← List.append_assoc] at h
    obtain ⟨rfl, hb⟩ := List.append_inj' h rfl
    cases hb
    exact .inr ⟨post', List.concat_eq_append, rfl⟩

theorem meets_nil : M.Meets C [] := by
  intro pre a post h
  simp at h

theorem meets_snoc : M.Meets C (acts ++ [a]) ↔ M.Meets C acts ∧ C (M.run acts) a := by
  constructor
  · intro h
    refine ⟨fun pre b post hb => h pre b (post ++ [a]) (by simp [hb]), h acts a [] rfl⟩
  · rintro ⟨h, ha⟩ pre b post hb
    rcases append_cons_eq_snoc hb with ⟨rfl, rfl, rfl⟩ | ⟨post', rfl, hacts⟩
    · exact ha
    · exact h pre b post' hacts

theorem Meets.of_append {pre post : List α} (h : M.Meets C (pre ++ post)) : M.Meets C pre := by
  rintro pre' a post' rfl
  exact h pre' a (post' ++ post) (by simp)

theorem Meets.mono {C' : σ → α → Prop} (h : M.Meets C acts) (hC : ∀ s a, C s a → C' s a) :
    M.Meets C' acts := fun pre a post hacts => hC _ _ (h pre a post hacts)

theorem Happened.now (h : E (M.run acts) a) : M.Happened E (acts ++ [a]) :=
  ⟨acts, a, [], rfl, h⟩

theorem Happened.snoc (h : M.Happened E acts) (b : α) : M.Happened E (acts ++ [b]) := by
  obtain ⟨pre, a, post, rfl, h⟩ := h
  exact ⟨pre, a, post ++ [b], by simp, h⟩

/-- Induction along a run whose actions meet a condition, with the run so far at hand. -/
theorem Meets.induction {P : List α → Prop} (h : M.Meets C acts) (nil : P [])
    (snoc : ∀ acts a, M.Meets C acts → C (M.run acts) a → P acts → P (acts ++ [a])) : P acts := by
  induction acts using List.reverseRecOn with
  | nil => exact nil
  | append_singleton acts a ih =>
    obtain ⟨hacts, ha⟩ := meets_snoc.mp h
    exact snoc acts a hacts ha (ih hacts)

/-- An invariant of the initial state and of every step holds after every run. -/
theorem run_induction {P : List α → Prop} (acts : List α) (nil : P [])
    (snoc : ∀ acts a, P acts → P (acts ++ [a])) : P acts :=
  List.reverseRecOn acts nil fun acts a => snoc acts a

/-! ## Values that only rise -/

section
variable {β : Type} [Preorder β] {m : σ → β} (hstep : ∀ s a, m s ≤ m (M.step s a))
include hstep

theorem le_run (acts more : List α) : m (M.run acts) ≤ m (M.run (acts ++ more)) := by
  induction more using List.reverseRecOn with
  | nil => rw [List.append_nil]
  | append_singleton more a ih =>
    rw [← List.append_assoc, run_snoc]
    exact ih.trans (hstep _ a)

/-- Two actions that raise a value do not raise it to the same. -/
theorem lt_of_raised (hraise : ∀ s a, E s a → m s < m (M.step s a)) {pre mid : List α} {a b : α}
    (hb : E (M.run (pre ++ a :: mid)) b) :
    m (M.run (pre ++ [a])) < m (M.run (pre ++ a :: mid ++ [b])) := by
  have hle := le_run hstep (pre ++ [a]) mid
  rw [← List.append_cons] at hle
  refine hle.trans_lt ?_
  rw [run_snoc]
  exact hraise _ b hb

end

/-! ## Outputs -/

/-- What a machine puts out along a run: each action may put out one value. -/
def outputsFrom (M : Machine σ α) {β : Type} (out : σ → α → Option β) : σ → List α → List β
  | _, [] => []
  | s, a :: acts => (out s a).toList ++ outputsFrom M out (M.step s a) acts

def outputs (M : Machine σ α) {β : Type} (out : σ → α → Option β) (acts : List α) : List β :=
  M.outputsFrom out M.init acts

theorem outputs_append {β : Type} {out : σ → α → Option β} (acts more : List α) :
    M.outputs out (acts ++ more) =
      M.outputs out acts ++ M.outputsFrom out (M.run acts) more := by
  suffices H : ∀ s, M.outputsFrom out s (acts ++ more) =
      M.outputsFrom out s acts ++ M.outputsFrom out (acts.foldl M.step s) more from H M.init
  induction acts with
  | nil => simp [outputsFrom]
  | cons b acts ih =>
    intro s
    simp only [List.cons_append, outputsFrom, List.foldl_cons, ih, List.append_assoc]

theorem outputs_snoc {β : Type} {out : σ → α → Option β} :
    M.outputs out (acts ++ [a]) = M.outputs out acts ++ (out (M.run acts) a).toList := by
  rw [outputs_append, outputsFrom, outputsFrom, List.append_nil]

/-- Where each action that puts something out lowers a value, and no other raises it, a run puts out no
more than the value allows. -/
theorem length_outputsFrom_le {β : Type} {out : σ → α → Option β} {I : σ → Prop} {m : σ → ℕ}
    (hfall : ∀ s a, a ∈ acts → I s → I (M.step s a) ∧ (out s a).toList.length + m (M.step s a) ≤ m s)
    {s : σ} (hs : I s) : (M.outputsFrom out s acts).length + m (acts.foldl M.step s) ≤ m s := by
  induction acts generalizing s with
  | nil => simp [outputsFrom]
  | cons a acts ih =>
    obtain ⟨hnext, hle⟩ := hfall s a (List.mem_cons_self ..) hs
    have hrest := ih (fun s b hb => hfall s b (List.mem_cons_of_mem a hb)) hnext
    rw [outputsFrom, List.length_append, List.foldl_cons]
    omega

/-! ## Machines on top of a machine -/

/-- The actions of another machine that a run is made of. -/
def traceFrom (M : Machine σ α) {β : Type} (pieces : σ → α → List β) : σ → List α → List β
  | _, [] => []
  | s, a :: acts => pieces s a ++ traceFrom M pieces (M.step s a) acts

def trace (M : Machine σ α) {β : Type} (pieces : σ → α → List β) (acts : List α) : List β :=
  M.traceFrom pieces M.init acts

theorem trace_append {β : Type} {pieces : σ → α → List β} (acts more : List α) :
    M.trace pieces (acts ++ more) =
      M.trace pieces acts ++ M.traceFrom pieces (M.run acts) more := by
  suffices H : ∀ s, M.traceFrom pieces s (acts ++ more) =
      M.traceFrom pieces s acts ++ M.traceFrom pieces (acts.foldl M.step s) more from H M.init
  induction acts with
  | nil => simp [traceFrom]
  | cons b acts ih =>
    intro s
    simp only [List.cons_append, traceFrom, List.foldl_cons, ih, List.append_assoc]

theorem trace_snoc {β : Type} {pieces : σ → α → List β} :
    M.trace pieces (acts ++ [a]) = M.trace pieces acts ++ pieces (M.run acts) a := by
  rw [trace_append, traceFrom, traceFrom, List.append_nil]

theorem mem_trace {β : Type} {pieces : σ → α → List β} {b : β} (h : b ∈ M.trace pieces acts) :
    ∃ pre a post, acts = pre ++ a :: post ∧ b ∈ pieces (M.run pre) a := by
  induction acts using List.reverseRecOn with
  | nil => cases h
  | append_singleton acts a ih =>
    rw [trace_snoc] at h
    rcases List.mem_append.mp h with h | h
    · obtain ⟨pre, a', post, rfl, hb⟩ := ih h
      exact ⟨pre, a', post ++ [a], by simp, hb⟩
    · exact ⟨acts, a, [], rfl, h⟩

/-- If each action of `M` is a sequence of actions of `N`, so is each run. -/
theorem run_trace {β : Type} {N : Machine σ β} {pieces : σ → α → List β} (hinit : M.init = N.init)
    (hstep : ∀ s a, M.step s a = (pieces s a).foldl N.step s) :
    M.run acts = N.run (M.trace pieces acts) := by
  induction acts using List.reverseRecOn with
  | nil => exact hinit
  | append_singleton acts a ih =>
    rw [run_snoc, trace_snoc, run_append, hstep, ih]

/-! ## Runs on fixed inputs -/

section
variable (M) (C) [∀ s a, Decidable (C s a)]

/-- One pass over a run that tests a side condition on the way. -/
def check : σ → List α → Bool
  | _, [] => true
  | s, a :: acts => decide (C s a) && check (M.step s a) acts

end

theorem meets_of_check [∀ s a, Decidable (C s a)] (h : M.check C M.init acts = true) :
    M.Meets C acts := by
  suffices H : ∀ pre acts, M.Meets C pre → M.check C (M.run pre) acts = true →
      M.Meets C (pre ++ acts) from H [] acts meets_nil h
  intro pre acts
  induction acts generalizing pre with
  | nil =>
    intro hpre _
    rwa [List.append_nil]
  | cons a acts ih =>
    intro hpre hcheck
    rw [check, Bool.and_eq_true, decide_eq_true_eq, ← run_snoc] at hcheck
    have hmeets := ih (pre ++ [a]) (meets_snoc.mpr ⟨hpre, hcheck.1⟩) hcheck.2
    rwa [List.append_assoc] at hmeets

end Machine
