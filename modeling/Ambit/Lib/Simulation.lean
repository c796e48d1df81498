import Ambit.Lib.Machine
import Mathlib.Data.List.Forall2

/-! Simulations between machines: in each state, an action of one machine is a sequence of actions of
the other, as a view of the state shows it. So each run of the one is a run of the other, and what the
two put out along them corresponds if it does in each step. Last, machines that take the same actions
in step. -/

structure Simulation {σ τ α β : Type} (M : Machine σ α) (N : Machine τ β) where
  view : σ → τ
  pieces : σ → α → List β
  view_init : view M.init = N.init
  view_step : ∀ s a, view (M.step s a) = (pieces s a).foldl N.step (view s)

namespace Simulation

variable {σ τ α β : Type} {M : Machine σ α} {N : Machine τ β} (S : Simulation M N)

/-- The actions of the other machine along a run. -/
def trace (acts : List α) : List β := M.trace S.pieces acts

variable {acts : List α} {a : α}

@[simp] theorem trace_nil : S.trace [] = [] := rfl

theorem trace_snoc : S.trace (acts ++ [a]) = S.trace acts ++ S.pieces (M.run acts) a :=
  Machine.trace_snoc

theorem view_run (acts : List α) : S.view (M.run acts) = N.run (S.trace acts) := by
  induction acts using List.reverseRecOn with
  | nil => exact S.view_init
  | append_singleton acts a ih =>
    rw [Machine.run_snoc, trace_snoc, Machine.run_append, S.view_step, ih]

/-- Each action of the trace is a piece of an action of the run. -/
theorem mem_trace {b : β} (h : b ∈ S.trace acts) :
    ∃ pre a post, acts = pre ++ a :: post ∧ b ∈ S.pieces (M.run pre) a := Machine.mem_trace h

/-- What the two machines put out corresponds, if it does in each step. -/
theorem outputs {γ δ : Type} {out : σ → α → Option γ} {out' : τ → β → Option δ} {R : γ → δ → Prop}
    (hstep : ∀ s a,
      List.Forall₂ R (out s a).toList (N.outputsFrom out' (S.view s) (S.pieces s a)))
    (acts : List α) : List.Forall₂ R (M.outputs out acts) (N.outputs out' (S.trace acts)) := by
  induction acts using List.reverseRecOn with
  | nil => exact .nil
  | append_singleton acts a ih =>
    rw [Machine.outputs_snoc, trace_snoc, Machine.outputs_append, ← S.view_run]
    exact List.rel_append ih (hstep _ a)

/-- Each output corresponds to one of the other machine. -/
theorem exists_mem_outputs {γ δ : Type} {os : List γ} {os' : List δ} {R : γ → δ → Prop}
    (h : List.Forall₂ R os os') {o : γ} (ho : o ∈ os) : ∃ o' ∈ os', R o o' := by
  induction h with
  | nil => cases ho
  | cons hhead _ ih =>
    rcases List.mem_cons.mp ho with rfl | ho
    · exact ⟨_, List.mem_cons_self .., hhead⟩
    · obtain ⟨o', ho', hrel⟩ := ih ho
      exact ⟨o', List.mem_cons_of_mem _ ho', hrel⟩

end Simulation

/-! ## Machines in step -/

theorem forall₂_toList {γ δ : Type} {R : γ → δ → Prop} {o : Option γ} {o' : Option δ}
    (h : Option.Rel R o o') : List.Forall₂ R o.toList o'.toList := by
  cases h with
  | none => exact .nil
  | some h => exact .cons h .nil

/-- Machines that take the same actions stay in states that are related, and put out what is, if they do
in each step. -/
theorem Machine.run_in_step {σ τ α γ δ : Type} {M : Machine σ α} {N : Machine τ α} {I : σ → τ → Prop}
    {out : σ → α → Option γ} {out' : τ → α → Option δ} {R : γ → δ → Prop} (hinit : I M.init N.init)
    {acts : List α} (hstep : ∀ s t a, a ∈ acts → I s t →
      I (M.step s a) (N.step t a) ∧ Option.Rel R (out s a) (out' t a)) :
    I (M.run acts) (N.run acts) ∧ List.Forall₂ R (M.outputs out acts) (N.outputs out' acts) := by
  induction acts using List.reverseRecOn with
  | nil => exact ⟨hinit, .nil⟩
  | append_singleton acts a ih =>
    have hbefore := ih fun s t b hb => hstep s t b (List.mem_append_left _ hb)
    obtain ⟨hrelated, hputs⟩ :=
      hstep _ _ a (List.mem_append_right _ (List.mem_singleton_self a)) hbefore.1
    rw [M.run_snoc, N.run_snoc, Machine.outputs_snoc, Machine.outputs_snoc]
    exact ⟨hrelated, List.rel_append hbefore.2 (forall₂_toList hputs)⟩
