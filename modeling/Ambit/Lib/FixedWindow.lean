import Ambit.Lib.Machine
import Mathlib.Tactic.Linarith

/-! Limiting events by fixed windows: a window is opened by the first event after the last one is
over, and lets through a limited number. What this comes to for the events of any interval. -/

/-- How long a window lasts, and how many events it lets through. -/
structure FixedWindow where
  width : ℤ
  limit : ℤ

namespace FixedWindow

/-- The last window that was opened, and how many events it has let through. -/
structure Window where
  count : ℤ
  openedAt : ℤ

variable (F : FixedWindow)

def step : Option Window → ℤ → Option Window
  | none, t => some ⟨1, t⟩
  | some w, t =>
    if w.openedAt + F.width ≤ t then some ⟨1, t⟩
    else if w.count < F.limit then some ⟨w.count + 1, w.openedAt⟩
    else some w

/-- The event is let through. -/
def Admits : Option Window → ℤ → Prop
  | none, _ => True
  | some w, t => w.openedAt + F.width ≤ t ∨ w.count < F.limit

instance : (s : Option Window) → (t : ℤ) → Decidable (F.Admits s t)
  | none, _ => .isTrue trivial
  | some _, _ => inferInstanceAs (Decidable (_ ∨ _))

/-- No event so far, and any events at any times. -/
def machine : Machine (Option Window) ℤ where
  init := none
  step := F.step

/-- The times of the events that a run has let through. -/
def admitted (times : List ℤ) : List ℤ :=
  F.machine.outputs (fun s t => if F.Admits s t then some t else none) times

variable {F} {s : Option Window} {w : Window} {t : ℤ} {times : List ℤ}

/-- What a step can do once a window was opened: open the next one, count the event in the last one,
or refuse it. -/
theorem step_cases (F : FixedWindow) (w : Window) (t : ℤ) :
    (w.openedAt + F.width ≤ t ∧ F.Admits (some w) t ∧ F.step (some w) t = some ⟨1, t⟩) ∨
    (t < w.openedAt + F.width ∧ w.count < F.limit ∧ F.Admits (some w) t ∧
      F.step (some w) t = some ⟨w.count + 1, w.openedAt⟩) ∨
    (t < w.openedAt + F.width ∧ F.limit ≤ w.count ∧ ¬ F.Admits (some w) t ∧
      F.step (some w) t = some w) := by
  by_cases hover : w.openedAt + F.width ≤ t
  · exact .inl ⟨hover, .inl hover, if_pos hover⟩
  · by_cases hcount : w.count < F.limit
    · refine .inr (.inl ⟨not_le.mp hover, hcount, .inr hcount, ?_⟩)
      rw [step, if_neg hover, if_pos hcount]
    · refine .inr (.inr ⟨not_le.mp hover, not_lt.mp hcount, not_or.mpr ⟨hover, hcount⟩, ?_⟩)
      rw [step, if_neg hover, if_neg hcount]

theorem run_ne_none : F.machine.run (times ++ [t]) ≠ none := by
  rw [Machine.run_snoc]
  intro h
  cases hrun : F.machine.run times with
  | none =>
    rw [hrun] at h
    cases h
  | some w =>
    rw [hrun] at h
    obtain ⟨-, -, hstep⟩ | ⟨-, -, -, hstep⟩ | ⟨-, -, -, hstep⟩ := F.step_cases w t
    all_goals cases hstep.symm.trans h

theorem eq_nil_of_run (h : F.machine.run times = none) : times = [] := by
  rcases List.eq_nil_or_concat times with rfl | ⟨init, t, rfl⟩
  · rfl
  · rw [List.concat_eq_append] at h
    exact absurd h run_ne_none

theorem admitted_snoc : F.admitted (times ++ [t]) =
    F.admitted times ++ (if F.Admits (F.machine.run times) t then [t] else []) := by
  rw [admitted, Machine.outputs_snoc]
  split
  · rfl
  · rfl

theorem mem_times_of_admitted (h : t ∈ F.admitted times) : t ∈ times := by
  induction times using List.reverseRecOn with
  | nil => cases h
  | append_singleton times u ih =>
    rw [admitted_snoc] at h
    rcases List.mem_append.mp h with h | h
    · exact List.mem_append_left _ (ih h)
    · split at h
      · exact List.mem_append_right _ h
      · cases h

/-- A window is opened by an event. -/
theorem openedAt_mem (h : F.machine.run times = some w) : w.openedAt ∈ times := by
  induction times using List.reverseRecOn generalizing w with
  | nil => cases h
  | append_singleton times t ih =>
    rw [Machine.run_snoc] at h
    cases hrun : F.machine.run times with
    | none =>
      rw [hrun] at h
      cases h
      simp
    | some w₀ =>
      rw [hrun] at h
      have hmem := ih hrun
      obtain ⟨-, -, hstep⟩ | ⟨-, -, -, hstep⟩ | ⟨-, -, -, hstep⟩ := F.step_cases w₀ t
      · cases hstep.symm.trans h
        simp
      · cases hstep.symm.trans h
        exact List.mem_append_left _ hmem
      · cases hstep.symm.trans h
        exact List.mem_append_left _ hmem

/-! ## Any interval -/

/-- How many of the events are in the interval of one width from `a` on. -/
def within (F : FixedWindow) (a : ℤ) (times : List ℤ) : ℤ :=
  times.countP fun t => a ≤ t ∧ t < a + F.width

theorem within_snoc {a : ℤ} : F.within a (times ++ [t]) =
    F.within a times + (if a ≤ t ∧ t < a + F.width then 1 else 0) := by
  simp only [within, List.countP_append, Nat.cast_add, List.countP_singleton, decide_eq_true_eq]
  split <;> rfl

theorem within_eq_zero {a : ℤ} (h : ∀ t ∈ times, t < a) : F.within a times = 0 := by
  rw [within, Nat.cast_eq_zero, List.countP_eq_zero]
  intro t ht hin
  have hlt := h t ht
  have hle := (decide_eq_true_eq.mp hin).1
  omega

/-- What the last window says about the events let through so far: in an interval that starts after
it was opened they are those it has counted; an interval that it was opened in holds no more than
one full window besides. -/
structure Counted (F : FixedWindow) (w : Window) (admitted : List ℤ) : Prop where
  some : 1 ≤ w.count
  full : w.count ≤ F.limit
  after : ∀ a, w.openedAt < a → F.within a admitted ≤ w.count
  across : ∀ a, a ≤ w.openedAt → w.openedAt < a + F.width → F.within a admitted ≤ F.limit + w.count
  before : ∀ a, a + F.width ≤ w.openedAt → F.within a admitted ≤ 2 * F.limit

section
variable {admitted : List ℤ}

theorem Counted.within_le (h : F.Counted w admitted) (a : ℤ) : F.within a admitted ≤ 2 * F.limit := by
  have hsome := h.some
  have hfull := h.full
  rcases lt_or_ge w.openedAt a with hafter | hle
  · have hcount := h.after a hafter
    omega
  · rcases lt_or_ge w.openedAt (a + F.width) with hacross | hbefore
    · have hcount := h.across a hle hacross
      omega
    · exact h.before a hbefore

theorem counted_first (hlimit : 1 ≤ F.limit) : F.Counted ⟨1, t⟩ [t] := by
  have hone : ∀ a, F.within a [t] ≤ 1 := by
    intro a
    rw [← List.nil_append [t], within_snoc]
    simp only [within, List.countP_nil, Nat.cast_zero, zero_add]
    split <;> omega
  refine ⟨le_rfl, hlimit, fun a _ => hone a, fun a _ _ => ?_, fun a _ => ?_⟩
  · have := hone a
    dsimp only
    omega
  · have := hone a
    omega

/-- A new window: an interval that it is opened in starts after the last one was opened. -/
theorem Counted.over (h : F.Counted w admitted) (hlimit : 1 ≤ F.limit)
    (hlate : ∀ u ∈ admitted, u ≤ t) (hover : w.openedAt + F.width ≤ t) :
    F.Counted ⟨1, t⟩ (admitted ++ [t]) := by
  have hfull := h.full
  refine ⟨le_rfl, hlimit, fun a ha => ?_, fun a hle hlt => ?_, fun a ha => ?_⟩
  · have hnone : ∀ u ∈ admitted, u < a := fun u hu => (hlate u hu).trans_lt ha
    rw [within_snoc, within_eq_zero hnone, if_neg (by dsimp only at ha; omega)]
    exact Int.one_nonneg
  · dsimp only at hle hlt
    have hafter := h.after a (by omega)
    rw [within_snoc, if_pos ⟨hle, hlt⟩]
    dsimp only
    omega
  · dsimp only at ha
    rw [within_snoc, if_neg (by omega), add_zero]
    exact h.within_le a

/-- One more event in the last window. -/
theorem Counted.counted (h : F.Counted w admitted) (hopened : w.openedAt ≤ t)
    (hcount : w.count < F.limit) : F.Counted ⟨w.count + 1, w.openedAt⟩ (admitted ++ [t]) := by
  have hone : ∀ a, F.within a (admitted ++ [t]) ≤ F.within a admitted + 1 := by
    intro a
    rw [within_snoc]
    split <;> omega
  refine ⟨by have := h.some; dsimp only; omega, hcount, fun a ha => ?_, fun a hle hlt => ?_,
    fun a ha => ?_⟩
  · exact (hone a).trans (add_le_add_left (h.after a ha) 1)
  · have hacross := h.across a hle hlt
    have hnext := hone a
    dsimp only
    omega
  · dsimp only at ha
    rw [within_snoc, if_neg (by omega), add_zero]
    exact h.before a ha

end

theorem counted_run (hlimit : 1 ≤ F.limit) (hclock : times.Pairwise (· ≤ ·))
    (hrun : F.machine.run times = some w) : F.Counted w (F.admitted times) := by
  induction times using List.reverseRecOn generalizing w with
  | nil => cases hrun
  | append_singleton times t ih =>
    obtain ⟨hclock, -, hlate⟩ := List.pairwise_append.mp hclock
    have hlate : ∀ u ∈ times, u ≤ t := fun u hu => hlate u hu t (List.mem_singleton_self t)
    rw [Machine.run_snoc] at hrun
    rw [admitted_snoc]
    cases hlast : F.machine.run times with
    | none =>
      rw [hlast] at hrun
      cases hrun
      obtain rfl := eq_nil_of_run hlast
      exact counted_first hlimit
    | some w₀ =>
      rw [hlast] at hrun
      have hcounted := ih hclock hlast
      obtain ⟨hover, hadmits, hstep⟩ | ⟨-, hcount, hadmits, hstep⟩ | ⟨-, -, hrefused, hstep⟩ :=
        F.step_cases w₀ t
      · cases hstep.symm.trans hrun
        rw [if_pos hadmits]
        exact hcounted.over hlimit (fun u hu => hlate u (mem_times_of_admitted hu)) hover
      · cases hstep.symm.trans hrun
        rw [if_pos hadmits]
        exact hcounted.counted (hlate _ (openedAt_mem hlast)) hcount
      · cases hstep.symm.trans hrun
        rw [if_neg hrefused, List.append_nil]
        exact hcounted

/-- In any interval of one width no more than two windows full of events are let through. -/
theorem within_admitted_le (hlimit : 1 ≤ F.limit) (hclock : times.Pairwise (· ≤ ·)) (a : ℤ) :
    F.within a (F.admitted times) ≤ 2 * F.limit := by
  cases hrun : F.machine.run times with
  | some w => exact (counted_run hlimit hclock hrun).within_le a
  | none =>
    obtain rfl := eq_nil_of_run hrun
    have hzero : F.within a (F.admitted []) = 0 := rfl
    omega

/-! ## After a pause -/

/-- After a pause of one width the last window is over, or has been opened since and counts no event
of before. -/
theorem count_le_length {before : List ℤ} (hpause : ∀ u ∈ before, ∀ v ∈ times, u + F.width ≤ v)
    (hrun : F.machine.run (before ++ times) = some w) :
    (times = [] ∧ w.openedAt ∈ before) ∨ w.count ≤ times.length := by
  induction times using List.reverseRecOn generalizing w with
  | nil =>
    rw [List.append_nil] at hrun
    exact .inl ⟨rfl, openedAt_mem hrun⟩
  | append_singleton times t ih =>
    refine .inr ?_
    rw [← List.append_assoc, Machine.run_snoc] at hrun
    rw [List.length_append, List.length_singleton, Nat.cast_add, Nat.cast_one]
    have hnonneg := Int.natCast_nonneg times.length
    cases hlast : F.machine.run (before ++ times) with
    | none =>
      rw [hlast] at hrun
      cases hrun
      dsimp only
      omega
    | some w₀ =>
      rw [hlast] at hrun
      have hih := ih (fun u hu v hv => hpause u hu v (List.mem_append_left _ hv)) hlast
      have hpause := fun u hu => hpause u hu t (List.mem_append_right _ (List.mem_singleton_self t))
      obtain ⟨-, -, hstep⟩ | ⟨hlt, -, -, hstep⟩ | ⟨hlt, -, -, hstep⟩ := F.step_cases w₀ t
      · cases hstep.symm.trans hrun
        dsimp only
        omega
      · cases hstep.symm.trans hrun
        rcases hih with ⟨-, hmem⟩ | hle
        · exact absurd (hpause _ hmem) (not_le.mpr hlt)
        · exact add_le_add_left hle 1
      · cases hstep.symm.trans hrun
        rcases hih with ⟨-, hmem⟩ | hle
        · exact absurd (hpause _ hmem) (not_le.mpr hlt)
        · omega

/-- After a pause of one width, a window full of events is let through at once. -/
theorem admits_of_pause {before : List ℤ} (hpause : ∀ u ∈ before, ∀ v ∈ times ++ [t], u + F.width ≤ v)
    (hfew : (times.length : ℤ) < F.limit) : F.Admits (F.machine.run (before ++ times)) t := by
  cases hrun : F.machine.run (before ++ times) with
  | none => trivial
  | some w =>
    have hpause' : ∀ u ∈ before, ∀ v ∈ times, u + F.width ≤ v :=
      fun u hu v hv => hpause u hu v (List.mem_append_left _ hv)
    rcases count_le_length hpause' hrun with ⟨-, hmem⟩ | hle
    · exact .inl (hpause _ hmem t (List.mem_append_right _ (List.mem_singleton_self t)))
    · exact .inr (hle.trans_lt hfew)

/-! ## After a refusal -/

/-- What is refused is refused by a full window that is not over. -/
theorem full_of_refused (h : ¬ F.Admits s t) :
    ∃ w, s = some w ∧ t < w.openedAt + F.width ∧ F.limit ≤ w.count := by
  cases s with
  | none => exact absurd trivial h
  | some w =>
    obtain ⟨hover, hcount⟩ := not_or.mp h
    exact ⟨w, rfl, not_le.mp hover, not_lt.mp hcount⟩

/-- A full window stays as it is until it is over. -/
theorem run_full (hfull : F.limit ≤ w.count) (h : ∀ t ∈ times, t < w.openedAt + F.width) :
    times.foldl F.step (some w) = some w := by
  induction times with
  | nil => rfl
  | cons t times ih =>
    obtain ⟨hlt, hrest⟩ := List.forall_mem_cons.mp h
    have hrefused : ¬ F.Admits (some w) t := not_or.mpr ⟨not_le.mpr hlt, not_lt.mpr hfull⟩
    obtain ⟨-, hadmits, -⟩ | ⟨-, -, hadmits, -⟩ | ⟨-, -, -, hstep⟩ := F.step_cases w t
    · exact absurd hadmits hrefused
    · exact absurd hadmits hrefused
    · rw [List.foldl_cons, hstep]
      exact ih hrest

theorem admits_full_iff (hfull : F.limit ≤ w.count) :
    F.Admits (some w) t ↔ w.openedAt + F.width ≤ t :=
  or_iff_left (not_lt.mpr hfull)

end FixedWindow
