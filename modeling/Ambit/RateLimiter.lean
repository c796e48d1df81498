import Ambit.Lib.FixedWindow
import Ambit.Lib.OrderedMap

/-! `rateLimiter.ts`: a fixed window for each key, and what it bounds. -/

namespace Ambit

structure RateLimiterOptions where
  windowMs : Int
  maxRequests : Int

structure RateLimitResult where
  allowed : Bool
  retryAfterMs : Int

structure WindowState where
  count : Int
  windowStartedAt : Int

structure RateLimiter where
  windows : OrderedMap String WindowState

namespace RateLimiter

def check (options : RateLimiterOptions) (limiter : RateLimiter) (key : String) (nowMs : Int) :
    RateLimitResult × RateLimiter :=
  match limiter.windows.get key with
  | none =>
    ({ allowed := true, retryAfterMs := 0 },
      ⟨limiter.windows.set key { count := 1, windowStartedAt := nowMs }⟩)
  | some existing =>
    if nowMs - existing.windowStartedAt ≥ options.windowMs then
      ({ allowed := true, retryAfterMs := 0 },
        ⟨limiter.windows.set key { count := 1, windowStartedAt := nowMs }⟩)
    else if existing.count < options.maxRequests then
      ({ allowed := true, retryAfterMs := 0 },
        ⟨limiter.windows.set key { existing with count := existing.count + 1 }⟩)
    else
      let retryAfterMs := existing.windowStartedAt + options.windowMs - nowMs
      ({ allowed := false, retryAfterMs }, limiter)

variable {options : RateLimiterOptions} {limiter : RateLimiter} {key : String} {now : Int}

/-! ## One key -/

/-- The limiter of the events of one key. -/
def fixed (options : RateLimiterOptions) : FixedWindow := ⟨options.windowMs, options.maxRequests⟩

/-- What a limiter remembers of a key. -/
def window (limiter : RateLimiter) (key : String) : Option FixedWindow.Window :=
  (limiter.windows.get key).map fun existing => ⟨existing.count, existing.windowStartedAt⟩

/-- The result that a window has for an event. -/
def resultOf (options : RateLimiterOptions) : Option FixedWindow.Window → Int → RateLimitResult
  | none, _ => { allowed := true, retryAfterMs := 0 }
  | some w, now =>
    if (fixed options).Admits (some w) now then { allowed := true, retryAfterMs := 0 }
    else { allowed := false, retryAfterMs := w.openedAt + options.windowMs - now }

/-- A call answers from the window of its key, and moves no window of another. -/
theorem check_spec (options : RateLimiterOptions) (limiter : RateLimiter) (key : String) (now : Int) :
    (limiter.check options key now).1 = resultOf options (limiter.window key) now ∧
    ∀ key', (limiter.check options key now).2.window key' =
      if key' = key then (fixed options).step (limiter.window key) now else limiter.window key' := by
  unfold check
  cases hget : limiter.windows.get key with
  | none =>
    have hwindow : limiter.window key = none := by rw [window, hget, Option.map_none]
    rw [hwindow]
    refine ⟨rfl, fun key' => ?_⟩
    simp only [window, OrderedMap.get_set]
    split
    · rfl
    · rfl
  | some existing =>
    have hwindow : limiter.window key = some ⟨existing.count, existing.windowStartedAt⟩ := by
      rw [window, hget, Option.map_some]
    rw [hwindow]
    dsimp only
    obtain ⟨hover, hadmits, hstep⟩ | ⟨hlt, hcount, hadmits, hstep⟩ |
        ⟨hlt, hfull, hrefused, hstep⟩ :=
      (fixed options).step_cases ⟨existing.count, existing.windowStartedAt⟩ now
    · dsimp only [fixed] at hover
      rw [if_pos (show now - existing.windowStartedAt ≥ options.windowMs by omega), hstep]
      refine ⟨(if_pos hadmits).symm, fun key' => ?_⟩
      simp only [window, OrderedMap.get_set]
      split
      · rfl
      · rfl
    · dsimp only [fixed] at hlt hcount
      rw [if_neg (show ¬ now - existing.windowStartedAt ≥ options.windowMs by omega), if_pos hcount,
        hstep]
      refine ⟨(if_pos hadmits).symm, fun key' => ?_⟩
      simp only [window, OrderedMap.get_set]
      split
      · rfl
      · rfl
    · dsimp only [fixed] at hlt hfull
      rw [if_neg (show ¬ now - existing.windowStartedAt ≥ options.windowMs by omega),
        if_neg (not_lt.mpr hfull), hstep]
      refine ⟨(if_neg hrefused).symm, fun key' => ?_⟩
      split
      · next heq => rw [heq, hwindow]
      · rfl

theorem allowed_resultOf {w : Option FixedWindow.Window} :
    (resultOf options w now).allowed ↔ (fixed options).Admits w now := by
  cases w with
  | none => exact iff_of_true rfl trivial
  | some w =>
    rw [resultOf]
    split
    · next h => exact iff_of_true rfl h
    · next h => exact iff_of_false Bool.false_ne_true h

/-! ## Runs -/

/-- A limiter as it is constructed, and calls for any keys at any times. -/
def machine (options : RateLimiterOptions) : Machine RateLimiter (String × Int) where
  init := ⟨.empty⟩
  step limiter call := (limiter.check options call.1 call.2).2

/-- The result of a call after others. -/
def resultAfter (options : RateLimiterOptions) (calls : List (String × Int)) (key : String)
    (now : Int) : RateLimitResult :=
  (((machine options).run calls).check options key now).1

/-- The times of the calls of a key. -/
def timesOf (key : String) (calls : List (String × Int)) : List Int :=
  (calls.filter (·.1 = key)).map Prod.snd

/-- The times of the calls of a key that were allowed. -/
def allowedTimes (options : RateLimiterOptions) (key : String) (calls : List (String × Int)) :
    List Int :=
  timesOf key ((machine options).outputs
    (fun limiter call => if (limiter.check options call.1 call.2).1.allowed then some call else none)
    calls)

section
variable {calls before : List (String × Int)}

theorem timesOf_append (more : List (String × Int)) :
    timesOf key (calls ++ more) = timesOf key calls ++ timesOf key more := by
  rw [timesOf, List.filter_append, List.map_append]
  rfl

theorem timesOf_self : timesOf key [(key, now)] = [now] := by
  rw [timesOf, List.filter_singleton]
  simp

theorem timesOf_of_ne {key' : String} (h : key' ≠ key) : timesOf key [(key', now)] = [] := by
  rw [timesOf, List.filter_singleton]
  simp [h]

theorem timesOf_sublist : (timesOf key calls).Sublist (calls.map Prod.snd) :=
  List.filter_sublist.map _

theorem timesOf_filter : timesOf key (calls.filter (·.1 = key)) = timesOf key calls := by
  rw [timesOf, timesOf, List.filter_filter]
  simp

/-- What a run remembers of a key is what the limiter of that key's calls alone remembers. -/
theorem window_run : ((machine options).run calls).window key =
    (fixed options).machine.run (timesOf key calls) := by
  induction calls using List.reverseRecOn with
  | nil => rfl
  | append_singleton calls call ih =>
    obtain ⟨key', now⟩ := call
    rw [Machine.run_snoc, timesOf_append]
    refine ((check_spec options _ key' now).2 key).trans ?_
    by_cases hkey : key = key'
    · subst hkey
      rw [if_pos rfl, ih, timesOf_self, Machine.run_snoc]
      rfl
    · rw [if_neg hkey, ih, timesOf_of_ne (Ne.symm hkey), List.append_nil]

theorem resultAfter_eq : resultAfter options calls key now =
    resultOf options ((fixed options).machine.run (timesOf key calls)) now := by
  rw [resultAfter, (check_spec options _ key now).1, window_run]

theorem allowedTimes_eq :
    allowedTimes options key calls = (fixed options).admitted (timesOf key calls) := by
  induction calls using List.reverseRecOn with
  | nil => rfl
  | append_singleton calls call ih =>
    obtain ⟨key', now⟩ := call
    have hallowed : (((machine options).run calls).check options key' now).1.allowed ↔
        (fixed options).Admits ((fixed options).machine.run (timesOf key' calls)) now := by
      rw [(check_spec options _ key' now).1, window_run, allowed_resultOf]
    rw [allowedTimes, Machine.outputs_snoc, timesOf_append, timesOf_append]
    refine (congrArg (· ++ _) ih).trans ?_
    by_cases hkey : key' = key
    · subst hkey
      rw [timesOf_self, FixedWindow.admitted_snoc]
      simp only [hallowed]
      split
      · exact congrArg _ timesOf_self
      · rfl
    · rw [timesOf_of_ne hkey, List.append_nil]
      split
      · rw [Option.toList_some, timesOf_of_ne hkey, List.append_nil]
      · exact List.append_nil _

/-- A refused call met a full window, and says how long it lasts. -/
theorem full_of_refused (h : (resultAfter options before key now).allowed = false) :
    ∃ w, (fixed options).machine.run (timesOf key before) = some w ∧
      now < w.openedAt + options.windowMs ∧ options.maxRequests ≤ w.count ∧
      (resultAfter options before key now).retryAfterMs = w.openedAt + options.windowMs - now := by
  rw [resultAfter_eq] at h ⊢
  have hrefused : ¬ (fixed options).Admits
      ((fixed options).machine.run (timesOf key before)) now := by
    intro hadmits
    exact Bool.noConfusion ((allowed_resultOf.mpr hadmits).symm.trans h)
  obtain ⟨w, hw, hlt, hfull⟩ := FixedWindow.full_of_refused hrefused
  rw [hw] at hrefused ⊢
  refine ⟨w, rfl, hlt, hfull, ?_⟩
  rw [resultOf, if_neg hrefused]

/-- Until a full window is over, it is what the limiter remembers of its key. -/
theorem run_of_full {w : FixedWindow.Window} {between : List (String × Int)}
    (hrun : (fixed options).machine.run (timesOf key before) = some w)
    (hfull : options.maxRequests ≤ w.count) (hnow : now < w.openedAt + options.windowMs)
    (hbetween : ∀ t ∈ timesOf key between, t < w.openedAt + options.windowMs) :
    (fixed options).machine.run (timesOf key (before ++ (key, now) :: between)) = some w := by
  rw [List.append_cons, timesOf_append, timesOf_append, timesOf_self, List.append_assoc,
    Machine.run_append, hrun]
  refine FixedWindow.run_full hfull fun t ht => ?_
  rcases List.mem_append.mp ht with ht | ht
  · exact List.mem_singleton.mp ht ▸ hnow
  · exact hbetween t ht

end

/-! ## What a run bounds -/

/-- What the limiter does in a run: no interval of one window holds more than two windows full of
allowed calls of a key; after a pause of one window a window full is allowed at once; a refused call
says when the next one is allowed, and none is before; other keys' calls do not matter. -/
structure RateLimited (options : RateLimiterOptions) (calls : List (String × Int)) : Prop where
  bounded : ∀ key start,
    ((allowedTimes options key calls).countP fun t => start ≤ t ∧ t < start + options.windowMs : Int) ≤
      2 * options.maxRequests
  rested : ∀ before burst key now after, calls = before ++ burst ++ (key, now) :: after →
    (∀ t ∈ timesOf key before, ∀ u ∈ timesOf key burst ++ [now], t + options.windowMs ≤ u) →
    ((timesOf key burst).length : Int) < options.maxRequests →
    (resultAfter options (before ++ burst) key now).allowed
  retry : ∀ before key now after, calls = before ++ (key, now) :: after →
    (resultAfter options before key now).allowed = false →
    0 < (resultAfter options before key now).retryAfterMs ∧
      (resultAfter options before key now).retryAfterMs ≤ options.windowMs
  refused : ∀ before key now between later after,
    calls = before ++ (key, now) :: between ++ (key, later) :: after →
    (resultAfter options before key now).allowed = false →
    later < now + (resultAfter options before key now).retryAfterMs →
    (resultAfter options (before ++ (key, now) :: between) key later).allowed = false
  resumed : ∀ before key now between later after,
    calls = before ++ (key, now) :: between ++ (key, later) :: after →
    (resultAfter options before key now).allowed = false →
    (∀ t ∈ timesOf key between, t < now + (resultAfter options before key now).retryAfterMs) →
    now + (resultAfter options before key now).retryAfterMs ≤ later →
    (resultAfter options (before ++ (key, now) :: between) key later).allowed
  separate : ∀ before key now, resultAfter options before key now =
    resultAfter options (before.filter (·.1 = key)) key now

/-- **What the rate limiter bounds.** -/
theorem rateLimited {calls : List (String × Int)} (hmax : 1 ≤ options.maxRequests)
    (hclock : (calls.map Prod.snd).Pairwise (· ≤ ·)) : RateLimited options calls := by
  refine ⟨fun key start => ?_, ?_, ?_, ?_, ?_, fun before key now => ?_⟩
  · rw [allowedTimes_eq]
    have hlimit : 1 ≤ (fixed options).limit := hmax
    exact FixedWindow.within_admitted_le hlimit (hclock.sublist timesOf_sublist) start
  · intro before burst key now after hcalls hpause hfew
    rw [resultAfter_eq, timesOf_append]
    exact allowed_resultOf.mpr (FixedWindow.admits_of_pause hpause hfew)
  · intro before key now after hcalls hrefused
    obtain ⟨w, hrun, hlt, -, hretry⟩ := full_of_refused hrefused
    have hopened : w.openedAt ≤ now := by
      rw [hcalls, List.map_append, List.pairwise_append] at hclock
      have hmem := timesOf_sublist.subset (FixedWindow.openedAt_mem hrun)
      exact hclock.2.2 _ hmem now (List.mem_cons_self ..)
    omega
  · intro before key now between later after hcalls hrefused hlater
    obtain ⟨w, hrun, hlt, hfull, hretry⟩ := full_of_refused hrefused
    rw [hretry, add_sub_cancel] at hlater
    have hbetween : ∀ t ∈ timesOf key between, t < w.openedAt + options.windowMs := by
      intro t ht
      rw [hcalls, List.map_append, List.pairwise_append, List.map_append, List.map_cons] at hclock
      have hmem := List.mem_append_right (before.map Prod.snd)
        (List.mem_cons_of_mem now (timesOf_sublist.subset ht))
      exact (hclock.2.2 t hmem later (List.mem_cons_self ..)).trans_lt hlater
    rw [resultAfter_eq, run_of_full hrun hfull hlt hbetween, ← Bool.not_eq_true, allowed_resultOf,
      FixedWindow.admits_full_iff hfull]
    exact not_le.mpr hlater
  · intro before key now between later after hcalls hrefused hbetween hlater
    obtain ⟨w, hrun, hlt, hfull, hretry⟩ := full_of_refused hrefused
    rw [hretry, add_sub_cancel] at hlater hbetween
    rw [resultAfter_eq, run_of_full hrun hfull hlt hbetween]
    exact allowed_resultOf.mpr ((FixedWindow.admits_full_iff hfull).mpr hlater)
  · rw [resultAfter_eq, resultAfter_eq, timesOf_filter]

/-- Three calls in a window for two, one of another key, and one when the window is over. -/
theorem rateLimited_sample : RateLimited { windowMs := 1000, maxRequests := 2 }
    [("a", 0), ("a", 10), ("b", 10), ("a", 999), ("a", 1000)] :=
  rateLimited (by decide) (by decide)

end RateLimiter

end Ambit
