import Ambit.Refinement

/-! Invariants of the process, call by call: what each piece of each call keeps, whatever the breaker
and the file operations do, each run keeps. -/

namespace Ambit

open Effect

variable {env : Env} {κ : Type}

/-- A piece of a call keeps the state in `I`, and stops at a frame with `F` or ends with a value
with `O` in the state that it leaves, if it does not throw. -/
structure Upheld (I : World → Prop) (F : Frame → Prop) (O : Outcome → World → Prop)
    (r : Except Err (Progress Frame Outcome)) (w : World) : Prop where
  world : I w
  frame : ∀ frame, r = .ok (.awaiting frame) → F frame
  outcome : ∀ outcome, r = .ok (.returned outcome) → O outcome w

/-- An invariant of the runs that start no calls but the allowed ones: of the state, of what is kept
of a suspended call, and of what a call hands back. -/
structure CallInvariant (env : Env) where
  allowed : Call → Prop
  world : World → Prop
  frame : Call → Frame → Prop
  outcome : Call → Outcome → World → Prop
  boots : ∀ w, world w → world (w.boot env)
  restarts : ∀ w, world w → world (w.restart env)
  clock : ∀ w t, world w → world { w with clock := t }
  starts : ∀ w call, world w → allowed call →
    wp (startCall env call) (Upheld world (frame call) (outcome call)) w
  resumes : ∀ w call downstream f, world w → frame call f →
    wp (resumeFrame env downstream f) (Upheld world (frame call) (outcome call)) w

/-- What holds of the frame that a piece stops at, or of the value that it ends with and the state. -/
def Progress.Meets {φ α : Type} (F : φ → Prop) (J : α → World → Prop) (w : World) : Progress φ α → Prop
  | .awaiting frame => F frame
  | .returned value => J value w

section
variable {I : World → Prop} {F : Frame → Prop} {O : Outcome → World → Prop} {α : Type} {w : World}

theorem upheld_error {err : Err} (h : I w) : Upheld I F O (.error err) w where
  world := h
  frame _ hr := by cases hr
  outcome _ hr := by cases hr

theorem upheld_returned {outcome : Outcome} (h : I w) (houtcome : O outcome w) :
    Upheld I F O (.ok (.returned outcome)) w where
  world := h
  frame _ hr := by cases hr
  outcome _ hr := by
    cases hr
    exact houtcome

theorem upheld_awaiting {frame : Frame} (h : I w) (hframe : F frame) :
    Upheld I F O (.ok (.awaiting frame)) w where
  world := h
  frame _ hr := by
    cases hr
    exact hframe
  outcome _ hr := by cases hr

/-- A call that never awaits. -/
theorem wp_synchronously_upheld {op : Op α} {outcome : α → Outcome}
    (h : wp op (fun r w' => I w' ∧ OnOk (fun a => O (outcome a) w') r) w) :
    wp (synchronously op outcome) (Upheld I F O) w := by
  refine wp_bind (wp_mono h fun r w' ⟨hI, hr⟩ => ?_)
  cases r with
  | error err => exact upheld_error hI
  | ok a => exact wp_pure (upheld_returned hI hr)

/-- A call that stops at a frame of its own, or ends. -/
theorem wp_map_upheld {φ : Type} {op : Op (Progress φ α)} {onFrame : φ → Frame}
    {onValue : α → Outcome} (h : wp op (fun r w' => I w' ∧
      OnOk (Progress.Meets (fun f => F (onFrame f)) (fun a => O (onValue a)) w') r) w) :
    wp (do return (← op).map onFrame onValue) (Upheld I F O) w := by
  refine wp_bind (wp_mono h fun r w' ⟨hI, hr⟩ => ?_)
  cases r with
  | error err => exact upheld_error hI
  | ok progress =>
    cases progress with
    | awaiting frame => exact wp_pure (upheld_awaiting hI hr)
    | returned a => exact wp_pure (upheld_returned hI hr)

end

/-- The configuration after a piece that is upheld: what is suspended, or what has ended. -/
structure Leaves (I : World → Prop) (F : Frame → Prop) (O : Outcome → World → Prop) (call : Call)
    (inflight : List (InFlight κ)) (next : Config κ × Option (Settled κ)) : Prop where
  world : I next.1.world
  frames : ∀ x ∈ next.1.inflight, x ∈ inflight ∨ (x.call = call ∧ F x.frame)
  outcome : ∀ s ∈ next.2, s.call = call ∧
    ((∃ err, s.outcome = .failed err) ∨ O s.outcome next.1.world)

theorem leaves_settle {I : World → Prop} {F : Frame → Prop} {O : Outcome → World → Prop} {client : κ}
    {call : Call} {inflight : List (InFlight κ)} {x : Op (Progress Frame Outcome)} {w : World}
    (h : wp x (Upheld I F O) w) :
    Leaves I F O call inflight (Config.settle client call inflight (x w)) := by
  rcases hrun : x w with ⟨outcome | frame, w'⟩ | ⟨err, w'⟩
  · have hupheld := wp_ok h hrun
    refine ⟨hupheld.world, fun x hx => .inl hx, ?_⟩
    rintro _ ⟨⟩
    exact ⟨rfl, .inr (hupheld.outcome outcome rfl)⟩
  · have hupheld := wp_ok h hrun
    refine ⟨hupheld.world, fun x hx => ?_, fun s hs => by cases hs⟩
    rcases List.mem_append.mp hx with hx | hx
    · exact .inl hx
    · cases List.mem_singleton.mp hx
      exact .inr ⟨rfl, hupheld.frame frame rfl⟩
  · have hupheld := wp_error h hrun
    refine ⟨hupheld.world, fun x hx => .inl hx, ?_⟩
    rintro _ ⟨⟩
    exact ⟨rfl, .inl ⟨err, rfl⟩⟩

/-- What the invariant says of a configuration. -/
structure Config.Upholds (I : CallInvariant env) (c : Config κ) : Prop where
  world : I.world c.world
  frames : ∀ x ∈ c.inflight, I.frame x.call x.frame

/-- What the invariant says of a call that has ended, and of the state that it left. -/
def Settled.Upholds (I : CallInvariant env) (s : Settled κ) (w : World) : Prop :=
  (∃ err, s.outcome = .failed err) ∨ I.outcome s.call s.outcome w

namespace CallInvariant

variable (I : CallInvariant env) {c : Config κ}

theorem settle {client : κ} {call : Call} {inflight : List (InFlight κ)}
    {x : Op (Progress Frame Outcome)} {w : World} (hinflight : ∀ x ∈ inflight, I.frame x.call x.frame)
    (h : wp x (Upheld I.world (I.frame call) (I.outcome call)) w) :
    (Config.settle client call inflight (x w)).1.Upholds I ∧
      ∀ s ∈ (Config.settle client call inflight (x w)).2,
        s.Upholds I (Config.settle client call inflight (x w)).1.world := by
  have hleaves : Leaves _ _ _ call inflight (Config.settle client call inflight (x w)) :=
    leaves_settle h
  refine ⟨⟨hleaves.world, fun y hy => ?_⟩, fun s hs => ?_⟩
  · rcases hleaves.frames y hy with hy | ⟨hcall, hframe⟩
    · exact hinflight y hy
    · rw [hcall]
      exact hframe
  · obtain ⟨hcall, houtcome⟩ := hleaves.outcome s hs
    rw [Settled.Upholds, hcall]
    exact houtcome

/-- An action keeps the invariant, if a call that it starts is allowed. -/
theorem exec (h : c.Upholds I) (a : Action κ) (ha : ∀ client call, a = .call client call → I.allowed call) :
    (c.exec env a).1.Upholds I ∧ ∀ s ∈ (c.exec env a).2, s.Upholds I (c.exec env a).1.world := by
  cases a with
  | call client call => exact I.settle h.frames (I.starts _ call h.world (ha client call rfl))
  | resume i downstream =>
    simp only [Config.exec]
    cases hx : c.inflight[i]? with
    | none => exact ⟨h, fun s hs => by cases hs⟩
    | some x =>
      exact I.settle (fun y hy => h.frames y (List.mem_of_mem_eraseIdx hy))
        (I.resumes _ _ downstream _ h.world (h.frames x (List.mem_of_getElem? hx)))
  | clock t => exact ⟨⟨I.clock _ t h.world, h.frames⟩, fun s hs => by cases hs⟩
  | restart =>
    exact ⟨⟨I.boots _ (I.restarts _ h.world), fun x hx => by cases hx⟩, fun s hs => by cases hs⟩

/-- **What every piece of every call keeps, every run keeps.** -/
theorem run {acts : List (Action κ)} (hinitial : I.world .initial)
    (h : ∀ client call, Action.call client call ∈ acts → I.allowed call) :
    ((processMachine κ env).run acts).Upholds I := by
  induction acts using List.reverseRecOn with
  | nil => exact ⟨I.boots _ hinitial, fun x hx => by cases hx⟩
  | append_singleton acts a ih =>
    have hc := ih fun client call hmem => h client call (List.mem_append_left _ hmem)
    rw [Machine.run_snoc]
    exact (I.exec hc a fun client call ha =>
      h client call (ha ▸ List.mem_append_right _ (List.mem_singleton_self a))).1

end CallInvariant

end Ambit
