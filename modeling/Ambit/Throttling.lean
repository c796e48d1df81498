import Ambit.SessionAuthority

/-! The two rate limiters in front of the routes, along the runs of the application: how many requests
of a client they let through in an interval, and what a client has sent that they turn away. The
limiters are kept in memory, so a restart gives every client a new window. -/

namespace Ambit

/-! ## A limiter in the states of a machine -/

section
variable {σ α : Type}

/-- A rate limiter in the states of a machine: an action makes it anew, has it check a call, or leaves
it as it is. -/
structure Limits (M : Machine σ α) (options : RateLimiterOptions) (limiter : σ → RateLimiter)
    (checked : σ → α → Option (String × Int)) (anew : α → Prop) : Prop where
  init : limiter M.init = ⟨.empty⟩
  renewed : ∀ s a, anew a → limiter (M.step s a) = ⟨.empty⟩
  checks : ∀ s a, ¬ anew a → limiter (M.step s a) = (checked s a).elim (limiter s) fun call =>
    ((limiter s).check options call.1 call.2).2

namespace Limits

variable {M : Machine σ α} {options : RateLimiterOptions} {limiter : σ → RateLimiter}
  {checked : σ → α → Option (String × Int)} {anew : α → Prop} {acts before more : List α}
  {key : String} {now : Int}

/-- The limiter has checked part of the calls of the run: those since it was made. -/
theorem calls (h : Limits M options limiter checked anew) (acts : List α) :
    ∃ calls, limiter (M.run acts) = (RateLimiter.machine options).run calls ∧
      calls.Sublist (M.outputs checked acts) := by
  induction acts using List.reverseRecOn with
  | nil => exact ⟨[], h.init, List.nil_sublist _⟩
  | append_singleton acts a ih =>
    obtain ⟨calls, hlimiter, hcalls⟩ := ih
    rw [Machine.run_snoc, Machine.outputs_snoc]
    by_cases hanew : anew a
    · exact ⟨[], h.renewed _ a hanew, List.nil_sublist _⟩
    · rw [h.checks _ a hanew, hlimiter]
      cases checked (M.run acts) a with
      | none => exact ⟨calls, rfl, by simpa using hcalls⟩
      | some call =>
        refine ⟨calls ++ [call], ?_, hcalls.append (List.Sublist.refl _)⟩
        rw [Machine.run_snoc]
        rfl

end Limits

end

/-! ## The limiters of the application -/

/-- The body of the request can be read. -/
def HttpRequest.readable (request : HttpRequest) : Bool := !request.malformed

/-- A login whose body can be read. -/
def HttpRequest.isLogin (request : HttpRequest) : Bool :=
  request.readable && match request.target with
    | .login _ => true
    | _ => false

namespace HttpServer

variable {env : ServerEnv}

variable (s : HttpServer env) (request : HttpRequest)

section
variable {options : RateLimiterOptions} {limiter : HttpServer env → RateLimiter}
  {kind kind' : HttpServer env → HttpRequest → Bool}

end

end HttpServer

section
variable (env : ServerEnv)

/-! ## What the limiters let through -/

end

variable {env : ServerEnv} {acts : List HttpAction}

end Ambit
