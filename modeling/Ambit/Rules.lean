import Ambit.Faultless

/-! One rule an operation, for processes none of whose file operations fails: what has to hold
afterwards, as a condition on the state before. -/

namespace Ambit

open Effect

variable {env : Env} {w : World} {α : Type}

theorem wp_auditRecord {entry : AuditEntryInput} {now : Int} {Q : Except Err Unit → World → Prop}
    (h : w.Sound env) (hreason : entry.lacksReason = false)
    (hQ : Q (.ok ()) (w.logged env entry now)) : wp (auditRecord env entry now) Q w :=
  Faultless.wp_auditRecord h.faults hreason hQ

/-- An entry that must have a reason and has none is refused. -/
theorem wp_auditRecord_refused {entry : AuditEntryInput} {now : Int}
    {Q : Except Err Unit → World → Prop} (h : w.Sound env) (hreason : entry.lacksReason = true)
    (hQ : ∀ err, Q (.error err) w.drawn) : wp (auditRecord env entry now) Q w :=
  Faultless.wp_auditRecord_refused h.faults hreason fun _ => hQ _

/-! ## The stores -/

theorem TokenStore.wp_get {id : String} {Q : Except Err (Option Token) → World → Prop}
    (h : w.Sound env)
    (hrejected : w.Rejects env → ∀ message, Q (.error (.circuitOpen message)) (w.rejected env))
    (hadmitted : ¬ w.Rejects env → Q (.ok (w.ledger.tokens id)) (w.accessed env)) :
    wp (TokenStore.get env id) Q w :=
  Faultless.tokenStore_get h.faults hrejected hadmitted

theorem PolicyStore.wp_get {id : String} {Q : Except Err (Option Policy) → World → Prop}
    (h : w.Sound env)
    (hrejected : w.Rejects env → ∀ message, Q (.error (.circuitOpen message)) (w.rejected env))
    (hadmitted : ¬ w.Rejects env → Q (.ok (w.policyStore.live.get id)) (w.accessed env)) :
    wp (PolicyStore.get env id) Q w :=
  Faultless.policyStore_get h.faults hrejected hadmitted

theorem TokenStore.wp_save {t : Token} {Q : Except Err Unit → World → Prop} (h : w.Sound env)
    (hrejected : w.Rejects env → ∀ message, Q (.error (.circuitOpen message)) (w.rejected env))
    (hadmitted : ¬ w.Rejects env → Q (.ok ()) ((w.accessed env).putToken t)) :
    wp (TokenStore.save env t) Q w :=
  Faultless.tokenStore_save h.faults hrejected hadmitted

theorem PolicyStore.wp_save {policy : Policy} {Q : Except Err Unit → World → Prop}
    (h : w.Sound env)
    (hrejected : w.Rejects env → ∀ message, Q (.error (.circuitOpen message)) (w.rejected env))
    (hadmitted : ¬ w.Rejects env → Q (.ok ()) ((w.accessed env).putPolicy policy)) :
    wp (PolicyStore.save env policy) Q w :=
  Faultless.policyStore_save h.faults hrejected hadmitted

theorem RequestStore.wp_get {id : String} {Q : Except Err (Option PendingRequest) → World → Prop}
    (h : Q (.ok (w.ledger.requests id)) w) : wp (RequestStore.get id) Q w :=
  wp_bind (Effect.wp_get (wp_pure h))

theorem RequestStore.wp_save {r : PendingRequest} {Q : Except Err Unit → World → Prop}
    (h : w.Sound env) (hQ : Q (.ok ()) (w.putRequest r)) : wp (RequestStore.save r) Q w :=
  wp_of_ok (Faultless.saveRecord_run h.faults) hQ

theorem AgentIdentityStore.wp_save {identity : AgentIdentity} {Q : Except Err Unit → World → Prop}
    (h : w.Sound env) (hQ : Q (.ok ()) (w.putIdentity identity)) :
    wp (AgentIdentityStore.save identity) Q w :=
  wp_of_ok (Faultless.saveRecord_run h.faults) hQ

theorem RedactionRuleStore.wp_save {rule : RedactionRule} {Q : Except Err Unit → World → Prop}
    (h : w.Sound env) (hQ : Q (.ok ()) (w.putRule rule)) :
    wp (RedactionRuleStore.save rule) Q w :=
  wp_of_ok (Faultless.saveRecord_run h.faults) hQ

end Ambit
