import Ambit.Token
import Ambit.Lib.Forest

/-! What the token and request records are for, apart from the code: a ledger of tokens and
requests with the log of what changed them, and the events it admits. An event is what one
uninterrupted piece of the program does; it may act on a record that was read earlier, as long as
the record agrees with the stored one in what never changes. -/

namespace Ambit

/-! ## Records read earlier -/

/-- `b` is what became of the token `a`, perhaps over a restart. -/
structure Token.SameTerms (a b : Token) : Prop where
  id_eq : b.id = a.id
  subject_eq : b.subject = a.subject
  scope_eq : b.scope = a.scope
  parentTokenId_eq : b.parentTokenId = a.parentTokenId
  secretHash_eq : b.secretHash = a.secretHash
  stays_revoked : a.status = .revoked → b.status = .revoked

/-- `b` is what became of the token `a` in one process: only its revocation can have changed. -/
structure Token.Agrees (a b : Token) : Prop extends Token.SameTerms a b where
  issuedAt_eq : b.issuedAt = a.issuedAt
  expiresAt_eq : b.expiresAt = a.expiresAt

/-- `b` is what became of the request `a`: what was submitted stays. -/
structure PendingRequest.Agrees (a b : PendingRequest) : Prop where
  id_eq : b.id = a.id
  subject_eq : b.subject = a.subject
  scope_eq : b.scope = a.scope
  idempotencyKey_eq : b.idempotencyKey = a.idempotencyKey

namespace Token

variable {a b c : Token}

theorem SameTerms.refl (t : Token) : t.SameTerms t := ⟨rfl, rfl, rfl, rfl, rfl, fun h => h⟩

theorem SameTerms.trans (h : a.SameTerms b) (h' : b.SameTerms c) : a.SameTerms c where
  id_eq := h'.id_eq.trans h.id_eq
  subject_eq := h'.subject_eq.trans h.subject_eq
  scope_eq := h'.scope_eq.trans h.scope_eq
  parentTokenId_eq := h'.parentTokenId_eq.trans h.parentTokenId_eq
  secretHash_eq := h'.secretHash_eq.trans h.secretHash_eq
  stays_revoked := h'.stays_revoked ∘ h.stays_revoked

theorem sameTerms_image (t : Token) : t.SameTerms t.image := ⟨rfl, rfl, rfl, rfl, rfl, fun h => h⟩

theorem Agrees.refl (t : Token) : t.Agrees t := ⟨.refl t, rfl, rfl⟩

theorem Agrees.trans (h : a.Agrees b) (h' : b.Agrees c) : a.Agrees c :=
  ⟨h.toSameTerms.trans h'.toSameTerms, h'.issuedAt_eq.trans h.issuedAt_eq,
    h'.expiresAt_eq.trans h.expiresAt_eq⟩

theorem agrees_revoke (t : Token) (now : Int) (reasonCode : RevocationReason) :
    t.Agrees (t.revoke now reasonCode) :=
  ⟨⟨rfl, rfl, rfl, rfl, rfl, fun _ => rfl⟩, rfl, rfl⟩

end Token

namespace PendingRequest

variable {a b c : PendingRequest}

theorem Agrees.refl (r : PendingRequest) : r.Agrees r := ⟨rfl, rfl, rfl, rfl⟩

theorem Agrees.trans (h : a.Agrees b) (h' : b.Agrees c) : a.Agrees c where
  id_eq := h'.id_eq.trans h.id_eq
  subject_eq := h'.subject_eq.trans h.subject_eq
  scope_eq := h'.scope_eq.trans h.scope_eq
  idempotencyKey_eq := h'.idempotencyKey_eq.trans h.idempotencyKey_eq

theorem Agrees.symm (h : a.Agrees b) : b.Agrees a :=
  ⟨h.id_eq.symm, h.subject_eq.symm, h.scope_eq.symm, h.idempotencyKey_eq.symm⟩

end PendingRequest

/-! ## Log entries -/

/-- The entries that record a change of the ledger, or a use of a token that the gateway let
through. -/
def AuditEntryInput.noteworthy (e : AuditEntryInput) : Bool :=
  e.decision ∈ [.requestSubmitted, .requestApproved, .requestEscalated, .tokenSecretClaimed,
    .revoked] || (e.decision = .allowed && e.tokenId.isSome && e.outcome.isNone)

def submissionEntry (r : PendingRequest) : AuditEntryInput :=
  { requestId := some r.id, subject := r.subject, action := "request_token",
    decision := .requestSubmitted }

def approvalEntry (pending : PendingRequest) (tokenId approver : String)
    (policyId : Option String) : AuditEntryInput :=
  { requestId := some pending.id, tokenId := some tokenId, policyId, subject := pending.subject,
    action := "approve_request", decision := .requestApproved, actor := some approver }

def escalationEntry (r : PendingRequest) : AuditEntryInput :=
  { requestId := some r.id, subject := r.subject, action := "escalate_request",
    decision := .requestEscalated, reasonCode := some "decision_window_expired" }

def claimEntry (r : PendingRequest) (tokenId : String) : AuditEntryInput :=
  { requestId := some r.id, tokenId := some tokenId, subject := r.subject,
    action := "claim_token_secret", decision := .tokenSecretClaimed }

def useEntry (tokenId subject action : String) : AuditEntryInput :=
  { tokenId := some tokenId, subject, action, decision := .allowed }

/-! ## The ledger -/

@[ext] structure Ledger where
  tokens : String → Option Token
  requests : String → Option PendingRequest
  log : List AuditEntryInput

/-- One revocation: who asks for it, and the tokens it revokes, with the one asked for first. -/
structure Revocation where
  tokenId : String
  reasonCode : RevocationReason
  now : Int
  actor : Option String
  revoked : List Token

namespace Revocation

variable (r : Revocation)

/-- The reason it gives for the token `id`. -/
def reasonFor (id : String) : RevocationReason :=
  if id = r.tokenId then r.reasonCode else .parentRevoked

def entry (t : Token) : AuditEntryInput := revocationEntry t.id t.subject (r.reasonFor t.id) r.actor

end Revocation

inductive Event where
  | noted
  | submitted (request : PendingRequest)
  | approved (pending : PendingRequest) (token : Token) (secret approver : String)
      (policyId : Option String)
  | denied (pending : PendingRequest)
  | escalated (pending : PendingRequest) (backupApprover : String)
  | claimed (request : PendingRequest) (tokenId secret : String)
  | delegated (parent token : Token)
  | used (token : Token) (action : String) (now : Int)
  | revoked (revocation : Revocation)
  | restarted

/-- The log entries that an event writes. -/
def Event.entries : Event → List AuditEntryInput
  | .noted | .denied _ | .restarted => []
  | .submitted r => [submissionEntry r]
  | .approved pending t _ approver policyId => [approvalEntry pending t.id approver policyId]
  | .escalated pending _ => [escalationEntry pending]
  | .claimed r tokenId _ => [claimEntry r tokenId]
  | .delegated _ t => [useEntry t.id t.subject "delegate"]
  | .used t action _ => [useEntry t.id t.subject action]
  | .revoked r => r.revoked.map r.entry

/-- The token that an event stores. -/
def Event.issued : Event → Option Token
  | .approved _ t _ _ _ | .delegated _ t => some t
  | _ => none

/-- The request record that an event stores. -/
def Event.written : Event → Option PendingRequest
  | .submitted r => some r
  | .approved pending t secret _ _ =>
    some { pending with status := .approved, tokenId := some t.id, tokenSecret := some secret }
  | .denied pending => some { pending with status := .denied }
  | .escalated pending backup => some { pending with assignedApprover := some backup }
  | .claimed r _ _ => some { r with tokenSecret := none }
  | _ => none

namespace Ledger

/-- The token was read from the ledger at some time of this process. -/
def HasRead (L : Ledger) (t : Token) : Prop :=
  ∃ current, L.tokens t.id = some current ∧ t.Agrees current

/-- The request was read from the ledger at some time of this process. -/
def HasReadRequest (L : Ledger) (r : PendingRequest) : Prop :=
  ∃ current, L.requests r.id = some current ∧ r.Agrees current

/-- The token `p` is the parent of the token `i`. -/
def Parent (L : Ledger) (i p : String) : Prop :=
  ∃ t, L.tokens i = some t ∧ t.parentTokenId = some p

def Active (L : Ledger) (i : String) : Prop := ∃ t, L.tokens i = some t ∧ t.status = .active

def Revoked (L : Ledger) (i : String) : Prop := ∃ t, L.tokens i = some t ∧ t.status = .revoked

/-- The token under `i` after an event that stores no token there. -/
def changedToken (e : Event) (i : String) (t : Token) : Token :=
  match e with
  | .revoked r => if i ∈ r.revoked.map Token.id then t.revoke r.now (r.reasonFor i) else t
  | .restarted => t.image
  | _ => t

/-- A request after an event that does not store it. -/
def changedRequest (e : Event) (r : PendingRequest) : PendingRequest :=
  match e with
  | .restarted => r.image
  | _ => r

/-- What an event does to the ledger: it stores at most one token and one request, and changes the
others in place. -/
def after (L : Ledger) (e : Event) : Ledger where
  tokens i := (e.issued.filter (·.id = i)).or ((L.tokens i).map (changedToken e i))
  requests i := (e.written.filter (·.id = i)).or ((L.requests i).map (changedRequest e))
  log := L.log ++ e.entries

/-- A token that is about to be stored. -/
structure Fresh (L : Ledger) (t : Token) : Prop where
  isNew : L.tokens t.id = none
  id_ne : t.id ≠ ""
  active : t.status = .active
  scope_ne : t.scope ≠ []

/-- The tokens of a revocation: the one asked for, and exactly those that are reached from it by
child links to active tokens; each once. -/
structure Revokes (L : Ledger) (r : Revocation) : Prop where
  asked : ∃ t rest, L.tokens r.tokenId = some t ∧ r.revoked = t :: rest
  stored : ∀ t ∈ r.revoked, L.tokens t.id = some t
  reached : ∀ i, i ∈ r.revoked.map Token.id ↔
    i = r.tokenId ∨ Forest.Reached L.Parent (fun i => L.Active i ∧ i ≠ r.tokenId) r.tokenId i
  nodup : (r.revoked.map Token.id).Nodup

/-- When an event can happen. -/
def Enabled (p : Platform) (L : Ledger) : Event → Prop
  | .noted => True
  | .submitted r =>
    L.requests r.id = none ∧ r.status = .pending ∧ r.tokenId = none ∧ r.tokenSecret = none
  | .approved pending t secret _ _ =>
    L.HasReadRequest pending ∧ L.Fresh t ∧ t.subject = pending.subject ∧
      t.scope = pending.scope ∧ t.parentTokenId = none ∧ secret ≠ "" ∧
      verifyPassword p secret t.secretHash = true
  | .denied pending => L.requests pending.id = some pending ∧ pending.status = .pending
  | .escalated pending _ => L.requests pending.id = some pending ∧ pending.status = .pending
  | .claimed r tokenId secret =>
    L.requests r.id = some r ∧ r.status = .approved ∧ r.tokenId = some tokenId ∧
      r.tokenSecret = some secret
  | .delegated parent t =>
    L.HasRead parent ∧ parent.status = .active ∧ L.Fresh t ∧
      t.parentTokenId = some parent.id ∧ t.scope ⊆ parent.scope ∧ ∃ s ∈ parent.scope, s ∉ t.scope
  | .used t action now =>
    L.HasRead t ∧ t.status = .active ∧ action ∈ t.scope ∧
      t.expiresAt.getTime.le (Date.ms now).getTime = false
  | .revoked r => L.Revokes r
  | .restarted => True

/-- The ledger before anything happened. -/
def empty : Ledger := ⟨fun _ => none, fun _ => none, []⟩

/-! ## What a step does -/

variable {p : Platform} {L : Ledger} {e : Event} {i : String}

/-- An issued token is new. -/
theorem Enabled.fresh {t : Token} (he : L.Enabled p e) (ht : e.issued = some t) : L.Fresh t := by
  cases e with
  | approved => cases ht; exact he.2.1
  | delegated => cases ht; exact he.2.2.1
  | _ => cases ht

theorem sameTerms_changedToken (e : Event) (i : String) (t : Token) :
    t.SameTerms (changedToken e i t) := by
  cases e with
  | revoked r =>
    simp only [changedToken]
    split
    · exact (t.agrees_revoke ..).toSameTerms
    · exact .refl t
  | restarted => exact t.sameTerms_image
  | _ => exact .refl t

theorem agrees_changedToken (h : e ≠ .restarted) (i : String) (t : Token) :
    t.Agrees (changedToken e i t) := by
  cases e with
  | revoked r =>
    simp only [changedToken]
    split
    · exact t.agrees_revoke ..
    · exact .refl t
  | restarted => exact absurd rfl h
  | _ => exact .refl t

theorem agrees_changedRequest (e : Event) (r : PendingRequest) : r.Agrees (changedRequest e r) := by
  cases e <;> exact ⟨rfl, rfl, rfl, rfl⟩

def setToken (L : Ledger) (t : Token) : Ledger :=
  { L with tokens := fun i => if i = t.id then some t else L.tokens i }

def setRequest (L : Ledger) (r : PendingRequest) : Ledger :=
  { L with requests := fun i => if i = r.id then some r else L.requests i }

def note (L : Ledger) (a : AuditEntryInput) : Ledger := { L with log := L.log ++ [a] }

/-- An event that changes nothing in place stores its records and writes its entries. -/
theorem after_eq (htoken : ∀ i t, changedToken e i t = t) (hrequest : ∀ r, changedRequest e r = r) :
    L.after e =
      { tokens := (e.issued.elim L L.setToken).tokens
        requests := (e.written.elim L L.setRequest).requests
        log := L.log ++ e.entries } := by
  have htokens : ∀ i, (L.after e).tokens i = (e.issued.elim L L.setToken).tokens i := by
    intro i
    have hold : (L.tokens i).map (changedToken e i) = L.tokens i := by
      rw [funext (htoken i), Option.map_id']
    cases hissued : e.issued with
    | none => simp [after, hissued, hold]
    | some t =>
      by_cases hid : i = t.id
      · simp [after, hissued, setToken, hid]
      · simp [after, hissued, hold, setToken, hid, Option.filter, Ne.symm hid]
  have hrequests : ∀ i, (L.after e).requests i = (e.written.elim L L.setRequest).requests i := by
    intro i
    have hold : (L.requests i).map (changedRequest e) = L.requests i := by
      rw [funext hrequest, Option.map_id']
    cases hwritten : e.written with
    | none => simp [after, hwritten, hold]
    | some r =>
      by_cases hid : i = r.id
      · simp [after, hwritten, setRequest, hid]
      · simp [after, hwritten, hold, setRequest, hid, Option.filter, Ne.symm hid]
  rw [← funext htokens, ← funext hrequests]
  rfl

theorem issued_stored {t : Token} (h : e.issued = some t) :
    (L.after e).tokens t.id = some t := by simp [after, h]

theorem written_stored {r : PendingRequest} (h : e.written = some r) :
    (L.after e).requests r.id = some r := by simp [after, h]

/-- A stored token stays, changed in place. -/
theorem Enabled.token_stays {t : Token} (he : L.Enabled p e) (ht : L.tokens i = some t) :
    (L.after e).tokens i = some (changedToken e i t) := by
  have hnone : e.issued.filter (·.id = i) = none := by
    refine Option.filter_eq_none_iff.mpr fun t' hissued => ?_
    have hnew := (he.fresh hissued).isNew
    intro hid
    rw [of_decide_eq_true hid, ht] at hnew
    cases hnew
  simp [after, hnone, ht]

/-- A token stored after an event is the one issued, or was there before. -/
theorem after_tokens {t' : Token} (ht : (L.after e).tokens i = some t') :
    (e.issued = some t' ∧ t'.id = i) ∨ ∃ t, L.tokens i = some t ∧ t' = changedToken e i t := by
  rcases Option.or_eq_some_iff.mp ht with h | ⟨-, h⟩
  · obtain ⟨hissued, hid⟩ := Option.filter_eq_some_iff.mp h
    exact .inl ⟨hissued, of_decide_eq_true hid⟩
  · obtain ⟨t, hold, rfl⟩ := Option.map_eq_some_iff.mp h
    exact .inr ⟨t, hold, rfl⟩

/-- A request stored after an event is the one written, or was there before. -/
theorem after_requests {r' : PendingRequest} (hr : (L.after e).requests i = some r') :
    (e.written = some r' ∧ r'.id = i) ∨
      e.written.filter (·.id = i) = none ∧ ∃ r, L.requests i = some r ∧ r' = changedRequest e r := by
  rcases Option.or_eq_some_iff.mp hr with h | ⟨hnone, h⟩
  · obtain ⟨hwritten, hid⟩ := Option.filter_eq_some_iff.mp h
    exact .inl ⟨hwritten, of_decide_eq_true hid⟩
  · obtain ⟨r, hold, rfl⟩ := Option.map_eq_some_iff.mp h
    exact .inr ⟨hnone, r, hold, rfl⟩

/-- A written request keeps what was submitted under its id. -/
theorem Enabled.agrees_written {r r' : PendingRequest} (he : L.Enabled p e)
    (hwritten : e.written = some r') (hr : L.requests r'.id = some r) : r.Agrees r' := by
  cases e with
  | submitted =>
    cases hwritten
    rw [he.1] at hr
    cases hr
  | approved pending =>
    cases hwritten
    obtain ⟨current, hcurrent, hagrees⟩ := he.1
    cases hcurrent.symm.trans hr
    exact hagrees.symm.trans ⟨rfl, rfl, rfl, rfl⟩
  | denied pending | escalated pending | claimed pending =>
    cases hwritten
    cases he.1.symm.trans hr
    exact ⟨rfl, rfl, rfl, rfl⟩
  | _ => cases hwritten

/-- A stored request stays, with what was submitted. -/
theorem Enabled.request_stays {r : PendingRequest} (he : L.Enabled p e)
    (hr : L.requests i = some r) : ∃ r', (L.after e).requests i = some r' ∧ r.Agrees r' := by
  cases hw : e.written.filter (·.id = i) with
  | none => exact ⟨changedRequest e r, by simp [after, hw, hr], agrees_changedRequest e r⟩
  | some r' =>
    obtain ⟨hwritten, hid⟩ := Option.filter_eq_some_iff.mp hw
    have hid : r'.id = i := of_decide_eq_true hid
    exact ⟨r', by simp [after, hw], he.agrees_written hwritten (hid ▸ hr)⟩

/-- What was read in this process stays read, until a restart. -/
theorem HasRead.after {t : Token} (h : L.HasRead t) (he : L.Enabled p e) (hrun : e ≠ .restarted) :
    (L.after e).HasRead t := by
  obtain ⟨current, hcurrent, hagrees⟩ := h
  exact ⟨_, he.token_stays hcurrent, hagrees.trans (agrees_changedToken hrun ..)⟩

theorem HasReadRequest.after {r : PendingRequest} (h : L.HasReadRequest r) (he : L.Enabled p e) :
    (L.after e).HasReadRequest r := by
  obtain ⟨current, hcurrent, hagrees⟩ := h
  obtain ⟨r', hr', hagrees'⟩ := he.request_stays hcurrent
  exact ⟨r', hr', hagrees.trans hagrees'⟩

end Ledger

end Ambit
