import Ambit.SamplePlatform
import Ambit.Untouched

/-! What an access to customer data shows of the customers: two registries that differ in masked
values only cannot be told apart, nor any two where the gateway denies. -/

namespace Ambit

open Effect

variable {env : Env} {w : World} {input : CustomerAccessInput} {frame : CustomerAccessFrame}

/-- The deployment with other customers. -/
def Env.withRegistry (env : Env) (registry : String → Option CustomerRecord) : Env :=
  { env with customerRegistry := registry }

/-! ## One record -/

/-- The rule lists the field, under a scope that the token does not have. -/
def RedactionRule.Masks (rule : RedactionRule) (tokenScope : List String) (field : String) : Prop :=
  ∃ requiredScope, (field, requiredScope) ∈ rule.sensitiveFields ∧ requiredScope ∉ tokenScope

theorem hasField_congr {P : String → Prop} {data data' : CustomerRecord}
    (h : data.AgreesOff P data') (field : String) : hasField data field = hasField data' field := by
  rw [hasField, hasField, h.isSome_eq]

/-- A field that is assigned in both records makes no difference any more. -/
theorem agreesOff_assignField {P : String → Prop} {data data' : CustomerRecord} {field : String}
    (h : data.AgreesOff (fun x => x = field ∨ P x) data') (value : String) :
    (assignField data field value).AgreesOff P (assignField data' field value) := by
  unfold assignField
  by_cases hignored : field = "__proto__" ∧ data.get field = none
  · rw [if_pos hignored, if_pos ⟨hignored.1, (h.get_none_iff field).mp hignored.2⟩]
    exact h.of_none hignored.2
  · rw [if_neg hignored, if_neg fun h' => hignored ⟨h'.1, (h.get_none_iff field).mpr h'.2⟩]
    exact h.set value

/-- Records that differ in masked fields only are redacted to the same. -/
theorem applyRedaction_congr {record record' : CustomerRecord} {rule : RedactionRule}
    {tokenScope : List String} (h : record.AgreesOff (rule.Masks tokenScope) record') :
    applyRedaction record rule tokenScope = applyRedaction record' rule tokenScope := by
  unfold applyRedaction
  unfold RedactionRule.Masks at h
  have hfields : (⟨record, []⟩ : RedactionResult).redactedFields =
      (⟨record', []⟩ : RedactionResult).redactedFields := rfl
  replace h : (⟨record, []⟩ : RedactionResult).data.AgreesOff _
      (⟨record', []⟩ : RedactionResult).data := h
  generalize rule.sensitiveFields = todo at h ⊢
  generalize (⟨record, []⟩ : RedactionResult) = result at h hfields ⊢
  generalize (⟨record', []⟩ : RedactionResult) = result' at h hfields ⊢
  -- The fields that are still to come are those in which the data may differ.
  induction todo generalizing result result' with
  | nil =>
    have hdata := (h.mono fun field ⟨s, hs, _⟩ => List.not_mem_nil hs).eq
    cases result
    cases result'
    cases hfields
    cases hdata
    rfl
  | cons entry todo ih =>
    obtain ⟨field, requiredScope⟩ := entry
    simp only [List.foldl_cons, hasField_congr h field]
    by_cases hscope : requiredScope ∈ tokenScope
    · rw [if_neg fun h => h.2 hscope, if_neg fun h => h.2 hscope]
      refine ih _ _ (h.mono ?_) hfields
      rintro x ⟨s, hs, hnot⟩
      refine ⟨s, (List.mem_cons.mp hs).resolve_left fun heq => ?_, hnot⟩
      cases heq
      exact hnot hscope
    · have hleft : result.data.AgreesOff (fun x => x = field ∨
          ∃ s, (x, s) ∈ todo ∧ s ∉ tokenScope) result'.data := by
        refine h.mono ?_
        rintro x ⟨s, hs, hnot⟩
        rcases List.mem_cons.mp hs with heq | hs
        · cases heq
          exact .inl rfl
        · exact .inr ⟨s, hs, hnot⟩
      by_cases hfield : hasField result'.data field = true
      · rw [if_pos ⟨hfield, hscope⟩, if_pos ⟨hfield, hscope⟩, hfields]
        exact ih _ _ (agreesOff_assignField hleft redactionMask) rfl
      · rw [if_neg fun h => hfield h.1, if_neg fun h => hfield h.1]
        refine ih _ _ (hleft.of_none ((h.get_none_iff field).mpr ?_)) hfields
        rw [hasField, Bool.or_eq_true, not_or] at hfield
        simpa using hfield.1

/-! ## The access -/

/-- Without an await the gateway only denies. -/
theorem wp_enforceToken_denies (tokenId providedSecret action : String) (now : Int) :
    wp (enforceToken env tokenId providedSecret action now) (fun r _ => ∀ decision,
      r = .ok (.returned decision) → decision ≠ .allowed) w := by
  have hdeny : ∀ (subject : String) (reasonCode : EnforcementDenialReason) (message : String)
      (w₁ : World), wp (do
        return .returned (← denyEnforcement env tokenId subject action now reasonCode message))
        (fun (r : Except Err (Progress EnforceFrame EnforcementDecision)) _ => ∀ decision,
          r = .ok (.returned decision) → decision ≠ .allowed) w₁ := by
    intro subject reasonCode message w₁
    refine wp_bind (wp_bind (wp_any fun r w₂ => ?_))
    cases r with
    | error => exact fun decision h => by cases h
    | ok => exact wp_pure (wp_pure fun decision h => by cases h; exact nofun)
  refine wp_bind (wp_attempt (wp_any fun r w₁ => ?_))
  rcases r with err | _ | token
  · cases err with
    | circuitOpen => exact hdeny _ _ _ _
    | _ => exact wp_throw fun decision h => by cases h
  · exact hdeny _ _ _ _
  · exact wp_pure fun decision h => by cases h

/-- In the first piece of an access nothing depends on the customers. -/
theorem accessCustomerData_registry (registry : String → Option CustomerRecord)
    (input : CustomerAccessInput) (w : World) :
    accessCustomerData (env.withRegistry registry) input w = accessCustomerData env input w := by
  show (enforceToken env _ _ _ _ >>= _) w = (enforceToken env _ _ _ _ >>= _) w
  cases hrun : enforceToken env input.tokenId input.providedSecret customerReadAction input.now w with
  | error => rw [bind_of_error hrun, bind_of_error hrun]
  | ok progress w₁ =>
    rw [bind_of_ok hrun, bind_of_ok hrun]
    cases progress with
    | awaiting => rfl
    | returned decision =>
      cases decision with
      | denied => rfl
      | allowed => exact absurd rfl (wp_ok (wp_enforceToken_denies _ _ _ _) hrun _ rfl)

/-- The stores that an access reads are as before. -/
def AccessReadsKept (w w' : World) : Prop :=
  w'.tokenStore = w.tokenStore ∧ w'.redactionRuleStore = w.redactionRuleStore

instance : SmallEffects AccessReadsKept where
  refl _ := ⟨rfl, rfl⟩
  trans _ _ _ h h' := ⟨h'.1.trans h.1, h'.2.trans h.2⟩
  logged _ _ _ _ _ := ⟨rfl, rfl⟩
  breaker _ _ := ⟨rfl, rfl⟩
  anomaly _ _ := ⟨rfl, rfl⟩
  endpoints _ _ := ⟨rfl, rfl⟩

/-- The scope that a token gives, or none. -/
def World.scopeOf (w : World) (tokenId : String) : List String :=
  (w.tokenStore.live.get tokenId).elim [] (·.scope)

/-- For this access the registries agree but in masked values: both or none have the customer, and
if the rule can be resolved, the records have the same fields, and the same values in those that it
does not mask. Under a rule that cannot be resolved the records may be any. -/
structure RegistriesAgree (registry registry' : String → Option CustomerRecord)
    (input : CustomerAccessInput) (w : World) : Prop where
  known : registry input.customerId = none ↔ registry' input.customerId = none
  unmasked : ∀ record record' rule, registry input.customerId = some record →
    registry' input.customerId = some record' →
    w.redactionRuleStore.live.get input.redactionRuleId = some rule →
    record.AgreesOff (rule.Masks (w.scopeOf input.tokenId)) record'

/-- The last step of an access: the record as the rule redacts it for the token. -/
def disclose (env : Env) (input : CustomerAccessInput) (record : CustomerRecord)
    (rule : RedactionRule) (token : Option Token) : Op CustomerDataAccessResult := do
  let result := applyRedaction record rule (token.elim [] (·.scope))
  auditRecord env
    { tokenId := some input.tokenId, subject := token.elim "unknown" (·.subject),
      action := customerReadAction, decision := .dataAccessed,
      redactedFields := some result.redactedFields } input.now
  return .data result.data result.redactedFields

theorem customerDataAfter_unruled {record : CustomerRecord}
    (hrecord : env.customerRegistry input.customerId = some record)
    (hrule : w.redactionRuleStore.live.get input.redactionRuleId = none) :
    customerDataAfter env input .allowed w = denyCustomerAccess env input .redactionRuleUnavailable
      (redactionRuleUnavailableMessage input.redactionRuleId) w := by
  have hget : (get : Op World) w = .ok w w := rfl
  simp only [customerDataAfter, hrecord]
  rw [bind_of_ok hget, hrule]

theorem customerDataAfter_ruled {record : CustomerRecord} {rule : RedactionRule}
    (hrecord : env.customerRegistry input.customerId = some record)
    (hrule : w.redactionRuleStore.live.get input.redactionRuleId = some rule) :
    customerDataAfter env input .allowed w =
      (TokenStore.get env input.tokenId >>= disclose env input record rule) w := by
  have hget : (get : Op World) w = .ok w w := rfl
  simp only [customerDataAfter, hrecord]
  rw [bind_of_ok hget, hrule]
  refine congrArg (fun next : Option Token → Op _ => (TokenStore.get env _ >>= next) w) ?_
  funext token
  cases token <;> rfl

/-- Behind the gateway the access is the same with either registry. -/
theorem customerDataAfter_registry {registry registry' : String → Option CustomerRecord}
    (h : RegistriesAgree registry registry' input w) (decision : EnforcementDecision) :
    customerDataAfter (env.withRegistry registry) input decision w =
      customerDataAfter (env.withRegistry registry') input decision w := by
  cases decision with
  | denied => rfl
  | allowed =>
    cases hrecord : registry input.customerId with
    | none =>
      have hrecord' := h.known.mp hrecord
      simp only [customerDataAfter, Env.withRegistry, hrecord, hrecord']
      rfl
    | some record =>
      obtain ⟨record', hrecord'⟩ : ∃ record', registry' input.customerId = some record' := by
        refine Option.ne_none_iff_exists'.mp fun hnone => ?_
        rw [h.known.mpr hnone] at hrecord
        cases hrecord
      cases hrule : w.redactionRuleStore.live.get input.redactionRuleId with
      | none =>
        rw [customerDataAfter_unruled hrecord hrule,
          customerDataAfter_unruled hrecord' hrule]
        rfl
      | some rule =>
        rw [customerDataAfter_ruled hrecord hrule,
          customerDataAfter_ruled hrecord' hrule]
        show (TokenStore.get env input.tokenId >>= _) w = (TokenStore.get env input.tokenId >>= _) w
        cases hget : TokenStore.get env input.tokenId w with
        | error => rw [bind_of_error hget, bind_of_error hget]
        | ok token w₁ =>
          obtain rfl : token = w.tokenStore.live.get input.tokenId :=
            wp_ok (TokenStore.wp_get_found input.tokenId) hget
          have hredacted := applyRedaction_congr (h.unmasked record record' rule hrecord hrecord' hrule)
          rw [bind_of_ok hget, bind_of_ok hget]
          unfold World.scopeOf at hredacted
          simp only [disclose, hredacted]
          rfl

/-- The gateway does not allow the access. -/
def CustomerAccessFrame.Denied (frame : CustomerAccessFrame) (env : Env) (w : World) : Prop :=
  result (frame.enforce.resume env) w ≠ .ok .allowed

/-- Where the gateway denies, nothing depends on the customers. -/
theorem CustomerAccessFrame.resume_denied (hdenied : frame.Denied env w)
    (registry : String → Option CustomerRecord) :
    frame.resume (env.withRegistry registry) w = frame.resume env w := by
  show (frame.enforce.resume env >>= _) w = (frame.enforce.resume env >>= _) w
  cases hrun : frame.enforce.resume env w with
  | error => rw [bind_of_error hrun, bind_of_error hrun]
  | ok decision w₁ =>
    rw [bind_of_ok hrun, bind_of_ok hrun]
    cases decision with
    | denied => rfl
    | allowed =>
      rw [CustomerAccessFrame.Denied, result, hrun] at hdenied
      exact absurd rfl hdenied

/-- **Redacted values do not show.** An access does the same, to its result and to the state with its
log, with two registries: up to its await with any two, and from there on if the gateway denies, or
if they agree but in the values that the rule masks for the token. -/
theorem redaction_noninterference (registry registry' : String → Option CustomerRecord)
    (input : CustomerAccessInput) :
    (∀ w, accessCustomerData (env.withRegistry registry) input w =
      accessCustomerData (env.withRegistry registry') input w) ∧
    ∀ (frame : CustomerAccessFrame) (w : World), frame.input = input →
      frame.Denied env w ∨ RegistriesAgree registry registry' input w →
      frame.resume (env.withRegistry registry) w = frame.resume (env.withRegistry registry') w := by
  constructor
  · intro w
    rw [accessCustomerData_registry, accessCustomerData_registry]
  · rintro frame w rfl (hdenied | hagree)
    · rw [frame.resume_denied hdenied, frame.resume_denied hdenied]
    · show (frame.enforce.resume env >>= _) w = (frame.enforce.resume env >>= _) w
      cases hrun : frame.enforce.resume env w with
      | error => rw [bind_of_error hrun, bind_of_error hrun]
      | ok decision w₁ =>
        rw [bind_of_ok hrun, bind_of_ok hrun]
        have hkept : AccessReadsKept w w₁ := wp_ok (frame.enforce.along_resume.wp w) hrun
        refine customerDataAfter_registry ⟨hagree.known, ?_⟩ decision
        rw [World.scopeOf, hkept.1, hkept.2]
        exact hagree.unmasked

/-! ## Two customers who differ in a masked field -/

def sampleCustomer (ssn : String) : CustomerRecord :=
  OrderedMap.set (OrderedMap.set .empty "id" "cust") "ssn" ssn

def sampleRegistry (ssn customerId : String) : Option CustomerRecord :=
  if customerId = "cust" then some (sampleCustomer ssn) else none

def sampleSsnRule : RedactionRule := ⟨"rule", "SSN", [("ssn", "customer:read:ssn")], "alice", 0⟩

def sampleCustomerAccess : CustomerAccessInput := ⟨"id", "secret", "cust", sampleSsnRule.id, 0⟩

def sampleReader : Token where
  id := "id"
  subject := "agent"
  scope := [customerReadAction]
  issuedAt := 0
  expiresAt := .ms 1000
  status := .active
  parentTokenId := none
  secretHash := hashPassword samplePlatform "secret" [0]

/-- The rule and the token are there. -/
def sampleReading : World := (World.initial.putRule sampleSsnRule).putToken sampleReader

def sampleReadFrame : CustomerAccessFrame :=
  ⟨sampleCustomerAccess, ⟨"id", "secret", customerReadAction, 0, sampleReader⟩⟩

theorem redaction_noninterference_sample :
    sampleReadFrame.resume (sampleEnv.withRegistry (sampleRegistry "1")) sampleReading =
      sampleReadFrame.resume (sampleEnv.withRegistry (sampleRegistry "2")) sampleReading := by
  refine (redaction_noninterference _ _ sampleCustomerAccess).2 _ _ rfl (.inr ⟨?_, ?_⟩)
  · exact iff_of_false nofun nofun
  · rintro _ _ _ ⟨⟩ ⟨⟩ ⟨⟩
    refine ⟨rfl, fun field hfield => ?_⟩
    have hssn : field ≠ "ssn" := by
      rintro rfl
      exact hfield ⟨"customer:read:ssn", by decide, by decide⟩
    rw [sampleCustomer, sampleCustomer, OrderedMap.get_set_of_ne _ _ hssn,
      OrderedMap.get_set_of_ne _ _ hssn]

end Ambit
