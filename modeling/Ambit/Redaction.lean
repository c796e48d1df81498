import Ambit.World

/-! `redaction.ts` and `customerData.ts`: redaction rules, field-level redaction, and the customers
of the demonstration. -/

namespace Ambit

open Effect

def redactionMask : String := "[REDACTED]"

structure RedactionResult where
  data : CustomerRecord
  redactedFields : List String

/-- The names that every plain object inherits. -/
def inheritedFields : List String :=
  ["constructor", "__defineGetter__", "__defineSetter__", "hasOwnProperty", "__lookupGetter__",
    "__lookupSetter__", "isPrototypeOf", "propertyIsEnumerable", "toString", "valueOf",
    "__proto__", "toLocaleString"]

/-- The `in` operator on a plain object. -/
def hasField (data : CustomerRecord) (field : String) : Bool :=
  (data.get field).isSome || field ∈ inheritedFields

/-- `data[field] = value`: a string assigned to `__proto__` is ignored, unless it is an own
field. -/
def assignField (data : CustomerRecord) (field value : String) : CustomerRecord :=
  if field = "__proto__" ∧ data.get field = none then data else data.set field value

def applyRedaction (record : CustomerRecord) (rule : RedactionRule) (tokenScope : List String) :
    RedactionResult :=
  rule.sensitiveFields.foldl
    (fun result (field, requiredScope) =>
      if hasField result.data field ∧ requiredScope ∉ tokenScope then
        { data := assignField result.data field redactionMask
          redactedFields := result.redactedFields ++ [field] }
      else result)
    ⟨record, []⟩

structure RedactionRuleInput where
  name : String
  sensitiveFields : List (String × String)

namespace RedactionRuleInput

/-- The loop of `validate`: the first field in order that fails a check decides the error. -/
def fieldError : List (String × String) → Option Err
  | [] => none
  | (field, requiredScope) :: rest =>
    if isBlank field then some (.invalidRedactionRule "a sensitive field name cannot be empty")
    else if isBlank requiredScope then
      some (.invalidRedactionRule ("field \"" ++ field ++ "\" has no requiredScope — a field " ++
        "with an empty required scope can never be un-redacted, which is likely a " ++
        "misconfiguration, not an intentional permanent redaction"))
    else fieldError rest

def validate (input : RedactionRuleInput) : Op Unit := do
  throwIf (isBlank input.name) (.invalidRedactionRule "name is required")
  throwIf (input.sensitiveFields = []) (.invalidRedactionRule
    "sensitiveFields must protect at least one field — an empty rule protects nothing")
  match fieldError input.sensitiveFields with
  | some err => throw err
  | none => pure ()

end RedactionRuleInput

section
variable (env : Env)

def createRedactionRule (input : RedactionRuleInput) (authoredBy : String) (now : Int) :
    Op RedactionRule := do
  input.validate
  let id ← draw env.randomUUID
  let rule : RedactionRule :=
    { id, name := input.name, sensitiveFields := input.sensitiveFields, authoredBy,
      createdAt := now }
  RedactionRuleStore.save rule
  auditRecord env
    { subject := authoredBy, action := "create_redaction_rule", decision := .redactionRuleCreated,
      reasonCode := some rule.id } now
  return rule

/-- The rule the server makes sure of when it starts. -/
def standardRule : RedactionRuleInput where
  name := "Standard Customer PII"
  sensitiveFields :=
    [("ssn", "customer:read:ssn"), ("email", "customer:read:email"),
      ("phone", "customer:read:phone")]

/-- `defaultRedactionRule`: a rule of that name from the store, or a new one. -/
def defaultRedactionRule : Op RedactionRule := do
  match (← get).redactionRuleStore.live.values.find? fun r => r.name = standardRule.name with
  | some rule => return rule
  | none => createRedactionRule env standardRule "system" (← now)

end

end Ambit
