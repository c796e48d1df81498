import Ambit.World

/-! `policy.ts`: the policies that operators author. -/

namespace Ambit

open Effect

structure PolicyInput where
  name : String
  allowedScope : List String
  maxTtlSeconds : JsNumber

/-- The fields of a policy that a change gives anew. -/
structure PolicyChanges where
  name : Option String := none
  allowedScope : Option (List String) := none
  maxTtlSeconds : Option JsNumber := none

def PolicyInput.validate (input : PolicyInput) : Op Unit := do
  throwIf (isBlank input.name) (.invalidPolicy "name is required")
  throwIf (input.allowedScope = [])
    (.invalidPolicy "allowedScope must include at least one permission")
  throwIf (input.maxTtlSeconds.le (.finite 0)) (.invalidPolicy "maxTtlSeconds must be positive")

section
variable (env : Env)

def createPolicy (input : PolicyInput) (authoredBy : String) (now : Int) : Op Policy := do
  input.validate
  let id ← draw env.randomUUID
  let policy : Policy :=
    { id, name := input.name, allowedScope := input.allowedScope,
      maxTtlSeconds := input.maxTtlSeconds, authoredBy, createdAt := now, updatedAt := now }
  PolicyStore.save env policy
  auditRecord env
    { policyId := some policy.id, subject := authoredBy, action := "create_policy",
      decision := .policyCreated } now
  return policy

def modifyPolicy (policyId : String) (changes : PolicyChanges) (authoredBy : String)
    (now : Int) : Op Policy := do
  match ← PolicyStore.get env policyId with
  | none =>
    throw (.unknownPolicy
      ("cannot modify policy \"" ++ policyId ++ "\" — no such policy exists"))
  | some existing =>
    let updated : Policy :=
      { existing with
        name := changes.name.getD existing.name
        allowedScope := changes.allowedScope.getD existing.allowedScope
        maxTtlSeconds := changes.maxTtlSeconds.getD existing.maxTtlSeconds
        updatedAt := now }
    PolicyInput.validate
      { name := updated.name, allowedScope := updated.allowedScope,
        maxTtlSeconds := updated.maxTtlSeconds }
    PolicyStore.save env updated
    auditRecord env
      { policyId := some policyId, subject := authoredBy, action := "modify_policy",
        decision := .policyModified } now
    return updated

end

end Ambit
