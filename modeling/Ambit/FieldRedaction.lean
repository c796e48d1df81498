import Ambit.RedactedAccess

/-! What `applyRedaction` does to each field: exactly what its rule says, unless the rule masks a name
that every object inherits. -/

namespace Ambit

variable {record : CustomerRecord} {rule : RedactionRule} {tokenScope : List String}

/-- The body of the loop of `applyRedaction`. -/
def redactField (tokenScope : List String) (result : RedactionResult) (entry : String × String) :
    RedactionResult :=
  if hasField result.data entry.1 ∧ entry.2 ∉ tokenScope then
    { data := assignField result.data entry.1 redactionMask
      redactedFields := result.redactedFields ++ [entry.1] }
  else result

theorem applyRedaction_eq : applyRedaction record rule tokenScope =
    rule.sensitiveFields.foldl (redactField tokenScope) ⟨record, []⟩ := rfl

/-! ## The fields that are listed -/

/-- Masking a field leaves no field out and lets none in, inherited ones counted. -/
theorem hasField_assignField {data : CustomerRecord} {field : String} (h : hasField data field = true)
    (value name : String) : hasField (assignField data field value) name = hasField data name := by
  unfold assignField
  split
  · rfl
  · by_cases hname : name = field
    · subst hname
      rw [h]
      simp [hasField]
    · simp [hasField, OrderedMap.get_set_of_ne _ _ hname]

theorem redactedFields_foldl (todo : List (String × String)) (result : RedactionResult) :
    (todo.foldl (redactField tokenScope) result).redactedFields = result.redactedFields ++
      (todo.filter fun e => hasField result.data e.1 ∧ e.2 ∉ tokenScope).map Prod.fst := by
  induction todo generalizing result with
  | nil => simp
  | cons entry todo ih =>
    rw [List.foldl_cons, ih, redactField]
    by_cases hmasked : hasField result.data entry.1 = true ∧ entry.2 ∉ tokenScope
    · rw [if_pos hmasked, List.filter_cons_of_pos (by simpa using hmasked)]
      simp only [hasField_assignField hmasked.1, List.map_cons, List.append_assoc, List.cons_append,
        List.nil_append]
    · rw [if_neg hmasked, List.filter_cons_of_neg (by simpa using hmasked)]

theorem mem_redactedFields {field : String} :
    field ∈ (applyRedaction record rule tokenScope).redactedFields ↔
      rule.Masks tokenScope field ∧ hasField record field = true := by
  rw [applyRedaction_eq, redactedFields_foldl, List.nil_append, List.mem_map]
  constructor
  · rintro ⟨⟨_, requiredScope⟩, hmem, rfl⟩
    obtain ⟨hlisted, hmasked⟩ := List.mem_filter.mp hmem
    obtain ⟨hfield, hscope⟩ := of_decide_eq_true hmasked
    exact ⟨⟨requiredScope, hlisted, hscope⟩, hfield⟩
  · rintro ⟨⟨requiredScope, hlisted, hscope⟩, hfield⟩
    exact ⟨(field, requiredScope), List.mem_filter.mpr ⟨hlisted, decide_eq_true ⟨hfield, hscope⟩⟩, rfl⟩

theorem redactedFields_nodup (hkeys : (rule.sensitiveFields.map Prod.fst).Nodup) :
    (applyRedaction record rule tokenScope).redactedFields.Nodup := by
  rw [applyRedaction_eq, redactedFields_foldl, List.nil_append]
  exact hkeys.sublist (List.filter_sublist.map _)

/-- A larger scope masks nothing else. -/
theorem redactedFields_antitone {larger : List String} (h : tokenScope ⊆ larger) :
    (applyRedaction record rule larger).redactedFields ⊆
      (applyRedaction record rule tokenScope).redactedFields := by
  intro field hfield
  obtain ⟨⟨requiredScope, hlisted, hscope⟩, hhas⟩ := mem_redactedFields.mp hfield
  exact mem_redactedFields.mpr ⟨⟨requiredScope, hlisted, fun hmem => hscope (h hmem)⟩, hhas⟩

/-! ## The data -/

/-- What the loop makes of the data, if every field that it is to mask is the record's own. -/
structure Redacts (tokenScope : List String) (todo : List (String × String))
    (data data' : CustomerRecord) : Prop where
  keys : data'.keys = data.keys
  masked : ∀ field requiredScope, (field, requiredScope) ∈ todo → requiredScope ∉ tokenScope →
    data.get field ≠ none → data'.get field = some redactionMask
  kept : ∀ field, (∀ requiredScope, (field, requiredScope) ∈ todo → requiredScope ∈ tokenScope) →
    data'.get field = data.get field

theorem redacts_foldl (todo : List (String × String)) (result : RedactionResult)
    (howned : ∀ e ∈ todo, e.2 ∉ tokenScope → hasField result.data e.1 = true →
      result.data.get e.1 ≠ none) :
    Redacts tokenScope todo result.data (todo.foldl (redactField tokenScope) result).data := by
  induction todo generalizing result with
  | nil => exact ⟨rfl, fun _ _ h => absurd h List.not_mem_nil, fun _ _ => rfl⟩
  | cons entry todo ih =>
    obtain ⟨name, required⟩ := entry
    rw [List.foldl_cons, redactField]
    by_cases hmasked : hasField result.data name = true ∧ required ∉ tokenScope
    · have hown := howned (name, required) (List.mem_cons_self ..) hmasked.2 hmasked.1
      have hassign : assignField result.data name redactionMask = result.data.set name redactionMask :=
        if_neg fun hignored => hown hignored.2
      obtain ⟨value, hvalue⟩ := Option.ne_none_iff_exists'.mp hown
      have hkeys : (result.data.set name redactionMask).keys = result.data.keys :=
        OrderedMap.keys_set_of_mem (OrderedMap.mem_keys_iff.mpr ⟨value, hvalue⟩) _
      rw [if_pos hmasked, hassign]
      have hrest := ih ⟨result.data.set name redactionMask, result.redactedFields ++ [name]⟩ ?_
      · refine ⟨hrest.keys.trans hkeys, fun field requiredScope hmem hscope hfield => ?_,
          fun field hfree => ?_⟩
        · have hkept : (result.data.set name redactionMask).get field ≠ none := by
            rw [OrderedMap.get_set]
            split
            · exact Option.some_ne_none _
            · exact hfield
          by_cases hlater : ∃ s, (field, s) ∈ todo ∧ s ∉ tokenScope
          · obtain ⟨s, hs, hnot⟩ := hlater
            exact hrest.masked field s hs hnot hkept
          · rcases List.mem_cons.mp hmem with heq | hmem
            · cases heq
              rw [hrest.kept name fun s hs => of_not_not fun hnot => hlater ⟨s, hs, hnot⟩]
              exact OrderedMap.get_set_self ..
            · exact absurd ⟨requiredScope, hmem, hscope⟩ hlater
        · have hne : field ≠ name := by
            rintro rfl
            exact hmasked.2 (hfree required (List.mem_cons_self ..))
          rw [hrest.kept field fun s hs => hfree s (List.mem_cons_of_mem _ hs)]
          exact OrderedMap.get_set_of_ne _ _ hne
      · intro e he hscope hfield
        rw [← hassign, hasField_assignField hmasked.1] at hfield
        rw [OrderedMap.get_set]
        split
        · exact Option.some_ne_none _
        · exact howned e (List.mem_cons_of_mem _ he) hscope hfield
    · rw [if_neg hmasked]
      have hrest := ih result fun e he => howned e (List.mem_cons_of_mem _ he)
      refine ⟨hrest.keys, fun field requiredScope hmem hscope hfield => ?_, fun field hfree =>
        hrest.kept field fun s hs => hfree s (List.mem_cons_of_mem _ hs)⟩
      rcases List.mem_cons.mp hmem with heq | hmem
      · cases heq
        have hhas : hasField result.data name = true := by
          rw [hasField, Option.isSome_iff_ne_none.mpr hfield, Bool.true_or]
        exact absurd ⟨hhas, hscope⟩ hmasked
      · exact hrest.masked field requiredScope hmem hscope hfield

/-! ## Redaction -/

/-- What the redaction of a record is to be: the record's own fields, of which those that the rule
masks hold the mask and the others their values; a list of the masked fields, each once; and no more
of them under a larger scope. -/
structure RedactsExactly (record : CustomerRecord) (rule : RedactionRule) (tokenScope : List String)
    (result : RedactionResult) : Prop where
  keys : result.data.keys = record.keys
  masked : ∀ field value, rule.Masks tokenScope field → record.get field = some value →
    result.data.get field = some redactionMask
  kept : ∀ field, ¬ rule.Masks tokenScope field → result.data.get field = record.get field
  listed : ∀ field, field ∈ result.redactedFields ↔
    rule.Masks tokenScope field ∧ ∃ value, record.get field = some value
  once : result.redactedFields.Nodup
  antitone : ∀ larger, tokenScope ⊆ larger →
    (applyRedaction record rule larger).redactedFields ⊆ result.redactedFields

/-- The rule masks no name that the record inherits and does not have itself. -/
def MasksOwn (record : CustomerRecord) (rule : RedactionRule) (tokenScope : List String) : Prop :=
  ∀ field ∈ inheritedFields, rule.Masks tokenScope field → ∃ value, record.get field = some value

theorem MasksOwn.own (h : MasksOwn record rule tokenScope) {field : String}
    (hmasks : rule.Masks tokenScope field) (hfield : hasField record field = true) :
    ∃ value, record.get field = some value := by
  rw [hasField, Bool.or_eq_true] at hfield
  rcases hfield with hown | hinherited
  · exact Option.isSome_iff_exists.mp hown
  · exact h field (of_decide_eq_true hinherited) hmasks

/-- **When redaction is exact.** For a rule, whose names are those of an object and so differ, it is
exact unless the rule masks a name that the record only inherits. -/
theorem redactsExactly_iff (hnames : (rule.sensitiveFields.map Prod.fst).Nodup) :
    RedactsExactly record rule tokenScope (applyRedaction record rule tokenScope) ↔
      MasksOwn record rule tokenScope := by
  constructor
  · intro hexact field hinherited hmasks
    have hhas : hasField record field = true := by
      rw [hasField, decide_eq_true hinherited, Bool.or_true]
    exact ((hexact.listed field).mp (mem_redactedFields.mpr ⟨hmasks, hhas⟩)).2
  · intro hown
    have hredacts : Redacts tokenScope rule.sensitiveFields record
        (applyRedaction record rule tokenScope).data := by
      refine redacts_foldl rule.sensitiveFields ⟨record, []⟩ fun e he hscope hfield => ?_
      obtain ⟨value, hvalue⟩ := hown.own ⟨e.2, he, hscope⟩ hfield
      exact Option.ne_none_iff_exists'.mpr ⟨value, hvalue⟩
    refine ⟨hredacts.keys, ?_, ?_, ?_, redactedFields_nodup hnames, fun _ => redactedFields_antitone⟩
    · rintro field value ⟨requiredScope, hlisted, hscope⟩ hvalue
      exact hredacts.masked field requiredScope hlisted hscope (hvalue ▸ Option.some_ne_none _)
    · intro field hfree
      exact hredacts.kept field fun requiredScope hlisted =>
        of_not_not fun hscope => hfree ⟨requiredScope, hlisted, hscope⟩
    · intro field
      rw [mem_redactedFields]
      refine and_congr_right fun hmasks => ⟨hown.own hmasks, ?_⟩
      rintro ⟨value, hvalue⟩
      rw [hasField, hvalue]
      rfl

/-- A rule about the names of customers. -/
def sampleNameRule : RedactionRule where
  id := "rule-1"
  name := "Names"
  sensitiveFields := [("name", "customer:read:name")]
  authoredBy := "privacy-officer-1"
  createdAt := 0

/-- A rule about a name that every object has. -/
def sampleInheritedRule : RedactionRule :=
  { sampleNameRule with sensitiveFields := [("toString", "customer:read:text")] }

def sampleNamedCustomer : CustomerRecord :=
  (OrderedMap.empty.set "id" "cust-001").set "name" "Jordan Ellis"

theorem redactsExactly_iff_sample :
    RedactsExactly sampleNamedCustomer sampleNameRule []
        (applyRedaction sampleNamedCustomer sampleNameRule []) ↔
      MasksOwn sampleNamedCustomer sampleNameRule [] :=
  redactsExactly_iff (by decide)

/-- **A field appears** that the customer does not have. -/
theorem not_redactsExactly : ¬ RedactsExactly sampleNamedCustomer sampleInheritedRule []
    (applyRedaction sampleNamedCustomer sampleInheritedRule []) := by
  intro hexact
  have hkeys : (applyRedaction sampleNamedCustomer sampleInheritedRule []).data.keys =
      ["id", "name", "toString"] := by decide
  cases hkeys.symm.trans hexact.keys

end Ambit
