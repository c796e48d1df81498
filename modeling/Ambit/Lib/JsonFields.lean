import Ambit.Lib.Json

/-! Strings as JSON keeps them, objects as they are written with undefined members left out, and the
reading of their members. -/

namespace Json

/-- The bytes of a string. -/
def utf8 (s : String) : Text := s.toByteArray.data.toList

def ofUtf8 (t : Text) : Option String := String.fromUTF8? ⟨t.toArray⟩

@[simp] theorem ofUtf8_utf8 (s : String) : ofUtf8 (utf8 s) = some s := by
  have hbytes : (⟨(utf8 s).toArray⟩ : ByteArray) = s.toByteArray := by simp [utf8]
  rw [ofUtf8, hbytes, String.fromUTF8?, dif_pos s.isValidUTF8]
  rfl

theorem utf8_injective : Function.Injective utf8 := by
  intro s t h
  have hsome : some s = some t := by rw [← ofUtf8_utf8, h, ofUtf8_utf8]
  exact Option.some.inj hsome

@[simp] theorem utf8_inj {s t : String} : utf8 s = utf8 t ↔ s = t := utf8_injective.eq_iff

/-! ## Values -/

def text (s : String) : Value := .string (utf8 s)

def asText : Value → Option String
  | .string t => ofUtf8 t
  | _ => none

def texts (ss : List String) : Value := .array (ss.map text)

def asTexts : Value → Option (List String)
  | .array items => items.mapM asText
  | _ => none

/-- An object whose members are strings. -/
def textMap (entries : List (String × String)) : Value :=
  .object (entries.map fun e => (utf8 e.1, text e.2))

def asTextMap : Value → Option (List (String × String))
  | .object members => members.mapM fun m => do return (← ofUtf8 m.1, ← asText m.2)
  | _ => none

@[simp] theorem asText_text (s : String) : asText (text s) = some s := ofUtf8_utf8 s

theorem mapM_map {α β : Type} {f : α → β} {g : β → Option α} (hread : ∀ a, g (f a) = some a)
    (as : List α) : (as.map f).mapM g = some as := by
  induction as with
  | nil => rfl
  | cons a as ih => simp [hread, ih]

@[simp] theorem asTexts_texts (ss : List String) : asTexts (texts ss) = some ss := by
  rw [texts, asTexts, mapM_map asText_text]

@[simp] theorem asTextMap_textMap (entries : List (String × String)) :
    asTextMap (textMap entries) = some entries := by
  rw [textMap, asTextMap, mapM_map fun e => by simp]

/-! ## Members -/

/-- The members of an object literal; an undefined one is not written. -/
def members (fields : List (String × Option Value)) : List (Text × Value) :=
  fields.filterMap fun f => f.2.map (utf8 f.1, ·)

/-- Of several members with one key the last counts. -/
def lookup (key : String) (ms : List (Text × Value)) : Option Value :=
  (ms.reverse.find? fun m => m.1 = utf8 key).map Prod.snd

theorem lookup_append (key : String) (ms ms' : List (Text × Value)) :
    lookup key (ms ++ ms') = (lookup key ms').or (lookup key ms) := by
  rw [lookup, lookup, lookup, List.reverse_append, List.find?_append, Option.map_or]

/-- A member of an object literal reads as what was written there. -/
theorem lookup_members {fields : List (String × Option Value)} (h : (fields.map Prod.fst).Nodup)
    (key : String) : lookup key (members fields) = (fields.lookup key).join := by
  induction fields with
  | nil => rfl
  | cons f fields ih =>
    obtain ⟨hnot, hnodup⟩ := List.nodup_cons.mp h
    have hcons : members (f :: fields) = (f.2.map (utf8 f.1, ·)).toList ++ members fields := by
      rw [members, List.filterMap_cons]
      cases f.2 <;> rfl
    rw [hcons, lookup_append, ih hnodup, List.lookup_cons]
    by_cases hkey : key = f.1
    · subst hkey
      have hnone : fields.lookup f.1 = none := by
        rw [List.lookup_eq_none_iff]
        intro e he
        have hne : f.1 ≠ e.1 := fun heq => hnot (heq ▸ List.mem_map_of_mem he)
        simpa using hne
      rw [hnone]
      cases hvalue : f.2 <;> simp [lookup]
    · have hother : lookup key ((f.2.map (utf8 f.1, ·)).toList) = none := by
        cases f.2 <;> simp [lookup, Ne.symm hkey]
      rw [hother, Option.or_none, beq_eq_false_iff_ne.mpr hkey]

theorem lookup_eq_some_iff_mem {fields : List (String × Option Value)}
    (h : (fields.map Prod.fst).Nodup) {key : String} {v : Option Value} :
    fields.lookup key = some v ↔ (key, v) ∈ fields := by
  rw [List.lookup_eq_some_iff]
  constructor
  · rintro ⟨before, after, rfl, -⟩
    exact List.mem_append_right _ (List.mem_cons_self ..)
  · intro hmem
    obtain ⟨before, after, rfl⟩ := List.append_of_mem hmem
    refine ⟨before, after, rfl, fun f hf => ?_⟩
    rw [List.map_append, List.map_cons, List.nodup_append] at h
    have hne : f.1 ≠ key := h.2.2 f.1 (List.mem_map_of_mem hf) key (List.mem_cons_self ..)
    simpa using Ne.symm hne

/-- The order of the members does not count where each has its own key. -/
theorem lookup_members_perm {fields fields' : List (String × Option Value)}
    (h : (fields.map Prod.fst).Nodup) (hperm : fields.Perm fields') (key : String) :
    lookup key (members fields) = lookup key (members fields') := by
  have h' : (fields'.map Prod.fst).Nodup := (hperm.map _).nodup_iff.mp h
  have hsame : fields.lookup key = fields'.lookup key := by
    apply Option.ext
    intro v
    rw [lookup_eq_some_iff_mem h, lookup_eq_some_iff_mem h', hperm.mem_iff]
  rw [lookup_members h, lookup_members h', hsame]

theorem not_mem_keys_members {fields : List (String × Option Value)} {key : String}
    (h : key ∉ fields.map Prod.fst) : utf8 key ∉ (members fields).map Prod.fst := by
  intro hmem
  obtain ⟨m, hm, hkey⟩ := List.mem_map.mp hmem
  obtain ⟨f, hf, hvalue⟩ := List.mem_filterMap.mp hm
  obtain ⟨v, -, rfl⟩ := Option.map_eq_some_iff.mp hvalue
  exact h (utf8_injective hkey ▸ List.mem_map_of_mem hf)

/-- A member that has to be there. -/
def required {α : Type} (read : Value → Option α) (key : String) (ms : List (Text × Value)) :
    Option α := (lookup key ms).bind read

/-- A member that may be missing. -/
def optional {α : Type} (read : Value → Option α) (key : String) (ms : List (Text × Value)) :
    Option (Option α) :=
  match lookup key ms with
  | none => some none
  | some v => (read v).map some

theorem required_members {α : Type} {read : Value → Option α} {key : String} {v : Value} {a : α}
    {fields : List (String × Option Value)} (h : (fields.map Prod.fst).Nodup)
    (hvalue : fields.lookup key = some (some v)) (hread : read v = some a) :
    required read key (members fields) = some a := by
  rw [required, lookup_members h, hvalue]
  exact hread

theorem optional_members {α : Type} {read : Value → Option α} {write : α → Value} {key : String}
    {a : Option α} {fields : List (String × Option Value)} (h : (fields.map Prod.fst).Nodup)
    (hvalue : fields.lookup key = some (a.map write)) (hread : ∀ a, read (write a) = some a) :
    optional read key (members fields) = some a := by
  rw [optional, lookup_members h, hvalue]
  cases a <;> simp [hread]

theorem optional_missing {α : Type} {read : Value → Option α} {key : String}
    {fields : List (String × Option Value)} (h : (fields.map Prod.fst).Nodup)
    (hmissing : fields.lookup key = none) : optional read key (members fields) = some none := by
  rw [optional, lookup_members h, hmissing]
  rfl

end Json
