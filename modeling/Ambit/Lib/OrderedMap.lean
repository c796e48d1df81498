import Mathlib.Data.List.Nodup

/-! Insertion-ordered finite maps: setting a present key keeps its position, setting a new key
appends it. The entry list carries the proof that no key occurs twice, so lookup, membership and
enumeration agree without side conditions. -/

structure OrderedMap (κ α : Type) where
  entries : List (κ × α)
  keysNodup : (entries.map Prod.fst).Nodup

namespace OrderedMap

variable {κ α β : Type} [DecidableEq κ]

/-- Replace the value of `k` where it stands, or append the pair. -/
def setEntries (k : κ) (a : α) : List (κ × α) → List (κ × α)
  | [] => [(k, a)]
  | e :: es => if e.1 = k then (k, a) :: es else e :: setEntries k a es

theorem mem_map_fst_setEntries {k x : κ} {a : α} {es : List (κ × α)} :
    x ∈ (setEntries k a es).map Prod.fst ↔ x = k ∨ x ∈ es.map Prod.fst := by
  induction es with
  | nil => simp [setEntries]
  | cons e es ih =>
    by_cases h : e.1 = k
    · simp [setEntries, h]
    · simp only [setEntries, if_neg h, List.map_cons, List.mem_cons, ih]
      tauto

theorem nodup_setEntries {k : κ} {a : α} {es : List (κ × α)}
    (h : (es.map Prod.fst).Nodup) : ((setEntries k a es).map Prod.fst).Nodup := by
  induction es with
  | nil => simp [setEntries]
  | cons e es ih =>
    obtain ⟨hnot, hrest⟩ := List.nodup_cons.mp h
    by_cases he : e.1 = k
    · simpa [setEntries, he] using h
    · simp only [setEntries, if_neg he, List.map_cons, List.nodup_cons]
      refine ⟨fun hmem => ?_, ih hrest⟩
      rcases mem_map_fst_setEntries.mp hmem with h' | h'
      · exact he h'
      · exact hnot h'

def empty : OrderedMap κ α := ⟨[], List.nodup_nil⟩

def get (m : OrderedMap κ α) (k : κ) : Option α :=
  (m.entries.find? fun e => e.1 = k).map Prod.snd

def set (m : OrderedMap κ α) (k : κ) (a : α) : OrderedMap κ α :=
  ⟨setEntries k a m.entries, nodup_setEntries m.keysNodup⟩

def keys (m : OrderedMap κ α) : List κ := m.entries.map Prod.fst

def values (m : OrderedMap κ α) : List α := m.entries.map Prod.snd

def erase (m : OrderedMap κ α) (k : κ) : OrderedMap κ α :=
  ⟨m.entries.filter fun e => e.1 ≠ k, m.keysNodup.sublist (List.filter_sublist.map _)⟩

/-- Apply `f` to every value, in place. -/
def mapValues (f : α → β) (m : OrderedMap κ α) : OrderedMap κ β :=
  ⟨m.entries.map fun e => (e.1, f e.2), by simpa [Function.comp_def] using m.keysNodup⟩

omit [DecidableEq κ] in
@[ext] theorem ext {m m' : OrderedMap κ α} (h : m.entries = m'.entries) : m = m' := by
  cases m; cases m'; cases h; rfl

/-! ## Lookup -/

@[simp] theorem get_empty (k : κ) : (empty : OrderedMap κ α).get k = none := rfl

theorem find?_setEntries {k k' : κ} {a : α} {es : List (κ × α)} :
    ((setEntries k a es).find? fun e => e.1 = k').map Prod.snd =
      if k' = k then some a else (es.find? fun e => e.1 = k').map Prod.snd := by
  induction es with
  | nil =>
    by_cases h : k' = k
    · simp [setEntries, h]
    · simp [setEntries, h, Ne.symm h]
  | cons e es ih =>
    by_cases he : e.1 = k
    · by_cases h : k' = k
      · simp [setEntries, he, h]
      · have hek : ¬ k = k' := fun h' => h h'.symm
        simp [setEntries, he, h, hek]
    · rw [setEntries, if_neg he, List.find?_cons, List.find?_cons]
      by_cases h : e.1 = k'
      · have : ¬ k' = k := fun h' => he (h.trans h')
        simp [h, this]
      · simpa [h] using ih

theorem get_set (m : OrderedMap κ α) (k k' : κ) (a : α) :
    (m.set k a).get k' = if k' = k then some a else m.get k' :=
  find?_setEntries

@[simp] theorem get_set_self (m : OrderedMap κ α) (k : κ) (a : α) :
    (m.set k a).get k = some a := by simp [get_set]

theorem get_set_of_ne (m : OrderedMap κ α) {k k' : κ} (a : α) (h : k' ≠ k) :
    (m.set k a).get k' = m.get k' := by simp [get_set, h]

theorem mem_entries_iff {m : OrderedMap κ α} {k : κ} {a : α} :
    (k, a) ∈ m.entries ↔ m.get k = some a := by
  obtain ⟨es, hnd⟩ := m
  simp only [get]
  induction es with
  | nil => simp
  | cons e es ih =>
    obtain ⟨hnot, hrest⟩ := List.nodup_cons.mp hnd
    by_cases he : e.1 = k
    · have hnone : (k, a) ∉ es := fun h => hnot (he ▸ List.mem_map_of_mem (f := Prod.fst) h)
      obtain ⟨k', a'⟩ := e
      simp only at he
      subst he
      simp [hnone, eq_comm]
    · have hne : ¬ (k, a) = e := fun h => he (by rw [← h])
      simp [he, hne, ih hrest]

theorem mem_values_iff {m : OrderedMap κ α} {a : α} :
    a ∈ m.values ↔ ∃ k, m.get k = some a := by
  simp only [values, List.mem_map, Prod.exists, mem_entries_iff, exists_eq_right]

theorem mem_keys_iff {m : OrderedMap κ α} {k : κ} : k ∈ m.keys ↔ ∃ a, m.get k = some a := by
  simp only [keys, List.mem_map, Prod.exists, exists_and_right, exists_eq_right, mem_entries_iff]

theorem map_fst_setEntries_of_mem {k : κ} {a : α} {es : List (κ × α)} (h : k ∈ es.map Prod.fst) :
    (setEntries k a es).map Prod.fst = es.map Prod.fst := by
  induction es with
  | nil => cases h
  | cons e es ih =>
    by_cases he : e.1 = k
    · simp [setEntries, he]
    · have hrest : k ∈ es.map Prod.fst := by simpa [Ne.symm he] using h
      simp [setEntries, he, ih hrest]

/-- Setting a key that is there keeps the order of the keys. -/
theorem keys_set_of_mem {m : OrderedMap κ α} {k : κ} (h : k ∈ m.keys) (a : α) :
    (m.set k a).keys = m.keys := map_fst_setEntries_of_mem h

/-- Where every value knows its key, the keys of the values are the keys. -/
theorem map_key_values {m : OrderedMap κ α} {key : α → κ}
    (h : ∀ k a, m.get k = some a → key a = k) : m.values.map key = m.keys := by
  rw [values, keys, List.map_map]
  refine List.map_congr_left fun e he => ?_
  exact h e.1 e.2 (mem_entries_iff.mp he)

theorem filter_setEntries {k : κ} {a : α} {key : α → κ} {P : α → Bool} (ha : P a = false)
    {es : List (κ × α)} (hkey : ∀ e ∈ es, key e.2 = e.1) (hnodup : (es.map Prod.fst).Nodup) :
    ((setEntries k a es).map Prod.snd).filter P =
      ((es.map Prod.snd).filter P).filter (key · ≠ k) := by
  induction es with
  | nil => simp [setEntries, ha]
  | cons e es ih =>
    obtain ⟨hnot, hnodup⟩ := List.nodup_cons.mp hnodup
    obtain ⟨he, hkey⟩ := List.forall_mem_cons.mp hkey
    by_cases hk : e.1 = k
    · have hrest : ((es.map Prod.snd).filter P).filter (key · ≠ k) = (es.map Prod.snd).filter P := by
        refine List.filter_eq_self.mpr fun b hb => ?_
        obtain ⟨e', he', rfl⟩ := List.mem_map.mp (List.mem_of_mem_filter hb)
        have hne : e'.1 ≠ k := fun heq => hnot (hk ▸ heq ▸ List.mem_map_of_mem he')
        simpa [hkey e' he'] using hne
      rw [setEntries, if_pos hk, List.map_cons, List.filter_cons_of_neg (by simp [ha]), ← hrest,
        List.map_cons, List.filter_cons]
      split
      · rw [List.filter_cons_of_neg (by simp [he, hk])]
      · rfl
    · rw [setEntries, if_neg hk, List.map_cons, List.map_cons, List.filter_cons, List.filter_cons,
        ih hkey hnodup]
      split
      · rw [List.filter_cons_of_pos (by simp [he, hk])]
      · rfl

/-- Setting a key to a value that a filter drops. -/
theorem filter_values_set {m : OrderedMap κ α} {k : κ} {a : α} {key : α → κ} {P : α → Bool}
    (hkey : ∀ k a, m.get k = some a → key a = k) (ha : P a = false) :
    (m.set k a).values.filter P = (m.values.filter P).filter (key · ≠ k) :=
  filter_setEntries ha (fun _ he => hkey _ _ (mem_entries_iff.mp he)) m.keysNodup

theorem get_erase (m : OrderedMap κ α) (k k' : κ) :
    (m.erase k).get k' = if k' = k then none else m.get k' := by
  ext a
  rw [← mem_entries_iff, erase, List.mem_filter, mem_entries_iff]
  by_cases h : k' = k <;> simp [h]

/-! ## Mapping the values -/

@[simp] theorem get_mapValues (f : α → β) (m : OrderedMap κ α) (k : κ) :
    (m.mapValues f).get k = (m.get k).map f := by
  obtain ⟨es, hnd⟩ := m
  simp only [get, mapValues]
  clear hnd
  induction es with
  | nil => rfl
  | cons e es ih =>
    by_cases he : e.1 = k
    · simp [he]
    · simpa [he] using ih

theorem mapValues_set (f : α → β) (m : OrderedMap κ α) (k : κ) (a : α) :
    (m.set k a).mapValues f = (m.mapValues f).set k (f a) := by
  apply ext
  show (setEntries k a m.entries).map _ = setEntries k (f a) (m.entries.map _)
  induction m.entries with
  | nil => rfl
  | cons e es ih =>
    by_cases he : e.1 = k
    · simp [setEntries, he]
    · simp only [setEntries, if_neg he, List.map_cons, ih]

omit [DecidableEq κ] in
theorem mapValues_mapValues {γ : Type} (f : α → β) (g : β → γ) (m : OrderedMap κ α) :
    (m.mapValues f).mapValues g = m.mapValues (g ∘ f) := by
  apply ext; simp [mapValues, Function.comp_def]

omit [DecidableEq κ] in
@[simp] theorem values_mapValues (f : α → β) (m : OrderedMap κ α) :
    (m.mapValues f).values = m.values.map f := by
  simp [values, mapValues, Function.comp_def]

omit [DecidableEq κ] in
@[simp] theorem keys_mapValues (f : α → β) (m : OrderedMap κ α) : (m.mapValues f).keys = m.keys := by
  simp [keys, mapValues, Function.comp_def]

theorem mapValues_erase (f : α → β) (m : OrderedMap κ α) (k : κ) :
    (m.erase k).mapValues f = (m.mapValues f).erase k := by
  apply ext
  show (m.entries.filter _).map _ = (m.entries.map _).filter _
  rw [List.filter_map]
  rfl

omit [DecidableEq κ] in
theorem mapValues_congr {f g : α → β} {m : OrderedMap κ α} (h : ∀ a ∈ m.values, f a = g a) :
    m.mapValues f = m.mapValues g := by
  apply ext
  apply List.map_congr_left
  intro e he
  rw [h e.2 (List.mem_map_of_mem he)]

omit [DecidableEq κ] in
@[simp] theorem mapValues_id (m : OrderedMap κ α) : m.mapValues (fun a => a) = m := by
  apply ext
  exact List.map_id' _

/-! ## Keys and values -/

theorem get_eq_none_iff {m : OrderedMap κ α} {k : κ} : m.get k = none ↔ k ∉ m.keys := by
  rw [mem_keys_iff, ← Option.isSome_iff_exists, ← Option.not_isSome_iff_eq_none]

theorem setEntries_of_not_mem {k : κ} {a : α} {es : List (κ × α)} (h : k ∉ es.map Prod.fst) :
    setEntries k a es = es ++ [(k, a)] := by
  induction es with
  | nil => rfl
  | cons e es ih =>
    rw [List.map_cons, List.mem_cons, not_or] at h
    rw [setEntries, if_neg (Ne.symm h.1), ih h.2, List.cons_append]

theorem keys_set_of_not_mem {m : OrderedMap κ α} {k : κ} (h : k ∉ m.keys) (a : α) :
    (m.set k a).keys = m.keys ++ [k] := by
  show (setEntries k a m.entries).map Prod.fst = _
  rw [setEntries_of_not_mem h, List.map_append]
  rfl

/-- The keys in order and the values under them are all there is. -/
theorem eq_of_keys {m m' : OrderedMap κ α} (hkeys : m.keys = m'.keys)
    (hget : ∀ k, m.get k = m'.get k) : m = m' := by
  apply ext
  apply List.ext_getElem
  · simpa [keys] using congrArg List.length hkeys
  · intro i h h'
    have hkey : (m.entries[i]).1 = (m'.entries[i]).1 := by
      simpa [keys, h, h'] using congrArg (·[i]?) hkeys
    have hm : m.get (m.entries[i]).1 = some (m.entries[i]).2 := mem_entries_iff.mp (List.getElem_mem h)
    have hm' : m'.get (m'.entries[i]).1 = some (m'.entries[i]).2 :=
      mem_entries_iff.mp (List.getElem_mem h')
    rw [hget, hkey, hm', Option.some.injEq] at hm
    exact Prod.ext hkey hm.symm

/-! ## Maps that differ in some values -/

/-- The maps have the same keys, and may differ in the values of those in `P`. -/
structure AgreesOff (P : κ → Prop) (m m' : OrderedMap κ α) : Prop where
  keys_eq : m.keys = m'.keys
  get_eq : ∀ k, ¬ P k → m.get k = m'.get k

namespace AgreesOff

variable {P P' : κ → Prop} {m m' : OrderedMap κ α}

theorem mono (h : AgreesOff P m m') (hP : ∀ k, P k → P' k) : AgreesOff P' m m' :=
  ⟨h.keys_eq, fun k hk => h.get_eq k fun hk' => hk (hP k hk')⟩

theorem get_none_iff (h : AgreesOff P m m') (k : κ) : m.get k = none ↔ m'.get k = none := by
  rw [get_eq_none_iff, get_eq_none_iff, h.keys_eq]

theorem isSome_eq (h : AgreesOff P m m') (k : κ) : (m.get k).isSome = (m'.get k).isSome := by
  rw [Bool.eq_iff_iff, ← not_iff_not, Option.not_isSome_iff_eq_none, Option.not_isSome_iff_eq_none,
    h.get_none_iff]

/-- A key that neither has makes no difference. -/
theorem of_none (h : AgreesOff (fun x => x = k ∨ P x) m m') (hk : m.get k = none) :
    AgreesOff P m m' := by
  refine ⟨h.keys_eq, fun x hx => ?_⟩
  by_cases hxk : x = k
  · rw [hxk, hk, (h.get_none_iff k).mp hk]
  · exact h.get_eq x (not_or.mpr ⟨hxk, hx⟩)

/-- A key that is set in both makes no difference any more. -/
theorem set (h : AgreesOff (fun x => x = k ∨ P x) m m') (a : α) :
    AgreesOff P (m.set k a) (m'.set k a) := by
  constructor
  · by_cases hk : k ∈ m.keys
    · rw [keys_set_of_mem hk, keys_set_of_mem (h.keys_eq ▸ hk), h.keys_eq]
    · rw [keys_set_of_not_mem hk, keys_set_of_not_mem (h.keys_eq ▸ hk), h.keys_eq]
  · intro x hx
    rw [get_set, get_set]
    split
    · rfl
    · rename_i hxk
      exact h.get_eq x (not_or.mpr ⟨hxk, hx⟩)

theorem eq (h : AgreesOff (fun _ => False) m m') : m = m' :=
  eq_of_keys h.keys_eq fun k => h.get_eq k not_false

end AgreesOff

end OrderedMap
