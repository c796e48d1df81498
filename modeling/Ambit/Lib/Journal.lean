import Ambit.Lib.OrderedMap
import Mathlib.Data.List.Induction

/-! A keyed store backed by an append-only journal. The live map is what the process reads; every
save also appends a line, the record as it reads back from disk (its *image*), and reopening the
store replays the lines in order. While every append succeeds, replaying the journal gives the
live map up to images, so a clean restart loses nothing but what the image leaves out. -/

structure Journal (κ α : Type) where
  live : OrderedMap κ α
  lines : List α

namespace Journal

variable {κ α : Type} [DecidableEq κ] {key : α → κ} {image : α → α}

def empty : Journal κ α := ⟨.empty, []⟩

/-- Replay the lines in file order; a later line for a key supersedes an earlier one. -/
def replay (key : α → κ) (lines : List α) : OrderedMap κ α :=
  lines.foldl (fun m a => m.set (key a) a) .empty

/-- Save a record: the live map changes in any case, the line is appended if the append succeeds. One
that fails leaves the lines as they were: a write that fails halfway, with a part of the line in the
file, is none of these. -/
def save (key : α → κ) (image : α → α) (appended : Bool) (j : Journal κ α) (a : α) : Journal κ α where
  live := j.live.set (key a) a
  lines := if appended then j.lines ++ [image a] else j.lines

def reopen (key : α → κ) (j : Journal κ α) : Journal κ α := ⟨replay key j.lines, j.lines⟩

/-- The journal replays to the live map. -/
def Durable (key : α → κ) (image : α → α) (j : Journal κ α) : Prop :=
  replay key j.lines = j.live.mapValues image

@[simp] theorem save_live (appended : Bool) (j : Journal κ α) (a : α) :
    (j.save key image appended a).live = j.live.set (key a) a := rfl

theorem replay_append (lines : List α) (a : α) :
    replay key (lines ++ [a]) = (replay key lines).set (key a) a := by
  simp [replay]

/-- What the journal replays to is one of its lines. -/
theorem mem_of_replay {lines : List α} {k : κ} {a : α}
    (h : (replay key lines).get k = some a) : a ∈ lines ∧ key a = k := by
  induction lines using List.reverseRecOn with
  | nil =>
    rw [replay, List.foldl_nil, OrderedMap.get_empty] at h
    cases h
  | append_singleton lines b ih =>
    rw [replay_append, OrderedMap.get_set] at h
    split at h
    · rename_i hk
      cases h
      exact ⟨List.mem_append_right _ (List.mem_singleton.mpr rfl), hk.symm⟩
    · exact (ih h).imp_left (List.mem_append_left _)

theorem durable_empty : Durable key image (empty : Journal κ α) := rfl

theorem Durable.save {j : Journal κ α} (h : j.Durable key image) (a : α)
    (hkey : key (image a) = key a) : (j.save key image true a).Durable key image := by
  show replay key (j.lines ++ [image a]) = _
  rw [replay_append, h, hkey, save_live, OrderedMap.mapValues_set]

theorem Durable.reopen_live {j : Journal κ α} (h : j.Durable key image) :
    (j.reopen key).live = j.live.mapValues image := h

theorem Durable.reopen {j : Journal κ α} (h : j.Durable key image)
    (hidem : ∀ a, image (image a) = image a) : (j.reopen key).Durable key image := by
  have hcomp : image ∘ image = image := funext hidem
  rw [Durable, h.reopen_live, OrderedMap.mapValues_mapValues, hcomp]
  exact h

/-- The records stand under their own keys. -/
def Keyed (key : α → κ) (j : Journal κ α) : Prop := ∀ k a, j.live.get k = some a → key a = k

theorem Keyed.save {j : Journal κ α} (h : j.Keyed key) (appended : Bool) (a : α) :
    (j.save key image appended a).Keyed key := by
  intro k b hb
  rw [save_live, OrderedMap.get_set] at hb
  split at hb
  · next hk =>
    cases hb
    exact hk.symm
  · exact h k b hb

theorem keyed_reopen (j : Journal κ α) : (j.reopen key).Keyed key := fun _ _ h => (mem_of_replay h).2

/-- Every record stands under its own key, and the journal replays to the live map. -/
structure Sound (key : α → κ) (image : α → α) (j : Journal κ α) : Prop where
  durable : j.Durable key image
  keyed : ∀ k a, j.live.get k = some a → key a = k

theorem sound_empty : Sound key image (empty : Journal κ α) :=
  ⟨durable_empty, fun k a h => by simp [empty] at h⟩

variable {j : Journal κ α}

theorem Sound.save (h : j.Sound key image) (a : α) (hkey : key (image a) = key a) :
    (j.save key image true a).Sound key image := by
  refine ⟨h.durable.save a hkey, fun k b hb => ?_⟩
  rw [save_live, OrderedMap.get_set] at hb
  split at hb
  · cases hb
    exact Eq.symm ‹_›
  · exact h.keyed k b hb

theorem Sound.reopen (h : j.Sound key image) (hkey : ∀ a, key (image a) = key a)
    (hidem : ∀ a, image (image a) = image a) : (j.reopen key).Sound key image := by
  refine ⟨h.durable.reopen hidem, fun k b hb => ?_⟩
  rw [h.durable.reopen_live, OrderedMap.get_mapValues] at hb
  obtain ⟨a, ha, rfl⟩ := Option.map_eq_some_iff.mp hb
  rw [hkey]
  exact h.keyed k a ha

/-! ## Records as they are seen -/

section
variable {f : α → α}

/-- The store with every record as it is seen. -/
def map (f : α → α) (j : Journal κ α) : Journal κ α := ⟨j.live.mapValues f, j.lines.map f⟩

theorem replay_map (hkey : ∀ a, key (f a) = key a) (lines : List α) :
    replay key (lines.map f) = (replay key lines).mapValues f := by
  induction lines using List.reverseRecOn with
  | nil => rfl
  | append_singleton lines a ih =>
    rw [List.map_append, List.map_singleton, replay_append, replay_append, ih, hkey,
      OrderedMap.mapValues_set]

theorem map_save (hkey : ∀ a, key (f a) = key a) (himage : ∀ a, f (image a) = image (f a))
    (appended : Bool) (j : Journal κ α) (a : α) :
    (j.save key image appended a).map f = (j.map f).save key image appended (f a) := by
  unfold map save
  rw [OrderedMap.mapValues_set, hkey]
  cases appended with
  | false => rfl
  | true =>
    simp only [if_true, List.map_append, List.map_singleton, himage]

/-- Journals that look alike still do when records that look alike are saved. -/
theorem map_save_congr (hkey : ∀ a, key (f a) = key a) (himage : ∀ a, f (image a) = image (f a))
    (appended : Bool) {j j' : Journal κ α} {a a' : α} (hj : j.map f = j'.map f) (ha : f a = f a') :
    (j.save key image appended a).map f = (j'.save key image appended a').map f := by
  rw [map_save hkey himage, map_save hkey himage, hj, ha]

theorem map_reopen (hkey : ∀ a, key (f a) = key a) (j : Journal κ α) :
    (j.reopen key).map f = (j.map f).reopen key := by
  show (⟨(replay key j.lines).mapValues f, _⟩ : Journal κ α) = ⟨replay key (j.lines.map f), _⟩
  rw [replay_map hkey]
  rfl

end

end Journal
