import Ambit.AuditLog
import Mathlib.Data.List.Range

/-! The segment files of a rotated audit log. `Layout` says which archived segments a directory
holds: `<base>.1<ext>` to `<base>.n<ext>`, and no other file with a segment's name. Under it the
directory scan finds the segments in their order, and a rotation adds the next one. -/

namespace Ambit

namespace AuditConfig

variable (cfg : AuditConfig)

theorem toList_segmentName (n : Nat) : (cfg.segmentName n).toList =
    (cfg.base.toList ++ ['.']) ++ Nat.toDigits 10 n ++ cfg.ext.toList := by
  simp [segmentName]

theorem archiveSegmentIndex_segmentName (n : Nat) :
    cfg.archiveSegmentIndex (cfg.segmentName n) = some n := by
  have hlen : ∀ pre digits suf : List Char,
      ((pre ++ digits ++ suf).drop pre.length).take
        ((pre ++ digits ++ suf).length - pre.length - suf.length) = digits := by
    intro pre digits suf
    have hcount : (pre ++ digits ++ suf).length - pre.length - suf.length = digits.length := by
      simp only [List.length_append]; omega
    rw [hcount, List.append_assoc, List.drop_left, List.take_left]
  have hdigits : ∀ c ∈ Nat.toDigits 10 n, c.isDigit = true := fun c hc =>
    Nat.isDigit_of_mem_toDigits (by decide) (by decide) hc
  simp only [archiveSegmentIndex, toList_segmentName, hlen]
  rw [if_pos ⟨Nat.toDigits_ne_nil, List.all_eq_true.mpr hdigits, trivial⟩,
    Nat.ofDigitChars_ten_toDigits]

theorem archiveSegmentIndex_activeName : cfg.archiveSegmentIndex cfg.activeName = none := by
  rw [archiveSegmentIndex]
  split
  · rename_i h
    have hlen := congrArg List.length h.2.2
    simp only [activeName, String.toList_append, List.length_append, List.length_cons,
      List.length_nil] at hlen
    omega
  · rfl

theorem segmentName_injective : Function.Injective cfg.segmentName := by
  intro m n h
  have hm := cfg.archiveSegmentIndex_segmentName m
  rw [h, archiveSegmentIndex_segmentName] at hm
  exact (Option.some.inj hm).symm

theorem segmentName_ne_activeName (n : Nat) : cfg.segmentName n ≠ cfg.activeName := by
  intro h
  have hn := cfg.archiveSegmentIndex_segmentName n
  rw [h, archiveSegmentIndex_activeName] at hn
  cases hn

end AuditConfig

/-- The archived segments that a directory holds, oldest first. -/
structure Layout (cfg : AuditConfig) (files : AuditDirectory)
    (segments : List (List AuditLogEntry)) : Prop where
  segment : ∀ i (h : i < segments.length), files.get (cfg.segmentName (i + 1)) = some segments[i]
  complete : ∀ name n, name ∈ files.keys → cfg.archiveSegmentIndex name = some n →
    ∃ i < segments.length, n = i + 1 ∧ name = cfg.segmentName (i + 1)

namespace Layout

variable {cfg : AuditConfig} {files : AuditDirectory} {segments : List (List AuditLogEntry)}

theorem mem_filterMap (h : Layout cfg files segments) {x : String × Nat} :
    x ∈ files.keys.filterMap (fun name => (cfg.archiveSegmentIndex name).map (name, ·)) ↔
      ∃ i < segments.length, x = (cfg.segmentName (i + 1), i + 1) := by
  simp only [List.mem_filterMap, Option.map_eq_some_iff]
  constructor
  · rintro ⟨name, hname, n, hn, rfl⟩
    obtain ⟨i, hi, rfl, rfl⟩ := h.complete name n hname hn
    exact ⟨i, hi, rfl⟩
  · rintro ⟨i, hi, rfl⟩
    exact ⟨_, OrderedMap.mem_keys_iff.mpr ⟨_, h.segment i hi⟩, i + 1,
      cfg.archiveSegmentIndex_segmentName _, rfl⟩

/-- The scan finds the segments in order: the names are sorted by number, not by text. -/
theorem scan_eq (h : Layout cfg files segments) : cfg.scanArchivedSegments files =
    (List.range segments.length).map fun i => (cfg.segmentName (i + 1), i + 1) := by
  have hnodup : (files.keys.filterMap fun name =>
      (cfg.archiveSegmentIndex name).map (name, ·)).Nodup := by
    refine files.keysNodup.filterMap fun a b x ha hb => ?_
    simp only [Option.map_eq_some_iff, Option.mem_def] at ha hb
    obtain ⟨m, -, rfl⟩ := ha
    obtain ⟨n, -, hb⟩ := hb
    exact (congrArg Prod.fst hb).symm
  have hnodup' : ((List.range segments.length).map fun i =>
      (cfg.segmentName (i + 1), i + 1)).Nodup :=
    List.nodup_range.map fun i j hij => by simpa using congrArg Prod.snd hij
  have hperm : (cfg.scanArchivedSegments files).Perm
      ((List.range segments.length).map fun i => (cfg.segmentName (i + 1), i + 1)) := by
    refine (List.perm_insertionSort _ _).trans ((List.perm_ext_iff_of_nodup hnodup hnodup').mpr ?_)
    intro x
    rw [h.mem_filterMap]
    simp only [List.mem_map, List.mem_range, eq_comm]
  have htotal : Std.Total fun a b : String × Nat => a.2 ≤ b.2 := ⟨fun a b => Nat.le_total _ _⟩
  have htrans : IsTrans (String × Nat) fun a b => a.2 ≤ b.2 := ⟨fun _ _ _ => Nat.le_trans⟩
  refine hperm.eq_of_pairwise ?_ (List.pairwise_insertionSort _ _) ?_
  · intro a b ha hb hab hba
    obtain ⟨i, -, rfl⟩ := h.mem_filterMap.mp ((List.perm_insertionSort _ _).subset ha)
    obtain ⟨j, -, rfl⟩ := List.mem_map.mp hb
    obtain rfl : i = j := by simpa using Nat.le_antisymm hab hba
    rfl
  · refine List.pairwise_map.mpr (List.pairwise_lt_range.imp fun hij => ?_)
    exact Nat.succ_le_succ (Nat.le_of_lt hij)

theorem next_eq (h : Layout cfg files segments) :
    cfg.nextArchiveSegmentName files = cfg.segmentName (segments.length + 1) := by
  rw [AuditConfig.nextArchiveSegmentName, h.scan_eq]
  rcases Nat.eq_zero_or_pos segments.length with hn | hn
  · simp [hn]
  · obtain ⟨n, hn⟩ : ∃ n, segments.length = n + 1 := ⟨segments.length - 1, by omega⟩
    simp [hn, List.range_succ]

/-- A log opened on the directory holds the segments' lines, then the active file's. -/
theorem construct_entries (h : Layout cfg files segments) :
    (AuditLog.construct cfg files).entries =
      segments.flatten ++ fileLines files cfg.activeName := by
  have hlines : (List.range segments.length).map
      (fun i => fileLines files (cfg.segmentName (i + 1))) = segments := by
    apply List.ext_getElem (by simp)
    intro i hi hi'
    simp [fileLines, h.segment i (by simpa using hi)]
  have hflat : (cfg.scanArchivedSegments files).flatMap (fun segment => fileLines files segment.1)
      = segments.flatten := by
    rw [h.scan_eq, List.flatMap_map, List.flatMap_def, hlines]
  show (cfg.scanArchivedSegments files).flatMap _ ++ _ = _
  rw [hflat]

/-- Writing the active file leaves the segments as they are. -/
theorem set_active (h : Layout cfg files segments) (lines : List AuditLogEntry) :
    Layout cfg (files.set cfg.activeName lines) segments where
  segment i hi := by
    rw [OrderedMap.get_set_of_ne _ _ (cfg.segmentName_ne_activeName _)]
    exact h.segment i hi
  complete name n hname hn := by
    obtain ⟨a, ha⟩ := OrderedMap.mem_keys_iff.mp hname
    rw [OrderedMap.get_set] at ha
    split at ha
    · subst name
      rw [cfg.archiveSegmentIndex_activeName] at hn
      cases hn
    · exact h.complete name n (OrderedMap.mem_keys_iff.mpr ⟨a, ha⟩) hn

/-- A rotation turns the active file into the next segment. -/
theorem rotate (h : Layout cfg files segments) (lines : List AuditLogEntry) :
    Layout cfg ((files.erase cfg.activeName).set (cfg.nextArchiveSegmentName files) lines)
      (segments ++ [lines]) where
  segment i hi := by
    rw [h.next_eq, OrderedMap.get_set, OrderedMap.get_erase,
      if_neg (cfg.segmentName_ne_activeName _)]
    rcases Nat.lt_or_ge i segments.length with hlt | hge
    · have hne : cfg.segmentName (i + 1) ≠ cfg.segmentName (segments.length + 1) := fun heq => by
        have := cfg.segmentName_injective heq
        omega
      rw [if_neg hne, h.segment i hlt, List.getElem_append_left hlt]
    · have hi' : i = segments.length := by simp at hi; omega
      subst hi'
      rw [if_pos rfl, List.getElem_append_right (Nat.le_refl _)]
      simp
  complete name n hname hn := by
    obtain ⟨a, ha⟩ := OrderedMap.mem_keys_iff.mp hname
    rw [h.next_eq, OrderedMap.get_set, OrderedMap.get_erase] at ha
    split at ha
    · subst name
      rw [cfg.archiveSegmentIndex_segmentName] at hn
      exact ⟨segments.length, by simp, (Option.some.inj hn).symm, rfl⟩
    · split at ha
      · cases ha
      · obtain ⟨i, hi, hni, hnamei⟩ := h.complete name n (OrderedMap.mem_keys_iff.mpr ⟨a, ha⟩) hn
        exact ⟨i, by simp; omega, hni, hnamei⟩

theorem rotate_active (h : Layout cfg files segments) (lines : List AuditLogEntry) :
    ((files.erase cfg.activeName).set (cfg.nextArchiveSegmentName files) lines).get
      cfg.activeName = none := by
  rw [h.next_eq, OrderedMap.get_set, if_neg (cfg.segmentName_ne_activeName _).symm,
    OrderedMap.get_erase, if_pos rfl]

end Layout

/-! ## What every line is -/

/-- Every entry of every file has the property. -/
def FilesHold (P : AuditLogEntry → Prop) (files : AuditDirectory) : Prop :=
  ∀ name, ∀ entry ∈ fileLines files name, P entry

theorem fileLines_of_get {files : AuditDirectory} {name : String} {lines : List AuditLogEntry}
    (h : files.get name = some lines) : fileLines files name = lines := by
  rw [fileLines, h]
  rfl

theorem fileLines_set {files : AuditDirectory} {name name' : String} {lines : List AuditLogEntry} :
    fileLines (files.set name lines) name' = if name' = name then lines else fileLines files name' := by
  rw [fileLines, OrderedMap.get_set]
  split <;> rfl

theorem mem_fileLines_erase {files : AuditDirectory} {name name' : String} {entry : AuditLogEntry}
    (h : entry ∈ fileLines (files.erase name) name') : entry ∈ fileLines files name' := by
  rw [fileLines, OrderedMap.get_erase] at h
  split at h
  · cases h
  · exact h

namespace FilesHold

variable {P : AuditLogEntry → Prop} {files : AuditDirectory} {log : AuditLog}

theorem of_get (h : FilesHold P files) {name : String} {lines : List AuditLogEntry}
    (hlines : files.get name = some lines) : ∀ entry ∈ lines, P entry :=
  fun entry he => h name entry (fileLines_of_get hlines ▸ he)

theorem set (h : FilesHold P files) {name : String} {lines : List AuditLogEntry}
    (hlines : ∀ entry ∈ lines, P entry) : FilesHold P (files.set name lines) := by
  intro name' entry he
  rw [fileLines_set] at he
  split at he
  · exact hlines entry he
  · exact h name' entry he

theorem rotateIfNeeded (h : FilesHold P log.files) (cfg : AuditConfig) (io : AuditIo) :
    FilesHold P (log.rotateIfNeeded cfg io).2.files := by
  rw [AuditLog.rotateIfNeeded]
  split
  · exact h
  · cases hactive : log.files.get cfg.activeName with
    | none => exact h
    | some lines =>
      dsimp only
      split
      · have herased : FilesHold P (log.files.erase cfg.activeName) :=
          fun name entry he => h name entry (mem_fileLines_erase he)
        exact herased.set (h.of_get hactive)
      · exact h

theorem appendActive {entry : AuditLogEntry} (h : FilesHold P log.files) (hentry : P entry)
    (cfg : AuditConfig) : FilesHold P (log.appendActive cfg entry).files := by
  refine h.set fun e he => ?_
  rcases List.mem_append.mp he with he | he
  · exact h _ e he
  · cases List.mem_singleton.mp he
    exact hentry

/-- A call of `record` writes its entry, or nothing. -/
theorem record {p : Platform} {cfg : AuditConfig} {io : AuditIo} {id : String} {input : AuditEntryInput}
    {now : Int} (h : FilesHold P log.files) (hentry : P (log.entryOf p id input now)) :
    FilesHold P (log.record p cfg io id input now).2.files := by
  have hpushed : FilesHold P (log.push (log.entryOf p id input now)).files := h
  have hrotated := hpushed.rotateIfNeeded cfg io
  rw [AuditLog.record]
  split
  · exact h
  · dsimp only
    generalize (log.push (log.entryOf p id input now)).rotateIfNeeded cfg io = rotated at hrotated ⊢
    obtain ⟨renamed, rotated⟩ := rotated
    cases renamed with
    | false => exact hrotated
    | true =>
      dsimp only
      split
      · exact hrotated.appendActive hentry cfg
      · exact hrotated

end FilesHold

end Ambit
