import Ambit.AuditFailures
import Ambit.Lib.JsonFields

/-! Tampering with the audit log, while SHA-256 does not collide: where `verifyAuditChain` finds a
list that was put together from the stored hashes of a log, and which deletions it finds. -/

namespace Ambit

/-! ## Localisation -/

/-- The text that is hashed. -/
def AuditLogEntry.serialised (p : Platform) (entry : AuditLogEntry) : String :=
  p.stringify entry.toAuditContent

/-- The serialised content and the stored hash. -/
def AuditLogEntry.stored (p : Platform) : AuditLogEntry → String × String :=
  HashChain.mark (AuditLogEntry.serialised p) (·.hash)

/-- SHA-256 separates the serialised contents of these entries. -/
def CollisionFree (p : Platform) (entries : List AuditLogEntry) : Prop :=
  HashChain.CollisionFree (AuditLogEntry.serialised p) p.sha256 entries

/-- `JSON.stringify` writes the link: equal texts have equal `previousHash` members. -/
def WritesLink (p : Platform) : Prop :=
  ∀ a b : AuditContent, p.stringify a = p.stringify b → a.previousHash = b.previousHash

/-- Every element carries the stored hash of an entry of the log; anything else may be altered. -/
def Forged (entries forged : List AuditLogEntry) : Prop :=
  ∀ t ∈ forged, ∃ e ∈ entries, t.hash = e.hash

/-- `forged` is stored as the first entries of the log are. -/
def StoredAsPrefix (p : Platform) (entries forged : List AuditLogEntry) : Prop :=
  ∃ original, original <+: entries ∧
    forged.map (AuditLogEntry.stored p) = original.map (AuditLogEntry.stored p)

/-- The lists agree before position `i` and not at it. -/
def FirstDifference (p : Platform) (entries forged : List AuditLogEntry) (i : Nat) : Prop :=
  (forged.take i).map (AuditLogEntry.stored p) = (entries.take i).map (AuditLogEntry.stored p) ∧
    forged[i]?.map (AuditLogEntry.stored p) ≠ entries[i]?.map (AuditLogEntry.stored p)

variable {p : Platform} {entries forged : List AuditLogEntry}

/-- A chained list as a hash chain over its serialised contents. -/
theorem Chained.valid (h : Chained p entries) : HashChain.Valid (·.previousHash) (·.hash)
    (fun e => p.sha256 (AuditLogEntry.serialised p e)) none entries := h

theorem Chained.valid_iff_storedAsPrefix (h : Chained p entries) (hlink : WritesLink p)
    (hforged : Forged entries forged) (hcoll : CollisionFree p (entries ++ forged)) :
    Chained p forged ↔ StoredAsPrefix p entries forged :=
  h.valid.iff_prefix (fun _ _ => hlink _ _) hforged hcoll

/-- The first entry that fails the test of `verifyAuditChain`. -/
theorem verifyAuditChainFrom_broken {n : Nat} {prev : Option String}
    (h : (verifyAuditChainFrom p n prev forged).valid = false) :
    ∃ before e after, forged = before ++ e :: after ∧
      (verifyAuditChainFrom p n prev before).valid = true ∧
      (verifyAuditChainFrom p n prev (before ++ [e])).valid = false ∧
      (verifyAuditChainFrom p n prev forged).brokenAtId = some e.id := by
  induction forged generalizing prev with
  | nil => cases h
  | cons entry rest ih =>
    by_cases hbroken : entry.previousHash ≠ prev ∨
        computeEntryHash p entry.toAuditContent ≠ entry.hash
    · refine ⟨[], entry, rest, rfl, rfl, ?_, ?_⟩
      · rw [List.nil_append, verifyAuditChainFrom, if_pos hbroken]
      · rw [verifyAuditChainFrom, if_pos hbroken]
    · rw [verifyAuditChainFrom, if_neg hbroken] at h
      obtain ⟨before, e, after, rfl, hbefore, hat, hid⟩ := ih h
      refine ⟨entry :: before, e, after, rfl, ?_, ?_, ?_⟩
      · rw [verifyAuditChainFrom, if_neg hbroken]
        exact hbefore
      · rw [List.cons_append, verifyAuditChainFrom, if_neg hbroken]
        exact hat
      · rw [verifyAuditChainFrom, if_neg hbroken]
        exact hid

theorem Chained.broken_at_first_difference (h : Chained p entries) (hlink : WritesLink p)
    (hforged : Forged entries forged) (hcoll : CollisionFree p (entries ++ forged))
    (hinvalid : (verifyAuditChain p forged).valid = false) :
    ∃ i, ∃ hi : i < forged.length, FirstDifference p entries forged i ∧
      (verifyAuditChain p forged).brokenAtId = some forged[i].id := by
  obtain ⟨before, e, after, rfl, hbefore, hat, hid⟩ := verifyAuditChainFrom_broken hinvalid
  have hsub : before ++ [e] ⊆ before ++ e :: after := by intro x; simp; tauto
  have hiff : ∀ ts, ts ⊆ before ++ e :: after → (Chained p ts ↔ StoredAsPrefix p entries ts) :=
    fun ts hts => h.valid_iff_storedAsPrefix hlink (fun t ht => hforged t (hts ht))
      (hcoll.mono (List.append_subset.mpr
        ⟨List.subset_append_left .., List.subset_append_of_subset_right _ hts⟩))
  obtain ⟨original, hpre, hmarks⟩ :=
    (hiff before (by simp)).mp (verifyAuditChainFrom_valid_iff.mp hbefore)
  have hlength : original.length = before.length := by
    simpa using (congrArg List.length hmarks).symm
  have htake : original = entries.take before.length := by
    rw [← hlength]
    exact List.prefix_iff_eq_take.mp hpre
  refine ⟨before.length, by simp, ⟨?_, fun hsame => ?_⟩, ?_⟩
  · rw [List.take_left, hmarks, htake]
  · -- were the next entries alike too, the longer list would verify
    have hnot : ¬ Chained p (before ++ [e]) := fun hchained => by
      rw [verifyAuditChainFrom_valid_iff.mpr hchained] at hat
      cases hat
    refine hnot ((hiff _ hsub).mpr ⟨entries.take (before.length + 1), List.take_prefix .., ?_⟩)
    rw [List.take_add_one, ← htake, List.map_append, List.map_append, hmarks]
    congr 1
    rw [List.getElem?_append_right (Nat.le_refl _), Nat.sub_self] at hsame
    cases hnext : entries[before.length]? with
    | none => simp [hnext] at hsame
    | some next =>
      rw [hnext] at hsame
      simpa using hsame
  · rw [verifyAuditChain, hid]
    simp

/-- Two lists stored as prefixes of a chain, with the same last hash, are stored alike. -/
theorem Chained.same_history (h : Chained p entries) (hlink : WritesLink p)
    (hcoll : CollisionFree p entries) {forged forged' : List AuditLogEntry}
    (hforged : StoredAsPrefix p entries forged) (hforged' : StoredAsPrefix p entries forged')
    (hlast : forged.getLast?.map (·.hash) = forged'.getLast?.map (·.hash)) :
    forged.map (AuditLogEntry.stored p) = forged'.map (AuditLogEntry.stored p) := by
  obtain ⟨original, hpre, hmarks⟩ := hforged
  obtain ⟨original', hpre', hmarks'⟩ := hforged'
  have htip : ∀ es : List AuditLogEntry,
      HashChain.tip (·.hash) none es = es.getLast?.map (·.hash) := by
    intro es
    rw [HashChain.tip]
    cases es.getLast? <;> rfl
  have heq : original = original' := by
    apply h.valid.tip_injective (fun _ _ => hlink _ _) hcoll hpre hpre'
    rw [← HashChain.tip_eq_of_marks hmarks, ← HashChain.tip_eq_of_marks hmarks', htip, htip, hlast]
  rw [hmarks, hmarks', heq]

/-- **Tamper localisation.** Of the lists made of a log's stored hashes, `verifyAuditChain` accepts
those stored as a prefix of the log is, and of any other it reports the first element at which
the two differ. Two accepted lists with the same last hash are the same history. -/
theorem verifyAuditChain_localises (p : Platform) (hlink : WritesLink p) (cfg : AuditConfig)
    (files : AuditDirectory) (hfresh : FreshDirectory cfg files) (calls : List RecordCall) :
    let entries := recorded p cfg files calls
    (∀ forged, Forged entries forged → CollisionFree p (entries ++ forged) →
      ((verifyAuditChain p forged).valid = true ↔ StoredAsPrefix p entries forged) ∧
      ((verifyAuditChain p forged).valid = false →
        ∃ i, ∃ hi : i < forged.length, FirstDifference p entries forged i ∧
          (verifyAuditChain p forged).brokenAtId = some forged[i].id)) ∧
    (∀ forged forged', Forged entries forged → Forged entries forged' →
      CollisionFree p (entries ++ forged) → CollisionFree p (entries ++ forged') →
      (verifyAuditChain p forged).valid = true → (verifyAuditChain p forged').valid = true →
      forged.getLast?.map (·.hash) = forged'.getLast?.map (·.hash) →
      forged.map (AuditLogEntry.stored p) = forged'.map (AuditLogEntry.stored p)) := by
  intro entries
  have hchained : Chained p entries := chained_recorded hfresh calls
  have hiff : ∀ forged, Forged entries forged → CollisionFree p (entries ++ forged) →
      ((verifyAuditChain p forged).valid = true ↔ StoredAsPrefix p entries forged) :=
    fun forged hforged hcoll => verifyAuditChain_valid_iff.trans
      (hchained.valid_iff_storedAsPrefix hlink hforged hcoll)
  refine ⟨fun forged hforged hcoll => ⟨hiff forged hforged hcoll,
    hchained.broken_at_first_difference hlink hforged hcoll⟩, ?_⟩
  intro forged forged' hforged hforged' hcoll hcoll' hvalid hvalid' hlast
  exact hchained.same_history hlink (hcoll.mono (by simp)) ((hiff _ hforged hcoll).mp hvalid)
    ((hiff _ hforged' hcoll').mp hvalid') hlast

/-! ## A log written as JSON -/

/-- `JSON.stringify` on the members in the order in which `record` and its callers write them. -/
def AuditContent.json (p : Platform) (content : AuditContent) : Json.Value :=
  let text (s : String) : Json.Value := .string (Json.utf8 s)
  let optional (key : String) (value : Option String) : List (Json.Text × Json.Value) :=
    value.toList.map fun s => (Json.utf8 key, text s)
  .object ((Json.utf8 "id", text content.id) ::
    (Json.utf8 "occurredAt", text (p.toISOString content.occurredAt)) ::
    (Json.utf8 "previousHash", content.previousHash.elim (.word .null) text) ::
    (optional "tokenId" content.tokenId ++ [(Json.utf8 "subject", text content.subject),
      (Json.utf8 "action", text content.action), (Json.utf8 "decision", text content.decision.text)] ++
    optional "reasonCode" content.reasonCode ++ optional "message" content.message))

/-- A text whose characters are the bytes of another. -/
def ofBytes (text : Json.Text) : String := String.ofList (text.map fun b => Char.ofUInt8 b)

/-- The sample deployment with entries serialised as JSON. -/
def jsonPlatform : Platform :=
  { samplePlatform with stringify := fun content => ofBytes (Json.stringify (content.json samplePlatform)) }

theorem ofBytes_injective : Function.Injective ofBytes := by
  intro s t h
  have hchars : s.map (fun b => Char.ofUInt8 b) = t.map (fun b => Char.ofUInt8 b) := by
    simpa [ofBytes] using congrArg String.toList h
  refine List.map_injective_iff.mpr (fun a b hab => ?_) hchars
  have hval : a.toUInt32.toNat = b.toUInt32.toNat := congrArg (fun c : Char => c.val.toNat) hab
  exact UInt8.toNat_inj.mp (by simpa using hval)

theorem jsonPlatform_writesLink : WritesLink jsonPlatform := by
  intro a b h
  have htext := ofBytes_injective h
  have hjson : a.json samplePlatform = b.json samplePlatform :=
    Option.some.inj (by rw [← Json.parse_stringify, htext, Json.parse_stringify])
  simp only [AuditContent.json, Json.Value.object.injEq, List.cons.injEq, Prod.mk.injEq] at hjson
  have hlink := hjson.2.2.1.2
  cases ha : a.previousHash <;> cases hb : b.previousHash <;> simp [ha, hb] at hlink ⊢
  exact hlink

/-- The digest of the sample deployment is its text. -/
theorem jsonPlatform_collisionFree (entries : List AuditLogEntry) :
    CollisionFree jsonPlatform entries := by
  intro a _ b _ h
  have hlist := congrArg String.toList h
  simp only [jsonPlatform, samplePlatform, String.toList_append] at hlist
  exact String.toList_injective (List.append_cancel_left hlist)

theorem freshDirectory_empty (cfg : AuditConfig) : FreshDirectory cfg .empty :=
  ⟨rfl, by simp [OrderedMap.keys, OrderedMap.empty]⟩

/-- Two entries, recorded one after the other. -/
def sampleTrail : List AuditLogEntry :=
  recorded jsonPlatform sampleEnv.audit .empty
    [⟨.ok, "1", sampleInput, 0⟩, ⟨.ok, "2", sampleInput, 1⟩]

theorem verifyAuditChain_localises_sample :
    (verifyAuditChain jsonPlatform sampleTrail).valid = true := by
  have h := (verifyAuditChain_localises jsonPlatform jsonPlatform_writesLink sampleEnv.audit .empty
    (freshDirectory_empty _) [⟨.ok, "1", sampleInput, 0⟩, ⟨.ok, "2", sampleInput, 1⟩]).1 sampleTrail
    (fun t ht => ⟨t, ht, rfl⟩) (jsonPlatform_collisionFree _)
  exact h.1.mpr ⟨sampleTrail, List.prefix_rfl, rfl⟩

/-- The first entry with the hash of the second. -/
def sampleSwap : List AuditLogEntry :=
  match sampleTrail with
  | first :: second :: _ => [{ first with hash := second.hash }]
  | _ => []

/-- The content alone does not decide: the first entry with the hash of the second has the
serialised content of the log's first entry, and does not verify. -/
theorem not_localised_by_content :
    WritesLink jsonPlatform ∧ Forged sampleTrail sampleSwap ∧
    CollisionFree jsonPlatform (sampleTrail ++ sampleSwap) ∧
    (∃ original, original <+: sampleTrail ∧ sampleSwap.map (AuditLogEntry.serialised jsonPlatform) =
      original.map (AuditLogEntry.serialised jsonPlatform)) ∧
    (verifyAuditChain jsonPlatform sampleSwap).valid = false := by
  obtain ⟨first, second, htrail, hgenesis, hlinked, hsealed, hsealed'⟩ :
      ∃ first second : AuditLogEntry, sampleTrail = [first, second] ∧ first.previousHash = none ∧
        second.previousHash = some first.hash ∧
        computeEntryHash jsonPlatform first.toAuditContent = first.hash ∧
        computeEntryHash jsonPlatform second.toAuditContent = second.hash := ⟨_, _, rfl, rfl, rfl, rfl, rfl⟩
  have hswap : sampleSwap = [{ first with hash := second.hash }] := by rw [sampleSwap, htrail]
  have hdiffers : first.hash ≠ second.hash := by
    intro heq
    have htext := jsonPlatform_collisionFree [first, second] first (by simp) second (by simp)
      (show computeEntryHash jsonPlatform first.toAuditContent =
        computeEntryHash jsonPlatform second.toAuditContent by rw [hsealed, hsealed', heq])
    have hlink := jsonPlatform_writesLink _ _ htext
    rw [hgenesis, hlinked] at hlink
    cases hlink
  refine ⟨jsonPlatform_writesLink, ?_, jsonPlatform_collisionFree _, ?_, ?_⟩
  · rw [hswap, htrail]
    intro t ht
    exact ⟨second, by simp, by rw [List.mem_singleton.mp ht]⟩
  · rw [hswap, htrail]
    exact ⟨[first], List.prefix_append [first] [second], rfl⟩
  · rw [hswap, verifyAuditChain, verifyAuditChainFrom, if_pos]
    exact .inr fun h => hdiffers (hsealed.symm.trans h)

/-! ## Deletion -/

/-- Delete lines of the files named, in that order; places are counted over all of them. -/
def removeLines (removed : Nat → Bool) : Nat → List String → AuditDirectory → AuditDirectory
  | _, [], files => files
  | n, name :: names, files =>
    match files.get name with
    | none => removeLines removed n names files
    | some lines =>
      removeLines removed (n + lines.length) names
        (files.set name (HashChain.keepFrom removed n lines))

/-- The files of a log in the order in which the constructor reads them. -/
def AuditConfig.readingOrder (cfg : AuditConfig) (files : AuditDirectory) : List String :=
  (cfg.scanArchivedSegments files).map (·.1) ++ [cfg.activeName]

theorem AuditLog.construct_entries (cfg : AuditConfig) (files : AuditDirectory) :
    (AuditLog.construct cfg files).entries = (cfg.readingOrder files).flatMap (fileLines files) := by
  simp [AuditLog.construct, AuditConfig.readingOrder, List.flatMap_append, List.flatMap_map]

section
variable {removed : Nat → Bool} {cfg : AuditConfig}

theorem fileLines_removeLines_of_not_mem {name : String} {names : List String} {n : Nat}
    {files : AuditDirectory} (h : name ∉ names) :
    fileLines (removeLines removed n names files) name = fileLines files name := by
  induction names generalizing n files with
  | nil => rfl
  | cons other names ih =>
    obtain ⟨hne, hnot⟩ := not_or.mp (mt List.mem_cons.mpr h)
    rw [removeLines]
    split
    · exact ih hnot
    · rw [ih hnot, fileLines, fileLines, OrderedMap.get_set_of_ne _ _ hne]

theorem keys_removeLines {names : List String} {n : Nat} {files : AuditDirectory} :
    (removeLines removed n names files).keys = files.keys := by
  induction names generalizing n files with
  | nil => rfl
  | cons name names ih =>
    rw [removeLines]
    split
    · exact ih
    · rename_i lines hlines
      rw [ih, OrderedMap.keys_set_of_mem (OrderedMap.mem_keys_iff.mpr ⟨lines, hlines⟩) _]

theorem flatMap_removeLines {names : List String} (hnodup : names.Nodup) {n : Nat}
    {files : AuditDirectory} : names.flatMap (fileLines (removeLines removed n names files)) =
      HashChain.keepFrom removed n (names.flatMap (fileLines files)) := by
  induction names generalizing n files with
  | nil => rfl
  | cons name names ih =>
    obtain ⟨hnot, hnodup⟩ := List.nodup_cons.mp hnodup
    rw [removeLines, List.flatMap_cons, List.flatMap_cons, HashChain.keepFrom_append]
    cases hlines : files.get name with
    | none =>
      simp only
      rw [ih hnodup, fileLines_removeLines_of_not_mem hnot]
      simp [fileLines, hlines, HashChain.keepFrom]
    | some lines =>
      have hothers : names.flatMap (fileLines (files.set name (HashChain.keepFrom removed n lines))) =
          names.flatMap (fileLines files) := by
        apply List.flatMap_congr
        intro other hother
        have hne : other ≠ name := fun h => hnot (h ▸ hother)
        rw [fileLines, fileLines, OrderedMap.get_set_of_ne _ _ hne]
      simp only
      rw [ih hnodup, hothers, fileLines_removeLines_of_not_mem hnot]
      simp [fileLines, hlines]

/-- No file is read twice. -/
theorem AuditConfig.nodup_readingOrder (cfg : AuditConfig) (files : AuditDirectory) :
    (cfg.readingOrder files).Nodup := by
  have hperm := (List.perm_insertionSort (fun a b : String × Nat => a.2 ≤ b.2)
    (files.keys.filterMap fun name => (cfg.archiveSegmentIndex name).map (name, ·))).map Prod.fst
  have hnames : ((files.keys.filterMap fun name =>
      (cfg.archiveSegmentIndex name).map (name, ·)).map Prod.fst).Nodup := by
    rw [List.map_filterMap]
    refine files.keysNodup.filterMap fun a b name ha hb => ?_
    simp only [Option.map_map, Option.mem_def, Option.map_eq_some_iff] at ha hb
    obtain ⟨_, _, rfl⟩ := ha
    obtain ⟨_, _, hb⟩ := hb
    exact hb.symm
  rw [AuditConfig.readingOrder, List.nodup_append_comm, List.singleton_append, List.nodup_cons]
  refine ⟨fun hmem => ?_, hperm.nodup_iff.mpr hnames⟩
  obtain ⟨segment, hsegment, hactive⟩ := List.mem_map.mp (hperm.subset hmem)
  obtain ⟨name, -, hindex⟩ := List.mem_filterMap.mp hsegment
  obtain ⟨n, hn, rfl⟩ := Option.map_eq_some_iff.mp hindex
  simp only at hactive
  rw [hactive, cfg.archiveSegmentIndex_activeName] at hn
  cases hn

/-- Delete the lines at some places of the log that a directory holds. -/
def AuditConfig.tamper (cfg : AuditConfig) (removed : Nat → Bool) (files : AuditDirectory) :
    AuditDirectory := removeLines removed 0 (cfg.readingOrder files) files

/-- A log opened after deletions holds the entries that are left. -/
theorem AuditLog.construct_tamper_entries (cfg : AuditConfig) (removed : Nat → Bool)
    (files : AuditDirectory) : (AuditLog.construct cfg (cfg.tamper removed files)).entries =
      HashChain.keepFrom removed 0 (AuditLog.construct cfg files).entries := by
  have horder : cfg.readingOrder (cfg.tamper removed files) = cfg.readingOrder files := by
    rw [AuditConfig.readingOrder, AuditConfig.readingOrder, AuditConfig.scanArchivedSegments,
      AuditConfig.scanArchivedSegments, AuditConfig.tamper, keys_removeLines]
  rw [AuditLog.construct_entries, AuditLog.construct_entries, horder]
  exact flatMap_removeLines (cfg.nodup_readingOrder files)

end

theorem Chained.keepFrom_invalid_iff {p : Platform} {entries : List AuditLogEntry}
    (h : Chained p entries) (hlink : WritesLink p) (hcoll : CollisionFree p entries)
    (removed : Nat → Bool) :
    (verifyAuditChain p (HashChain.keepFrom removed 0 entries)).valid = false ↔
      HashChain.Gap removed 0 entries.length := by
  rw [← Bool.not_eq_true, verifyAuditChain_valid_iff, ← not_iff_comm]
  exact (h.valid.keepFrom_iff (fun _ _ => hlink _ _) hcoll).symm

/-- **Deletions.** What is left of a log after deletions fails to verify exactly when an entry is
kept after a deleted one; so it is for the list of entries, and for a log opened on its files
after the lines were deleted there. -/
theorem deletion_found_iff (p : Platform) (hlink : WritesLink p) (cfg : AuditConfig)
    (files : AuditDirectory) (hfresh : FreshDirectory cfg files) (removed : Nat → Bool) :
    (∀ calls, let entries := recorded p cfg files calls
      CollisionFree p entries →
      ((verifyAuditChain p (HashChain.keepFrom removed 0 entries)).valid = false ↔
        HashChain.Gap removed 0 entries.length)) ∧
    (∀ acts, NoFailure p cfg files acts →
      let log := (logMachine p cfg files).run acts
      CollisionFree p log.entries →
      (((AuditLog.construct cfg (cfg.tamper removed log.files)).verify p).valid = false ↔
        HashChain.Gap removed 0 log.entries.length)) := by
  constructor
  · intro calls entries hcoll
    exact (chained_recorded hfresh calls).keepFrom_invalid_iff hlink hcoll removed
  · intro acts hacts log hcoll
    obtain ⟨hintact, -⟩ := intact_run hfresh hacts
    rw [AuditLog.verify, AuditLog.construct_tamper_entries, hintact.kept.construct]
    exact hintact.chained.keepFrom_invalid_iff hlink hcoll removed

/-- The first of two entries is deleted. -/
theorem deletion_found_iff_sample :
    (verifyAuditChain jsonPlatform (HashChain.keepFrom (· = 0) 0 sampleTrail)).valid = false :=
  ((deletion_found_iff jsonPlatform jsonPlatform_writesLink sampleEnv.audit .empty
    (freshDirectory_empty _) (· = 0)).1 [⟨.ok, "1", sampleInput, 0⟩, ⟨.ok, "2", sampleInput, 1⟩]
    (jsonPlatform_collisionFree _)).mpr ⟨0, 1, by decide⟩

def sampleCalls : List LogAction :=
  [.record ⟨.ok, "1", sampleInput, 0⟩, .record ⟨.ok, "2", sampleInput, 1⟩]

/-- The last of two entries is deleted, from the list and from the file, and both verify. -/
theorem not_every_deletion_found :
    let log := (logMachine jsonPlatform sampleEnv.audit .empty).run sampleCalls
    log.entries.length = 2 ∧ WritesLink jsonPlatform ∧ CollisionFree jsonPlatform log.entries ∧
    (verifyAuditChain jsonPlatform (HashChain.keepFrom (· = 1) 0 log.entries)).valid = true ∧
    ((AuditLog.construct sampleEnv.audit (sampleEnv.audit.tamper (· = 1) log.files)).verify
      jsonPlatform).valid = true := by
  intro log
  have hintact : log.Intact jsonPlatform sampleEnv.audit :=
    (intact_run (freshDirectory_empty _) (Machine.meets_of_check (by decide +kernel))).1
  have hlength : log.entries.length = 2 := rfl
  have hvalid : (verifyAuditChain jsonPlatform
      (HashChain.keepFrom (· = 1) 0 log.entries)).valid = true := by
    rw [verifyAuditChain_valid_iff]
    refine HashChain.Valid.of_prefix hintact.chained (HashChain.keepFrom_prefix_of_not_gap ?_)
    rw [hlength]
    rintro ⟨i, j, -, hij, hj, hi, -⟩
    have hi : i = 1 := by simpa using hi
    omega
  refine ⟨hlength, jsonPlatform_writesLink, jsonPlatform_collisionFree _, hvalid, ?_⟩
  rw [AuditLog.verify, AuditLog.construct_tamper_entries, hintact.kept.construct]
  exact hvalid

end Ambit
