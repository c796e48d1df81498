import Ambit.JsonlStore
import Ambit.Lib.JsonDecimal
import Ambit.RecordLines
import Ambit.Lib.Machine

/-! The five stores on their files. A save changes the map and appends a line; a store constructed on
the file replays the lines through its reviver. The bytes of the file stand for a `Journal`, so a
restart gives back the live map up to images. -/

namespace Ambit

open Json

variable {T : Type}

/-- What distinguishes the stores: the key of a record, the members of its line, the reviver. -/
structure StoreFormat (T : Type) where
  key : T → String
  members : T → List (Text × Value)
  revive : Value → Option T

structure FileStore (T : Type) where
  live : OrderedMap String T
  file : Option Text

namespace FileStore

/-- The constructor with `persistTo`. -/
def construct (fmt : StoreFormat T) (file : Option Text) : FileStore T where
  live := Journal.replay fmt.key (rehydrateJsonLines fmt.revive file)
  file

def save (fmt : StoreFormat T) (s : FileStore T) (record : T) : FileStore T where
  live := s.live.set (fmt.key record) record
  file := appendJsonLine s.file (.object (fmt.members record))

def get (s : FileStore T) (id : String) : Option T := s.live.get id

def list (s : FileStore T) : List T := s.live.values

def childrenOf (s : FileStore Token) (parentId : String) : List Token :=
  s.list.filter fun t => t.parentTokenId = some parentId

def pending (s : FileStore PendingRequest) : List PendingRequest :=
  s.list.filter fun r => r.status = .pending

def findByIdempotencyKey (s : FileStore PendingRequest) (subject idempotencyKey : String) :
    Option PendingRequest :=
  s.list.find? fun r => r.subject = subject ∧ r.idempotencyKey = some idempotencyKey

def findBySubject (s : FileStore AgentIdentity) (subject : String) : Option AgentIdentity :=
  s.list.find? fun i => i.subject = subject

end FileStore

inductive StoreAction (T : Type) where
  | save (record : T)
  | restart

/-- A store over its life: saves, and restarts on its file. -/
def storeMachine (fmt : StoreFormat T) : Machine (FileStore T) (StoreAction T) where
  init := .construct fmt none
  step s
    | .save record => s.save fmt record
    | .restart => .construct fmt s.file

/-! ## The file as a journal -/

/-- The records of which `P` holds are read back as their images, of which it holds again. -/
structure StoreFormat.Reads (fmt : StoreFormat T) (image : T → T) (P : T → Prop) : Prop where
  revive : ∀ a, P a → fmt.revive (.object (fmt.members a)) = some (image a)
  key : ∀ a, fmt.key (image a) = fmt.key a
  closed : ∀ a, P a → P (image a)
  idem : ∀ a, image (image a) = image a

namespace FileStore

variable {fmt : StoreFormat T} {image : T → T} {P : T → Prop} {s : FileStore T}

/-- The live map with what the lines of the file revive to. -/
def journal (fmt : StoreFormat T) (s : FileStore T) : Journal String T :=
  ⟨s.live, rehydrateJsonLines fmt.revive s.file⟩

/-- The file consists of whole lines. -/
def Whole (s : FileStore T) : Prop := ∃ objects, s.file.getD [] = objectLines objects

theorem Whole.save (h : s.Whole) (record : T) : (s.save fmt record).Whole := by
  obtain ⟨objects, hobjects⟩ := h
  exact ⟨_, appendJsonLine_objectLines hobjects _⟩

/-- A save is a save to the journal. -/
theorem journal_save (hreads : fmt.Reads image P) (h : s.Whole) {record : T} (hrecord : P record) :
    (s.save fmt record).journal fmt = (s.journal fmt).save fmt.key image true record := by
  obtain ⟨objects, hobjects⟩ := h
  have hlines : rehydrateJsonLines fmt.revive (s.save fmt record).file =
      rehydrateJsonLines fmt.revive s.file ++ [image record] := by
    rw [FileStore.save, rehydrate_objectLines hobjects,
      rehydrate_objectLines (appendJsonLine_objectLines hobjects (fmt.members record)),
      List.filterMap_append]
    simp [hreads.revive record hrecord]
  rw [journal, hlines]
  rfl

structure Sound (fmt : StoreFormat T) (image : T → T) (P : T → Prop) (s : FileStore T) : Prop where
  whole : s.Whole
  journal : (s.journal fmt).Sound fmt.key image
  holds : ∀ a ∈ s.list, P a

theorem Sound.construct (hreads : fmt.Reads image P) (h : s.Sound fmt image P) :
    (construct fmt s.file).Sound fmt image P := by
  refine ⟨h.whole, h.journal.reopen hreads.key hreads.idem, ?_⟩
  show ∀ a ∈ ((s.journal fmt).reopen fmt.key).live.values, P a
  rw [h.journal.durable.reopen_live, OrderedMap.values_mapValues]
  intro a ha
  obtain ⟨b, hb, rfl⟩ := List.mem_map.mp ha
  exact hreads.closed b (h.holds b hb)

theorem Sound.save (hreads : fmt.Reads image P) (h : s.Sound fmt image P) {record : T}
    (hrecord : P record) : (s.save fmt record).Sound fmt image P := by
  refine ⟨h.whole.save record, ?_, ?_⟩
  · rw [journal_save hreads h.whole hrecord]
    exact h.journal.save record (hreads.key record)
  · intro a ha
    obtain ⟨id, hid⟩ := OrderedMap.mem_values_iff.mp ha
    rw [FileStore.save, OrderedMap.get_set] at hid
    split at hid
    · cases hid
      exact hrecord
    · exact h.holds a (OrderedMap.mem_values_iff.mpr ⟨id, hid⟩)

theorem sound_run (hreads : fmt.Reads image P) {acts : List (StoreAction T)}
    (hacts : ∀ record, .save record ∈ acts → P record) :
    ((storeMachine fmt).run acts).Sound fmt image P := by
  induction acts using List.reverseRecOn with
  | nil =>
    refine ⟨⟨[], rfl⟩, Journal.sound_empty, ?_⟩
    intro a ha
    cases ha
  | append_singleton acts a ih =>
    have ih := ih fun record hrecord => hacts record (List.mem_append_left _ hrecord)
    rw [Machine.run_snoc]
    cases a with
    | save record => exact ih.save hreads (hacts record (by simp))
    | restart => exact ih.construct hreads

/-- A store constructed on the file holds the images of the live records, in their order. -/
theorem Sound.reopened (h : s.Sound fmt image P) :
    (FileStore.construct fmt s.file).live = s.live.mapValues image := h.journal.durable

end FileStore

/-! ## The five stores -/

def tokenFormat : StoreFormat Token := ⟨Token.id, Token.members, reviveToken⟩

def agentIdentityFormat : StoreFormat AgentIdentity :=
  ⟨AgentIdentity.id, AgentIdentity.members, reviveAgentIdentity⟩

def redactionRuleFormat : StoreFormat RedactionRule :=
  ⟨RedactionRule.id, RedactionRule.members, reviveRedactionRule⟩

def requestFormat (c : JsonNumbers) : StoreFormat PendingRequest :=
  ⟨PendingRequest.id, PendingRequest.members c, revivePendingRequest c⟩

def policyFormat (c : JsonNumbers) : StoreFormat Policy :=
  ⟨Policy.id, Policy.members c, revivePolicy c⟩

/-- The dates of the token are valid. -/
structure Token.ValidDates (t : Token) : Prop extends t.InRange where
  valid : t.expiresAt.Valid

/-- The dates of the request are valid, its numbers finite. -/
structure PendingRequest.ValidData (r : PendingRequest) : Prop extends r.InRange where
  finite : ∃ q, r.ttlSeconds = .finite q

structure Policy.ValidData (policy : Policy) : Prop extends policy.InRange where
  finite : ∃ q, policy.maxTtlSeconds = .finite q

def PendingRequest.withoutSecret (r : PendingRequest) : PendingRequest := { r with tokenSecret := none }

theorem Token.ValidDates.image_eq {t : Token} (h : t.ValidDates) : t.image = t := by
  rw [Token.image, Date.reload_of_valid h.valid]

theorem PendingRequest.ValidData.image_eq {r : PendingRequest} (h : r.ValidData) :
    r.image = r.withoutSecret := by
  obtain ⟨q, hq⟩ := h.finite
  rw [PendingRequest.image, PendingRequest.withoutSecret, hq, JsNumber.reload, ← hq]

theorem Policy.ValidData.image_eq {policy : Policy} (h : policy.ValidData) :
    policy.image = policy := by
  obtain ⟨q, hq⟩ := h.finite
  rw [Policy.image, hq, JsNumber.reload, ← hq]

theorem tokenFormat_reads : tokenFormat.Reads Token.image Token.ValidDates where
  revive t h := reviveToken_members h.toInRange
  key _ := rfl
  closed t h := by rwa [h.image_eq]
  idem := Token.image_image

theorem requestFormat_reads (c : JsonNumbers) :
    (requestFormat c).Reads PendingRequest.image PendingRequest.ValidData where
  revive r h := revivePendingRequest_members c h.toInRange
  key _ := rfl
  closed r h := by
    rw [h.image_eq]
    exact ⟨⟨h.ttlSeconds, h.requestedAt⟩, h.finite⟩
  idem := PendingRequest.image_image

theorem policyFormat_reads (c : JsonNumbers) :
    (policyFormat c).Reads Policy.image Policy.ValidData where
  revive policy h := revivePolicy_members c h.toInRange
  key _ := rfl
  closed policy h := by rwa [h.image_eq]
  idem := Policy.image_image

theorem agentIdentityFormat_reads :
    agentIdentityFormat.Reads (fun i => i) fun i => IsoDate.IsTime i.createdAt where
  revive _ h := reviveAgentIdentity_members h
  key _ := rfl
  closed _ h := h
  idem _ := rfl

theorem redactionRuleFormat_reads :
    redactionRuleFormat.Reads (fun r => r) fun r => IsoDate.IsTime r.createdAt where
  revive _ h := reviveRedactionRule_members h
  key _ := rfl
  closed _ h := h
  idem _ := rfl

section
variable {fmt : StoreFormat T} {image : T → T} {P : T → Prop}

/-- Where the images are the records, a restart changes nothing that a store shows. -/
theorem reopened_live_eq (hreads : fmt.Reads image P) (himage : ∀ a, P a → image a = a)
    {acts : List (StoreAction T)} (hacts : ∀ record, .save record ∈ acts → P record) :
    (FileStore.construct fmt ((storeMachine fmt).run acts).file).live =
      ((storeMachine fmt).run acts).live := by
  have hsound := FileStore.sound_run hreads hacts
  rw [hsound.reopened, OrderedMap.mapValues_congr fun a ha => himage a (hsound.holds a ha)]
  exact OrderedMap.mapValues_id _

end

theorem reopened_requests (c : JsonNumbers) {acts : List (StoreAction PendingRequest)}
    (hacts : ∀ r, .save r ∈ acts → r.ValidData) :
    (FileStore.construct (requestFormat c) ((storeMachine (requestFormat c)).run acts).file).live =
      ((storeMachine (requestFormat c)).run acts).live.mapValues PendingRequest.withoutSecret := by
  have hsound := FileStore.sound_run (requestFormat_reads c) hacts
  rw [hsound.reopened]
  exact OrderedMap.mapValues_congr fun r hr => (hsound.holds r hr).image_eq

/-- Every line of the request file is the line of a record. -/
theorem requestLines (c : JsonNumbers) (acts : List (StoreAction PendingRequest)) :
    ∃ records : List PendingRequest,
      ((storeMachine (requestFormat c)).run acts).file.getD [] =
        objectLines (records.map (PendingRequest.members c)) := by
  induction acts using List.reverseRecOn with
  | nil => exact ⟨[], rfl⟩
  | append_singleton acts a ih =>
    obtain ⟨records, hrecords⟩ := ih
    rw [Machine.run_snoc]
    cases a with
    | restart => exact ⟨records, hrecords⟩
    | save r =>
      refine ⟨records ++ [r], ?_⟩
      rw [List.map_append]
      exact appendJsonLine_objectLines hrecords (r.members c)

theorem requestFile_no_secret (c : JsonNumbers) (acts : List (StoreAction PendingRequest))
    {line : Text} {ms : List (Text × Value)}
    (hline : line ∈ (((storeMachine (requestFormat c)).run acts).file.getD []).splitOn 0x0A)
    (hparse : parse line = some (.object ms)) : utf8 "tokenSecret" ∉ ms.map Prod.fst := by
  obtain ⟨records, hrecords⟩ := requestLines c acts
  rw [hrecords, splitOn_objectLines, List.map_map] at hline
  rcases List.mem_append.mp hline with hline | hline
  · obtain ⟨r, -, rfl⟩ := List.mem_map.mp hline
    rw [Function.comp_apply, parse_stringify] at hparse
    cases hparse
    exact r.no_tokenSecret c
  · rw [List.mem_singleton.mp hline] at hparse
    cases hparse

/-- **A restart is invisible.** After any saves of records with valid dates and finite numbers, and
any restarts between them, a store constructed on the file shows what the store that wrote it
shows, but for the secrets of requests; and no line of the request file has one, whatever was
saved. -/
theorem restart_invisible (c : JsonNumbers) :
    (∀ acts, (∀ t : Token, .save t ∈ acts → t.ValidDates) →
      let before := (storeMachine tokenFormat).run acts
      let after := FileStore.construct tokenFormat before.file
      (∀ id, after.get id = before.get id) ∧ after.list = before.list ∧
        ∀ parentId, after.childrenOf parentId = before.childrenOf parentId) ∧
    (∀ acts, (∀ r : PendingRequest, .save r ∈ acts → r.ValidData) →
      let before := (storeMachine (requestFormat c)).run acts
      let after := FileStore.construct (requestFormat c) before.file
      (∀ id, after.get id = (before.get id).map PendingRequest.withoutSecret) ∧
        after.pending = before.pending.map PendingRequest.withoutSecret ∧
        ∀ subject key, after.findByIdempotencyKey subject key =
          (before.findByIdempotencyKey subject key).map PendingRequest.withoutSecret) ∧
    (∀ acts, (∀ policy : Policy, .save policy ∈ acts → policy.ValidData) →
      let before := (storeMachine (policyFormat c)).run acts
      let after := FileStore.construct (policyFormat c) before.file
      (∀ id, after.get id = before.get id) ∧ after.list = before.list) ∧
    (∀ acts, (∀ i : AgentIdentity, .save i ∈ acts → IsoDate.IsTime i.createdAt) →
      let before := (storeMachine agentIdentityFormat).run acts
      let after := FileStore.construct agentIdentityFormat before.file
      (∀ id, after.get id = before.get id) ∧ after.list = before.list ∧
        ∀ subject, after.findBySubject subject = before.findBySubject subject) ∧
    (∀ acts, (∀ r : RedactionRule, .save r ∈ acts → IsoDate.IsTime r.createdAt) →
      let before := (storeMachine redactionRuleFormat).run acts
      let after := FileStore.construct redactionRuleFormat before.file
      (∀ id, after.get id = before.get id) ∧ after.list = before.list) ∧
    (∀ acts line ms, line ∈ (((storeMachine (requestFormat c)).run acts).file.getD []).splitOn 0x0A →
      parse line = some (.object ms) → utf8 "tokenSecret" ∉ ms.map Prod.fst) := by
  refine ⟨?_, ?_, ?_, ?_, ?_, ?_⟩
  · intro acts hacts before after
    have hlive : after.live = before.live :=
      reopened_live_eq tokenFormat_reads (fun t h => h.image_eq) hacts
    simp [FileStore.get, FileStore.list, FileStore.childrenOf, hlive]
  · intro acts hacts before after
    have hlive : after.live = before.live.mapValues PendingRequest.withoutSecret :=
      reopened_requests c hacts
    simp only [FileStore.get, FileStore.pending, FileStore.findByIdempotencyKey, FileStore.list,
      hlive, OrderedMap.get_mapValues, OrderedMap.values_mapValues, List.filter_map,
      List.find?_map]
    exact ⟨fun _ => trivial, rfl, fun _ _ => rfl⟩
  · intro acts hacts before after
    have hlive : after.live = before.live :=
      reopened_live_eq (policyFormat_reads c) (fun policy h => h.image_eq) hacts
    simp [FileStore.get, FileStore.list, hlive]
  · intro acts hacts before after
    have hlive : after.live = before.live :=
      reopened_live_eq agentIdentityFormat_reads (fun _ _ => rfl) hacts
    simp [FileStore.get, FileStore.list, FileStore.findBySubject, hlive]
  · intro acts hacts before after
    have hlive : after.live = before.live :=
      reopened_live_eq redactionRuleFormat_reads (fun _ _ => rfl) hacts
    simp [FileStore.get, FileStore.list, hlive]
  · intro acts line ms hline hparse
    exact requestFile_no_secret c acts hline hparse

def sampleNumbers : JsonNumbers where
  literal q := ⟨rationalText q, isNumber_rationalText q⟩
  value := readRational
  value_literal q _ := readRational_rationalText q

/-- An approved request whose secret is not yet claimed. -/
def sampleUnclaimed : PendingRequest where
  subject := "agent"
  scope := ["email:send"]
  ttlSeconds := .finite 300
  id := "r-1"
  status := .approved
  requestedAt := 1753315200123
  tokenId := some "t-1"
  tokenSecret := some "secret"
  idempotencyKey := some "key"

theorem restart_invisible_sample :
    let before := (storeMachine (requestFormat sampleNumbers)).run [.save sampleUnclaimed, .restart]
    let after := FileStore.construct (requestFormat sampleNumbers) before.file
    after.findByIdempotencyKey "agent" "key" =
      (before.findByIdempotencyKey "agent" "key").map PendingRequest.withoutSecret := by
  refine ((restart_invisible sampleNumbers).2.1 [.save sampleUnclaimed, .restart] ?_).2.2 "agent" "key"
  intro r hr
  obtain rfl : r = sampleUnclaimed := by simpa using hr
  exact ⟨⟨⟨300, 0, by decide, by decide, by decide, by norm_num⟩, by decide⟩, ⟨300, rfl⟩⟩

end Ambit
