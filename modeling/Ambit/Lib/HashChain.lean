import Mathlib.Data.List.Induction

/-! Hash chains: each entry stores the hash of the one before it and its own hash, which must be
the digest of its content. Appending an entry linked to the tip keeps a chain valid. While digests
do not collide, a chain from the genesis is determined by its last hash, so a list made of the
hashes of a chain is itself a chain exactly when it is a prefix of that chain. -/

namespace HashChain

variable {E H : Type} (prev : E → Option H) (hash digest : E → H)

/-- The entries are linked from `p` on and carry their digests. -/
def Valid : Option H → List E → Prop
  | _, [] => True
  | p, e :: es => prev e = p ∧ digest e = hash e ∧ Valid (some (hash e)) es

/-- The hash that the next entry has to store. -/
def tip (p : Option H) (es : List E) : Option H :=
  match es.getLast? with
  | some e => some (hash e)
  | none => p

theorem tip_cons (p : Option H) (e : E) (es : List E) :
    tip hash p (e :: es) = tip hash (some (hash e)) es := by
  cases es with
  | nil => rfl
  | cons e' es => rfl

theorem valid_snoc {p : Option H} {es : List E} {e : E} :
    Valid prev hash digest p (es ++ [e]) ↔
      Valid prev hash digest p es ∧ prev e = tip hash p es ∧ digest e = hash e := by
  induction es generalizing p with
  | nil => simp [Valid, tip]
  | cons e' es ih =>
    rw [List.cons_append, Valid, Valid, ih, tip_cons]
    tauto

@[simp] theorem tip_snoc (p : Option H) (es : List E) (e : E) :
    tip hash p (es ++ [e]) = some (hash e) := by
  simp [tip]

variable {prev hash digest} in
theorem Valid.of_prefix {p : Option H} {es fs : List E} (h : Valid prev hash digest p fs)
    (hpre : es <+: fs) : Valid prev hash digest p es := by
  induction es generalizing p fs with
  | nil => trivial
  | cons e es ih =>
    obtain ⟨rest, rfl⟩ := hpre
    exact ⟨h.1, h.2.1, ih h.2.2 ⟨rest, rfl⟩⟩

/-! ## Digests without collisions -/

section
variable {C : Type} {prev : E → Option H} {hash : E → H} {content : E → C} {digest : C → H}

/-- Of the entries given, no two with different contents have the same digest. -/
def CollisionFree (content : E → C) (digest : C → H) (es : List E) : Prop :=
  ∀ a ∈ es, ∀ b ∈ es, digest (content a) = digest (content b) → content a = content b

/-- The link to the entry before is part of the content. -/
def Links (content : E → C) (prev : E → Option H) : Prop :=
  ∀ a b, content a = content b → prev a = prev b

theorem CollisionFree.mono {es fs : List E} (h : CollisionFree content digest fs)
    (hsub : es ⊆ fs) : CollisionFree content digest es :=
  fun a ha b hb => h a (hsub ha) b (hsub hb)

/-- An entry as it is stored: its content, and its hash beside it. -/
def mark (content : E → C) (hash : E → H) (e : E) : C × H := (content e, hash e)

theorem tip_eq_of_marks {p : Option H} {es fs : List E}
    (h : es.map (mark content hash) = fs.map (mark content hash)) :
    tip hash p es = tip hash p fs := by
  have hlast : es.getLast?.map hash = fs.getLast?.map hash := by
    have := congrArg (fun marks => marks.getLast?.map Prod.snd) h
    simpa [List.getLast?_map, mark, Function.comp_def] using this
  rcases hes : es.getLast? with _ | e <;> rcases hfs : fs.getLast? with _ | f <;>
    simp_all [tip]

variable {chain : List E} (hchain : Valid prev hash (fun e => digest (content e)) none chain)
  (hlinks : Links content prev)
include hchain

theorem Valid.digest_eq {e : E} (he : e ∈ chain) : digest (content e) = hash e := by
  obtain ⟨before, after, rfl⟩ := List.append_of_mem he
  have hpre : Valid prev hash (fun e => digest (content e)) none (before ++ [e]) :=
    hchain.of_prefix ⟨after, by simp⟩
  exact ((valid_snoc ..).mp hpre).2.2

include hlinks

/-- No two prefixes of a chain end in the same hash: going back along equal contents, one of
them would reach the genesis before the other. -/
theorem Valid.tip_injective (hcoll : CollisionFree content digest chain) {es fs : List E}
    (hes : es <+: chain) (hfs : fs <+: chain) (htip : tip hash none es = tip hash none fs) :
    es = fs := by
  induction es using List.reverseRecOn generalizing fs with
  | nil =>
    rcases List.eq_nil_or_concat fs with rfl | ⟨fs, f, rfl⟩
    · rfl
    · simp [tip] at htip
  | append_singleton es e ih =>
    rcases List.eq_nil_or_concat fs with rfl | ⟨fs, f, rfl⟩
    · simp [tip] at htip
    · rw [List.concat_eq_append] at hfs htip ⊢
      have he : e ∈ chain := hes.subset (by simp)
      have hf : f ∈ chain := hfs.subset (by simp)
      have hhash : hash e = hash f := by simpa using htip
      have hcontent : content e = content f := by
        apply hcoll e he f hf
        rw [hchain.digest_eq he, hchain.digest_eq hf, hhash]
      have hprev := hlinks e f hcontent
      rw [((valid_snoc ..).mp (hchain.of_prefix hes)).2.1,
        ((valid_snoc ..).mp (hchain.of_prefix hfs)).2.1] at hprev
      have hlen : es = fs :=
        ih ((List.prefix_append es [e]).trans hes) ((List.prefix_append fs [f]).trans hfs) hprev
      subst hlen
      obtain ⟨rest, hrest⟩ := hes
      obtain ⟨rest', hrest'⟩ := hfs
      have := hrest.trans hrest'.symm
      simp only [List.append_assoc, List.append_cancel_left_eq, List.cons_append,
        List.nil_append, List.cons.injEq] at this
      rw [this.1]

/-- An entry with a hash of the chain that follows a prefix of it is the next one of the chain. -/
theorem Valid.next_of_hash {es : List E} {t : E}
    (hcoll : CollisionFree content digest (chain ++ [t])) (hes : es <+: chain)
    (hhash : ∃ e ∈ chain, hash t = hash e) (hprev : prev t = tip hash none es)
    (hdigest : digest (content t) = hash t) :
    ∃ e, es ++ [e] <+: chain ∧ mark content hash t = mark content hash e := by
  obtain ⟨e, he, heq⟩ := hhash
  have hcontent : content t = content e := by
    apply hcoll t (by simp) e (by simp [he])
    rw [hdigest, heq, hchain.digest_eq he]
  obtain ⟨before, after, hsplit⟩ := List.append_of_mem he
  have hpre : before ++ [e] <+: chain := ⟨after, by simp [hsplit]⟩
  have hbefore : before = es := by
    apply hchain.tip_injective hlinks (hcoll.mono (by simp))
      ((List.prefix_append before [e]).trans hpre) hes
    rw [← hprev, hlinks t e hcontent, ((valid_snoc ..).mp (hchain.of_prefix hpre)).2.1]
  subst hbefore
  exact ⟨e, hpre, by simp [mark, hcontent, heq]⟩

/-- **Tamper evidence.** A list whose entries carry hashes of a chain is a chain itself exactly
when it is stored as a prefix of that chain is. -/
theorem Valid.iff_prefix {ts : List E} (hhash : ∀ t ∈ ts, ∃ e ∈ chain, hash t = hash e)
    (hcoll : CollisionFree content digest (chain ++ ts)) :
    Valid prev hash (fun e => digest (content e)) none ts ↔
      ∃ es, es <+: chain ∧ ts.map (mark content hash) = es.map (mark content hash) := by
  induction ts using List.reverseRecOn with
  | nil => exact ⟨fun _ => ⟨[], List.nil_prefix, rfl⟩, fun _ => trivial⟩
  | append_singleton ts t ih =>
    have ih := ih (fun t ht => hhash t (by simp [ht])) (hcoll.mono (by simp))
    rw [valid_snoc, ih]
    constructor
    · rintro ⟨⟨es, hes, hmarks⟩, hprev, hdigest⟩
      rw [tip_eq_of_marks hmarks] at hprev
      have hcoll' : CollisionFree content digest (chain ++ [t]) :=
        hcoll.mono (by intro x; simp; tauto)
      obtain ⟨e, hpre, hmark⟩ :=
        hchain.next_of_hash hlinks hcoll' hes (hhash t (by simp)) hprev hdigest
      exact ⟨es ++ [e], hpre, by simp [hmarks, hmark]⟩
    · rintro ⟨es, hes, hmarks⟩
      rcases List.eq_nil_or_concat es with rfl | ⟨es, e, rfl⟩
      · simp at hmarks
      · rw [List.concat_eq_append] at hes hmarks
        simp only [List.map_append, List.map_cons, List.map_nil] at hmarks
        obtain ⟨hmarks, hmark⟩ := List.append_inj' hmarks rfl
        obtain ⟨hcontent, heq⟩ : content t = content e ∧ hash t = hash e := by
          simpa [mark] using hmark
        obtain ⟨-, hprev, hdigest⟩ := (valid_snoc ..).mp (hchain.of_prefix hes)
        refine ⟨⟨es, (List.prefix_append es [e]).trans hes, hmarks⟩, ?_, ?_⟩
        · rw [hlinks t e hcontent, hprev, tip_eq_of_marks hmarks]
        · rw [hcontent, hdigest, heq]

end

/-! ## Deletions -/

/-- What is left when the elements at some places are deleted; places are counted from `n`. -/
def keepFrom {E : Type} (removed : Nat → Bool) : Nat → List E → List E
  | _, [] => []
  | n, e :: es =>
    if removed n then keepFrom removed (n + 1) es else e :: keepFrom removed (n + 1) es

section
variable {removed : Nat → Bool}

theorem keepFrom_append (n : Nat) (es fs : List E) :
    keepFrom removed n (es ++ fs) = keepFrom removed n es ++ keepFrom removed (n + es.length) fs := by
  induction es generalizing n with
  | nil => rfl
  | cons e es ih =>
    have hcount : n + (e :: es).length = n + 1 + es.length := by simp; omega
    rw [List.cons_append, keepFrom, keepFrom, ih, hcount]
    split <;> rfl

theorem keepFrom_subset (n : Nat) (es : List E) : keepFrom removed n es ⊆ es := by
  induction es generalizing n with
  | nil => exact List.Subset.refl _
  | cons e es ih =>
    rw [keepFrom]
    split
    · exact List.subset_cons_of_subset e (ih _)
    · exact List.cons_subset_cons e (ih _)

theorem keepFrom_eq_nil_iff {n : Nat} {es : List E} :
    keepFrom removed n es = [] ↔ ∀ i < es.length, removed (n + i) = true := by
  induction es generalizing n with
  | nil => simp [keepFrom]
  | cons e es ih =>
    rw [keepFrom]
    constructor
    · intro h i hi
      split at h
      · rename_i hn
        cases i with
        | zero => exact hn
        | succ i =>
          have := ih.mp h i (by simpa using hi)
          rwa [Nat.add_assoc, Nat.add_comm 1] at this
      · cases h
    · intro h
      have hn : removed n = true := h 0 (by simp)
      rw [if_pos hn]
      refine ih.mpr fun i hi => ?_
      have := h (i + 1) (by simpa using hi)
      rwa [Nat.add_assoc, Nat.add_comm 1]

/-- A deleted place with a kept one after it, among the places from `n` on. -/
def Gap (removed : Nat → Bool) (n length : Nat) : Prop :=
  ∃ i j, n ≤ i ∧ i < j ∧ j < n + length ∧ removed i = true ∧ removed j = false

theorem keepFrom_prefix_of_not_gap {n : Nat} {es : List E} (h : ¬ Gap removed n es.length) :
    keepFrom removed n es <+: es := by
  induction es generalizing n with
  | nil => exact List.prefix_rfl
  | cons e es ih =>
    rw [keepFrom]
    split
    · rename_i hn
      have hnil : keepFrom removed (n + 1) es = [] := by
        refine keepFrom_eq_nil_iff.mpr fun i hi => ?_
        by_contra hkept
        exact h ⟨n, n + 1 + i, Nat.le_refl n, by omega, by simp; omega, hn,
          Bool.eq_false_iff.mpr hkept⟩
      rw [hnil]
      exact List.nil_prefix
    · have hrest : ¬ Gap removed (n + 1) es.length := by
        rintro ⟨i, j, hi, hij, hj, hremoved, hkept⟩
        exact h ⟨i, j, by omega, hij, by simp; omega, hremoved, hkept⟩
      exact List.cons_prefix_cons.mpr ⟨rfl, ih hrest⟩

variable {C : Type} {prev : E → Option H} {hash : E → H} {content : E → C} {digest : C → H}

/-- From a place on, what is left of a chain links up only if nothing is kept after a deletion. -/
theorem Valid.not_gap (before : List E) {rest : List E}
    (hchain : Valid prev hash (fun e => digest (content e)) none (before ++ rest))
    (hlinks : Links content prev) (hcoll : CollisionFree content digest (before ++ rest))
    (h : Valid prev hash (fun e => digest (content e)) (tip hash none before)
      (keepFrom removed before.length rest)) : ¬ Gap removed before.length rest.length := by
  induction rest generalizing before with
  | nil =>
    rintro ⟨i, j, hi, hij, hj, -, -⟩
    simp at hj
    omega
  | cons e rest ih =>
    have hassoc : before ++ e :: rest = (before ++ [e]) ++ rest := by simp
    rw [keepFrom] at h
    split at h
    · rename_i hn
      -- the first entry kept would have to follow both `before` and an entry after it
      have hnil : keepFrom removed (before.length + 1) rest = [] := by
        cases hkeep : keepFrom removed (before.length + 1) rest with
        | nil => rfl
        | cons f kept =>
          have hf : f ∈ rest := keepFrom_subset _ _ (hkeep ▸ List.mem_cons_self)
          obtain ⟨between, after, rfl⟩ := List.append_of_mem hf
          have hpre : before ++ e :: between ++ [f] <+: before ++ e :: (between ++ f :: after) :=
            ⟨after, by simp⟩
          rw [hkeep] at h
          have hprev := ((valid_snoc ..).mp (hchain.of_prefix hpre)).2.1
          rw [h.1] at hprev
          have heq := hchain.tip_injective hlinks hcoll (List.prefix_append ..)
            ((List.prefix_append _ [f]).trans hpre) hprev
          simpa using congrArg List.length heq
      rintro ⟨i, j, hi, hij, hj, -, hkept⟩
      have hremoved := keepFrom_eq_nil_iff.mp hnil (j - (before.length + 1))
        (by simp at hj; omega)
      rw [show before.length + 1 + (j - (before.length + 1)) = j by omega, hkept] at hremoved
      cases hremoved
    · rename_i hn
      have hlength : (before ++ [e]).length = before.length + 1 := by simp
      have hrest : ¬ Gap removed (before.length + 1) rest.length := by
        rw [← hlength]
        apply ih
        · rwa [hassoc] at hchain
        · rwa [hassoc] at hcoll
        · rw [tip_snoc, hlength]
          exact h.2.2
      rintro ⟨i, j, hi, hij, hj, hremoved, hkept⟩
      rcases Nat.eq_or_lt_of_le hi with rfl | hlt
      · exact hn hremoved
      · exact hrest ⟨i, j, hlt, hij, by simp at hj; omega, hremoved, hkept⟩

/-- **Deletions.** What is left of a chain is a chain exactly when the deletions are at its end. -/
theorem Valid.keepFrom_iff {chain : List E}
    (hchain : Valid prev hash (fun e => digest (content e)) none chain)
    (hlinks : Links content prev) (hcoll : CollisionFree content digest chain) :
    Valid prev hash (fun e => digest (content e)) none (keepFrom removed 0 chain) ↔
      ¬ Gap removed 0 chain.length := by
  constructor
  · intro h
    exact Valid.not_gap [] hchain hlinks hcoll h
  · intro h
    exact hchain.of_prefix (keepFrom_prefix_of_not_gap h)

end

end HashChain
