import Ambit.Lib.Effect
import Mathlib.Data.Finset.Card
import Mathlib.Data.List.Nodup
import Mathlib.Logic.Relation

/-! Depth-first traversal of a forest that is given by the lists of its nodes' children: the order
in which it comes to the nodes, and programs that visit them in this order while the visits
themselves take nodes out of the lists. -/

namespace DepthFirst

open Effect

variable {ι α : Type}

/-! ## The order -/

section
variable (key : α → ι) (kids : ι → List α)

/-- What is below `p`, in the order of a traversal of at most `fuel` levels. -/
def preorder : ℕ → ι → List α
  | 0, _ => []
  | fuel + 1, p => (kids p).flatMap fun c => c :: preorder fuel (key c)

def Link (p i : ι) : Prop := ∃ c ∈ kids p, key c = i

/-- `i` is reached from `p` by one or more links. -/
def Below : ι → ι → Prop := Relation.TransGen (Link key kids)

structure IsForest : Prop where
  nodup : ∀ p, ((kids p).map key).Nodup
  unique : ∀ p q i, Link key kids p i → Link key kids q i → p = q
  acyclic : ∀ i, ¬ Below key kids i i

/-- Nodes have one parent each, and `p` is on no cycle: whatever there is elsewhere, what is below
`p` is a tree. -/
structure IsTree (p : ι) : Prop where
  nodup : ∀ p, ((kids p).map key).Nodup
  unique : ∀ p q i, Link key kids p i → Link key kids q i → p = q
  acyclic : ¬ Below key kids p p

end

variable {key : α → ι} {kids : ι → List α} {fuel : ℕ} {p q : ι} {c d r : α} {xs ys : List α}

theorem Below.of_kid (h : c ∈ kids p) : Below key kids p (key c) := .single ⟨c, h, rfl⟩

theorem Below.under {i : ι} (h : c ∈ kids p) (hi : Below key kids (key c) i) : Below key kids p i :=
  hi.head ⟨c, h, rfl⟩

theorem IsForest.tree (h : IsForest key kids) (p : ι) : IsTree key kids p :=
  ⟨h.nodup, h.unique, h.acyclic p⟩

/-- A cycle through a child would go through its parent. -/
theorem IsTree.child (h : IsTree key kids p) (hc : c ∈ kids p) : IsTree key kids (key c) where
  nodup := h.nodup
  unique := h.unique
  acyclic hcycle := by
    obtain ⟨q, hq, hlink⟩ := Relation.TransGen.tail'_iff.mp hcycle
    obtain rfl : q = p := h.unique _ _ _ hlink ⟨c, hc, rfl⟩
    exact h.acyclic (Relation.TransGen.head' ⟨c, hc, rfl⟩ hq)

/-- What the traversal comes to is a child of where it starts or of a node below. -/
theorem mem_preorder (h : c ∈ preorder key kids fuel p) :
    ∃ q, (q = p ∨ Below key kids p q) ∧ c ∈ kids q := by
  induction fuel generalizing p with
  | zero => cases h
  | succ fuel ih =>
    obtain ⟨b, hb, hc⟩ := List.mem_flatMap.mp h
    rcases List.mem_cons.mp hc with rfl | hc
    · exact ⟨p, .inl rfl, hb⟩
    · obtain ⟨q, hq, hc⟩ := ih hc
      refine ⟨q, .inr ?_, hc⟩
      rcases hq with rfl | hq
      · exact .of_kid hb
      · exact .under hb hq

theorem below_of_mem_preorder (h : c ∈ preorder key kids fuel p) : Below key kids p (key c) := by
  obtain ⟨q, rfl | hq, hc⟩ := mem_preorder h
  · exact .of_kid hc
  · exact hq.tail ⟨c, hc, rfl⟩

theorem reaches_of_mem_block (h : d ∈ c :: preorder key kids fuel (key c)) :
    Relation.ReflTransGen (Link key kids) (key c) (key d) := by
  rcases List.mem_cons.mp h with rfl | h
  · exact .refl
  · exact (below_of_mem_preorder h).to_reflTransGen

theorem flatMap_eq_append_cons {β : Type} {l : List α} {f : α → List β} {xs ys : List β} {r : β}
    (h : l.flatMap f = xs ++ r :: ys) : ∃ l₁ a l₂ u v, l = l₁ ++ a :: l₂ ∧ f a = u ++ r :: v ∧
      xs = l₁.flatMap f ++ u := by
  induction l generalizing xs with
  | nil => simp at h
  | cons b l ih =>
    rw [List.flatMap_cons] at h
    rcases List.append_eq_append_iff.mp h with ⟨as, rfl, htail⟩ | ⟨bs, hb, htail⟩
    · obtain ⟨l₁, a, l₂, u, v, rfl, ha, rfl⟩ := ih htail
      exact ⟨b :: l₁, a, l₂, u, v, rfl, ha, by rw [List.flatMap_cons, List.append_assoc]⟩
    · cases bs with
      | nil =>
        -- the block of `b` ends before `r`
        rw [List.append_nil] at hb
        obtain ⟨l₁, a, l₂, u, v, rfl, ha, hxs⟩ := @ih [] htail.symm
        refine ⟨b :: l₁, a, l₂, u, v, rfl, ha, ?_⟩
        rw [List.flatMap_cons, List.append_assoc, ← hxs, List.append_nil, hb]
      | cons r' bs =>
        obtain ⟨rfl, -⟩ := List.cons.inj htail
        exact ⟨[], b, l, xs, bs, rfl, hb, rfl⟩

/-- The traversal comes to a node after its parent. -/
theorem parent_before (h : preorder key kids fuel p = xs ++ r :: ys) :
    r ∈ kids p ∨ ∃ c ∈ xs, r ∈ kids (key c) := by
  induction fuel generalizing p xs ys with
  | zero => simp [preorder] at h
  | succ fuel ih =>
    obtain ⟨l₁, a, l₂, u, v, hkids, hblock, rfl⟩ := flatMap_eq_append_cons h
    cases u with
    | nil =>
      obtain ⟨rfl, -⟩ := List.cons.inj hblock
      exact .inl (by simp [hkids])
    | cons a' u =>
      rw [List.cons_append] at hblock
      obtain ⟨rfl, hbelow⟩ := List.cons.inj hblock
      refine .inr ?_
      rcases ih hbelow with hr | ⟨c, hc, hr⟩
      · exact ⟨a, by simp, hr⟩
      · exact ⟨c, by simp [hc], hr⟩

/-- Nothing is at or below two children of one node. -/
theorem IsTree.apart (htree : IsTree key kids p) {i : ι}
    (hc : c ∈ kids p) (hd : d ∈ kids p) (hne : key c ≠ key d)
    (hi : Relation.ReflTransGen (Link key kids) (key c) i) :
    ¬ Relation.ReflTransGen (Link key kids) (key d) i := by
  intro hi'
  -- one of the two would be above the other, and so above `p`
  have habove : ∀ {a b : α}, a ∈ kids p → b ∈ kids p → key a ≠ key b →
      ¬ Relation.ReflTransGen (Link key kids) (key b) (key a) := by
    intro a b ha hb hab h
    rcases Relation.ReflTransGen.cases_tail h with heq | ⟨q, hq, hlink⟩
    · exact hab heq
    · obtain rfl : q = p := htree.unique _ _ _ hlink ⟨a, ha, rfl⟩
      exact htree.acyclic (Relation.TransGen.head' ⟨b, hb, rfl⟩ hq)
  have hunique : Relator.RightUnique (Function.swap (Link key kids)) :=
    fun _ _ _ h h' => htree.unique _ _ _ h h'
  rcases Relation.ReflTransGen.total_of_right_unique hunique
    (Relation.reflTransGen_swap.mpr hi) (Relation.reflTransGen_swap.mpr hi') with h | h
  · exact habove hc hd hne (Relation.reflTransGen_swap.mp h)
  · exact habove hd hc hne.symm (Relation.reflTransGen_swap.mp h)

theorem IsTree.preorder_nodup (htree : IsTree key kids p) (fuel : ℕ) :
    ((preorder key kids fuel p).map key).Nodup := by
  induction fuel generalizing p with
  | zero => exact List.nodup_nil
  | succ fuel ih =>
    rw [preorder, List.map_flatMap, List.nodup_flatMap]
    refine ⟨fun c hc => ?_, ?_⟩
    · rw [List.map_cons, List.nodup_cons]
      refine ⟨fun hmem => ?_, ih (htree.child hc)⟩
      obtain ⟨d, hd, hkey⟩ := List.mem_map.mp hmem
      have hbelow := below_of_mem_preorder hd
      rw [hkey] at hbelow
      exact (htree.child hc).acyclic hbelow
    · have hnodup := htree.nodup p
      rw [List.nodup_iff_pairwise_ne, List.pairwise_map] at hnodup
      refine hnodup.imp_of_mem fun {c d} hc hd hne i hi hi' => ?_
      obtain ⟨e, he, rfl⟩ := List.mem_map.mp hi
      obtain ⟨e', he', hkey⟩ := List.mem_map.mp hi'
      exact htree.apart hc hd hne (reaches_of_mem_block he) (hkey ▸ reaches_of_mem_block he')

section
variable [DecidableEq ι] (htree : IsTree key kids p) {S : Finset ι}

include htree

/-- A child has a node less below it than its parent has. -/
theorem below_erase (hS : ∀ i, Below key kids p i → i ∈ S) (hcard : S.card < fuel + 1)
    (hc : c ∈ kids p) : (∀ i, Below key kids (key c) i → i ∈ S.erase (key c)) ∧
      (S.erase (key c)).card < fuel := by
  have hmem : key c ∈ S := hS _ (.of_kid hc)
  constructor
  · intro i hi
    refine Finset.mem_erase.mpr ⟨?_, hS i (.under hc hi)⟩
    rintro rfl
    exact (htree.child hc).acyclic hi
  · have hpos := Finset.card_pos.mpr ⟨_, hmem⟩
    rw [Finset.card_erase_of_mem hmem]
    omega

/-- With a level for every node below `p`, the traversal comes to all that is below `p`. -/
theorem preorder_closed (hS : ∀ i, Below key kids p i → i ∈ S) (hcard : S.card < fuel) :
    (∀ c ∈ kids p, c ∈ preorder key kids fuel p) ∧
      ∀ c ∈ preorder key kids fuel p, ∀ d ∈ kids (key c), d ∈ preorder key kids fuel p := by
  induction fuel generalizing p S with
  | zero => exact absurd hcard (Nat.not_lt_zero _)
  | succ fuel ih =>
    have hbelow : ∀ b ∈ kids p, (∀ c ∈ kids (key b), c ∈ preorder key kids fuel (key b)) ∧
        ∀ c ∈ preorder key kids fuel (key b), ∀ d ∈ kids (key c),
          d ∈ preorder key kids fuel (key b) := by
      intro b hb
      obtain ⟨hS', hcard'⟩ := below_erase htree hS hcard hb
      exact ih (htree.child hb) hS' hcard'
    refine ⟨fun c hc => List.mem_flatMap.mpr ⟨c, hc, List.mem_cons_self ..⟩, fun c hc d hd => ?_⟩
    obtain ⟨b, hb, hc⟩ := List.mem_flatMap.mp hc
    refine List.mem_flatMap.mpr ⟨b, hb, List.mem_cons_of_mem _ ?_⟩
    rcases List.mem_cons.mp hc with rfl | hc
    · exact (hbelow c hb).1 d hd
    · exact (hbelow b hb).2 c hc d hd

/-- With a level for every node below `p`, the nodes that the traversal comes to are those. -/
theorem mem_preorder_iff {i : ι} (hS : ∀ i, Below key kids p i → i ∈ S) (hcard : S.card < fuel) :
    i ∈ (preorder key kids fuel p).map key ↔ Below key kids p i := by
  constructor
  · intro hi
    obtain ⟨c, hc, rfl⟩ := List.mem_map.mp hi
    exact below_of_mem_preorder hc
  · intro hi
    obtain ⟨hkids, hclosed⟩ := preorder_closed htree hS hcard
    induction hi with
    | single hlink =>
      obtain ⟨c, hc, rfl⟩ := hlink
      exact List.mem_map_of_mem (hkids c hc)
    | tail _ hlink ih =>
      obtain ⟨d, hd, rfl⟩ := hlink
      obtain ⟨c, hc, rfl⟩ := List.mem_map.mp ih
      exact List.mem_map_of_mem (hclosed c hc d hd)

/-- More levels than there are nodes below `p` change nothing. -/
theorem preorder_stable {fuel' : ℕ} (hS : ∀ i, Below key kids p i → i ∈ S) (hcard : S.card < fuel)
    (hcard' : S.card < fuel') : preorder key kids fuel p = preorder key kids fuel' p := by
  induction fuel generalizing p S fuel' with
  | zero => exact absurd hcard (Nat.not_lt_zero _)
  | succ fuel ih =>
    cases fuel' with
    | zero => exact absurd hcard' (Nat.not_lt_zero _)
    | succ fuel' =>
      rw [preorder, preorder]
      refine List.flatMap_congr fun c hc => ?_
      obtain ⟨hS', hlt⟩ := below_erase htree hS hcard hc
      obtain ⟨-, hlt'⟩ := below_erase htree hS hcard' hc
      rw [ih (htree.child hc) hS' hlt hlt']

/-- What comes before the traversal turns to a child of `p`, and what comes before its end, is
closed under children. -/
theorem prefix_closed (hS : ∀ i, Below key kids p i → i ∈ S) (hcard : S.card < fuel)
    (h : preorder key kids fuel p = xs ++ ys) (hturn : ∀ r, ys.head? = some r → r ∈ kids p) :
    ∀ c ∈ xs, ∀ d ∈ kids (key c), d ∈ xs := by
  cases ys with
  | nil =>
    rw [List.append_nil] at h
    exact h ▸ (preorder_closed htree hS hcard).2
  | cons r ys =>
    have hr := hturn r rfl
    cases fuel with
    | zero => exact absurd hcard (Nat.not_lt_zero _)
    | succ fuel =>
      obtain ⟨l₁, a, l₂, u, v, hkids, hblock, rfl⟩ := flatMap_eq_append_cons h
      cases u with
      | cons a' u =>
        -- `r` is below the child `a`, so that `p` would be below itself
        rw [List.cons_append] at hblock
        obtain ⟨rfl, hbelow⟩ := List.cons.inj hblock
        have ha : a ∈ kids p := by simp [hkids]
        have hmem : r ∈ preorder key kids fuel (key a) := by simp [hbelow]
        obtain ⟨q, hq, hrq⟩ := mem_preorder hmem
        obtain rfl : q = p := htree.unique _ _ _ ⟨r, hrq, rfl⟩ ⟨r, hr, rfl⟩
        refine absurd ?_ htree.acyclic
        rcases hq with hq | hq
        · exact .single ⟨a, ha, hq.symm⟩
        · exact .under ha hq
      | nil =>
        intro c hc d hd
        rw [List.append_nil] at hc ⊢
        obtain ⟨b, hb, hc⟩ := List.mem_flatMap.mp hc
        refine List.mem_flatMap.mpr ⟨b, hb, List.mem_cons_of_mem _ ?_⟩
        have hb' : b ∈ kids p := by simp [hkids, hb]
        obtain ⟨hS', hcard'⟩ := below_erase htree hS hcard hb'
        have hclosed := preorder_closed (htree.child hb') hS' hcard'
        rcases List.mem_cons.mp hc with rfl | hc
        · exact hclosed.1 d hd
        · exact hclosed.2 c hc d hd

end

/-! ## Visits along the order -/

section
variable {ε σ : Type} (key : α → ι) (children : σ → ι → List α) (alive : α → Prop)
  [DecidablePred alive] (visit : α → EStateM ε σ PUnit)

/-- Visit the children that are alive, each before those below it, at most `fuel` levels deep. -/
def cascade : ℕ → ι → EStateM ε σ PUnit
  | 0, _ => pure ()
  | fuel + 1, p => do
    (children (← get) p).forM fun c => do
      if alive c then
        visit c
        cascade fuel (key c)

/-- The children that are alive. -/
def living (s : σ) (p : ι) : List α := (children s p).filter alive

/-- A visit takes the node that it visits out of the children that are alive, and keeps `I`. -/
def VisitTakes [DecidableEq ι] (I : σ → Prop) : Prop :=
  ∀ s c s', I s → (∃ p, c ∈ living children alive s p) → visit c s = .ok () s' →
    I s' ∧ ∀ q, living children alive s' q = (living children alive s q).filter (key · ≠ key c)

end

section
variable {ε σ : Type}

theorem forM_cons (f : α → EStateM ε σ PUnit) (a : α) (as : List α) :
    (a :: as).forM f = (f a >>= fun _ => as.forM f) := rfl

theorem forM_append (f : α → EStateM ε σ PUnit) (as bs : List α) :
    (as ++ bs).forM f = (as.forM f >>= fun _ => bs.forM f) := by
  induction as with
  | nil => exact (pure_bind _ _).symm
  | cons a as ih => rw [List.cons_append, forM_cons, forM_cons, ih, bind_assoc]

theorem forM_filter (alive : α → Prop) [DecidablePred alive] (f : α → EStateM ε σ PUnit)
    (as : List α) : (as.forM fun c => if alive c then f c else pure ()) =
      (as.filter alive).forM f := by
  induction as with
  | nil => rfl
  | cons a as ih =>
    rw [forM_cons, ih]
    by_cases ha : alive a
    · rw [if_pos ha, List.filter_cons_of_pos (by simpa using ha), forM_cons]
    · rw [if_neg ha, List.filter_cons_of_neg (by simpa using ha), pure_bind]

theorem forM_flatMap {β : Type} (f : β → EStateM ε σ PUnit) (g : α → List β) (as : List α) :
    (as.flatMap g).forM f = as.forM fun a => (g a).forM f := by
  induction as with
  | nil => rfl
  | cons a as ih => rw [List.flatMap_cons, forM_append, forM_cons, ih]

variable {children : σ → ι → List α} {alive : α → Prop} [DecidablePred alive]
  {visit : α → EStateM ε σ PUnit} [DecidableEq ι] {s s' : σ} {V : List ι}

/-- The state after some nodes were visited, since the state `s`. -/
structure Taken (key : α → ι) (children : σ → ι → List α) (alive : α → Prop) [DecidablePred alive]
    (I : σ → Prop) (s : σ) (V : List ι) (s' : σ) : Prop where
  holds : I s'
  living_eq : ∀ q, living children alive s' q = (living children alive s q).filter (key · ∉ V)

variable {I : σ → Prop}

theorem Taken.snoc (h : Taken key children alive I s V s')
    (htakes : VisitTakes key children alive visit I) {c : α} {p : ι}
    (hc : c ∈ living children alive s p) (hV : key c ∉ V) {s'' : σ}
    (hvisit : visit c s' = .ok () s'') : Taken key children alive I s (V ++ [key c]) s'' := by
  have hc' : c ∈ living children alive s' p := by
    rw [h.living_eq p, List.mem_filter]
    exact ⟨hc, by simpa using hV⟩
  obtain ⟨hI, hliving⟩ := htakes s' c s'' h.holds ⟨p, hc'⟩ hvisit
  refine ⟨hI, fun q => ?_⟩
  rw [hliving q, h.living_eq q, List.filter_filter]
  refine List.filter_congr fun d _ => ?_
  simp [and_comm]

/-- **A cascade is the loop over its order**, in a state in which nothing below `p` was taken. -/
theorem cascade_taken (htakes : VisitTakes key children alive visit I) (fuel : ℕ) :
    ∀ (p : ι) (V : List ι) (s' : σ), IsTree key (living children alive s) p →
    Taken key children alive I s V s' → (∀ i ∈ V, ¬ Below key (living children alive s) p i) →
    cascade key children alive visit fuel p s' =
        (preorder key (living children alive s) fuel p).forM visit s' ∧
      ∀ s'', (preorder key (living children alive s) fuel p).forM visit s' = .ok () s'' →
        Taken key children alive I s (V ++ (preorder key (living children alive s) fuel p).map key) s'' := by
  induction fuel with
  | zero =>
    intro p V s' _ htaken _
    refine ⟨rfl, fun s'' h => ?_⟩
    cases h
    simpa [preorder] using htaken
  | succ fuel ih =>
    intro p V s' htree htaken hV
    let kids := living children alive s
    let block (c : α) : List α := c :: preorder key kids fuel (key c)
    have hkids : living children alive s' p = kids p := by
      rw [htaken.living_eq p, List.filter_eq_self]
      exact fun c hc => by simpa using fun hmem => hV _ hmem (.of_kid hc)
    have hcascade : cascade key children alive visit (fuel + 1) p s' =
        (kids p).forM (fun c => visit c >>= fun _ => cascade key children alive visit fuel (key c)) s' := by
      rw [← hkids]
      exact congrFun (forM_filter alive _ _) s'
    have horder : (preorder key kids (fuel + 1) p).forM visit =
        (kids p).forM fun c => (block c).forM visit := forM_flatMap _ _ _
    -- the loop over the children still to visit, after those in `front`
    suffices H : ∀ todo front s₁, kids p = front ++ todo →
        Taken key children alive I s (V ++ (front.flatMap block).map key) s₁ →
        todo.forM (fun c => visit c >>= fun _ => cascade key children alive visit fuel (key c)) s₁ =
            todo.forM (fun c => (block c).forM visit) s₁ ∧
          ∀ s₂, todo.forM (fun c => (block c).forM visit) s₁ = .ok () s₂ →
            Taken key children alive I s (V ++ ((front ++ todo).flatMap block).map key) s₂ by
      rw [hcascade, horder]
      exact H (kids p) [] s' rfl (by simpa using htaken)
    intro todo
    induction todo with
    | nil =>
      intro front s₁ _ ht
      refine ⟨rfl, fun s₂ h => ?_⟩
      cases h
      rwa [List.append_nil]
    | cons c todo iht =>
      intro front s₁ hsplit ht
      have hc : c ∈ kids p := by simp [hsplit]
      have hapart : ∀ i ∈ V ++ (front.flatMap block).map key,
          ¬ Relation.ReflTransGen (Link key kids) (key c) i := by
        intro i hi hreach
        rcases List.mem_append.mp hi with hi | hi
        · exact hV i hi (Relation.TransGen.head' ⟨c, hc, rfl⟩ hreach)
        · obtain ⟨e, he, rfl⟩ := List.mem_map.mp hi
          obtain ⟨d, hd, he⟩ := List.mem_flatMap.mp he
          have hne : key d ≠ key c := by
            have hnodup := htree.nodup p
            rw [show living children alive s p = front ++ c :: todo from hsplit, List.map_append,
              List.map_cons, List.nodup_append] at hnodup
            exact hnodup.2.2 _ (List.mem_map_of_mem hd) _ (List.mem_cons_self ..)
          have hd' : d ∈ kids p := by simp [hsplit, hd]
          exact htree.apart hd' hc hne (reaches_of_mem_block he) hreach
      rw [forM_cons, forM_cons]
      cases hvisit : visit c s₁ with
      | error e s₂ =>
        have hleft := bind_of_error (f := fun _ => cascade key children alive visit fuel (key c)) hvisit
        have hright : (block c).forM visit s₁ = .error e s₂ := bind_of_error hvisit
        rw [bind_of_error hleft, bind_of_error hright]
        exact ⟨rfl, fun s₂ h => by cases h⟩
      | ok u s₂ =>
        have ht₂ := ht.snoc htakes hc (fun hmem => hapart _ hmem .refl) hvisit
        obtain ⟨heq, hend⟩ := ih (key c) _ s₂ (htree.child hc) ht₂ (fun i hi hbelow => by
          rcases List.mem_append.mp hi with hi | hi
          · exact hapart i hi hbelow.to_reflTransGen
          · rw [List.mem_singleton.mp hi] at hbelow
            exact (htree.child hc).acyclic hbelow)
        have hright : (block c).forM visit s₁ = (preorder key kids fuel (key c)).forM visit s₂ :=
          bind_of_ok hvisit
        have hleft : (visit c >>= fun _ => cascade key children alive visit fuel (key c)) s₁ =
            (preorder key kids fuel (key c)).forM visit s₂ := (bind_of_ok hvisit).trans heq
        cases hrun : (preorder key kids fuel (key c)).forM visit s₂ with
        | error e s₃ =>
          rw [hrun] at hleft hright
          rw [bind_of_error hleft, bind_of_error hright]
          exact ⟨rfl, fun s₂ h => by cases h⟩
        | ok u s₃ =>
          rw [hrun] at hleft hright
          rw [bind_of_ok hleft, bind_of_ok hright]
          have hnext := iht (front ++ [c]) s₃ (by simp [hsplit]) (by
            have ht₃ := hend s₃ hrun
            simpa [block, kids] using ht₃)
          simpa using hnext

end

end DepthFirst
