import Mathlib.Data.List.Chain
import Mathlib.Data.List.Nodup
import Mathlib.Logic.Relation

/-! Forests given by parent links: `parent i p` says that `p` is the parent of `i`. A node inherits
from its ancestors, and a rank that drops from parent to child bounds the length of a chain. -/

namespace Forest

variable {ι : Type} {parent : ι → ι → Prop}

/-- `p` is reached from `i` by one or more parent links. -/
def Ancestor (parent : ι → ι → Prop) : ι → ι → Prop := Relation.TransGen parent

/-- A property that passes from every parent to its children passes from every ancestor. -/
theorem Ancestor.inherit {P : ι → Prop} (hstep : ∀ i p, parent i p → P p → P i) {i p : ι}
    (h : Ancestor parent i p) (hp : P p) : P i := by
  induction h using Relation.TransGen.head_induction_on with
  | single hparent => exact hstep _ _ hparent hp
  | head hparent _ ih => exact hstep _ _ hparent ih

/-- A transitive relation of every node to its parent relates every node to its ancestors. -/
theorem Ancestor.related {R : ι → ι → Prop} [IsTrans ι R] (hstep : ∀ i p, parent i p → R i p)
    {i p : ι} (h : Ancestor parent i p) : R i p :=
  Relation.transGen_minimal hstep _ _ h

/-! ## Cascades -/

/-- `i` is reached from `p` by one or more child links, each to a node that is alive. -/
def Reached (parent : ι → ι → Prop) (alive : ι → Prop) : ι → ι → Prop :=
  Relation.TransGen fun p i => parent i p ∧ alive i

variable {alive : ι → Prop} {p i : ι}

theorem Reached.child (hparent : parent i p) (halive : alive i) : Reached parent alive p i :=
  .single ⟨hparent, halive⟩

theorem Reached.below {j : ι} (hparent : parent i p) (halive : alive i)
    (h : Reached parent alive i j) : Reached parent alive p j := h.head ⟨hparent, halive⟩

theorem Reached.target_alive (h : Reached parent alive p i) : alive i := by
  cases h with
  | single h => exact h.2
  | tail _ h => exact h.2

theorem Reached.mono {alive' : ι → Prop} (hmono : ∀ i, alive' i → alive i)
    (h : Reached parent alive' p i) : Reached parent alive p i :=
  Relation.TransGen.mono (fun _ _ h => ⟨h.1, hmono _ h.2⟩) _ _ h

/-- A set that holds the living children of `p` and those of its members holds all that is reached
from `p`. -/
theorem Reached.subset {S : ι → Prop} (hp : ∀ i, parent i p → alive i → S i)
    (hS : ∀ j i, S j → parent i j → alive i → S i) (h : Reached parent alive p i) : S i := by
  induction h with
  | single h => exact hp _ h.1 h.2
  | tail _ h ih => exact hS _ _ ih h.1 h.2

/-- A child is reached through its parent, where nodes have one parent each. -/
theorem Reached.parent_cases (hfun : ∀ i p q, parent i p → parent i q → p = q) {q : ι}
    (h : Reached parent alive p i) (hparent : parent i q) : q = p ∨ alive q := by
  cases h with
  | single h => exact .inl (hfun i q p hparent h.1)
  | tail h' h =>
    obtain rfl := hfun i q _ hparent h.1
    exact .inr (Reached.target_alive h')

/-- What a cascade from `p` has taken, once it has gone through the children in `visited`. -/
structure Swept (parent : ι → ι → Prop) (alive : ι → Prop) (visited taken : List ι) : Prop where
  taken_alive : ∀ i ∈ taken, alive i
  nodup : taken.Nodup
  source : ∀ i ∈ taken, ∃ c ∈ visited, alive c ∧ (i = c ∨ Reached parent alive c i)
  visited_taken : ∀ c ∈ visited, alive c → c ∈ taken
  closed : ∀ j ∈ taken, ∀ i, parent i j → alive i → i ∈ taken

variable {visited taken below : List ι} {c : ι}

theorem Swept.nil : Swept parent alive [] [] :=
  ⟨by simp, List.nodup_nil, by simp, by simp, by simp⟩

/-- A child that is not alive is passed over. -/
theorem Swept.skip (h : Swept parent alive visited taken) (hc : ¬ alive c) :
    Swept parent alive (visited ++ [c]) taken where
  taken_alive := h.taken_alive
  nodup := h.nodup
  source i hi := by
    obtain ⟨d, hd, hsource⟩ := h.source i hi
    exact ⟨d, List.mem_append_left _ hd, hsource⟩
  visited_taken d hd hdead := by
    rcases List.mem_append.mp hd with hd | hd
    · exact h.visited_taken d hd hdead
    · exact absurd (List.mem_singleton.mp hd ▸ hdead) hc
  closed := h.closed

/-- A child that is alive is taken, with what is still alive and reached from it. -/
theorem Swept.visit (h : Swept parent alive visited taken) (hc : alive c) (hnot : c ∉ taken)
    (hbelow : ∀ i, i ∈ below ↔
      Reached parent (fun i => alive i ∧ i ∉ taken ++ [c]) c i) (hnodup : below.Nodup) :
    Swept parent alive (visited ++ [c]) (taken ++ [c] ++ below) where
  taken_alive i hi := by
    rcases List.mem_append.mp hi with hi | hi
    · rcases List.mem_append.mp hi with hi | hi
      · exact h.taken_alive i hi
      · exact List.mem_singleton.mp hi ▸ hc
    · exact ((hbelow i).mp hi).target_alive.1
  nodup := by
    have htaken : (taken ++ [c]).Nodup :=
      h.nodup.append (List.nodup_singleton c) (List.disjoint_singleton.mpr hnot)
    refine htaken.append hnodup fun i hi hi' => ?_
    exact ((hbelow i).mp hi').target_alive.2 hi
  source i hi := by
    rcases List.mem_append.mp hi with hi | hi
    · rcases List.mem_append.mp hi with hi | hi
      · obtain ⟨d, hd, hsource⟩ := h.source i hi
        exact ⟨d, List.mem_append_left _ hd, hsource⟩
      · exact ⟨c, by simp, hc, .inl (List.mem_singleton.mp hi)⟩
    · exact ⟨c, by simp, hc, .inr (((hbelow i).mp hi).mono fun _ h => h.1)⟩
  visited_taken d hd hdead := by
    rcases List.mem_append.mp hd with hd | hd
    · simp [h.visited_taken d hd hdead]
    · simp [List.mem_singleton.mp hd]
  closed j hj i hparent halive := by
    by_cases hi : i ∈ taken ++ [c]
    · exact List.mem_append_left _ hi
    · refine List.mem_append_right _ ((hbelow i).mpr ?_)
      rcases List.mem_append.mp hj with hj | hj
      · rcases List.mem_append.mp hj with hj | hj
        · exact absurd (List.mem_append_left _ (h.closed j hj i hparent halive)) hi
        · rw [List.mem_singleton.mp hj] at hparent
          exact .child hparent ⟨halive, hi⟩
      · exact Relation.TransGen.tail ((hbelow j).mp hj) ⟨hparent, halive, hi⟩

/-- A child of `p` that was not visited was not taken, if `p` is not alive. -/
theorem Swept.not_taken (hfun : ∀ i p q, parent i p → parent i q → p = q)
    (h : Swept parent alive visited taken) (hp : ¬ alive p) (hparent : parent c p)
    (hc : c ∉ visited) : c ∉ taken := by
  intro hmem
  obtain ⟨d, hd, halive, rfl | hreached⟩ := h.source c hmem
  · exact hc hd
  · rcases hreached.parent_cases hfun hparent with rfl | halive'
    · exact hp halive
    · exact hp halive'

/-- Once it has gone through all children of `p`, a cascade has taken what is reached from `p`. -/
theorem Swept.reached (h : Swept parent alive visited taken)
    (hvisited : ∀ i, i ∈ visited ↔ parent i p) (i : ι) :
    i ∈ taken ↔ Reached parent alive p i := by
  constructor
  · intro hi
    obtain ⟨c, hc, halive, rfl | hreached⟩ := h.source i hi
    · exact .child ((hvisited i).mp hc) halive
    · exact .below ((hvisited c).mp hc) halive hreached
  · intro hi
    exact hi.subset (fun c hc => h.visited_taken c ((hvisited c).mpr hc))
      fun j i hj hparent halive => h.closed j hj i hparent halive

/-! ## Chains -/

/-- A chain from the top down: each element is the parent of the next. -/
def IsChain (parent : ι → ι → Prop) (chain : List ι) : Prop :=
  chain.IsChain fun p i => parent i p

variable {rank : ι → ℕ} (hrank : ∀ i p, parent i p → rank i < rank p)

include hrank

/-- Along a chain the rank drops from every element to every later one. -/
theorem IsChain.pairwise_rank {chain : List ι} (h : IsChain parent chain) :
    chain.Pairwise fun p i => rank i < rank p := by
  have htrans : Trans (fun p i => rank i < rank p) (fun p i => rank i < rank p)
      fun p i => rank i < rank p := ⟨fun hab hbc => hbc.trans hab⟩
  have hdrop : chain.IsChain fun p i => rank i < rank p := List.IsChain.imp (fun _ _ => hrank _ _) h
  exact hdrop.pairwise

theorem IsChain.nodup {chain : List ι} (h : IsChain parent chain) : chain.Nodup := by
  refine (h.pairwise_rank hrank).imp ?_
  rintro p _ hlt rfl
  exact lt_irrefl _ hlt

/-- A chain of nodes of positive rank is at most as long as the rank of its top. -/
theorem IsChain.length_le_rank {chain : List ι} {p : ι} (h : IsChain parent (p :: chain))
    (hpos : ∀ i ∈ p :: chain, 0 < rank i) : (p :: chain).length ≤ rank p := by
  induction chain generalizing p with
  | nil => exact hpos p (List.mem_cons_self ..)
  | cons i chain ih =>
    obtain ⟨hparent, htail⟩ := List.isChain_cons_cons.mp h
    have hlt := hrank i p hparent
    have hle := ih htail fun j hj => hpos j (List.mem_cons_of_mem p hj)
    simp only [List.length_cons] at hle ⊢
    omega

end Forest
