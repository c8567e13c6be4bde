import Mathlib.Data.List.Nodup

/-! Objects at addresses, the holders that own them, and the references that others
keep. An address with no object is `none`. The rules say when allocating, changing or
freeing objects leaves every reference on an object that is there, and what is left of a
heap when only some addresses are kept. -/
namespace HailortDrivers.OwnedObjects

section
variable {A V K I : Type} {P : V → Prop} {heap heap' : A → Option V} {owned owned' : K → List A}
  {refs refs' : I → A → Prop}

/-- What is owned is there and has property `P`, and nothing is owned twice. -/
structure Owned (P : V → Prop) (heap : A → Option V) (owned : K → List A) : Prop where
  present : ∀ k, ∀ a ∈ owned k, ∃ v, heap a = some v ∧ P v
  nodup : ∀ k, (owned k).Nodup
  disjoint : ∀ k k' a, a ∈ owned k → a ∈ owned k' → k = k'

/-- Every reference is to something owned. -/
def Referenced (owned : K → List A) (refs : I → A → Prop) : Prop :=
  ∀ i a, refs i a → ∃ k, a ∈ owned k

theorem Referenced.present (h : Referenced owned refs) (howned : Owned P heap owned) {i : I}
    {a : A} (hrefs : refs i a) : ∃ v, heap a = some v ∧ P v := by
  obtain ⟨k, hk⟩ := h i a hrefs
  exact howned.present k a hk

theorem owned_nothing : Owned P heap (fun _ : K => ([] : List A)) where
  present := fun _ _ h => absurd h List.not_mem_nil
  nodup := fun _ => List.nodup_nil
  disjoint := fun _ _ _ h => absurd h List.not_mem_nil

/-- Objects change, but stay where they are. -/
theorem Owned.modify (h : Owned P heap owned)
    (hheap : ∀ a v, heap a = some v → P v → ∃ v', heap' a = some v' ∧ P v') :
    Owned P heap' owned where
  present := by
    intro k a ha
    obtain ⟨v, hv, hP⟩ := h.present k a ha
    exact hheap a v hv hP
  nodup := h.nodup
  disjoint := h.disjoint

/-- Holders give up some of what they own, and nothing that they keep is touched. -/
theorem Owned.shrink (h : Owned P heap owned) (hsub : ∀ k, (owned' k).Sublist (owned k))
    (hheap : ∀ k, ∀ a ∈ owned' k, heap' a = heap a) : Owned P heap' owned' where
  present := by
    intro k a ha
    rw [hheap k a ha]
    exact h.present k a ((hsub k).subset ha)
  nodup := fun k => (h.nodup k).sublist (hsub k)
  disjoint := fun k k' a ha ha' => h.disjoint k k' a ((hsub k).subset ha) ((hsub k').subset ha')

/-- New references are to what one holder owns. -/
theorem Referenced.attach (h : Referenced owned refs) (k : K)
    (hrefs : ∀ i a, refs' i a → refs i a ∨ a ∈ owned k) : Referenced owned refs' := by
  intro i a ha
  rcases hrefs i a ha with ha | ha
  · exact h i a ha
  · exact ⟨k, ha⟩

section
variable [DecidableEq K]

theorem Owned.alloc [DecidableEq A] (h : Owned P heap owned) {a : A} (hfree : heap a = none)
    (k : K) {v : V} (hP : P v) :
    Owned P (Function.update heap a (some v)) (Function.update owned k (a :: owned k)) := by
  have hfresh : ∀ k, a ∉ owned k := by
    intro k ha
    obtain ⟨v, hv, -⟩ := h.present k a ha
    rw [hfree] at hv
    cases hv
  have hcases : ∀ k' b, b ∈ Function.update owned k (a :: owned k) k' →
      k' = k ∧ b = a ∨ b ≠ a ∧ b ∈ owned k' := by
    intro k' b hb
    by_cases hk : k' = k
    · rw [hk, Function.update_self, List.mem_cons] at hb
      rcases hb with hb | hb
      · exact Or.inl ⟨hk, hb⟩
      · exact Or.inr ⟨fun hba => hfresh k (hba ▸ hb), hk ▸ hb⟩
    · rw [Function.update_of_ne hk] at hb
      exact Or.inr ⟨fun hba => hfresh k' (hba ▸ hb), hb⟩
  constructor
  · intro k' b hb
    rcases hcases k' b hb with ⟨-, rfl⟩ | ⟨hne, hb⟩
    · exact ⟨v, Function.update_self _ _ _, hP⟩
    · rw [Function.update_of_ne hne]
      exact h.present k' b hb
  · intro k'
    by_cases hk : k' = k
    · rw [hk, Function.update_self]
      exact List.nodup_cons.mpr ⟨hfresh k, h.nodup k⟩
    · rw [Function.update_of_ne hk]
      exact h.nodup k'
  · intro k₁ k₂ b h₁ h₂
    rcases hcases k₁ b h₁ with ⟨rfl, rfl⟩ | ⟨hne, h₁⟩
    · rcases hcases k₂ b h₂ with ⟨rfl, -⟩ | ⟨hne, -⟩
      · rfl
      · exact absurd rfl hne
    · rcases hcases k₂ b h₂ with ⟨-, hb⟩ | ⟨-, h₂⟩
      · exact absurd hb hne
      · exact h.disjoint k₁ k₂ b h₁ h₂

/-- One holder frees one object. -/
theorem Owned.free [DecidableEq A] (h : Owned P heap owned) {k : K} {a : A} {rest : List A}
    (ha : a ∈ owned k) (hsub : rest.Sublist (owned k)) (hgone : a ∉ rest) :
    Owned P (Function.update heap a none) (Function.update owned k rest) := by
  refine h.shrink ?_ ?_
  · intro k'
    by_cases hk : k' = k
    · rw [hk, Function.update_self]
      exact hsub
    · rw [Function.update_of_ne hk]
  · intro k' b hb
    have hne : b ≠ a := by
      rintro rfl
      by_cases hk : k' = k
      · rw [hk, Function.update_self] at hb
        exact hgone hb
      · rw [Function.update_of_ne hk] at hb
        exact hk (h.disjoint k' k b hb ha)
    exact Function.update_of_ne hne _ _

/-- One holder gives up everything. -/
theorem Owned.freeAll (h : Owned P heap owned) {k : K}
    (hheap : ∀ a, a ∉ owned k → heap' a = heap a) :
    Owned P heap' (Function.update owned k []) := by
  refine h.shrink ?_ ?_
  · intro k'
    by_cases hk : k' = k
    · rw [hk, Function.update_self]
      exact List.nil_sublist _
    · rw [Function.update_of_ne hk]
  · intro k' a ha
    by_cases hk : k' = k
    · rw [hk, Function.update_self] at ha
      cases ha
    · rw [Function.update_of_ne hk] at ha
      exact hheap a fun hmem => hk (h.disjoint k' k a ha hmem)

/-- One holder owns other objects, among them all of its objects that are referred to. -/
theorem Referenced.update (h : Referenced owned refs) {k : K} {rest : List A}
    (hrefs : ∀ i a, refs' i a → refs i a) (hrest : ∀ i, ∀ a ∈ owned k, refs' i a → a ∈ rest) :
    Referenced (Function.update owned k rest) refs' := by
  intro i a ha
  obtain ⟨k', hk'⟩ := h i a (hrefs i a ha)
  refine ⟨k', ?_⟩
  by_cases hk : k' = k
  · rw [hk, Function.update_self]
    exact hrest i a (hk ▸ hk') ha
  · rw [Function.update_of_ne hk]
    exact hk'

end

end

section Only
variable {A V : Type} [DecidableEq A] {heap heap' : A → Option V} {kept kept' : List A} {a : A}

/-- The objects at some addresses, and nothing else. -/
def only (kept : List A) (heap : A → Option V) : A → Option V :=
  fun a => if a ∈ kept then heap a else none

theorem only_of_mem (h : a ∈ kept) : only kept heap a = heap a := if_pos h

theorem only_of_none (h : heap a = none) : only kept heap a = none := by
  rw [only, h, ite_self]

theorem only_congr (h : ∀ a ∈ kept, heap' a = heap a) : only kept heap' = only kept heap := by
  funext a
  by_cases ha : a ∈ kept
  · rw [only_of_mem ha, only_of_mem ha, h a ha]
  · simp only [only, if_neg ha]

theorem only_update_of_mem (h : a ∈ kept) (v : Option V) :
    only kept (Function.update heap a v) = Function.update (only kept heap) a v := by
  funext b
  by_cases hb : b = a
  · rw [hb, only_of_mem h, Function.update_self, Function.update_self]
  · simp only [only, Function.update_of_ne hb]

theorem only_update_of_notMem (h : a ∉ kept) (v : Option V) :
    only kept (Function.update heap a v) = only kept heap := by
  refine only_congr fun b hb => Function.update_of_ne ?_ _ _
  rintro rfl
  exact h hb

/-- One more object is kept. -/
theorem only_cons (a : A) (v : Option V) :
    only (a :: kept) (Function.update heap a v) = Function.update (only kept heap) a v := by
  funext b
  by_cases hb : b = a
  · rw [hb, only_of_mem List.mem_cons_self, Function.update_self, Function.update_self]
  · simp only [only, Function.update_of_ne hb, List.mem_cons, hb, false_or]

/-- One object is freed. -/
theorem only_free (hkept : ∀ b, b ∈ kept' ↔ b ≠ a ∧ b ∈ kept) :
    only kept' (Function.update heap a none) = Function.update (only kept heap) a none := by
  funext b
  by_cases hb : b = a
  · rw [hb, Function.update_self]
    exact only_of_none (Function.update_self _ _ _)
  · simp only [only, Function.update_of_ne hb, hkept, ne_eq, hb, not_false_eq_true, true_and]

end Only

end HailortDrivers.OwnedObjects
