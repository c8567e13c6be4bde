import Mathlib.Data.Set.Lattice
import Mathlib.Order.CompletePartialOrder
import Mathlib.Tactic.Common

/-! A set shared out to holders: no element has two holders and every element has one.
The rules say when granting and revoking keep it so; revoking is exact. -/
namespace HailortDrivers.PartitionedSets

section
variable {A K : Type} {owned : K → Set A} {whole : Set A}

structure Partitioned (owned : K → Set A) (whole : Set A) : Prop where
  disjoint : ∀ k k', k ≠ k' → Disjoint (owned k) (owned k')
  union : ∀ a, a ∈ whole ↔ ∃ k, a ∈ owned k

theorem partitioned_empty : Partitioned (fun _ : K => (∅ : Set A)) ∅ where
  disjoint := by simp
  union := by simp

theorem Partitioned.eq_of_mem (h : Partitioned owned whole) {k k' : K} {a : A} (ha : a ∈ owned k)
    (ha' : a ∈ owned k') : k = k' := by
  by_contra hne
  exact Set.disjoint_left.mp (h.disjoint k k' hne) ha ha'

section
variable [DecidableEq K]

theorem mem_update (k k' : K) (rest : Set A) (a : A) :
    a ∈ Function.update owned k rest k' ↔ k' = k ∧ a ∈ rest ∨ k' ≠ k ∧ a ∈ owned k' := by
  by_cases hk : k' = k
  · subst hk
    simp
  · simp [hk]

/-- What nobody holds is granted to one holder. -/
theorem Partitioned.grant (h : Partitioned owned whole) (k : K) {granted : Set A}
    (hfree : Disjoint granted whole) :
    Partitioned (Function.update owned k (owned k ∪ granted)) (whole ∪ granted) where
  disjoint := by
    have hgranted : ∀ k' a, a ∈ granted → a ∉ owned k' := by
      intro k' a ha hmem
      exact Set.disjoint_left.mp hfree ha ((h.union a).mpr ⟨k', hmem⟩)
    intro k₁ k₂ hne
    refine Set.disjoint_left.mpr fun a h₁ h₂ => hne ?_
    rcases (mem_update k k₁ _ a).mp h₁ with ⟨hk₁, h₁⟩ | ⟨hk₁, h₁⟩
    · rcases (mem_update k k₂ _ a).mp h₂ with ⟨hk₂, -⟩ | ⟨-, h₂⟩
      · rw [hk₁, hk₂]
      · rcases h₁ with h₁ | h₁
        · rw [hk₁]
          exact h.eq_of_mem h₁ h₂
        · exact absurd h₂ (hgranted k₂ a h₁)
    · rcases (mem_update k k₂ _ a).mp h₂ with ⟨hk₂, h₂ | h₂⟩ | ⟨-, h₂⟩
      · rw [hk₂]
        exact h.eq_of_mem h₁ h₂
      · exact absurd h₁ (hgranted k₁ a h₂)
      · exact h.eq_of_mem h₁ h₂
  union := by
    intro a
    constructor
    · rintro (ha | ha)
      · obtain ⟨k', hk'⟩ := (h.union a).mp ha
        refine ⟨k', (mem_update k k' _ a).mpr ?_⟩
        by_cases hk : k' = k
        · exact Or.inl ⟨hk, Or.inl (hk ▸ hk')⟩
        · exact Or.inr ⟨hk, hk'⟩
      · exact ⟨k, (mem_update k k _ a).mpr (Or.inl ⟨rfl, Or.inr ha⟩)⟩
    · rintro ⟨k', hk'⟩
      rcases (mem_update k k' _ a).mp hk' with ⟨-, ha | ha⟩ | ⟨-, ha⟩
      · exact Or.inl ((h.union a).mpr ⟨k, ha⟩)
      · exact Or.inr ha
      · exact Or.inl ((h.union a).mpr ⟨k', ha⟩)

/-- Taking elements from one holder and from the whole is right exactly when nobody else
holds any of them. -/
theorem Partitioned.revoke_iff (h : Partitioned owned whole) (k : K) (gone : Set A) :
    Partitioned (Function.update owned k (owned k \ gone)) (whole \ gone) ↔
      ∀ k', k' ≠ k → Disjoint gone (owned k') := by
  constructor
  · intro hrevoked k' hk'
    refine Set.disjoint_left.mpr fun a hgone ha => ?_
    have hmem : a ∈ whole \ gone :=
      (hrevoked.union a).mpr ⟨k', (mem_update k k' _ a).mpr (Or.inr ⟨hk', ha⟩)⟩
    exact hmem.2 hgone
  · intro hothers
    have hsub : ∀ k' a, a ∈ Function.update owned k (owned k \ gone) k' → a ∈ owned k' := by
      intro k' a ha
      rcases (mem_update k k' _ a).mp ha with ⟨rfl, ha⟩ | ⟨-, ha⟩
      · exact ha.1
      · exact ha
    refine ⟨?_, ?_⟩
    · intro k₁ k₂ hne
      exact (h.disjoint k₁ k₂ hne).mono (hsub k₁) (hsub k₂)
    · intro a
      constructor
      · rintro ⟨ha, hkept⟩
        obtain ⟨k', hk'⟩ := (h.union a).mp ha
        refine ⟨k', (mem_update k k' _ a).mpr ?_⟩
        by_cases hk : k' = k
        · exact Or.inl ⟨hk, hk ▸ hk', hkept⟩
        · exact Or.inr ⟨hk, hk'⟩
      · rintro ⟨k', hk'⟩
        refine ⟨(h.union a).mpr ⟨k', hsub k' a hk'⟩, fun hgone => ?_⟩
        rcases (mem_update k k' _ a).mp hk' with ⟨-, ha⟩ | ⟨hk, ha⟩
        · exact ha.2 hgone
        · exact Set.disjoint_left.mp (hothers k' hk) hgone ha

/-- One holder gives up all that it has. -/
theorem Partitioned.revokeAll (h : Partitioned owned whole) (k : K) :
    Partitioned (Function.update owned k ∅) (whole \ owned k) := by
  have hrevoked := (h.revoke_iff k (owned k)).mpr fun k' hk' => h.disjoint k k' hk'.symm
  have hempty : owned k \ owned k = ∅ := by
    ext a
    simp
  rw [hempty] at hrevoked
  exact hrevoked

end

end

end HailortDrivers.PartitionedSets
