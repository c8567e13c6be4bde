import Mathlib.Data.Set.Card

/-!
A counter that says how many members of a family hold a reference. Members change
one at a time; the counter follows them up and down.
-/
namespace HailortDrivers.HeldReferences

variable {α β : Type} {holds : β → Prop} {state : α → β} {count : Int} {a : α} {b : β}

def Counted (holds : β → Prop) (state : α → β) (count : Int) : Prop :=
  {a | holds (state a)}.Finite ∧ count = ({a | holds (state a)}.ncard : Int)

theorem Counted.eq_zero_iff (h : Counted holds state count) :
    count = 0 ↔ ∀ a, ¬ holds (state a) := by
  rw [h.2, Nat.cast_eq_zero, Set.ncard_eq_zero h.1, Set.eq_empty_iff_forall_notMem]
  rfl

theorem Counted.ne_zero (h : Counted holds state count) (ha : holds (state a)) : count ≠ 0 :=
  fun hzero => h.eq_zero_iff.mp hzero a ha

theorem counted_of_forall_not (hfree : ∀ a, ¬ holds (state a)) : Counted holds state 0 := by
  have hempty : {a | holds (state a)} = ∅ := Set.eq_empty_iff_forall_notMem.mpr hfree
  rw [Counted, hempty]
  simp

variable [DecidableEq α]

theorem holders_update_of_not (hb : ¬ holds b) :
    {c | holds (Function.update state a b c)} = {c | holds (state c)} \ {a} := by
  ext c
  by_cases hc : c = a
  · simp [hc, hb]
  · simp [hc]

theorem holders_update_of_holds (hb : holds b) :
    {c | holds (Function.update state a b c)} = insert a {c | holds (state c)} := by
  ext c
  by_cases hc : c = a
  · simp [hc, hb]
  · simp [hc]

theorem Counted.keep (h : Counted holds state count) (hiff : holds b ↔ holds (state a)) :
    Counted holds (Function.update state a b) count := by
  by_cases hb : holds b
  · rw [Counted, holders_update_of_holds hb,
      Set.insert_eq_of_mem (show a ∈ {c | holds (state c)} from hiff.mp hb)]
    exact h
  · rw [Counted, holders_update_of_not hb,
      Set.sdiff_singleton_eq_self (show a ∉ {c | holds (state c)} from fun ha => hb (hiff.mpr ha))]
    exact h

theorem Counted.acquire (h : Counted holds state count) (ha : ¬ holds (state a)) (hb : holds b) :
    Counted holds (Function.update state a b) (count + 1) := by
  rw [Counted, holders_update_of_holds hb]
  refine ⟨h.1.insert a, ?_⟩
  rw [Set.ncard_insert_of_notMem (show a ∉ {c | holds (state c)} from ha) h.1, h.2]
  simp

theorem Counted.release (h : Counted holds state count) (ha : holds (state a)) (hb : ¬ holds b) :
    Counted holds (Function.update state a b) (count - 1) := by
  rw [Counted, holders_update_of_not hb]
  refine ⟨h.1.sdiff, ?_⟩
  have hcard := Set.ncard_sdiff_singleton_add_one (show a ∈ {c | holds (state c)} from ha) h.1
  rw [h.2]
  omega

end HailortDrivers.HeldReferences
