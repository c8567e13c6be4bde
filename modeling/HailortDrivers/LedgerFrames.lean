import HailortDrivers.ResourceLedger
import Mathlib.Algebra.BigOperators.Group.List.Basic
import Mathlib.Algebra.Order.Group.Multiset

/-! Computations over resources inside larger ones: what a computation does not touch
stays held, its resources can be renamed, as long as different ones keep different names,
and what the elements of a list hold is held together. -/
namespace HailortDrivers.LedgerFrames
open ResourceLedger

variable {R S α : Type}

def Move.rename (f : R → S) : Move R → Move S
  | .acquire r => .acquire (f r)
  | .release r => .release (f r)

def rename (f : R → S) (x : Ledgered R α) : Ledgered S α := ⟨x.value, x.moves.map (Move.rename f)⟩

section Owners
variable {β : Type} (holds : β → Multiset R)

/-- What all elements of a list hold. -/
def heldBy (owners : List β) : Multiset R := (owners.map holds).sum

@[simp] theorem heldBy_nil : heldBy holds [] = 0 := rfl

@[simp] theorem heldBy_cons (owner : β) (owners : List β) :
    heldBy holds (owner :: owners) = holds owner + heldBy holds owners := List.sum_cons

/-- Taking the first that is looked for out of the list. -/
theorem heldBy_eraseP {p : β → Bool} {owners : List β} {owner : β}
    (h : owners.find? p = some owner) :
    heldBy holds owners = holds owner + heldBy holds (owners.eraseP p) := by
  induction owners with
  | nil => cases h
  | cons first owners ih =>
    by_cases hp : p first = true
    · rw [List.find?_cons_of_pos hp, Option.some.injEq] at h
      subst h
      rw [List.eraseP_cons_of_pos hp, heldBy_cons]
    · rw [List.find?_cons_of_neg hp] at h
      rw [List.eraseP_cons_of_neg hp, heldBy_cons, heldBy_cons, ih h, add_left_comm]

end Owners

variable [DecidableEq R] [DecidableEq S] {held held' : Multiset R} {x : Ledgered R α} {a : α}

theorem heldAfter_frame {moves : List (Move R)} (h : heldAfter held moves = some held')
    (frame : Multiset R) : heldAfter (held + frame) moves = some (held' + frame) := by
  induction moves generalizing held with
  | nil =>
    cases h
    rfl
  | cons move moves ih =>
    cases move with
    | acquire r =>
      rw [heldAfter, ← Multiset.cons_add]
      exact ih h
    | release r =>
      rw [heldAfter] at h
      split at h
      · next hr =>
        rw [heldAfter, if_pos (Multiset.mem_add.mpr (Or.inl hr)),
          Multiset.erase_add_left_pos frame hr]
        exact ih h
      · cases h

theorem heldAfter_rename {f : R → S} (hf : Function.Injective f) {moves : List (Move R)}
    (h : heldAfter held moves = some held') :
    heldAfter (held.map f) (moves.map (Move.rename f)) = some (held'.map f) := by
  induction moves generalizing held with
  | nil =>
    cases h
    rfl
  | cons move moves ih =>
    cases move with
    | acquire r =>
      rw [List.map_cons, Move.rename, heldAfter, ← Multiset.map_cons]
      exact ih h
    | release r =>
      rw [heldAfter] at h
      split at h
      · next hr =>
        rw [List.map_cons, Move.rename, heldAfter, if_pos (Multiset.mem_map_of_mem f hr),
          ← Multiset.map_erase f hf]
        exact ih h
      · cases h

theorem Runs.frame (h : x.Runs held a held') (frame : Multiset R) :
    x.Runs (held + frame) a (held' + frame) := ⟨h.value, heldAfter_frame h.takes frame⟩

theorem Runs.rename {f : R → S} (hf : Function.Injective f) (h : x.Runs held a held') :
    (rename f x).Runs (held.map f) a (held'.map f) := ⟨h.value, heldAfter_rename hf h.takes⟩

section Free
variable {β : Type} {holds : β → Multiset R}

/-- `list_for_each_entry_safe`: every element is freed, and the list is left empty. -/
def freeAll (free : β → Ledgered R Unit) : List β → Ledgered R Unit
  | [] => pure ()
  | owner :: owners => do
    free owner
    freeAll free owners

theorem freeAll_runs {free : β → Ledgered R Unit} {owners : List β}
    (h : ∀ owner ∈ owners, (free owner).Runs (holds owner) () 0) (rest : Multiset R) :
    (freeAll free owners).Runs (heldBy holds owners + rest) () rest := by
  induction owners with
  | nil =>
    rw [heldBy_nil, zero_add]
    exact .pure _ _
  | cons owner owners ih =>
    have hfirst := Runs.frame (h owner List.mem_cons_self) (heldBy holds owners + rest)
    rw [zero_add, ← add_assoc, ← heldBy_cons] at hfirst
    exact hfirst.bind (ih fun other hother => h other (List.mem_cons_of_mem owner hother))

end Free

end HailortDrivers.LedgerFrames
