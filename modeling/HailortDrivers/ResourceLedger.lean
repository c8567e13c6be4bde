import Mathlib.Data.Multiset.AddSub
import Mathlib.Tactic.Common

/-! Computations that take resources and give them back, with the moves they made.
What is held is a multiset, so a resource can be taken several times; giving back
what is not held is no accident that the account overlooks, it has no result. -/
namespace HailortDrivers.ResourceLedger

inductive Move (R : Type)
  | acquire (r : R)
  | release (r : R)
deriving DecidableEq

structure Ledgered (R α : Type) where
  value : α
  moves : List (Move R)

variable {R α β : Type}

instance : Monad (Ledgered R) where
  pure a := ⟨a, []⟩
  bind x f := ⟨(f x.value).value, x.moves ++ (f x.value).moves⟩

@[simp] theorem value_pure (a : α) : (pure a : Ledgered R α).value = a := rfl

@[simp] theorem value_bind (x : Ledgered R α) (f : α → Ledgered R β) :
    (x >>= f).value = (f x.value).value := rfl

theorem moves_pure (a : α) : (pure a : Ledgered R α).moves = [] := rfl

theorem moves_bind (x : Ledgered R α) (f : α → Ledgered R β) :
    (x >>= f).moves = x.moves ++ (f x.value).moves := rfl

def acquire (r : R) : Ledgered R Unit := ⟨(), [.acquire r]⟩

def release (r : R) : Ledgered R Unit := ⟨(), [.release r]⟩

def acquireAll (rs : List R) : Ledgered R Unit := ⟨(), rs.map .acquire⟩

def releaseAll (rs : List R) : Ledgered R Unit := ⟨(), rs.map .release⟩

variable [DecidableEq R]

/-- What is held after the moves, if none of them gives back what is not held. -/
def heldAfter : Multiset R → List (Move R) → Option (Multiset R)
  | held, [] => some held
  | held, .acquire r :: moves => heldAfter (r ::ₘ held) moves
  | held, .release r :: moves => if r ∈ held then heldAfter (held.erase r) moves else none

/-- The computation starts holding `held` and ends holding `held'`. -/
def Ledgered.Takes (x : Ledgered R α) (held held' : Multiset R) : Prop :=
  heldAfter held x.moves = some held'

theorem heldAfter_append {held held' : Multiset R} {moves : List (Move R)}
    (h : heldAfter held moves = some held') (moves' : List (Move R)) :
    heldAfter held (moves ++ moves') = heldAfter held' moves' := by
  induction moves generalizing held with
  | nil =>
    cases h
    rfl
  | cons move moves ih =>
    cases move with
    | acquire r => exact ih h
    | release r =>
      rw [heldAfter] at h
      split at h
      · next hr =>
        rw [List.cons_append, heldAfter, if_pos hr]
        exact ih h
      · cases h

theorem heldAfter_append_iff {held held' : Multiset R} {moves moves' : List (Move R)} :
    heldAfter held (moves ++ moves') = some held' ↔
      ∃ between, heldAfter held moves = some between ∧
        heldAfter between moves' = some held' := by
  induction moves generalizing held with
  | nil => simp [heldAfter]
  | cons move moves ih =>
    cases move with
    | acquire r => exact ih
    | release r =>
      rw [List.cons_append, heldAfter, heldAfter]
      split
      · exact ih
      · simp

/-- Releases end with nothing held exactly when they are those of what is held. -/
theorem heldAfter_releases {held : Multiset R} (rs : List R) :
    heldAfter held (rs.map Move.release) = some 0 ↔ held = rs := by
  induction rs generalizing held with
  | nil => simp [heldAfter]
  | cons r rs ih =>
    rw [List.map_cons, heldAfter, ← Multiset.cons_coe]
    constructor
    · intro h
      split at h
      · next hr => rw [← Multiset.cons_erase hr, ih.mp h]
      · cases h
    · rintro rfl
      rw [if_pos (Multiset.mem_cons_self r _), Multiset.erase_cons_head, ih]

section Rules
variable {held held' held'' : Multiset R} {x : Ledgered R α} {f : α → Ledgered R β} {r : R}

theorem Ledgered.Takes.bind (hx : x.Takes held held') (hf : (f x.value).Takes held' held'') :
    (x >>= f).Takes held held'' := (heldAfter_append hx _).trans hf

theorem takes_release (r : R) (held : Multiset R) : (release r).Takes (r ::ₘ held) held := by
  have hr : r ∈ r ::ₘ held := Multiset.mem_cons_self r held
  rw [Ledgered.Takes, release, heldAfter, if_pos hr, Multiset.erase_cons_head]
  rfl

theorem takes_acquireAll (rs : List R) (held : Multiset R) :
    (acquireAll rs).Takes held (rs + held) := by
  induction rs generalizing held with
  | nil =>
    rw [Multiset.coe_nil, Multiset.zero_add]
    rfl
  | cons r rs ih =>
    rw [← Multiset.cons_coe, Multiset.cons_add, ← Multiset.add_cons]
    exact ih (r ::ₘ held)

theorem takes_releaseAll (rs : List R) (held : Multiset R) :
    (releaseAll rs).Takes (rs + held) held := by
  induction rs generalizing held with
  | nil =>
    rw [Multiset.coe_nil, Multiset.zero_add]
    rfl
  | cons r rs ih =>
    rw [← Multiset.cons_coe, Multiset.cons_add]
    exact (takes_release r _).bind (f := fun _ => releaseAll rs) (ih held)

/-- The computation returns `a`, starting with `held` and ending with `held'`. -/
structure Ledgered.Runs (x : Ledgered R α) (held : Multiset R) (a : α) (held' : Multiset R) :
    Prop where
  value : x.value = a
  takes : x.Takes held held'

variable {a : α} {b : β}

theorem Ledgered.Runs.pure (a : α) (held : Multiset R) :
    (Pure.pure a : Ledgered R α).Runs held a held := ⟨rfl, rfl⟩

theorem Ledgered.Runs.bind (hx : x.Runs held a held') (hf : (f a).Runs held' b held'') :
    (x >>= f).Runs held b held'' := by
  obtain ⟨rfl, hx⟩ := hx
  exact ⟨hf.value, hx.bind hf.takes⟩

theorem runs_acquire (r : R) (held : Multiset R) : (acquire r).Runs held () (r ::ₘ held) :=
  ⟨rfl, rfl⟩

theorem runs_release (r : R) (held : Multiset R) : (release r).Runs (r ::ₘ held) () held :=
  ⟨rfl, takes_release r held⟩

theorem runs_acquireAll (rs : List R) (held : Multiset R) :
    (acquireAll rs).Runs held () (rs + held) := ⟨rfl, takes_acquireAll rs held⟩

theorem runs_releaseAll (rs : List R) (held : Multiset R) :
    (releaseAll rs).Runs (rs + held) () held := ⟨rfl, takes_releaseAll rs held⟩

theorem Ledgered.Takes.unique (h : x.Takes held held') (h' : x.Takes held held'') :
    held' = held'' := Option.some.inj (h.symm.trans h')

end Rules

end HailortDrivers.ResourceLedger
