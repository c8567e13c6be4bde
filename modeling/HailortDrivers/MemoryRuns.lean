import HailortDrivers.LittleEndian
import Mathlib.Order.CompletePartialOrder
import Mathlib.Order.Interval.Set.Disjoint

/-!
Runs of bytes written into memory one after the other. A run survives the runs
that come after it when it lies apart from each of them.
-/
namespace HailortDrivers.MemoryRuns
open LittleEndian

structure WriteRun where
  address : Nat
  bytes : List UInt8

def WriteRun.range (run : WriteRun) : Set Nat :=
  Set.Ico run.address (run.address + run.bytes.length)

def applyRuns (memory : Nat → UInt8) (runs : List WriteRun) : Nat → UInt8 :=
  runs.foldl (fun memory run => overlay memory run.address run.bytes) memory

def Intact (memory : Nat → UInt8) (run : WriteRun) : Prop :=
  bytesFrom memory run.address run.bytes.length = run.bytes

theorem applyRuns_append (memory : Nat → UInt8) (before after : List WriteRun) :
    applyRuns memory (before ++ after) = applyRuns (applyRuns memory before) after :=
  List.foldl_append ..

theorem applyRuns_cons (memory : Nat → UInt8) (run : WriteRun) (after : List WriteRun) :
    applyRuns memory (run :: after) = applyRuns (overlay memory run.address run.bytes) after := rfl

theorem disjoint_range_iff (a b : WriteRun) :
    Disjoint a.range b.range ↔
      min (a.address + a.bytes.length) (b.address + b.bytes.length) ≤ max a.address b.address :=
  Set.Ico_disjoint_Ico

theorem disjoint_of_apart {a b : WriteRun}
    (h : a.address + a.bytes.length ≤ b.address ∨ b.address + b.bytes.length ≤ a.address) :
    Disjoint a.range b.range := by
  rw [disjoint_range_iff]
  omega

theorem mem_range_iff (a : Nat) (run : WriteRun) :
    a ∈ run.range ↔ run.address ≤ a ∧ a < run.address + run.bytes.length := Iff.rfl

theorem bytesFrom_overlay_of_disjoint {memory : Nat → UInt8} {kept run : WriteRun}
    (h : Disjoint kept.range run.range) :
    bytesFrom (overlay memory run.address run.bytes) kept.address kept.bytes.length =
      bytesFrom memory kept.address kept.bytes.length := by
  rw [disjoint_range_iff] at h
  refine bytesFrom_congr fun a hge hlt => ?_
  rcases Nat.lt_or_ge a run.address with hlt | hge
  · exact overlay_of_lt hlt
  · exact overlay_of_ge (by omega)

theorem bytesFrom_applyRuns {kept : WriteRun} (runs : List WriteRun) :
    ∀ memory, (∀ run ∈ runs, Disjoint kept.range run.range) →
      bytesFrom (applyRuns memory runs) kept.address kept.bytes.length =
        bytesFrom memory kept.address kept.bytes.length := by
  induction runs with
  | nil => intro memory _; rfl
  | cons run runs ih =>
    intro memory h
    rw [applyRuns_cons, ih _ fun later hlater => h later (List.mem_cons_of_mem _ hlater),
      bytesFrom_overlay_of_disjoint (h run (List.mem_cons_self ..))]

/-- Runs that lie apart pairwise are all there after the last of them. -/
theorem intact_of_pairwise (runs : List WriteRun) :
    ∀ memory, runs.Pairwise (fun a b => Disjoint a.range b.range) →
      ∀ run ∈ runs, Intact (applyRuns memory runs) run := by
  induction runs with
  | nil => intro memory _ run hrun; cases hrun
  | cons first runs ih =>
    intro memory h run hrun
    rw [List.pairwise_cons] at h
    rw [applyRuns_cons]
    rcases List.mem_cons.mp hrun with rfl | hrun
    · rw [Intact, bytesFrom_applyRuns runs _ h.1]
      exact bytesFrom_overlay memory run.address run.bytes
    · exact ih _ h.2 run hrun

/-- And so they are after more runs, each apart from them all. -/
theorem intact_of_later {runs before after : List WriteRun} {memory : Nat → UInt8}
    (h : runs.Pairwise fun a b => Disjoint a.range b.range)
    (hlater : ∀ run ∈ runs, ∀ later ∈ after, Disjoint run.range later.range) :
    ∀ run ∈ runs, Intact (applyRuns memory (before ++ (runs ++ after))) run := by
  intro run hrun
  rw [applyRuns_append, applyRuns_append, Intact, bytesFrom_applyRuns after _ (hlater run hrun)]
  exact intact_of_pairwise runs _ h run hrun

end HailortDrivers.MemoryRuns
