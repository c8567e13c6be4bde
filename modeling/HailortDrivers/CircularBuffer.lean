import HailortDrivers.ModularWindow
import Mathlib.Data.List.Basic
import Mathlib.Logic.Function.Basic
import Mathlib.Tactic.Common

/-! A ring of `size` slots between a tail and a head index, read as the list of
its entries from the oldest on. A push appends, a pop removes the first; one
slot always stays free. -/
namespace HailortDrivers.CircularBuffer

variable {α : Type*} {size head tail : ℕ} {slots : ℕ → α}

def count (size head tail : ℕ) : ℕ := (size + head - tail) % size

def contents (size head tail : ℕ) (slots : ℕ → α) : List α :=
  (List.range (count size head tail)).map fun i => slots ((tail + i) % size)

theorem count_of_le (hhead : head < size) (hle : tail ≤ head) :
    count size head tail = head - tail := by
  rw [count, Nat.add_sub_assoc hle, Nat.add_mod_left, Nat.mod_eq_of_lt (by omega)]

theorem count_of_lt (htail : tail < size) (hlt : head < tail) :
    count size head tail = size + head - tail := by
  rw [count, Nat.mod_eq_of_lt (by omega)]

theorem count_lt (hsize : 0 < size) : count size head tail < size := Nat.mod_lt _ hsize

theorem succ_mod (hhead : head < size) :
    (head + 1) % size = if head + 1 = size then 0 else head + 1 := by
  split
  · next h => rw [h, Nat.mod_self]
  · rw [Nat.mod_eq_of_lt (by omega)]

theorem count_push (hhead : head < size) (htail : tail < size)
    (hroom : count size head tail + 1 < size) :
    count size ((head + 1) % size) tail = count size head tail + 1 := by
  rw [succ_mod hhead]
  rcases Nat.lt_or_ge head tail with hlt | hle
  · rw [count_of_lt htail hlt] at hroom ⊢
    rw [if_neg (by omega), count_of_lt htail (by omega)]
    omega
  · rw [count_of_le hhead hle] at hroom ⊢
    split
    · rw [count_of_lt htail (by omega)]
      omega
    · rw [count_of_le (by omega) (by omega)]
      omega

theorem count_pop (hhead : head < size) (htail : tail < size)
    (hpos : 0 < count size head tail) :
    count size head ((tail + 1) % size) + 1 = count size head tail := by
  rw [succ_mod htail]
  rcases Nat.lt_or_ge head tail with hlt | hle
  · rw [count_of_lt htail hlt]
    split
    · rw [count_of_le hhead (Nat.zero_le _)]
      omega
    · rw [count_of_lt (by omega) (by omega)]
      omega
  · rw [count_of_le hhead hle] at hpos ⊢
    rw [if_neg (by omega), count_of_le hhead (by omega)]
    omega

/-- The slot after the last entry is the head. -/
theorem tail_add_count (hhead : head < size) (htail : tail < size) :
    (tail + count size head tail) % size = head := by
  rcases Nat.lt_or_ge head tail with hlt | hle
  · rw [count_of_lt htail hlt, Nat.add_sub_of_le (by omega), Nat.add_mod_left,
      Nat.mod_eq_of_lt hhead]
  · rw [count_of_le hhead hle, Nat.add_sub_of_le hle, Nat.mod_eq_of_lt hhead]

@[simp] theorem length_contents :
    (contents size head tail slots).length = count size head tail := by
  simp [contents]

theorem contents_push (hhead : head < size) (htail : tail < size)
    (hroom : count size head tail + 1 < size) (x : α) :
    contents size ((head + 1) % size) tail (Function.update slots head x) =
      contents size head tail slots ++ [x] := by
  rw [contents, count_push hhead htail hroom, List.range_succ, List.map_append,
    List.map_singleton, tail_add_count hhead htail, Function.update_self, contents]
  congr 1
  apply List.map_congr_left
  intro i hi
  rw [List.mem_range] at hi
  rw [Function.update_of_ne]
  have hne := ModularWindow.add_mod_ne (s := tail) (i := i) (by omega)
    (by omega : count size head tail < size) (by omega)
  rwa [tail_add_count hhead htail] at hne

theorem contents_pop (hhead : head < size) (htail : tail < size)
    (hpos : 0 < count size head tail) :
    contents size head tail slots =
      slots tail :: contents size head ((tail + 1) % size) slots := by
  rw [contents, ← count_pop hhead htail hpos, List.range_succ_eq_map, List.map_cons,
    List.map_map, Nat.add_zero, Nat.mod_eq_of_lt htail, contents]
  congr 1
  apply List.map_congr_left
  intro i _
  simp only [Function.comp_apply, Nat.succ_eq_add_one]
  rw [Nat.mod_add_mod, Nat.add_assoc, Nat.add_comm 1 i]

/-- Popping `n` entries at once takes the oldest `n` off the list. -/
theorem contents_popMany (hhead : head < size) (n : ℕ) :
    ∀ tail, tail < size → n ≤ count size head tail →
      contents size head tail slots =
        ((List.range n).map fun k => slots ((tail + k) % size)) ++
          contents size head ((tail + n) % size) slots := by
  induction n with
  | zero =>
    intro tail htail _
    rw [List.range_zero, List.map_nil, List.nil_append, Nat.add_zero, Nat.mod_eq_of_lt htail]
  | succ n ih =>
    intro tail htail hn
    have hpop := count_pop hhead htail (by omega)
    have hnext := ih ((tail + 1) % size) (Nat.mod_lt _ (by omega)) (by omega)
    have hfirst : slots ((tail + 0) % size) = slots tail := by
      rw [Nat.add_zero, Nat.mod_eq_of_lt htail]
    rw [contents_pop hhead htail (by omega), hnext, List.range_succ_eq_map, List.map_cons,
      List.map_map, List.cons_append, hfirst, Nat.mod_add_mod, Nat.add_assoc tail 1 n,
      Nat.add_comm 1 n]
    refine congrArg (fun run => slots tail :: (run ++ _)) (List.map_congr_left fun k _ => ?_)
    rw [Function.comp_apply, Nat.mod_add_mod, Nat.succ_eq_add_one, Nat.add_assoc,
      Nat.add_comm 1 k]

theorem contents_empty (h : count size head tail = 0) : contents size head tail slots = [] := by
  rw [contents, h]
  rfl

end HailortDrivers.CircularBuffer
