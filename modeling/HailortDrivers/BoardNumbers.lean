import HailortDrivers.EventRuns
import HailortDrivers.MachineWord

/-!
The numbers of the boards (`pcie.c`). The global list of boards is searched for a gap from its
head on, and a new board is put behind the last one before the gap. Whoever reads or changes the
list holds `g_hailo_add_board_mutex`, so a call is one step here.
-/
namespace HailortDrivers.BoardNumbers
open MachineWord EventRuns

/-- A `struct hailo_pcie_board` in the list, told apart by its address. -/
structure ListedBoard where
  board : Nat
  boardIndex : UInt32
  refCount : Int32
deriving DecidableEq

section Calls
variable (pBoard : Nat)

/-- `list_for_each_entry_safe` up to the first gap or the last board, and `list_add` there. -/
def insertAtGap : ListedBoard → List ListedBoard → UInt32 × List ListedBoard
  | pCurrent, [] =>
    let index := pCurrent.boardIndex + 1
    (index, [pCurrent, ⟨pBoard, index, 0⟩])
  | pCurrent, pNext :: rest =>
    let index := pCurrent.boardIndex + 1
    if index ≠ pNext.boardIndex then (index, pCurrent :: ⟨pBoard, index, 0⟩ :: pNext :: rest)
    else
      let (index, inserted) := insertAtGap pNext rest
      (index, pCurrent :: inserted)

/-- `hailo_pcie_insert_board` once the class is there: the number of the board, and the list. -/
def hailoPcieInsertBoard : List ListedBoard → UInt32 × List ListedBoard
  | [] => (0, [⟨pBoard, 0, 0⟩])
  | first :: rest =>
    if first.boardIndex > 0 then (0, ⟨pBoard, 0, 0⟩ :: first :: rest)
    else insertAtGap pBoard first rest

def hailoPcieRemoveBoard (boards : List ListedBoard) : List ListedBoard :=
  boards.eraseP fun listed => listed.board = pBoard

/-- The board with a number, and the list after its references are counted. -/
def hailoPcieGetBoardIndex (index : UInt32) : List ListedBoard → Option Nat × List ListedBoard
  | [] => (none, [])
  | pBoard :: rest =>
    if index = pBoard.boardIndex then
      (some pBoard.board, { pBoard with refCount := pBoard.refCount + 1 } :: rest)
    else
      let (pRet, rest) := hailoPcieGetBoardIndex index rest
      (pRet, pBoard :: rest)

end Calls

def Sorted (boards : List ListedBoard) : Prop :=
  boards.Pairwise fun a b => a.boardIndex < b.boardIndex

/-- The smallest number that no board of the list has. -/
structure LeastUnused (boards : List ListedBoard) (index : UInt32) : Prop where
  unused : ∀ b ∈ boards, b.boardIndex ≠ index
  least : ∀ j < index, ∃ b ∈ boards, b.boardIndex = j

section Insert
variable {pBoard : Nat} {boards : List ListedBoard}

/-- What an insertion into `boards` behind boards with the numbers from `start` on has done. -/
structure Inserted (pBoard : Nat) (boards : List ListedBoard) (start : UInt32)
    (result : UInt32 × List ListedBoard) : Prop where
  added : result.2.Perm (⟨pBoard, result.1, 0⟩ :: boards)
  sorted : Sorted result.2
  start_lt : start < result.1
  unused : ∀ b ∈ boards, b.boardIndex ≠ result.1
  used : ∀ j, start ≤ j → j < result.1 → ∃ b ∈ boards, b.boardIndex = j

theorem toNat_succ {i : UInt32} (h : i.toNat + 1 < 2 ^ 32) : (i + 1).toNat = i.toNat + 1 :=
  toNat_add_of_lt h

/-- The search goes up by one with each board, so the number does not wrap while the boards
before it are fewer than `2 ^ 32`. -/
theorem insertAtGap_inserted {pCurrent : ListedBoard} {rest : List ListedBoard}
    (hsorted : Sorted (pCurrent :: rest))
    (hroom : pCurrent.boardIndex.toNat + rest.length + 1 < 2 ^ 32) :
    Inserted pBoard (pCurrent :: rest) pCurrent.boardIndex
      (insertAtGap pBoard pCurrent rest) := by
  induction rest generalizing pCurrent with
  | nil =>
    have hnext := toNat_succ (i := pCurrent.boardIndex) (by rw [List.length_nil] at hroom; omega)
    have hlt : pCurrent.boardIndex < pCurrent.boardIndex + 1 := by
      rw [UInt32.lt_iff_toNat_lt, hnext]
      omega
    refine ⟨List.Perm.swap _ _ _, ?_, hlt, fun b hb => ?_, fun j hlow hhigh => ?_⟩
    · refine List.pairwise_cons.mpr ⟨fun b hb => ?_, List.pairwise_singleton _ _⟩
      obtain rfl := List.mem_singleton.mp hb
      exact hlt
    · obtain rfl := List.mem_singleton.mp hb
      exact UInt32.ne_of_lt hlt
    · have heq : pCurrent.boardIndex = j := by
        rw [UInt32.le_iff_toNat_le] at hlow
        rw [UInt32.lt_iff_toNat_lt, insertAtGap, hnext] at hhigh
        rw [← UInt32.toNat_inj]
        omega
      exact ⟨pCurrent, List.mem_singleton_self pCurrent, heq⟩
  | cons pNext rest ih =>
    rw [List.length_cons] at hroom
    have hnext := toNat_succ (i := pCurrent.boardIndex) (by omega)
    obtain ⟨hfirst, hrest⟩ := List.pairwise_cons.mp hsorted
    have hlt : pCurrent.boardIndex < pCurrent.boardIndex + 1 := by
      rw [UInt32.lt_iff_toNat_lt, hnext]
      omega
    have hle : pCurrent.boardIndex + 1 ≤ pNext.boardIndex := by
      have hstep := hfirst pNext List.mem_cons_self
      rw [UInt32.lt_iff_toNat_lt] at hstep
      rw [UInt32.le_iff_toNat_le, hnext]
      exact hstep
    by_cases hgap : pCurrent.boardIndex + 1 = pNext.boardIndex
    · -- no gap here: the search goes on from the next board
      have hinserted := ih hrest (by rw [← hgap, hnext]; omega)
      rw [insertAtGap, if_neg (not_not.mpr hgap)]
      refine ⟨?_, ?_, ?_, fun b hb => ?_, fun j hlow hhigh => ?_⟩
      · exact (hinserted.added.cons pCurrent).trans (List.Perm.swap _ _ _)
      · refine List.pairwise_cons.mpr ⟨fun b hb => ?_, hinserted.sorted⟩
        rcases List.mem_cons.mp (hinserted.added.mem_iff.mp hb) with rfl | hold
        · exact UInt32.lt_trans (hfirst pNext List.mem_cons_self) hinserted.start_lt
        · exact hfirst b hold
      · exact UInt32.lt_trans (hfirst pNext List.mem_cons_self) hinserted.start_lt
      · rcases List.mem_cons.mp hb with rfl | hold
        · exact UInt32.ne_of_lt
            (UInt32.lt_trans (hfirst pNext List.mem_cons_self) hinserted.start_lt)
        · exact hinserted.unused b hold
      · by_cases heq : pCurrent.boardIndex = j
        · exact ⟨pCurrent, List.mem_cons_self, heq⟩
        · have habove : pNext.boardIndex ≤ j := by
            rw [← hgap, UInt32.le_iff_toNat_le, hnext]
            rw [UInt32.le_iff_toNat_le] at hlow
            rw [← UInt32.toNat_inj] at heq
            omega
          obtain ⟨b, hb, hindex⟩ := hinserted.used j habove hhigh
          exact ⟨b, List.mem_cons_of_mem pCurrent hb, hindex⟩
    · have hbelow : pCurrent.boardIndex + 1 < pNext.boardIndex := by
        rw [UInt32.le_iff_toNat_le] at hle
        rw [← UInt32.toNat_inj] at hgap
        rw [UInt32.lt_iff_toNat_lt]
        omega
      have habove : ∀ b ∈ pNext :: rest, pCurrent.boardIndex + 1 < b.boardIndex := by
        intro b hb
        rcases List.mem_cons.mp hb with rfl | hb
        · exact hbelow
        · exact UInt32.lt_trans hbelow ((List.pairwise_cons.mp hrest).1 b hb)
      rw [insertAtGap, if_pos hgap]
      refine ⟨List.Perm.swap _ _ _, ?_, hlt, fun b hb => ?_, fun j hlow hhigh => ?_⟩
      · refine List.pairwise_cons.mpr ⟨fun b hb => ?_, List.pairwise_cons.mpr ⟨habove, hrest⟩⟩
        rcases List.mem_cons.mp hb with rfl | hold
        · exact hlt
        · exact hfirst b hold
      · rcases List.mem_cons.mp hb with rfl | hold
        · exact UInt32.ne_of_lt hlt
        · exact (UInt32.ne_of_lt (habove b hold)).symm
      · have heq : pCurrent.boardIndex = j := by
          rw [UInt32.le_iff_toNat_le] at hlow
          rw [UInt32.lt_iff_toNat_lt, hnext] at hhigh
          rw [← UInt32.toNat_inj]
          omega
        exact ⟨pCurrent, List.mem_cons_self, heq⟩

/-- A new board gets the smallest free number, in its place in the list. -/
structure InsertedLeast (pBoard : Nat) (boards : List ListedBoard)
    (result : UInt32 × List ListedBoard) : Prop where
  added : result.2.Perm (⟨pBoard, result.1, 0⟩ :: boards)
  sorted : Sorted result.2
  leastUnused : LeastUnused boards result.1

theorem hailoPcieInsertBoard_inserted (hsorted : Sorted boards)
    (hroom : boards.length < 2 ^ 32) :
    InsertedLeast pBoard boards (hailoPcieInsertBoard pBoard boards) := by
  have hnone : ∀ j : UInt32, ¬ j < 0 := fun j hj =>
    Nat.not_lt_zero _ (UInt32.lt_iff_toNat_lt.mp hj)
  cases boards with
  | nil =>
    exact ⟨List.Perm.refl _, List.pairwise_singleton _ _,
      fun b hb => absurd hb List.not_mem_nil, fun j hj => absurd hj (hnone j)⟩
  | cons first rest =>
    rw [hailoPcieInsertBoard]
    split
    · next hpos =>
      have hall : ∀ b ∈ first :: rest, 0 < b.boardIndex := by
        intro b hb
        rcases List.mem_cons.mp hb with rfl | hb
        · exact hpos
        · exact UInt32.lt_trans hpos ((List.pairwise_cons.mp hsorted).1 b hb)
      exact ⟨List.Perm.refl _, List.pairwise_cons.mpr ⟨hall, hsorted⟩,
        fun b hb => (UInt32.ne_of_lt (hall b hb)).symm, fun j hj => absurd hj (hnone j)⟩
    · next hzero =>
      have hfirst : first.boardIndex = 0 :=
        UInt32.le_zero_iff.mp (UInt32.not_lt.mp hzero)
      have hinserted := @insertAtGap_inserted pBoard first rest hsorted
        (by rw [hfirst, UInt32.toNat_zero]; rw [List.length_cons] at hroom; omega)
      refine ⟨hinserted.added, hinserted.sorted, hinserted.unused, fun j hj => ?_⟩
      exact hinserted.used j (hfirst ▸ UInt32.zero_le) hj

end Insert

theorem hailoPcieRemoveBoard_sorted {boards : List ListedBoard} (hsorted : Sorted boards)
    (pBoard : Nat) : Sorted (hailoPcieRemoveBoard pBoard boards) :=
  hsorted.sublist List.eraseP_sublist

/-- Counting a reference keeps the numbers. -/
theorem getBoardIndex_indices (index : UInt32) (boards : List ListedBoard) :
    (hailoPcieGetBoardIndex index boards).2.map ListedBoard.boardIndex =
      boards.map ListedBoard.boardIndex := by
  induction boards with
  | nil => rfl
  | cons pBoard rest ih =>
    rw [hailoPcieGetBoardIndex]
    split
    · rfl
    · rw [List.map_cons, List.map_cons, ih]

theorem sorted_iff_indices {boards : List ListedBoard} :
    Sorted boards ↔ (boards.map ListedBoard.boardIndex).Pairwise (· < ·) :=
  List.pairwise_map.symm

theorem getBoardIndex_sorted {boards : List ListedBoard} (hsorted : Sorted boards)
    (index : UInt32) : Sorted (hailoPcieGetBoardIndex index boards).2 := by
  rw [sorted_iff_indices, getBoardIndex_indices]
  exact sorted_iff_indices.mp hsorted

theorem Sorted.eq_of_index {boards : List ListedBoard} (hsorted : Sorted boards)
    {b b' : ListedBoard} (hb : b ∈ boards) (hb' : b' ∈ boards)
    (hindex : b.boardIndex = b'.boardIndex) : b = b' := by
  induction boards with
  | nil => exact absurd hb List.not_mem_nil
  | cons first rest ih =>
    obtain ⟨hfirst, hrest⟩ := List.pairwise_cons.mp hsorted
    rcases List.mem_cons.mp hb with rfl | hlater
    · rcases List.mem_cons.mp hb' with rfl | hlater'
      · rfl
      · exact absurd hindex (UInt32.ne_of_lt (hfirst b' hlater'))
    · rcases List.mem_cons.mp hb' with rfl | hlater'
      · exact absurd hindex.symm (UInt32.ne_of_lt (hfirst b hlater))
      · exact ih hrest hlater hlater'

/-- The board with a number is found, and nothing is found for a number that no board has. -/
theorem getBoardIndex_iff {boards : List ListedBoard} (hsorted : Sorted boards) (index : UInt32)
    (pRet : Nat) : (hailoPcieGetBoardIndex index boards).1 = some pRet ↔
      ∃ b ∈ boards, b.boardIndex = index ∧ b.board = pRet := by
  induction boards with
  | nil => exact iff_of_false (by rintro ⟨⟩) fun ⟨b, hb, _⟩ => absurd hb List.not_mem_nil
  | cons first rest ih =>
    obtain ⟨hfirst, hrest⟩ := List.pairwise_cons.mp hsorted
    rw [hailoPcieGetBoardIndex]
    split
    · next heq =>
      constructor
      · intro h
        exact ⟨first, List.mem_cons_self, heq.symm, Option.some.inj h⟩
      · rintro ⟨b, hb, hindex, rfl⟩
        obtain rfl := Sorted.eq_of_index hsorted hb List.mem_cons_self (hindex.trans heq)
        rfl
    · next hne =>
      refine (ih hrest).trans ⟨fun ⟨b, hb, hrest⟩ => ⟨b, List.mem_cons_of_mem first hb, hrest⟩, ?_⟩
      rintro ⟨b, hb, hindex, hboard⟩
      rcases List.mem_cons.mp hb with rfl | hb
      · exact absurd hindex.symm hne
      · exact ⟨b, hb, hindex, hboard⟩

/-- A call on the list; one that inserts a board finds at most `room` others. -/
inductive Call (room : Nat) : List ListedBoard → List ListedBoard → Prop
  | insert {boards : List ListedBoard} (pBoard : Nat) (hroom : boards.length ≤ room) :
      Call room boards (hailoPcieInsertBoard pBoard boards).2
  | remove {boards : List ListedBoard} (pBoard : Nat)
      (hlisted : ∃ b ∈ boards, b.board = pBoard) :
      Call room boards (hailoPcieRemoveBoard pBoard boards)
  | get {boards : List ListedBoard} (index : UInt32) :
      Call room boards (hailoPcieGetBoardIndex index boards).2

theorem sorted_of_calls {boards : List ListedBoard}
    (h : Relation.ReflTransGen (Call (2 ^ 32 - 1)) [] boards) : Sorted boards := by
  refine inv_of_run (fun boards boards' hsorted hcall => ?_) h List.Pairwise.nil
  cases hcall with
  | insert pBoard hroom => exact (hailoPcieInsertBoard_inserted hsorted (by omega)).sorted
  | remove pBoard hlisted => exact hailoPcieRemoveBoard_sorted hsorted pBoard
  | get index => exact getBoardIndex_sorted hsorted index

/-- The numbers of the listed boards are minimal, unique and in order. -/
structure Numbered (room : Nat) (boards : List ListedBoard) : Prop where
  sorted : Sorted boards
  inserted : boards.length ≤ room → ∀ pBoard,
    InsertedLeast pBoard boards (hailoPcieInsertBoard pBoard boards)
  unique : ∀ b ∈ boards, ∀ b' ∈ boards, b.boardIndex = b'.boardIndex → b = b'
  found : ∀ index pRet, (hailoPcieGetBoardIndex index boards).1 = some pRet ↔
    ∃ b ∈ boards, b.boardIndex = index ∧ b.board = pRet

/-- As long as a number of 32 bits is free at each insertion, the boards keep their order. -/
theorem numbered_of_calls {boards : List ListedBoard}
    (h : Relation.ReflTransGen (Call (2 ^ 32 - 1)) [] boards) : Numbered (2 ^ 32 - 1) boards := by
  have hsorted := sorted_of_calls h
  exact ⟨hsorted, fun hroom pBoard => hailoPcieInsertBoard_inserted hsorted (by omega),
    fun b hb b' hb' => hsorted.eq_of_index hb hb', getBoardIndex_iff hsorted⟩

/-- Boards 0 and 1, then board 0 goes and board 7 takes its number. -/
theorem numbered_reused : Numbered (2 ^ 32 - 1) [⟨7, 0, 0⟩, ⟨1, 1, 0⟩] := by
  have hzero : Call (2 ^ 32 - 1) [] [⟨0, 0, 0⟩] := .insert 0 (by decide)
  have hone : Call (2 ^ 32 - 1) [⟨0, 0, 0⟩] [⟨0, 0, 0⟩, ⟨1, 1, 0⟩] := .insert 1 (by decide)
  have hremove : Call (2 ^ 32 - 1) [⟨0, 0, 0⟩, ⟨1, 1, 0⟩] [⟨1, 1, 0⟩] :=
    .remove 0 ⟨_, List.mem_cons_self, rfl⟩
  have hseven : Call (2 ^ 32 - 1) [⟨1, 1, 0⟩] [⟨7, 0, 0⟩, ⟨1, 1, 0⟩] := .insert 7 (by decide)
  exact numbered_of_calls ((((Relation.ReflTransGen.refl.tail hzero).tail hone).tail hremove).tail
    hseven)

section Full

/-- The boards `i`, `i + 1` and so on, each with its own number. -/
def consecutive : Nat → Nat → List ListedBoard
  | _, 0 => []
  | i, count + 1 => ⟨i, UInt32.ofNat i, 0⟩ :: consecutive (i + 1) count

theorem length_consecutive (i count : Nat) : (consecutive i count).length = count := by
  induction count generalizing i with
  | zero => rfl
  | succ count ih => rw [consecutive, List.length_cons, ih]

theorem consecutive_concat (i count : Nat) :
    consecutive i (count + 1) =
      consecutive i count ++ [⟨i + count, UInt32.ofNat (i + count), 0⟩] := by
  induction count generalizing i with
  | zero => rfl
  | succ count ih =>
    rw [consecutive, ih, consecutive, List.cons_append, Nat.add_assoc, Nat.add_comm 1 count]

/-- Behind boards without a gap the next number is taken, whether it wraps or not. -/
theorem insertAtGap_consecutive (pBoard i count : Nat) :
    insertAtGap pBoard ⟨i, UInt32.ofNat i, 0⟩ (consecutive (i + 1) count) =
      (UInt32.ofNat (i + count + 1),
        consecutive i (count + 1) ++ [⟨pBoard, UInt32.ofNat (i + count + 1), 0⟩]) := by
  have hsucc (j : Nat) : UInt32.ofNat j + 1 = UInt32.ofNat (j + 1) := by
    rw [UInt32.ofNat_add]
    rfl
  induction count generalizing i with
  | zero =>
    rw [consecutive, insertAtGap]
    simp only [hsucc]
    rfl
  | succ count ih =>
    rw [consecutive, insertAtGap, if_neg (not_not.mpr (hsucc i)), ih]
    have hindex : i + 1 + count + 1 = i + (count + 1) + 1 := by omega
    rw [hindex]
    rfl

theorem insertBoard_consecutive (pBoard count : Nat) :
    hailoPcieInsertBoard pBoard (consecutive 0 count) =
      (UInt32.ofNat count, consecutive 0 count ++ [⟨pBoard, UInt32.ofNat count, 0⟩]) := by
  cases count with
  | zero => rfl
  | succ count =>
    have hgap := insertAtGap_consecutive pBoard 0 count
    simp only [Nat.zero_add] at hgap
    exact hgap

theorem calls_consecutive {room count : Nat} (hcount : count ≤ room + 1) :
    Relation.ReflTransGen (Call room) [] (consecutive 0 count) := by
  induction count with
  | zero => exact .refl
  | succ count ih =>
    refine .tail (ih (by omega)) ?_
    have hinsert := @Call.insert room (consecutive 0 count) count
      (by rw [length_consecutive]; omega)
    rw [insertBoard_consecutive] at hinsert
    rw [consecutive_concat, Nat.zero_add]
    exact hinsert

/-- With `2 ^ 32` boards listed no number is left, and the next board is number 0 as well. -/
theorem full_renumbers : ∃ boards,
    Relation.ReflTransGen (Call (2 ^ 32)) [] boards ∧
      (∃ b ∈ boards, b.boardIndex = (hailoPcieInsertBoard (2 ^ 32) boards).1) ∧
      ¬ Numbered (2 ^ 32) boards := by
  generalize hfull : 2 ^ 32 = full
  have hnumber : UInt32.ofNat full = 0 := by
    rw [← hfull]
    rfl
  have hinsert := insertBoard_consecutive full full
  have hused : ∃ b ∈ consecutive 0 full, b.boardIndex = UInt32.ofNat full := by
    obtain ⟨count, rfl⟩ : ∃ count, full = count + 1 := ⟨full - 1, by omega⟩
    exact ⟨_, List.mem_cons_self, hnumber.symm⟩
  refine ⟨consecutive 0 full, calls_consecutive (by omega), ?_, fun h => ?_⟩
  · rw [hinsert]
    exact hused
  · obtain ⟨b, hb, hindex⟩ := hused
    have hleast := (h.inserted (by rw [length_consecutive]) full).leastUnused
    rw [hinsert] at hleast
    exact hleast.unused b hb hindex

end Full

end HailortDrivers.BoardNumbers
