import Mathlib.Algebra.Ring.Nat
import Mathlib.Tactic.Common

/-!
Bytes as a function of their position, the little-endian words in them, and
runs of bytes written over them.
-/
namespace HailortDrivers.LittleEndian

/-- The word whose bytes are `bytes x`, ..., `bytes (x + 3)`, lowest first. -/
def wordAt (bytes : Nat → UInt8) (x : Nat) : UInt32 :=
  UInt32.ofNat ((bytes x).toNat + 2 ^ 8 * (bytes (x + 1)).toNat +
    2 ^ 16 * (bytes (x + 2)).toNat + 2 ^ 24 * (bytes (x + 3)).toNat)

def byteAt (word : UInt32) (i : Nat) : UInt8 := UInt8.ofNat (word.toNat >>> (8 * i))

def wordBytes (word : UInt32) : List UInt8 :=
  [byteAt word 0, byteAt word 1, byteAt word 2, byteAt word 3]

/-- The half word whose bytes are `bytes x` and `bytes (x + 1)`, lowest first. -/
def halfAt (bytes : Nat → UInt8) (x : Nat) : UInt16 :=
  UInt16.ofNat ((bytes x).toNat + 2 ^ 8 * (bytes (x + 1)).toNat)

def halfBytes (half : UInt16) : List UInt8 := [byteAt half.toUInt32 0, byteAt half.toUInt32 1]

/-- The word at position `x` of a run of bytes. -/
def wordIn (run : List UInt8) (x : Nat) : UInt32 := wordAt (fun a => run[a]?.getD 0) x

/-- `bytes` with `run` written from position `x` on. -/
def overlay (bytes : Nat → UInt8) (x : Nat) (run : List UInt8) : Nat → UInt8 := fun a =>
  if x ≤ a then run[a - x]?.getD (bytes a) else bytes a

/-- `count` bytes from position `x` on. -/
def bytesFrom (bytes : Nat → UInt8) (x count : Nat) : List UInt8 :=
  (List.range count).map fun k => bytes (x + k)

@[simp] theorem length_wordBytes (word : UInt32) : (wordBytes word).length = 4 := rfl

@[simp] theorem length_bytesFrom (bytes : Nat → UInt8) (x count : Nat) :
    (bytesFrom bytes x count).length = count := by simp [bytesFrom]

theorem toNat_wordAt (bytes : Nat → UInt8) (x : Nat) :
    (wordAt bytes x).toNat = (bytes x).toNat + 2 ^ 8 * (bytes (x + 1)).toNat +
      2 ^ 16 * (bytes (x + 2)).toNat + 2 ^ 24 * (bytes (x + 3)).toNat := by
  have h0 := (bytes x).toNat_lt
  have h1 := (bytes (x + 1)).toNat_lt
  have h2 := (bytes (x + 2)).toNat_lt
  have h3 := (bytes (x + 3)).toNat_lt
  rw [wordAt, UInt32.toNat_ofNat', Nat.mod_eq_of_lt (by omega)]

theorem toNat_byteAt (word : UInt32) (i : Nat) :
    (byteAt word i).toNat = word.toNat / 2 ^ (8 * i) % 2 ^ 8 := by
  rw [byteAt, UInt8.toNat_ofNat', Nat.shiftRight_eq_div_pow]

theorem byteAt_wordAt {bytes : Nat → UInt8} {x i : Nat} (hi : i < 4) :
    byteAt (wordAt bytes x) i = bytes (x + i) := by
  apply UInt8.toNat_inj.mp
  have h0 := (bytes x).toNat_lt
  have h1 := (bytes (x + 1)).toNat_lt
  have h2 := (bytes (x + 2)).toNat_lt
  have h3 := (bytes (x + 3)).toNat_lt
  rw [toNat_byteAt, toNat_wordAt]
  obtain rfl | rfl | rfl | rfl : i = 0 ∨ i = 1 ∨ i = 2 ∨ i = 3 := by omega
  all_goals simp only [Nat.mul_zero, Nat.mul_one, Nat.reduceMul, Nat.add_zero]; omega

theorem wordBytes_wordAt (bytes : Nat → UInt8) (x : Nat) :
    wordBytes (wordAt bytes x) = bytesFrom bytes x 4 := by
  simp only [wordBytes, byteAt_wordAt, Nat.reduceLT]
  rfl

theorem toNat_halfAt (bytes : Nat → UInt8) (x : Nat) :
    (halfAt bytes x).toNat = (bytes x).toNat + 2 ^ 8 * (bytes (x + 1)).toNat := by
  have h0 := (bytes x).toNat_lt
  have h1 := (bytes (x + 1)).toNat_lt
  rw [halfAt, UInt16.toNat_ofNat', Nat.mod_eq_of_lt (by omega)]

@[simp] theorem length_halfBytes (half : UInt16) : (halfBytes half).length = 2 := rfl

/-- A word is determined by its bytes. -/
theorem eq_of_byteAt {v w : UInt32} (h : ∀ i < 4, byteAt v i = byteAt w i) : v = w := by
  apply UInt32.toNat_inj.mp
  have hv := v.toNat_lt
  have hw := w.toNat_lt
  have hbyte : ∀ i < 4, v.toNat / 2 ^ (8 * i) % 2 ^ 8 = w.toNat / 2 ^ (8 * i) % 2 ^ 8 := by
    intro i hi
    rw [← toNat_byteAt, ← toNat_byteAt, h i hi]
  have h0 := hbyte 0 (by decide)
  have h1 := hbyte 1 (by decide)
  have h2 := hbyte 2 (by decide)
  have h3 := hbyte 3 (by decide)
  simp only [Nat.mul_zero, Nat.mul_one, Nat.reduceMul] at h0 h1 h2 h3
  omega

theorem overlay_of_lt {bytes : Nat → UInt8} {x a : Nat} {run : List UInt8} (h : a < x) :
    overlay bytes x run a = bytes a := if_neg (by omega)

theorem overlay_of_ge {bytes : Nat → UInt8} {x a : Nat} {run : List UInt8}
    (h : x + run.length ≤ a) : overlay bytes x run a = bytes a := by
  rw [overlay, if_pos (by omega), List.getElem?_eq_none (by omega), Option.getD_none]

theorem overlay_at {bytes : Nat → UInt8} {x k : Nat} {run : List UInt8} (hk : k < run.length) :
    overlay bytes x run (x + k) = run[k] := by
  rw [overlay, if_pos (Nat.le_add_right x k), Nat.add_sub_cancel_left,
    List.getElem?_eq_getElem hk, Option.getD_some]

theorem overlay_head (bytes : Nat → UInt8) (x : Nat) (b : UInt8) (rest : List UInt8) :
    overlay bytes x (b :: rest) x = b := by
  rw [overlay, if_pos (Nat.le_refl x), Nat.sub_self, List.getElem?_cons_zero, Option.getD_some]

@[simp] theorem overlay_nil (bytes : Nat → UInt8) (x : Nat) : overlay bytes x [] = bytes := by
  funext a
  simp [overlay]

theorem overlay_append (bytes : Nat → UInt8) (x : Nat) (run rest : List UInt8) :
    overlay (overlay bytes x run) (x + run.length) rest = overlay bytes x (run ++ rest) := by
  funext a
  rcases Nat.lt_or_ge a (x + run.length) with h | h
  · rw [overlay_of_lt h]
    rcases Nat.lt_or_ge a x with hx | hx
    · rw [overlay_of_lt hx, overlay_of_lt hx]
    · rw [overlay, overlay, if_pos hx, if_pos hx, List.getElem?_append_left (by omega)]
  · rw [overlay, if_pos h, overlay_of_ge h, overlay, if_pos (by omega),
      List.getElem?_append_right (by omega), Nat.sub_add_eq]

theorem wordAt_overlay (bytes : Nat → UInt8) (x : Nat) (word : UInt32) :
    wordAt (overlay bytes x (wordBytes word)) x = word := by
  apply eq_of_byteAt
  intro i hi
  rw [byteAt_wordAt hi, overlay_at (by rwa [length_wordBytes])]
  obtain rfl | rfl | rfl | rfl : i = 0 ∨ i = 1 ∨ i = 2 ∨ i = 3 := by omega
  all_goals rfl

theorem bytesFrom_overlay (bytes : Nat → UInt8) (x : Nat) (run : List UInt8) :
    bytesFrom (overlay bytes x run) x run.length = run := by
  apply List.ext_getElem (length_bytesFrom _ _ _)
  intro k hk hk'
  simp only [bytesFrom, List.getElem_map, List.getElem_range, overlay_at hk']

theorem bytesFrom_succ (bytes : Nat → UInt8) (x count : Nat) :
    bytesFrom bytes x (count + 1) = bytes x :: bytesFrom bytes (x + 1) count := by
  rw [bytesFrom, List.range_succ_eq_map, List.map_cons, List.map_map, bytesFrom, Nat.add_zero]
  refine congrArg (bytes x :: ·) (List.map_congr_left fun k _ => ?_)
  rw [Function.comp_apply, Nat.succ_eq_add_one, Nat.add_assoc, Nat.add_comm 1 k]

theorem bytesFrom_add (bytes : Nat → UInt8) (x m n : Nat) :
    bytesFrom bytes x (m + n) = bytesFrom bytes x m ++ bytesFrom bytes (x + m) n := by
  rw [bytesFrom, List.range_add, List.map_append, List.map_map, bytesFrom, bytesFrom]
  refine congrArg _ (List.map_congr_left fun k _ => ?_)
  rw [Function.comp_apply, Nat.add_assoc]

theorem bytesFrom_congr {f g : Nat → UInt8} {x count : Nat}
    (h : ∀ a, x ≤ a → a < x + count → f a = g a) : bytesFrom f x count = bytesFrom g x count := by
  refine List.map_congr_left fun k hk => h _ (Nat.le_add_right x k) ?_
  have := List.mem_range.mp hk
  omega

theorem wordAt_congr {f g : Nat → UInt8} {x y : Nat} (h : ∀ i < 4, f (x + i) = g (y + i)) :
    wordAt f x = wordAt g y := by
  apply eq_of_byteAt
  intro i hi
  rw [byteAt_wordAt hi, byteAt_wordAt hi, h i hi]

/-- Writing the word that is there changes nothing. -/
theorem overlay_wordAt (bytes : Nat → UInt8) (x : Nat) :
    overlay bytes x (wordBytes (wordAt bytes x)) = bytes := by
  funext a
  rcases Nat.lt_or_ge a x with h | h
  · exact overlay_of_lt h
  · rcases Nat.lt_or_ge a (x + 4) with h' | h'
    · obtain ⟨k, rfl⟩ := Nat.exists_eq_add_of_le h
      have hk : k < (bytesFrom bytes x 4).length := by rw [length_bytesFrom]; omega
      rw [wordBytes_wordAt, overlay_at hk]
      simp only [bytesFrom, List.getElem_map, List.getElem_range]
    · exact overlay_of_ge (by rwa [length_wordBytes])

theorem wordIn_bytesFrom {bytes : Nat → UInt8} {x y count : Nat} (h : y + 4 ≤ count) :
    wordIn (bytesFrom bytes x count) y = wordAt bytes (x + y) := by
  refine wordAt_congr fun i hi => ?_
  have hlt : y + i < (List.range count).length := by rw [List.length_range]; omega
  rw [bytesFrom, List.getElem?_map, List.getElem?_eq_getElem hlt, List.getElem_range,
    Option.map_some, Option.getD_some, Nat.add_assoc]

theorem wordIn_append_left {run rest : List UInt8} {y : Nat} (h : y + 4 ≤ run.length) :
    wordIn (run ++ rest) y = wordIn run y :=
  wordAt_congr fun i _ => by rw [List.getElem?_append_left (by omega)]

theorem wordIn_append_right (run rest : List UInt8) (y : Nat) :
    wordIn (run ++ rest) (run.length + y) = wordIn rest y :=
  wordAt_congr fun i _ => by
    rw [List.getElem?_append_right (by omega), Nat.add_assoc, Nat.add_sub_cancel_left]

theorem wordBytes_wordIn (b₀ b₁ b₂ b₃ : UInt8) :
    wordBytes (wordIn [b₀, b₁, b₂, b₃] 0) = [b₀, b₁, b₂, b₃] := wordBytes_wordAt _ 0

/-- The second of two writes of the same length to one place is the one that counts. -/
theorem overlay_overlay {bytes : Nat → UInt8} {x : Nat} {run run' : List UInt8}
    (h : run.length = run'.length) :
    overlay (overlay bytes x run) x run' = overlay bytes x run' := by
  funext a
  rcases Nat.lt_or_ge a x with hlt | hge
  · rw [overlay_of_lt hlt, overlay_of_lt hlt, overlay_of_lt hlt]
  · rcases Nat.lt_or_ge a (x + run'.length) with hin | hout
    · obtain ⟨k, rfl⟩ := Nat.exists_eq_add_of_le hge
      have hk : k < run'.length := by omega
      rw [overlay_at hk, overlay_at hk]
    · rw [overlay_of_ge hout, overlay_of_ge (by omega), overlay_of_ge hout]

theorem wordAt_overlay_in (bytes : Nat → UInt8) (run : List UInt8) {x y : Nat}
    (h : y + 4 ≤ run.length) : wordAt (overlay bytes x run) (x + y) = wordIn run y := by
  refine wordAt_congr fun i hi => ?_
  rw [Nat.add_assoc, overlay_at (by omega), List.getElem?_eq_getElem (by omega), Option.getD_some]

theorem wordIn_wordBytes (word : UInt32) : wordIn (wordBytes word) 0 = word :=
  eq_of_byteAt fun i hi => by
    rw [wordIn, byteAt_wordAt hi, Nat.zero_add]
    obtain rfl | rfl | rfl | rfl : i = 0 ∨ i = 1 ∨ i = 2 ∨ i = 3 := by omega
    all_goals rfl

theorem wordIn_wordBytes_append (word : UInt32) (rest : List UInt8) :
    wordIn (wordBytes word ++ rest) 0 = word := by
  rw [wordIn_append_left (by rw [length_wordBytes]), wordIn_wordBytes]

theorem wordIn_skip (word : UInt32) (rest : List UInt8) (y : Nat) :
    wordIn (wordBytes word ++ rest) (4 + y) = wordIn rest y :=
  wordIn_append_right (wordBytes word) rest y

/-- A part of a run is read back where the run was written. -/
theorem bytesFrom_overlay_part (bytes : Nat → UInt8) (x : Nat) (before part after : List UInt8) :
    bytesFrom (overlay bytes x (before ++ (part ++ after))) (x + before.length) part.length =
      part := by
  rw [← overlay_append, ← overlay_append]
  refine Eq.trans (bytesFrom_congr fun a _ hlt => overlay_of_lt hlt) ?_
  exact bytesFrom_overlay _ _ part

end HailortDrivers.LittleEndian
