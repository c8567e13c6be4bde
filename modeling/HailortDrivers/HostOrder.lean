import HailortDrivers.LittleEndian

/-!
Words in the memory of a host of either byte order, and the swaps of `byte_order.h` between
the order of the host and that of the device, which is little-endian.
-/
namespace HailortDrivers.HostOrder
open LittleEndian

inductive ByteOrder
  | little
  | big
deriving DecidableEq

/-- The bytes of a word as the host stores them, from those of its little-endian encoding. -/
def ByteOrder.arrange : ByteOrder → List UInt8 → List UInt8
  | .little, run => run
  | .big, run => run.reverse

/-- The word that the host loads. -/
def ByteOrder.load (order : ByteOrder) (bytes : Nat → UInt8) (x : Nat) : UInt32 :=
  wordIn (order.arrange (bytesFrom bytes x 4)) 0

def swap16 (n : UInt16) : UInt16 := ((n &&& 0x00FF) <<< 8) ||| ((n &&& 0xFF00) >>> 8)

def swap32 (n : UInt32) : UInt32 :=
  ((swap16 n.toUInt16).toUInt32 <<< 16) ||| (swap16 (n >>> 16).toUInt16).toUInt32

def swap64 (n : UInt64) : UInt64 :=
  ((swap32 n.toUInt32).toUInt64 <<< 32) ||| (swap32 (n >>> 32).toUInt32).toUInt64

def htods : ByteOrder → UInt16 → UInt16
  | .little, n => n
  | .big, n => swap16 n

def htodl : ByteOrder → UInt32 → UInt32
  | .little, n => n
  | .big, n => swap32 n

def htodll : ByteOrder → UInt64 → UInt64
  | .little, n => n
  | .big, n => swap64 n

def dtohl : ByteOrder → UInt32 → UInt32
  | .little, n => n
  | .big, n => swap32 n

section Swaps

theorem toNat_swap16 (n : UInt16) :
    (swap16 n).toNat = n.toNat % 2 ^ 8 * 2 ^ 8 + n.toNat / 2 ^ 8 := by
  have hn := n.toNat_lt
  have hlowLt : n.toNat % 2 ^ 8 * 2 ^ 8 < 2 ^ 16 := by omega
  have hhighLt : n.toNat / 2 ^ 8 < 2 ^ 8 := by omega
  have hlow : (0x00FF : UInt16).toNat = 2 ^ 8 - 1 := rfl
  have hhigh : (0xFF00 : UInt16).toNat >>> 8 = 2 ^ 8 - 1 := rfl
  have hshift : (8 : UInt16).toNat % 16 = 8 := rfl
  rw [swap16, UInt16.toNat_or, UInt16.toNat_shiftLeft, UInt16.toNat_shiftRight, UInt16.toNat_and,
    UInt16.toNat_and, hshift, Nat.shiftRight_and_distrib, hlow, hhigh,
    Nat.and_two_pow_sub_one_eq_mod, Nat.and_two_pow_sub_one_eq_mod, Nat.shiftLeft_eq,
    Nat.shiftRight_eq_div_pow, Nat.mod_eq_of_lt hlowLt, Nat.mod_eq_of_lt hhighLt,
    Nat.mul_comm (n.toNat % 2 ^ 8)]
  exact (Nat.two_pow_add_eq_or_of_lt hhighLt _).symm

theorem toNat_swap32 (n : UInt32) :
    (swap32 n).toNat = (swap16 n.toUInt16).toNat * 2 ^ 16 + (swap16 (n >>> 16).toUInt16).toNat := by
  have hlow := (swap16 n.toUInt16).toNat_lt
  have hhigh := (swap16 (n >>> 16).toUInt16).toNat_lt
  have hshift : (16 : UInt32).toNat % 32 = 16 := rfl
  rw [swap32, UInt32.toNat_or, UInt32.toNat_shiftLeft, UInt16.toNat_toUInt32, UInt16.toNat_toUInt32,
    hshift, Nat.shiftLeft_eq, Nat.mod_eq_of_lt (by omega), Nat.mul_comm _ (2 ^ 16)]
  exact (Nat.two_pow_add_eq_or_of_lt (by omega) _).symm

theorem toNat_swap64 (n : UInt64) :
    (swap64 n).toNat = (swap32 n.toUInt32).toNat * 2 ^ 32 + (swap32 (n >>> 32).toUInt32).toNat := by
  have hlow := (swap32 n.toUInt32).toNat_lt
  have hhigh := (swap32 (n >>> 32).toUInt32).toNat_lt
  have hshift : (32 : UInt64).toNat % 64 = 32 := rfl
  rw [swap64, UInt64.toNat_or, UInt64.toNat_shiftLeft, UInt32.toNat_toUInt64, UInt32.toNat_toUInt64,
    hshift, Nat.shiftLeft_eq, Nat.mod_eq_of_lt (by omega), Nat.mul_comm _ (2 ^ 32)]
  exact (Nat.two_pow_add_eq_or_of_lt (by omega) _).symm

theorem toNat_shiftRight_toUInt16 (n : UInt32) : (n >>> 16).toUInt16.toNat = n.toNat / 2 ^ 16 := by
  have hn := n.toNat_lt
  have hshift : (16 : UInt32).toNat % 32 = 16 := rfl
  rw [UInt32.toNat_toUInt16, UInt32.toNat_shiftRight, hshift, Nat.shiftRight_eq_div_pow,
    Nat.mod_eq_of_lt (by omega)]

theorem toNat_swap32_bytes (n : UInt32) :
    (swap32 n).toNat = (byteAt n 0).toNat * 2 ^ 24 + (byteAt n 1).toNat * 2 ^ 16 +
      (byteAt n 2).toNat * 2 ^ 8 + (byteAt n 3).toNat := by
  have hn := n.toNat_lt
  have h0 : n.toNat % 2 ^ 16 % 2 ^ 8 = n.toNat % 2 ^ 8 := by omega
  have h1 : n.toNat % 2 ^ 16 / 2 ^ 8 = n.toNat / 2 ^ 8 % 2 ^ 8 := by omega
  have h3 : n.toNat / 2 ^ 16 / 2 ^ 8 = n.toNat / 2 ^ 24 % 2 ^ 8 := by omega
  rw [toNat_swap32, toNat_swap16, toNat_swap16, toNat_shiftRight_toUInt16, UInt32.toNat_toUInt16,
    h0, h1, h3, toNat_byteAt, toNat_byteAt, toNat_byteAt, toNat_byteAt]
  simp only [Nat.mul_zero, Nat.mul_one, Nat.reduceMul, Nat.pow_zero, Nat.div_one]
  omega

/-- The bytes of a swapped word are those of the word, the other way round. -/
theorem byteAt_swap32 (n : UInt32) {i : Nat} (hi : i < 4) :
    byteAt (swap32 n) i = byteAt n (3 - i) := by
  have h0 := (byteAt n 0).toNat_lt
  have h1 := (byteAt n 1).toNat_lt
  have h2 := (byteAt n 2).toNat_lt
  have h3 := (byteAt n 3).toNat_lt
  apply UInt8.toNat_inj.mp
  rw [toNat_byteAt, toNat_swap32_bytes]
  obtain rfl | rfl | rfl | rfl : i = 0 ∨ i = 1 ∨ i = 2 ∨ i = 3 := by omega
  all_goals simp only [Nat.mul_zero, Nat.mul_one, Nat.reduceMul, Nat.reduceSub]; omega

theorem wordBytes_swap32 (n : UInt32) : wordBytes (swap32 n) = (wordBytes n).reverse := by
  rw [wordBytes, byteAt_swap32 n (by decide), byteAt_swap32 n (by decide),
    byteAt_swap32 n (by decide), byteAt_swap32 n (by decide)]
  rfl

theorem halfBytes_swap16 (n : UInt16) : halfBytes (swap16 n) = (halfBytes n).reverse := by
  have hn := n.toNat_lt
  have hbyte (i : Nat) (hi : i < 2) :
      byteAt (swap16 n).toUInt32 i = byteAt n.toUInt32 (1 - i) := by
    have hlow : n.toNat % 2 ^ 8 < 2 ^ 8 := Nat.mod_lt _ (by decide)
    have hhigh : n.toNat / 2 ^ 8 < 2 ^ 8 := by omega
    apply UInt8.toNat_inj.mp
    rw [toNat_byteAt, toNat_byteAt, UInt16.toNat_toUInt32, UInt16.toNat_toUInt32, toNat_swap16]
    generalize hrest : n.toNat % 2 ^ 8 = low at hlow ⊢
    obtain rfl | rfl : i = 0 ∨ i = 1 := by omega
    · simp only [Nat.mul_zero, Nat.mul_one, Nat.sub_zero, Nat.pow_zero, Nat.div_one]
      omega
    · have hupper : (low * 2 ^ 8 + n.toNat / 2 ^ 8) / 2 ^ 8 = low := by omega
      simp only [Nat.mul_zero, Nat.mul_one, Nat.sub_self, Nat.pow_zero, Nat.div_one, hrest, hupper,
        Nat.mod_eq_of_lt hlow]
  rw [halfBytes, hbyte 0 (by decide), hbyte 1 (by decide)]
  rfl

theorem toUInt32_swap64 (n : UInt64) : (swap64 n).toUInt32 = swap32 (n >>> 32).toUInt32 := by
  apply UInt32.toNat_inj.mp
  have hhigh := (swap32 (n >>> 32).toUInt32).toNat_lt
  rw [UInt64.toNat_toUInt32, toNat_swap64]
  omega

theorem shiftRight_swap64 (n : UInt64) : (swap64 n >>> 32).toUInt32 = swap32 n.toUInt32 := by
  apply UInt32.toNat_inj.mp
  have hlow := (swap32 n.toUInt32).toNat_lt
  have hhigh := (swap32 (n >>> 32).toUInt32).toNat_lt
  have hshift : (32 : UInt64).toNat % 64 = 32 := rfl
  rw [UInt64.toNat_toUInt32, UInt64.toNat_shiftRight, hshift, Nat.shiftRight_eq_div_pow,
    toNat_swap64]
  omega

@[simp] theorem swap32_swap32 (n : UInt32) : swap32 (swap32 n) = n := by
  apply eq_of_byteAt
  intro i hi
  have hback : 3 - (3 - i) = i := by omega
  rw [byteAt_swap32 _ hi, byteAt_swap32 n (by omega), hback]

end Swaps

section Converted
variable (order : ByteOrder)

/-- A converted word is stored as its little-endian encoding by every host. -/
theorem arrange_htods (n : UInt16) : order.arrange (halfBytes (htods order n)) = halfBytes n := by
  cases order with
  | little => rfl
  | big => rw [ByteOrder.arrange, htods, halfBytes_swap16, List.reverse_reverse]

theorem arrange_htodl (n : UInt32) : order.arrange (wordBytes (htodl order n)) = wordBytes n := by
  cases order with
  | little => rfl
  | big => rw [ByteOrder.arrange, htodl, wordBytes_swap32, List.reverse_reverse]

theorem arrange_htodll (n : UInt64) :
    order.arrange (wordBytes (htodll order n).toUInt32 ++
      wordBytes (htodll order n >>> 32).toUInt32) =
      wordBytes n.toUInt32 ++ wordBytes (n >>> 32).toUInt32 := by
  cases order with
  | little => rfl
  | big =>
    rw [ByteOrder.arrange, htodll, toUInt32_swap64, shiftRight_swap64, List.reverse_append,
      wordBytes_swap32, wordBytes_swap32, List.reverse_reverse, List.reverse_reverse]

theorem load_little (bytes : Nat → UInt8) (x : Nat) :
    ByteOrder.little.load bytes x = wordAt bytes x := by
  rw [ByteOrder.load, ByteOrder.arrange, wordIn_bytesFrom (by decide), Nat.add_zero]

theorem load_big (bytes : Nat → UInt8) (x : Nat) :
    ByteOrder.big.load bytes x = swap32 (wordAt bytes x) := by
  rw [ByteOrder.load, ByteOrder.arrange, ← wordBytes_wordAt, ← wordBytes_swap32, wordIn_wordBytes]

/-- A loaded word, converted, is the one whose little-endian encoding is in memory. -/
theorem dtohl_load (bytes : Nat → UInt8) (x : Nat) :
    dtohl order (order.load bytes x) = wordAt bytes x := by
  cases order with
  | little => rw [dtohl, load_little]
  | big => rw [dtohl, load_big, swap32_swap32]

end Converted

end HailortDrivers.HostOrder
