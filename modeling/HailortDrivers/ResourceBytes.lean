import HailortDrivers.ByteViews

/-!
A resource at any address, whose words behave as memory: it is a part of the words that it
lies in. Copies are copies of bytes, and single accesses of one and of two bytes are accesses
to an array of bytes as long as the two bytes are in one word.
-/
namespace HailortDrivers.ResourceBytes
open KernelExec LittleEndian RegisterBits ResourceAccess ByteViews

variable {σ : Type} {io : Mmio σ} {resource : HailoResource}

/-- The words that a resource starts in. -/
def wordsOf (resource : HailoResource) : HailoResource :=
  ⟨alignTo32Bit resource.address, resource.size⟩

/-- Where byte `offset` of a resource is in its words. -/
def placeOf (resource : HailoResource) (offset : Nat) : Nat := resource.address % 4 + offset

theorem wordsOf_mapped (resource : HailoResource) {size : Nat} (hsize : size % 4 = 0) :
    MappedWords (wordsOf resource) size := ⟨Nat.mul_mod_left _ _, hsize⟩

theorem address_wordsOf (resource : HailoResource) (offset : Nat) :
    (wordsOf resource).address + placeOf resource offset = resource.address + offset := by
  rw [wordsOf, placeOf, alignTo32Bit]
  simp only
  omega

theorem placeOf_succ (resource : HailoResource) (offset n : Nat) :
    placeOf resource (offset + n) = placeOf resource offset + n :=
  (Nat.add_assoc _ _ _).symm

section Shift

theorem hailoResourceReadPart_eq (amountBits offset : Nat) (s : σ) :
    hailoResourceReadPart io resource amountBits offset s =
      hailoResourceReadPart io (wordsOf resource) amountBits (placeOf resource offset) s := by
  rw [hailoResourceReadPart, hailoResourceReadPart, address_wordsOf]

theorem hailoResourceWritePart_eq (amountBits : UInt32) (offset : Nat) (value : UInt32) (s : σ) :
    hailoResourceWritePart io resource amountBits offset value s =
      hailoResourceWritePart io (wordsOf resource) amountBits (placeOf resource offset) value
        s := by
  rw [hailoResourceWritePart, hailoResourceWritePart, address_wordsOf]

theorem hailoResourceRead8_eq (offset : Nat) (s : σ) :
    hailoResourceRead8 io resource offset s =
      hailoResourceRead8 io (wordsOf resource) (placeOf resource offset) s := by
  rw [hailoResourceRead8, hailoResourceRead8, hailoResourceReadPart_eq]

theorem hailoResourceWrite8_eq (offset : Nat) (value : UInt8) (s : σ) :
    hailoResourceWrite8 io resource offset value s =
      hailoResourceWrite8 io (wordsOf resource) (placeOf resource offset) value s :=
  hailoResourceWritePart_eq _ _ _ _

theorem hailoResourceRead32_eq (offset : Nat) (s : σ) :
    hailoResourceRead32 io resource offset s =
      hailoResourceRead32 io (wordsOf resource) (placeOf resource offset) s := by
  rw [hailoResourceRead32, hailoResourceRead32, address_wordsOf]

theorem hailoResourceWrite32_eq (offset : Nat) (value : UInt32) (s : σ) :
    hailoResourceWrite32 io resource offset value s =
      hailoResourceWrite32 io (wordsOf resource) (placeOf resource offset) value s := by
  rw [hailoResourceWrite32, hailoResourceWrite32, address_wordsOf]

theorem readTrailingBytes_eq (count : Nat) : ∀ offset s,
    readTrailingBytes io resource count offset s =
      readTrailingBytes io (wordsOf resource) count (placeOf resource offset) s := by
  induction count with
  | zero => exact fun _ _ => rfl
  | succ count ih =>
    intro offset s
    rw [readTrailingBytes, readTrailingBytes, hailoResourceRead8_eq]
    simp only
    rw [ih, placeOf_succ]

theorem readWords_eq (count : Nat) : ∀ offset s,
    readWords io resource count offset s =
      readWords io (wordsOf resource) count (placeOf resource offset) s := by
  induction count using Nat.strong_induction_on with
  | _ count ih =>
    intro offset s
    match count, ih with
    | count + 4, ih =>
      rw [readWords, readWords, hailoResourceRead32_eq]
      simp only
      rw [ih count (by omega), placeOf_succ]
    | 0, _ => exact readTrailingBytes_eq _ offset s
    | 1, _ => exact readTrailingBytes_eq _ offset s
    | 2, _ => exact readTrailingBytes_eq _ offset s
    | 3, _ => exact readTrailingBytes_eq _ offset s

theorem hailoResourceReadBuffer_eq (count : Nat) : ∀ offset dest s,
    hailoResourceReadBuffer io resource offset count dest s =
      hailoResourceReadBuffer io (wordsOf resource) (placeOf resource offset) count dest s := by
  induction count with
  | zero => exact fun _ _ _ => rfl
  | succ count ih =>
    intro offset dest s
    rw [hailoResourceReadBuffer, hailoResourceReadBuffer, address_wordsOf]
    split
    · rw [hailoResourceRead8_eq]
      simp only
      rw [ih, placeOf_succ]
    · exact readWords_eq (count + 1) offset s

theorem writeTrailingBytes_eq (data : List UInt8) : ∀ offset s,
    writeTrailingBytes io resource data offset s =
      writeTrailingBytes io (wordsOf resource) data (placeOf resource offset) s := by
  induction data with
  | nil => exact fun _ _ => rfl
  | cons b rest ih =>
    intro offset s
    rw [writeTrailingBytes, writeTrailingBytes, hailoResourceWrite8_eq]
    simp only
    rw [hailoResourceRead8_eq offset, ih, placeOf_succ]

theorem writeWords_eq (n : Nat) : ∀ data : List UInt8, data.length ≤ n → ∀ offset s,
    writeWords io resource data offset s =
      writeWords io (wordsOf resource) data (placeOf resource offset) s := by
  induction n with
  | zero =>
    intro data hn offset s
    rw [List.length_eq_zero_iff.mp (Nat.le_zero.mp hn)]
    exact writeTrailingBytes_eq [] offset s
  | succ n ih =>
    intro data hn offset s
    match data, hn with
    | b₀ :: b₁ :: b₂ :: b₃ :: rest, hn =>
      simp only [List.length_cons] at hn
      rw [writeWords, writeWords, hailoResourceWrite32_eq]
      simp only
      rw [hailoResourceRead32_eq offset, ih rest (by omega), placeOf_succ]
    | [], _ => exact writeTrailingBytes_eq _ offset s
    | [_], _ => exact writeTrailingBytes_eq _ offset s
    | [_, _], _ => exact writeTrailingBytes_eq _ offset s
    | [_, _, _], _ => exact writeTrailingBytes_eq _ offset s

theorem hailoResourceWriteBuffer_eq (data : List UInt8) : ∀ offset source s,
    hailoResourceWriteBuffer io resource offset data source s =
      hailoResourceWriteBuffer io (wordsOf resource) (placeOf resource offset) data source s := by
  induction data with
  | nil => exact fun _ _ _ => rfl
  | cons b rest ih =>
    intro offset source s
    rw [hailoResourceWriteBuffer, hailoResourceWriteBuffer, address_wordsOf]
    split
    · rw [hailoResourceWrite8_eq]
      simp only
      rw [hailoResourceRead8_eq offset, ih, placeOf_succ]
    · exact writeWords_eq _ _ (Nat.le_refl _) offset s

end Shift

section Copies
variable {size : Nat} (hsize : size % 4 = 0)
  (view : ByteView io (wordsOf resource).address size)
include hsize

/-- Copying to a resource writes exactly its bytes, copying from it reads exactly its bytes,
and what was written is read back, wherever the resource and the host's bytes lie. -/
theorem bufferAccess_copies {offset : Nat} {data : List UInt8}
    (hfit : placeOf resource offset + data.length ≤ size) (source dest : Nat) (s : σ) :
    hailoResourceWriteBuffer io resource offset data source s =
        (0, view.put s (overlay (view.get s) (placeOf resource offset) data)) ∧
      hailoResourceReadBuffer io resource offset data.length dest s =
        (bytesFrom (view.get s) (placeOf resource offset) data.length, s) ∧
      (hailoResourceReadBuffer io resource offset data.length dest
        (hailoResourceWriteBuffer io resource offset data source s).2).1 = data := by
  have hmap := wordsOf_mapped resource hsize
  have hwrite : hailoResourceWriteBuffer io resource offset data source s =
      (0, view.put s (overlay (view.get s) (placeOf resource offset) data)) := by
    rw [hailoResourceWriteBuffer_eq]
    exact hailoResourceWriteBuffer_view hmap view data _ source s hfit
  have hread (s : σ) : hailoResourceReadBuffer io resource offset data.length dest s =
      (bytesFrom (view.get s) (placeOf resource offset) data.length, s) := by
    rw [hailoResourceReadBuffer_eq]
    exact hailoResourceReadBuffer_view hmap view s dest hfit
  refine ⟨hwrite, hread s, ?_⟩
  rw [hread, hwrite]
  have hback : bytesFrom (view.get (view.put s (overlay (view.get s) (placeOf resource offset)
      data))) (placeOf resource offset) data.length =
      bytesFrom (overlay (view.get s) (placeOf resource offset) data) (placeOf resource offset)
        data.length :=
    bytesFrom_congr fun a _ hlt => view.get_put s _ a (by omega)
  exact hback.trans (bytesFrom_overlay _ _ _)

end Copies

/-- Five bytes to an address behind the start of a word, from an aligned host address. -/
theorem bufferAccess_copies_unaligned :
    (hailoResourceReadBuffer ram ⟨5, 16⟩ 2 5 3
      (hailoResourceWriteBuffer ram ⟨5, 16⟩ 2 [1, 2, 3, 4, 5] 0 (fun _ => 0)).2).1 =
        [1, 2, 3, 4, 5] := by
  have hfit : placeOf ⟨5, 16⟩ 2 + ([1, 2, 3, 4, 5] : List UInt8).length ≤ 16 := by decide
  have hall := bufferAccess_copies (by decide : 16 % 4 = 0)
    (ramView (wordsOf ⟨5, 16⟩).address (by decide)) hfit 0 3 (fun _ => 0)
  exact hall.2.2

section Fields

/-- Writing `m` bytes at byte `i` of a word replaces these bytes only. -/
theorem byteAt_writeBytes {w v : UInt32} {m i : Nat} (hm : m < 4) (hfit : i + m ≤ 4) (j : Nat) :
    byteAt (writeBitsAtOffset (UInt32.ofNat (8 * m)) (UInt32.ofNat (8 * i)) w v) j =
      if i ≤ j ∧ j < i + m then byteAt v (j - i) else byteAt w j := by
  apply eq_of_testBit_lt
  intro k hk
  have hwrite : hailoTestBit (8 * j + k)
      (writeBitsAtOffset (UInt32.ofNat (8 * m)) (UInt32.ofNat (8 * i)) w v) =
        if 8 * i ≤ 8 * j + k ∧ 8 * j + k < 8 * i + 8 * m then
          hailoTestBit (8 * j + k - 8 * i) v
        else hailoTestBit (8 * j + k) w :=
    hailoTestBit_writeBits (by omega) (by omega) _
  rw [testBit_byteAt hk, hwrite]
  by_cases hin : i ≤ j ∧ j < i + m
  · have hpos : 8 * j + k - 8 * i = 8 * (j - i) + k := by omega
    rw [if_pos hin, if_pos (by omega), testBit_byteAt hk, hpos]
  · rw [if_neg hin, if_neg (by omega), testBit_byteAt hk]

theorem readBits_half (w : UInt32) {i : Nat} (hi : i < 3) :
    UInt16.ofNat (readBitsAtOffset 16 (8 * i) w.toNat) = halfAt (byteAt w) i := by
  apply UInt16.toNat_inj.mp
  rw [UInt16.toNat_ofNat', readBits_eq, Nat.mod_mod, toNat_halfAt, toNat_byteAt, toNat_byteAt]
  obtain rfl | rfl | rfl : i = 0 ∨ i = 1 ∨ i = 2 := by omega
  all_goals simp only [Nat.mul_zero, Nat.mul_one, Nat.zero_add, Nat.reduceMul, Nat.reduceAdd]
  all_goals omega

/-- A word that differs from the bytes there in a run only is that run written. -/
theorem overlay_word {bytes : Nat → UInt8} {w : UInt32} {x : Nat} {run : List UInt8}
    (hfit : x % 4 + run.length ≤ 4)
    (h : ∀ j < 4, byteAt w j = overlay bytes x run (x / 4 * 4 + j)) :
    overlay bytes (x / 4 * 4) (wordBytes w) = overlay bytes x run := by
  funext a
  rcases Nat.lt_or_ge a (x / 4 * 4) with hlt | hge
  · rw [overlay_of_lt hlt, overlay_of_lt (by omega)]
  · obtain ⟨j, rfl⟩ := Nat.exists_eq_add_of_le hge
    rcases Nat.lt_or_ge j 4 with hj | hj
    · rw [← h j hj, overlay_at (by rwa [length_wordBytes])]
      obtain rfl | rfl | rfl | rfl : j = 0 ∨ j = 1 ∨ j = 2 ∨ j = 3 := by omega
      all_goals rfl
    · rw [overlay_of_ge (by rw [length_wordBytes]; omega), overlay_of_ge (by omega)]

end Fields

section Scalars
variable {size : Nat} (hmap : MappedWords resource size)
  (view : ByteView io resource.address size)
include hmap

theorem hailoResourceRead16_view {x : Nat} (hx : x + 1 < size) (hword : x % 4 ≠ 3) (s : σ) :
    hailoResourceRead16 io resource x s = (halfAt (view.get s) x, s) := by
  have hsub : resource.address + x - (resource.address + x / 4 * 4) = x % 4 := by omega
  have hlt := hmap.word_lt (by omega : x < size)
  rw [hailoResourceRead16, hailoResourceReadPart, hmap.alignTo32Bit_add, hsub,
    view.read s (x / 4 * 4) (by omega) (by omega)]
  simp only
  rw [readBits_half _ (by omega), halfAt, byteAt_wordAt (by omega), byteAt_wordAt (by omega),
    halfAt, ← Nat.add_assoc, Nat.div_add_mod']

theorem hailoResourceWrite16_view {x : Nat} (hx : x + 1 < size) (hword : x % 4 ≠ 3) (v : UInt16)
    (s : σ) : hailoResourceWrite16 io resource x v s =
      view.put s (overlay (view.get s) x (halfBytes v)) := by
  have hsub : resource.address + x - (resource.address + x / 4 * 4) = x % 4 := by omega
  have hlt := hmap.word_lt (by omega : x < size)
  rw [hailoResourceWrite16, hailoResourceWritePart, hmap.alignTo32Bit_add, hsub,
    view.read s (x / 4 * 4) (by omega) (by omega)]
  simp only
  rw [view.write _ _ _ (by omega) (by omega)]
  refine congrArg _ (overlay_word (by rw [length_halfBytes]; omega) fun j hj => ?_)
  have hbyte := byteAt_writeBytes (w := wordAt (view.get s) (x / 4 * 4)) (v := v.toUInt32)
    (by decide : 2 < 4) (by omega : x % 4 + 2 ≤ 4) j
  refine hbyte.trans ?_
  split
  · next hin =>
    obtain ⟨k, rfl⟩ := Nat.exists_eq_add_of_le hin.1
    have hk : k < (halfBytes v).length := by rw [length_halfBytes]; omega
    rw [← Nat.add_assoc, Nat.div_add_mod', overlay_at hk, Nat.add_sub_cancel_left]
    obtain rfl | rfl : k = 0 ∨ k = 1 := by omega
    all_goals rfl
  · next hout =>
    rw [byteAt_wordAt hj]
    rcases Nat.lt_or_ge (x / 4 * 4 + j) x with hbefore | hafter
    · rw [overlay_of_lt hbefore]
    · rw [overlay_of_ge (by rw [length_halfBytes]; omega)]

end Scalars

/-- An access of one or two bytes. -/
inductive ScalarAccess
  | read8 (offset : Nat)
  | read16 (offset : Nat)
  | write8 (offset : Nat) (value : UInt8)
  | write16 (offset : Nat) (value : UInt16)

namespace ScalarAccess

def offset : ScalarAccess → Nat
  | .read8 offset | .read16 offset | .write8 offset _ | .write16 offset _ => offset

def width : ScalarAccess → Nat
  | .read8 _ | .write8 _ _ => 1
  | .read16 _ | .write16 _ _ => 2

/-- What the driver reads, if it reads, and what it does to the device. -/
def onResource (io : Mmio σ) (resource : HailoResource) : ScalarAccess → σ → Option Nat × σ
  | .read8 offset, s =>
    let (value, s) := hailoResourceRead8 io resource offset s
    (some value.toNat, s)
  | .read16 offset, s =>
    let (value, s) := hailoResourceRead16 io resource offset s
    (some value.toNat, s)
  | .write8 offset value, s => (none, hailoResourceWrite8 io resource offset value s)
  | .write16 offset value, s => (none, hailoResourceWrite16 io resource offset value s)

/-- The same on an array of bytes in which the resource starts at `start`. -/
def onBytes (start : Nat) : ScalarAccess → (Nat → UInt8) → Option Nat × (Nat → UInt8)
  | .read8 offset, bytes => (some (bytes (start + offset)).toNat, bytes)
  | .read16 offset, bytes => (some (halfAt bytes (start + offset)).toNat, bytes)
  | .write8 offset value, bytes => (none, overlay bytes (start + offset) [value])
  | .write16 offset value, bytes => (none, overlay bytes (start + offset) (halfBytes value))

/-- The access stays inside one word. -/
def InOneWord (resource : HailoResource) (access : ScalarAccess) : Prop :=
  access.width = 1 ∨ (resource.address + access.offset) % 4 ≠ 3

instance (resource : HailoResource) (access : ScalarAccess) :
    Decidable (access.InOneWord resource) := inferInstanceAs (Decidable (_ ∨ _))

/-- Accesses one after the other, with what each of them read. -/
def runAccesses {S : Type} (access : ScalarAccess → S → Option Nat × S) :
    List ScalarAccess → S → List (Option Nat) × S
  | [], s => ([], s)
  | a :: rest, s =>
    let (value, s) := access a s
    let (values, s) := runAccesses access rest s
    (value :: values, s)

end ScalarAccess

open ScalarAccess

theorem hailoResourceRead16_eq (offset : Nat) (s : σ) :
    hailoResourceRead16 io resource offset s =
      hailoResourceRead16 io (wordsOf resource) (placeOf resource offset) s := by
  rw [hailoResourceRead16, hailoResourceRead16, hailoResourceReadPart_eq]

theorem hailoResourceWrite16_eq (offset : Nat) (value : UInt16) (s : σ) :
    hailoResourceWrite16 io resource offset value s =
      hailoResourceWrite16 io (wordsOf resource) (placeOf resource offset) value s :=
  hailoResourceWritePart_eq _ _ _ _

section Runs
variable {size : Nat} (hsize : size % 4 = 0)
  (view : ByteView io (wordsOf resource).address size)
include hsize

/-- An access to a resource that holds `bytes` is the access to `bytes`. -/
theorem onResource_put {access : ScalarAccess}
    (hfit : placeOf resource access.offset + access.width ≤ size)
    (hword : access.InOneWord resource) (s : σ) (bytes : Nat → UInt8) :
    access.onResource io resource (view.put s bytes) =
      ((access.onBytes (resource.address % 4) bytes).1,
        view.put s (access.onBytes (resource.address % 4) bytes).2) := by
  have hmap := wordsOf_mapped resource hsize
  have hput (x : Nat) (run : List UInt8) : view.put (view.put s bytes)
      (overlay (view.get (view.put s bytes)) x run) = view.put s (overlay bytes x run) := by
    rw [view.put_put]
    refine view.put_congr s _ _ fun a ha => ?_
    rw [overlay, overlay, view.get_put s _ a ha]
  have hinside (offset : Nat) (h : (resource.address + offset) % 4 ≠ 3) :
      placeOf resource offset % 4 ≠ 3 := by
    rw [placeOf]
    omega
  cases access with
  | read8 offset =>
    have hlt : placeOf resource offset < size := hfit
    rw [onResource, hailoResourceRead8_eq, hailoResourceRead8_view hmap view hlt]
    simp only
    rw [view.get_put s _ _ hlt]
    rfl
  | read16 offset =>
    have hlt : placeOf resource offset + 1 < size := hfit
    have hin := hinside offset (hword.resolve_left (by decide : ¬ 2 = 1))
    rw [onResource, hailoResourceRead16_eq, hailoResourceRead16_view hmap view hlt hin]
    simp only
    rw [halfAt, view.get_put s _ _ (by omega), view.get_put s _ _ hlt]
    rfl
  | write8 offset value =>
    have hlt : placeOf resource offset < size := hfit
    rw [onResource, hailoResourceWrite8_eq, hailoResourceWrite8_view hmap view hlt, hput]
    rfl
  | write16 offset value =>
    have hlt : placeOf resource offset + 1 < size := hfit
    have hin := hinside offset (hword.resolve_left (by decide : ¬ 2 = 1))
    rw [onResource, hailoResourceWrite16_eq, hailoResourceWrite16_view hmap view hlt hin, hput]
    rfl

/-- Any accesses of one byte, and of two bytes in one word, are accesses to an array of bytes:
each reads what is there, and writes its own bytes and no others. -/
theorem scalarAccesses_refine {accesses : List ScalarAccess}
    (hfit : ∀ access ∈ accesses, placeOf resource access.offset + access.width ≤ size)
    (hword : ∀ access ∈ accesses, access.InOneWord resource) (s : σ) :
    runAccesses (onResource io resource) accesses s =
      ((runAccesses (onBytes (resource.address % 4)) accesses (view.get s)).1,
        view.put s (runAccesses (onBytes (resource.address % 4)) accesses (view.get s)).2) := by
  have hrun (bytes : Nat → UInt8) : runAccesses (onResource io resource) accesses
      (view.put s bytes) =
        ((runAccesses (onBytes (resource.address % 4)) accesses bytes).1,
          view.put s (runAccesses (onBytes (resource.address % 4)) accesses bytes).2) := by
    induction accesses generalizing bytes with
    | nil => rfl
    | cons access rest ih =>
      rw [runAccesses, onResource_put hsize view (hfit access List.mem_cons_self)
        (hword access List.mem_cons_self)]
      simp only
      rw [ih (fun a ha => hfit a (List.mem_cons_of_mem _ ha))
        (fun a ha => hword a (List.mem_cons_of_mem _ ha))]
      rfl
  have hstart := hrun (view.get s)
  rwa [view.put_get] at hstart

end Runs

/-- Two bytes across the end of a word: only the first is read, and only the first is written. -/
theorem acrossWords_loses :
    (ScalarAccess.read16 3).onResource ram ⟨0, 8⟩ (fun _ => 1) ≠
        (some (halfAt (fun _ => 1) 3).toNat, fun _ => 1) ∧
      ((ScalarAccess.write16 3 0xBBAA).onResource ram ⟨0, 8⟩ (fun _ => 0)).2 4 ≠
        overlay (fun _ => 0) 3 (halfBytes 0xBBAA) 4 := by
  refine ⟨fun h => ?_, by decide⟩
  have hread := congrArg Prod.fst h
  revert hread
  decide

def mixedAccesses : List ScalarAccess := [.write16 1 0xBBAA, .write8 2 0xCC, .read16 1]

theorem scalarAccesses_refine_unaligned :
    (runAccesses (onResource ram ⟨5, 16⟩) mixedAccesses (fun _ => 0)).1 =
      [none, none, some 0xCCAA] := by
  have hfit : ∀ access ∈ mixedAccesses,
      placeOf ⟨5, 16⟩ access.offset + access.width ≤ 16 := by decide
  have hall := scalarAccesses_refine (by decide : 16 % 4 = 0)
    (ramView (wordsOf ⟨5, 16⟩).address (by decide)) hfit (by decide) (fun _ => 0)
  rw [hall]
  decide

end HailortDrivers.ResourceBytes
