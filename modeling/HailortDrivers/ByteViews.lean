import HailortDrivers.RegisterBits
import HailortDrivers.ResourceAccess

/-!
A mapping behind which the device behaves as memory: reading a word does not
change the device and writing a word writes its four bytes. On such a mapping
every access of `hailo_resource.c` reads or writes exactly its own bytes, a
write is always read back, and the host pointer does not matter.
-/
namespace HailortDrivers.ByteViews
open KernelExec LittleEndian RegisterBits ResourceAccess

variable {σ : Type}

/-- While `P` holds, every word read in the mapping is the one in `bytes`, and `P` stays. -/
def ReadsAs (io : Mmio σ) (base size : Nat) (P : σ → Prop) (bytes : Nat → UInt8) : Prop :=
  ∀ s x, P s → x % 4 = 0 → x < size →
    (io.ioread32 (base + x) s).1 = wordAt bytes x ∧ P (io.ioread32 (base + x) s).2

/-- Reading a word in the mapping keeps `P`. -/
def ReadsKeep (io : Mmio σ) (base size : Nat) (P : σ → Prop) : Prop :=
  ∀ s x, P s → x % 4 = 0 → x < size → P (io.ioread32 (base + x) s).2

/-- A mapping of whole words. -/
structure MappedWords (resource : HailoResource) (size : Nat) : Prop where
  base_aligned : resource.address % 4 = 0
  size_aligned : size % 4 = 0

/-- `get s` are the `size` bytes that are mapped at `base`, `put s` replaces them. -/
structure ByteView (io : Mmio σ) (base size : Nat) where
  get : σ → Nat → UInt8
  put : σ → (Nat → UInt8) → σ
  get_put : ∀ s f x, x < size → get (put s f) x = f x
  put_get : ∀ s, put s (get s) = s
  put_put : ∀ s f g, put (put s f) g = put s g
  put_congr : ∀ s f g, (∀ x < size, f x = g x) → put s f = put s g
  read : ∀ s x, x % 4 = 0 → x < size → io.ioread32 (base + x) s = (wordAt (get s) x, s)
  write : ∀ s w x, x % 4 = 0 → x < size →
    io.iowrite32 w (base + x) s = put s (overlay (get s) x (wordBytes w))

theorem testBit_byteAt {w : UInt32} {i k : Nat} (hk : k < 8) :
    (byteAt w i).toNat.testBit k = hailoTestBit (8 * i + k) w := by
  rw [toNat_byteAt, Nat.testBit_mod_two_pow, decide_eq_true hk, Bool.true_and,
    Nat.testBit_div_two_pow, hailoTestBit, Nat.add_comm]

theorem eq_of_testBit_lt {a b : UInt8} (h : ∀ k < 8, a.toNat.testBit k = b.toNat.testBit k) :
    a = b := by
  apply UInt8.toNat_inj.mp
  apply Nat.eq_of_testBit_eq
  intro k
  rcases Nat.lt_or_ge k 8 with hk | hk
  · exact h k hk
  · have hpow : 2 ^ 8 ≤ 2 ^ k := Nat.pow_le_pow_right (by decide) hk
    rw [Nat.testBit_lt_two_pow (Nat.lt_of_lt_of_le a.toNat_lt hpow),
      Nat.testBit_lt_two_pow (Nat.lt_of_lt_of_le b.toNat_lt hpow)]

/-- Writing eight bits at the offset of byte `i` replaces that byte only. -/
theorem byteAt_writeBits {w : UInt32} {v : UInt8} {i j : Nat} (hi : i < 4) :
    byteAt (writeBitsAtOffset 8 (UInt32.ofNat (8 * i)) w v.toUInt32) j =
      if j = i then v else byteAt w j := by
  apply eq_of_testBit_lt
  intro k hk
  have hwrite := hailoTestBit_writeBits (n := 8) (o := 8 * i) (w := w) (v := v.toUInt32)
    (by decide) (by omega) (8 * j + k)
  have hbit (x : Nat) : hailoTestBit x v.toUInt32 = v.toNat.testBit x := by
    rw [hailoTestBit, UInt8.toNat_toUInt32]
  rw [testBit_byteAt hk]
  refine hwrite.trans ?_
  split
  · next hin =>
    obtain rfl : j = i := by omega
    rw [if_pos rfl, hbit, Nat.add_sub_cancel_left]
  · next hout =>
    rw [if_neg (by omega), testBit_byteAt hk]

theorem readBits_byte (w : UInt32) (i : Nat) :
    UInt8.ofNat (readBitsAtOffset 8 (8 * i) w.toNat) = byteAt w i := by
  apply UInt8.toNat_inj.mp
  rw [UInt8.toNat_ofNat', readBits_eq, Nat.mod_mod, toNat_byteAt]

section
variable {io : Mmio σ} {resource : HailoResource} {size : Nat}

theorem MappedWords.alignTo32Bit_add (hmap : MappedWords resource size) (x : Nat) :
    alignTo32Bit (resource.address + x) = resource.address + x / 4 * 4 := by
  have := hmap.base_aligned
  rw [alignTo32Bit]
  omega

theorem MappedWords.word_lt (hmap : MappedWords resource size) {x : Nat} (hx : x < size) :
    x / 4 * 4 + 3 < size := by
  have := hmap.size_aligned
  omega

section
variable {P : σ → Prop}

theorem hailoResourceRead8_keeps (hmap : MappedWords resource size)
    (hkeep : ReadsKeep io resource.address size P) {x : Nat} (hx : x < size) {s : σ} (hs : P s) :
    P (hailoResourceRead8 io resource x s).2 := by
  have hword := hmap.word_lt hx
  have h := hkeep s (x / 4 * 4) hs (by omega) (by omega)
  rw [← hmap.alignTo32Bit_add] at h
  exact h

theorem readTrailingBytes_keeps (hmap : MappedWords resource size)
    (hkeep : ReadsKeep io resource.address size P) (count : Nat) :
    ∀ offset s, offset + count ≤ size → P s →
      P (readTrailingBytes io resource count offset s).2 := by
  induction count with
  | zero => intro offset s _ hs; exact hs
  | succ count ih =>
    intro offset s h hs
    exact ih (offset + 1) _ (by omega)
      (hailoResourceRead8_keeps hmap hkeep (by omega) hs)

theorem readWords_keeps (hmap : MappedWords resource size)
    (hkeep : ReadsKeep io resource.address size P) (count : Nat) :
    ∀ offset s, offset % 4 = 0 → offset + count ≤ size → P s →
      P (readWords io resource count offset s).2 := by
  induction count using Nat.strong_induction_on with
  | _ count ih =>
    intro offset s halign h hs
    match count, ih, h with
    | count + 4, ih, h =>
      exact ih count (by omega) (offset + 4) _ (by omega) (by omega)
        (hkeep s offset hs halign (by omega))
    | 0, _, h => exact readTrailingBytes_keeps hmap hkeep _ offset s h hs
    | 1, _, h => exact readTrailingBytes_keeps hmap hkeep _ offset s h hs
    | 2, _, h => exact readTrailingBytes_keeps hmap hkeep _ offset s h hs
    | 3, _, h => exact readTrailingBytes_keeps hmap hkeep _ offset s h hs

theorem hailoResourceReadBuffer_keeps (hmap : MappedWords resource size)
    (hkeep : ReadsKeep io resource.address size P) (count : Nat) :
    ∀ offset dest s, offset + count ≤ size → P s →
      P (hailoResourceReadBuffer io resource offset count dest s).2 := by
  induction count with
  | zero => intro offset dest s _ hs; exact hs
  | succ count ih =>
    intro offset dest s h hs
    rw [hailoResourceReadBuffer]
    split
    · exact ih (offset + 1) (dest + 1) _ (by omega)
        (hailoResourceRead8_keeps hmap hkeep (by omega) hs)
    · next halign =>
      have hbase := hmap.base_aligned
      exact readWords_keeps hmap hkeep (count + 1) offset s (by omega) h hs

variable {bytes : Nat → UInt8}

theorem ReadsAs.keeps {base : Nat} (hread : ReadsAs io base size P bytes) :
    ReadsKeep io base size P := fun s x hs halign hx => (hread s x hs halign hx).2

theorem hailoResourceRead8_reads (hmap : MappedWords resource size)
    (hread : ReadsAs io resource.address size P bytes) {x : Nat} (hx : x < size) {s : σ}
    (hs : P s) : (hailoResourceRead8 io resource x s).1 = bytes x := by
  have hword := hmap.word_lt hx
  have hsub : resource.address + x - (resource.address + x / 4 * 4) = x % 4 := by omega
  have hval := (hread s (x / 4 * 4) hs (by omega) (by omega)).1
  rw [hailoResourceRead8, hailoResourceReadPart, hmap.alignTo32Bit_add, hsub]
  simp only [readBits_byte]
  rw [hval, byteAt_wordAt (Nat.mod_lt x (by decide)), Nat.div_add_mod']

theorem readTrailingBytes_reads (hmap : MappedWords resource size)
    (hread : ReadsAs io resource.address size P bytes) (count : Nat) :
    ∀ offset s, offset + count ≤ size → P s →
      (readTrailingBytes io resource count offset s).1 = bytesFrom bytes offset count := by
  induction count with
  | zero => intro offset s _ _; rfl
  | succ count ih =>
    intro offset s h hs
    have hs' := hailoResourceRead8_keeps hmap hread.keeps (x := offset) (by omega) hs
    rw [readTrailingBytes]
    simp only
    rw [hailoResourceRead8_reads hmap hread (by omega) hs, ih (offset + 1) _ (by omega) hs',
      bytesFrom_succ]

theorem readWords_reads (hmap : MappedWords resource size)
    (hread : ReadsAs io resource.address size P bytes) (count : Nat) :
    ∀ offset s, offset % 4 = 0 → offset + count ≤ size → P s →
      (readWords io resource count offset s).1 = bytesFrom bytes offset count := by
  induction count using Nat.strong_induction_on with
  | _ count ih =>
    intro offset s halign h hs
    match count, ih, h with
    | count + 4, ih, h =>
      obtain ⟨hval, hs'⟩ := hread s offset hs halign (by omega)
      rw [readWords]
      simp only [hailoResourceRead32]
      rw [ih count (by omega) (offset + 4) _ (by omega) (by omega) hs', hval, wordBytes_wordAt,
        Nat.add_comm count 4, bytesFrom_add]
    | 0, _, h => exact readTrailingBytes_reads hmap hread _ offset s h hs
    | 1, _, h => exact readTrailingBytes_reads hmap hread _ offset s h hs
    | 2, _, h => exact readTrailingBytes_reads hmap hread _ offset s h hs
    | 3, _, h => exact readTrailingBytes_reads hmap hread _ offset s h hs

theorem hailoResourceReadBuffer_reads (hmap : MappedWords resource size)
    (hread : ReadsAs io resource.address size P bytes) (count : Nat) :
    ∀ offset dest s, offset + count ≤ size → P s →
      (hailoResourceReadBuffer io resource offset count dest s).1 =
        bytesFrom bytes offset count := by
  induction count with
  | zero => intro offset dest s _ _; rfl
  | succ count ih =>
    intro offset dest s h hs
    rw [hailoResourceReadBuffer]
    split
    · have hs' := hailoResourceRead8_keeps hmap hread.keeps (x := offset) (by omega) hs
      simp only
      rw [hailoResourceRead8_reads hmap hread (by omega) hs,
        ih (offset + 1) (dest + 1) _ (by omega) hs', bytesFrom_succ]
    · next halign =>
      have hbase := hmap.base_aligned
      exact readWords_reads hmap hread (count + 1) offset s (by omega) h hs

end

theorem ByteView.readsAs (view : ByteView io resource.address size) (s : σ) :
    ReadsAs io resource.address size (· = s) (view.get s) := by
  rintro _ x rfl halign hx
  rw [view.read _ x halign hx]
  exact ⟨rfl, rfl⟩

theorem hailoResourceReadBuffer_view (hmap : MappedWords resource size)
    (view : ByteView io resource.address size) (s : σ) {offset count : Nat} (dest : Nat)
    (h : offset + count ≤ size) :
    hailoResourceReadBuffer io resource offset count dest s =
      (bytesFrom (view.get s) offset count, s) :=
  Prod.ext (hailoResourceReadBuffer_reads hmap (view.readsAs s) count offset dest s h rfl)
    (hailoResourceReadBuffer_keeps hmap (view.readsAs s).keeps count offset dest s h rfl)

theorem hailoResourceRead8_view (hmap : MappedWords resource size)
    (view : ByteView io resource.address size) {x : Nat} (hx : x < size) (s : σ) :
    hailoResourceRead8 io resource x s = (view.get s x, s) :=
  Prod.ext (hailoResourceRead8_reads hmap (view.readsAs s) hx rfl)
    (hailoResourceRead8_keeps hmap (view.readsAs s).keeps hx rfl)

theorem hailoResourceRead32_view (view : ByteView io resource.address size) {x : Nat}
    (halign : x % 4 = 0) (hx : x < size) (s : σ) :
    hailoResourceRead32 io resource x s = (wordAt (view.get s) x, s) := view.read s x halign hx

theorem hailoResourceWrite32_view (view : ByteView io resource.address size) {x : Nat}
    (halign : x % 4 = 0) (hx : x < size) (w : UInt32) (s : σ) :
    hailoResourceWrite32 io resource x w s = view.put s (overlay (view.get s) x (wordBytes w)) :=
  view.write s w x halign hx

theorem overlay_wordBytes {bytes : Nat → UInt8} {w : UInt32} {v : UInt8} {x : Nat}
    (h : ∀ j < 4, byteAt w j = if j = x % 4 then v else bytes (x / 4 * 4 + j)) :
    overlay bytes (x / 4 * 4) (wordBytes w) = overlay bytes x [v] := by
  funext a
  by_cases ha : x / 4 * 4 ≤ a ∧ a < x / 4 * 4 + 4
  · obtain ⟨j, rfl⟩ : ∃ j, a = x / 4 * 4 + j := ⟨a - x / 4 * 4, by omega⟩
    have hj : j < 4 := by omega
    have hbyte : overlay bytes (x / 4 * 4) (wordBytes w) (x / 4 * 4 + j) = byteAt w j := by
      rw [overlay_at (by rwa [length_wordBytes])]
      obtain rfl | rfl | rfl | rfl : j = 0 ∨ j = 1 ∨ j = 2 ∨ j = 3 := by omega
      all_goals rfl
    rw [hbyte, h j hj]
    split
    · next hjx =>
      have hx : x / 4 * 4 + j = x + 0 := by omega
      rw [hx, Nat.add_zero, overlay_head]
    · next hjx =>
      rcases Nat.lt_or_ge (x / 4 * 4 + j) x with hlt | hge
      · rw [overlay_of_lt hlt]
      · rw [overlay_of_ge (by rw [List.length_singleton]; omega)]
  · rcases Nat.lt_or_ge a (x / 4 * 4) with hlt | hge
    · rw [overlay_of_lt hlt, overlay_of_lt (by omega)]
    · rw [overlay_of_ge (by rw [length_wordBytes]; omega),
        overlay_of_ge (by rw [List.length_singleton]; omega)]

theorem hailoResourceWrite8_view (hmap : MappedWords resource size)
    (view : ByteView io resource.address size) {x : Nat} (hx : x < size) (v : UInt8) (s : σ) :
    hailoResourceWrite8 io resource x v s = view.put s (overlay (view.get s) x [v]) := by
  have hword := hmap.word_lt hx
  have hsub : resource.address + x - (resource.address + x / 4 * 4) = x % 4 := by omega
  rw [hailoResourceWrite8, hailoResourceWritePart, hmap.alignTo32Bit_add, hsub,
    view.read s (x / 4 * 4) (by omega) (by omega)]
  simp only
  rw [view.write _ _ _ (by omega) (by omega)]
  refine congrArg _ (overlay_wordBytes fun j hj => ?_)
  rw [byteAt_writeBits (Nat.mod_lt x (by decide)), byteAt_wordAt hj]

theorem ByteView.put_overlay (view : ByteView io resource.address size) (s : σ) (offset : Nat)
    (run rest : List UInt8) :
    view.put (view.put s (overlay (view.get s) offset run))
        (overlay (view.get (view.put s (overlay (view.get s) offset run)))
          (offset + run.length) rest) =
      view.put s (overlay (view.get s) offset (run ++ rest)) := by
  rw [view.put_put, ← overlay_append]
  refine view.put_congr s _ _ fun x hx => ?_
  rw [overlay, overlay, view.get_put s _ x hx]

theorem writeTrailingBytes_view (hmap : MappedWords resource size)
    (view : ByteView io resource.address size) (data : List UInt8) :
    ∀ offset s, offset + data.length ≤ size →
      writeTrailingBytes io resource data offset s =
        (0, view.put s (overlay (view.get s) offset data)) := by
  induction data with
  | nil =>
    intro offset s _
    rw [writeTrailingBytes, overlay_nil, view.put_get]
  | cons b rest ih =>
    intro offset s h
    rw [List.length_cons] at h
    rw [writeTrailingBytes, hailoResourceWrite8_view hmap view (by omega)]
    simp only
    rw [hailoResourceRead8_view hmap view (by omega), view.get_put _ _ _ (by omega),
      overlay_head]
    simp only [ne_eq, not_true_eq_false, if_false]
    rw [ih (offset + 1) _ (by omega)]
    exact congrArg _ (view.put_overlay s offset [b] rest)

theorem writeWords_view (hmap : MappedWords resource size)
    (view : ByteView io resource.address size) (n : Nat) :
    ∀ data : List UInt8, data.length ≤ n → ∀ offset s, offset % 4 = 0 →
      offset + data.length ≤ size →
      writeWords io resource data offset s =
        (0, view.put s (overlay (view.get s) offset data)) := by
  induction n with
  | zero =>
    intro data hn offset s _ h
    rw [List.length_eq_zero_iff.mp (Nat.le_zero.mp hn)] at h ⊢
    exact writeTrailingBytes_view hmap view [] offset s h
  | succ n ih =>
    intro data hn offset s halign h
    match data, hn, h with
    | b₀ :: b₁ :: b₂ :: b₃ :: rest, hn, h =>
      simp only [List.length_cons] at hn h
      rw [writeWords]
      rw [hailoResourceWrite32_view view halign (by omega), wordBytes_wordIn,
        hailoResourceRead32_view view halign (by omega)]
      have hback : wordAt (view.get (view.put s (overlay (view.get s) offset [b₀, b₁, b₂, b₃])))
          offset = wordIn [b₀, b₁, b₂, b₃] 0 := by
        refine wordAt_congr fun i hi => ?_
        have hlen : i < [b₀, b₁, b₂, b₃].length := hi
        rw [view.get_put _ _ _ (by omega), overlay_at hlen, Nat.zero_add,
          List.getElem?_eq_getElem hlen, Option.getD_some]
      rw [hback]
      simp only [ne_eq, not_true_eq_false, if_false]
      rw [ih rest (by omega) (offset + 4) _ (by omega) (by omega)]
      exact congrArg _ (view.put_overlay s offset [b₀, b₁, b₂, b₃] rest)
    | [], _, h => exact writeTrailingBytes_view hmap view _ offset s h
    | [_], _, h => exact writeTrailingBytes_view hmap view _ offset s h
    | [_, _], _, h => exact writeTrailingBytes_view hmap view _ offset s h
    | [_, _, _], _, h => exact writeTrailingBytes_view hmap view _ offset s h

theorem hailoResourceWriteBuffer_view (hmap : MappedWords resource size)
    (view : ByteView io resource.address size) (data : List UInt8) :
    ∀ offset source s, offset + data.length ≤ size →
      hailoResourceWriteBuffer io resource offset data source s =
        (0, view.put s (overlay (view.get s) offset data)) := by
  induction data with
  | nil =>
    intro offset source s _
    rw [hailoResourceWriteBuffer, overlay_nil, view.put_get]
  | cons b rest ih =>
    intro offset source s h
    rw [hailoResourceWriteBuffer]
    split
    · rw [List.length_cons] at h
      rw [hailoResourceWrite8_view hmap view (by omega)]
      simp only
      rw [hailoResourceRead8_view hmap view (by omega), view.get_put _ _ _ (by omega),
        overlay_head]
      simp only [ne_eq, not_true_eq_false, if_false]
      rw [ih (offset + 1) (source + 1) _ (by omega)]
      exact congrArg _ (view.put_overlay s offset [b] rest)
    · next halign =>
      have hbase := hmap.base_aligned
      exact writeWords_view hmap view _ _ (Nat.le_refl _) offset s (by omega) h

end

/-- Plain memory at every address. -/
def ram : Mmio (Nat → UInt8) where
  ioread32 := fun address memory => (wordAt memory address, memory)
  iowrite32 := fun word address memory => overlay memory address (wordBytes word)

theorem overlay_shift {memory : Nat → UInt8} {base x : Nat} {run : List UInt8} (a : Nat) :
    overlay memory (base + x) run (base + a) = overlay (fun y => memory (base + y)) x run a := by
  rcases Nat.lt_or_ge a x with h | h
  · rw [overlay_of_lt (by omega), overlay_of_lt h]
  · rw [overlay, overlay, if_pos (by omega), if_pos h, Nat.add_sub_add_left]

def ramView (base : Nat) {size : Nat} (hsize : size % 4 = 0) : ByteView ram base size where
  get := fun memory x => memory (base + x)
  put := fun memory bytes a =>
    if base ≤ a ∧ a < base + size then bytes (a - base) else memory a
  get_put := fun memory bytes x hx => by
    have hin : base ≤ base + x ∧ base + x < base + size := by omega
    simp only [hin, and_self, if_true, Nat.add_sub_cancel_left]
  put_get := fun memory => by
    funext a
    split
    · next h => exact congrArg memory (Nat.add_sub_cancel' h.1)
    · rfl
  put_put := fun memory f g => by
    funext a
    split
    · rfl
    · next h => exact if_neg h
  put_congr := fun memory f g hfg => by
    funext a
    split
    · next h => exact hfg (a - base) (by omega)
    · rfl
  read := fun memory x _ _ => by
    refine Prod.ext (wordAt_congr fun i _ => ?_) rfl
    rw [Nat.add_assoc]
  write := fun memory word x halign hx => by
    funext a
    split
    · next h =>
      obtain ⟨y, rfl⟩ := Nat.exists_eq_add_of_le h.1
      rw [Nat.add_sub_cancel_left]
      exact overlay_shift y
    · next h =>
      rcases Nat.lt_or_ge a (base + x) with hlt | hge
      · exact overlay_of_lt hlt
      · exact overlay_of_ge (by rw [length_wordBytes]; omega)

/-- Inside the mapping a copy writes as in plain memory. -/
theorem ramView_put_overlay (memory : Nat → UInt8) (base : Nat) (run : List UInt8) {x size : Nat}
    (hsize : size % 4 = 0) (h : x + run.length ≤ size) :
    (ramView base hsize).put memory (overlay (fun y => memory (base + y)) x run) =
      overlay memory (base + x) run := by
  funext a
  change (if base ≤ a ∧ a < base + size then _ else _) = _
  split
  · next hin =>
    obtain ⟨y, rfl⟩ := Nat.exists_eq_add_of_le hin.1
    rw [Nat.add_sub_cancel_left, overlay_shift]
  · next hout =>
    rcases Nat.lt_or_ge a (base + x) with hlt | hge
    · exact (overlay_of_lt hlt).symm
    · exact (overlay_of_ge (by omega)).symm

theorem hailoResourceReadBuffer_ram {resource : HailoResource} (hbase : resource.address % 4 = 0)
    (offset count dest : Nat) (memory : Nat → UInt8) :
    hailoResourceReadBuffer ram resource offset count dest memory =
      (bytesFrom memory (resource.address + offset) count, memory) := by
  have hsize : 4 * (offset + count) % 4 = 0 := Nat.mul_mod_right 4 _
  rw [hailoResourceReadBuffer_view ⟨hbase, hsize⟩ (ramView resource.address hsize) memory dest
    (by omega)]
  refine Prod.ext (List.map_congr_left fun k _ => ?_) rfl
  exact congrArg memory (Nat.add_assoc _ _ _).symm

theorem hailoResourceWriteBuffer_ram {resource : HailoResource} (hbase : resource.address % 4 = 0)
    (offset : Nat) (data : List UInt8) (source : Nat) (memory : Nat → UInt8) :
    hailoResourceWriteBuffer ram resource offset data source memory =
      (0, overlay memory (resource.address + offset) data) := by
  have hsize : 4 * (offset + data.length) % 4 = 0 := Nat.mul_mod_right 4 _
  have hfits : offset + data.length ≤ 4 * (offset + data.length) := by omega
  rw [hailoResourceWriteBuffer_view ⟨hbase, hsize⟩ (ramView resource.address hsize) data offset
    source memory hfits]
  exact Prod.ext rfl (ramView_put_overlay memory resource.address data hsize hfits)

end HailortDrivers.ByteViews
