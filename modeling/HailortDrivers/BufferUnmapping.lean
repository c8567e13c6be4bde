import HailortDrivers.LedgerFrames
import HailortDrivers.MappingLeaks

/-!
`unmap_buffer` (`memory.c`) and what it gives back of all that mapping took: the fields of
the buffer that only it reads are those of the dmabuf, and the pages behind the table.
-/
namespace HailortDrivers.BufferUnmapping
open VdmaTypes ResourceLedger BufferMapping MappingLeaks
open VdmaMemory hiding hailoVdmaBufferMap hailoVdmaBufferPut

structure HailoDmabufInfo where
  dmabuf : Nat
  dmabufAttachment : Nat

/-- The structure that a mapping returns. A table of device memory has no pages, and the one
of a dmabuf belongs to its attachment. -/
structure MappedBuffer where
  buffer : HailoVdmaBuffer
  dmabufInfo : Option HailoDmabufInfo
  pageTable : PageTable

section Map
variable (k : KernelOps)

/-- What `hailo_map_dmabuf` writes to `dmabuf_info`. -/
def mapDmabufInfo (dmabufFd : Int32) (direction : DmaDataDirection) : Option HailoDmabufInfo :=
  match k.dmaBufGet dmabufFd with
  | .error _ => none
  | .ok dmabuf =>
    match k.dmaBufAttach dmabuf with
    | .error _ => none
    | .ok attachment =>
      match k.dmaBufMapAttachment attachment direction with
      | .error _ => none
      | .ok _ => some ⟨dmabuf, attachment⟩

variable (size : UInt64) (direction : DmaDataDirection)
  (lowMemDriverAllocatedBuffer : Option HailoVdmaLowMemoryBuffer)
  (supportMmioDmaMapping : Bool) (addrOrFd : UInt64) (bufferType : HailoDmaBufferType)

/-- The buffer with the two more fields that its kind fills. -/
def withBacking (l : LookedUp) (buffer : HailoVdmaBuffer) : MappedBuffer :=
  if buffer.isDmabuf then ⟨buffer, mapDmabufInfo k l.addrOrFd.toUInt32.toInt32 direction, []⟩
  else if buffer.isMmio then ⟨buffer, none, []⟩
  else
    match (prepareSgTable k l.addrOrFd size.toUInt32 lowMemDriverAllocatedBuffer).value with
    | .error _ => ⟨buffer, none, []⟩
    | .ok table => ⟨buffer, none, table⟩

/-- `hailo_vdma_buffer_map` with the whole structure that it returns. -/
def mapBuffer : Mapping (Except Int32 MappedBuffer) := do
  match ← hailoVdmaBufferMap k size direction lowMemDriverAllocatedBuffer supportMmioDmaMapping
    addrOrFd bufferType with
  | .error err => return .error err
  | .ok buffer =>
    match (lookUpVma k supportMmioDmaMapping addrOrFd bufferType).value with
    | .error err => return .error err
    | .ok l => return .ok (withBacking k size direction lowMemDriverAllocatedBuffer l buffer)

end Map

def hailoUnmapDmabuf (info : HailoDmabufInfo) : Mapping Unit := do
  release .dmabufMapping
  release (.dmabufAttachment info.dmabufAttachment)
  release (.dmabuf info.dmabuf)

def unmapBuffer (buf : MappedBuffer) : Mapping Unit := do
  match buf.dmabufInfo with
  | some info => hailoUnmapDmabuf info
  | none =>
    if !buf.buffer.isMmio then release .dmaMapping
    clearSgTable buf.pageTable
  release .bufferStruct

/-- What a mapped buffer holds, whatever its kind. -/
def MappedBuffer.held (buf : MappedBuffer) : Multiset MapResource :=
  match buf.dmabufInfo with
  | some info =>
    .dmabufMapping ::ₘ .dmabufAttachment info.dmabufAttachment ::ₘ .dmabuf info.dmabuf ::ₘ
      {.bufferStruct}
  | none =>
    (if buf.buffer.isMmio then 0 else {.dmaMapping}) +
      (pageRefs (sgPages buf.pageTable) + (.sgTable ::ₘ {.bufferStruct}))

theorem clearSgTable_runs (table : PageTable) (held : Multiset MapResource) :
    (clearSgTable table).Runs (pageRefs (sgPages table) + (.sgTable ::ₘ held)) () held :=
  (runs_releaseAll _ _).bind (runs_release _ _)

theorem hailoUnmapDmabuf_runs (info : HailoDmabufInfo) (held : Multiset MapResource) :
    (hailoUnmapDmabuf info).Runs (.dmabufMapping ::ₘ
      .dmabufAttachment info.dmabufAttachment ::ₘ .dmabuf info.dmabuf ::ₘ held) () held :=
  (runs_release MapResource.dmabufMapping _).bind
    ((runs_release (MapResource.dmabufAttachment info.dmabufAttachment) _).bind
      (runs_release _ _))

/-- Unmapping gives back what the buffer holds, and nothing else. -/
theorem unmapBuffer_runs (buf : MappedBuffer) : (unmapBuffer buf).Runs buf.held () 0 := by
  have hstruct : (release MapResource.bufferStruct).Runs {.bufferStruct} () 0 := runs_release _ _
  obtain ⟨buffer, info, table⟩ := buf
  cases info with
  | some info =>
    simp only [MappedBuffer.held, unmapBuffer]
    refine (hailoUnmapDmabuf_runs info _).bind ?_
    exact hstruct
  | none =>
    have htable := clearSgTable_runs table {.bufferStruct}
    cases hmmio : buffer.isMmio with
    | true =>
      simp only [MappedBuffer.held, unmapBuffer, hmmio, if_true, Bool.not_true,
        Bool.false_eq_true, if_false, Multiset.zero_add]
      refine htable.bind ?_
      exact hstruct
    | false =>
      simp only [MappedBuffer.held, unmapBuffer, hmmio, Bool.false_eq_true, if_false,
        Bool.not_false, if_true, Multiset.singleton_add]
      refine (runs_release MapResource.dmaMapping _).bind (htable.bind ?_)
      exact hstruct

variable {k : KernelOps} {size : UInt64} {direction : DmaDataDirection}
  {lowMemDriverAllocatedBuffer : Option HailoVdmaLowMemoryBuffer} {supportMmioDmaMapping : Bool}
  {addrOrFd : UInt64} {bufferType : HailoDmaBufferType} {l : LookedUp}

theorem hailoMapDmabuf_info (k : KernelOps) (dmabufFd : Int32) (direction : DmaDataDirection) :
    (∃ info sgt, mapDmabufInfo k dmabufFd direction = some info ∧
      ∀ held, (hailoMapDmabuf k dmabufFd direction).Runs held (.ok sgt)
        (.dmabufMapping ::ₘ .dmabufAttachment info.dmabufAttachment ::ₘ .dmabuf info.dmabuf ::ₘ
          held)) ∨
    (¬ DmabufMaps k dmabufFd direction ∧
      ∀ held, (hailoMapDmabuf k dmabufFd direction).Runs held (.error (-einval)) held) := by
  rcases hailoMapDmabuf_cases k dmabufFd direction with ⟨hmaps, -⟩ | hfailed
  · obtain ⟨dmabuf, attachment, sgt, hget, hattach, hmap⟩ := hmaps
    refine Or.inl ⟨⟨dmabuf, attachment⟩, sgt, ?_, fun held => ?_⟩
    · simp only [mapDmabufInfo, hget, hattach, hmap]
    · simp only [hailoMapDmabuf, hget]
      refine (runs_acquire _ _).bind ?_
      rw [hattach]
      refine (runs_acquire _ _).bind ?_
      rw [hmap]
      exact (runs_acquire _ _).bind (.pure _ _)
  · exact Or.inr hfailed

/-- The memory of a dmabuf was given by the address 0, which counts as no pointer: the
descriptor made for it stays open. -/
def KeepsDescriptor (k : KernelOps) (addrOrFd : UInt64) (bufferType : HailoDmaBufferType) :
    Prop :=
  addrOrFd = 0 ∧ bufferType ≠ .dmabufBuffer ∧ isDmabufVma (k.findVma addrOrFd) = true

variable (k size direction lowMemDriverAllocatedBuffer supportMmioDmaMapping addrOrFd
  bufferType) in
/-- What mapping comes to, with what it leaves held. -/
inductive MapOutcome : Except Int32 MappedBuffer → Multiset MapResource → Prop
  | mapped {buf : MappedBuffer} (hkref : buf.buffer.kref = 1)
      (hexit : ¬ LeakyExit k size direction lowMemDriverAllocatedBuffer supportMmioDmaMapping
        addrOrFd bufferType)
      (hpointer : ¬ KeepsDescriptor k addrOrFd bufferType) : MapOutcome (.ok buf) buf.held
  | mappedOpen {buf : MappedBuffer} {fd : UInt32} (hkref : buf.buffer.kref = 1)
      (hpointer : KeepsDescriptor k addrOrFd bufferType) :
      MapOutcome (.ok buf) (.fd fd ::ₘ .vmFile ::ₘ buf.held)
  | failed {err : Int32}
      (hexit : ¬ LeakyExit k size direction lowMemDriverAllocatedBuffer supportMmioDmaMapping
        addrOrFd bufferType) : MapOutcome (.error err) 0
  | leaky {err : Int32} {kept : Multiset MapResource}
      (hexit : LeakyExit k size direction lowMemDriverAllocatedBuffer supportMmioDmaMapping
        addrOrFd bufferType) (hkept : kept ≠ 0) : MapOutcome (.error err) kept

theorem mapMmio_runs (k : KernelOps) (size : UInt64) (direction : DmaDataDirection)
    (lowMemDriverAllocatedBuffer : Option HailoVdmaLowMemoryBuffer) (l : LookedUp)
    (vma : VmAreaStruct) :
    (∃ err, (mapMmio k size direction lowMemDriverAllocatedBuffer l vma).Runs {.bufferStruct}
      (.error err) 0) ∨
    (∃ buffer, buffer.kref = 1 ∧ buffer.isMmio = true ∧ buffer.isDmabuf = false ∧
      (mapMmio k size direction lowMemDriverAllocatedBuffer l vma).Runs {.bufferStruct}
        (.ok buffer) (.sgTable ::ₘ {.bufferStruct})) := by
  unfold mapMmio
  split
  · exact Or.inl ⟨_, (runs_release _ _).bind (.pure _ _)⟩
  · rcases mapMmioAddress_cases (k := k) l.addrOrFd size.toUInt32 vma with
      ⟨err, hruns⟩ | ⟨sgt, hruns⟩
    · exact Or.inl ⟨err, (hruns _).bind ((runs_release _ _).bind (.pure _ _))⟩
    · exact Or.inr ⟨_, rfl, rfl, rfl, (hruns _).bind (.pure _ _)⟩

theorem closeFd_runs (fd : UInt32) (held : Multiset MapResource) :
    (closeFd fd).Runs (.fd fd ::ₘ .vmFile ::ₘ held) () held :=
  (runs_release (MapResource.fd fd) _).bind (runs_release _ _)

/-- What the dmabuf of a mapped buffer holds, over what was held before. -/
def dmabufHeld (info : HailoDmabufInfo) (held : Multiset MapResource) : Multiset MapResource :=
  .dmabufMapping ::ₘ .dmabufAttachment info.dmabufAttachment ::ₘ .dmabuf info.dmabuf ::ₘ held

theorem mapDmabuf_runs (hmaps : DmabufMaps k l.addrOrFd.toUInt32.toInt32 direction) :
    ∃ buffer info, mapDmabufInfo k l.addrOrFd.toUInt32.toInt32 direction = some info ∧
      buffer.kref = 1 ∧ buffer.isDmabuf = true ∧
      (l.dmabufFromPointerAddr = 0 → ∀ held, (mapDmabuf k size direction l).Runs held
        (.ok buffer) (dmabufHeld info held)) ∧
      (l.dmabufFromPointerAddr ≠ 0 → ∀ held, (mapDmabuf k size direction l).Runs
        (.fd l.addrOrFd.toUInt32 ::ₘ .vmFile ::ₘ held) (.ok buffer) (dmabufHeld info held)) := by
  rcases hailoMapDmabuf_info k l.addrOrFd.toUInt32.toInt32 direction with
    ⟨info, sgt, hinfo, hruns⟩ | ⟨hnot, -⟩
  · by_cases hpointer : l.dmabufFromPointerAddr = 0
    · refine ⟨⟨0, 1, l.bufferType, size.toUInt32, l.addrOrFd, direction, sgt, false, true⟩, info,
        hinfo, rfl, rfl, fun _ held => ?_, fun h => absurd hpointer h⟩
      refine (hruns held).bind ?_
      simp only
      rw [if_neg (not_not.mpr hpointer)]
      exact .pure _ _
    · refine ⟨⟨0, 1, .userPtrBuffer, size.toUInt32, l.dmabufFromPointerAddr, direction, sgt,
        false, true⟩, info, hinfo, rfl, rfl, fun h => absurd h hpointer, fun _ held => ?_⟩
      refine (hruns _).bind ?_
      simp only
      rw [if_pos hpointer]
      have hswap : (.dmabufMapping ::ₘ .dmabufAttachment info.dmabufAttachment ::ₘ
          .dmabuf info.dmabuf ::ₘ .fd l.addrOrFd.toUInt32 ::ₘ .vmFile ::ₘ held :
          Multiset MapResource) =
          .fd l.addrOrFd.toUInt32 ::ₘ .vmFile ::ₘ dmabufHeld info held := by
        simp only [dmabufHeld, Multiset.cons_swap]
      rw [hswap]
      exact (closeFd_runs _ _).bind (.pure _ _)
  · exact absurd hmaps hnot

theorem mapDmabuf_fails (hmaps : ¬ DmabufMaps k l.addrOrFd.toUInt32.toInt32 direction)
    (held : Multiset MapResource) :
    (mapDmabuf k size direction l).Runs held (.error (-einval)) held := by
  rcases hailoMapDmabuf_cases k l.addrOrFd.toUInt32.toInt32 direction with
    ⟨hmaps', -⟩ | ⟨-, hruns⟩
  · exact absurd hmaps' hmaps
  · exact (hruns held).bind (.pure _ _)

theorem mapPages_runs (hk : ListsPages k) (size : UInt64) (direction : DmaDataDirection)
    (lowMemDriverAllocatedBuffer : Option HailoVdmaLowMemoryBuffer) (l : LookedUp) :
    (∃ err, ¬ LowMemoryTableFails k size.toUInt32 lowMemDriverAllocatedBuffer ∧
      (mapPages k size direction lowMemDriverAllocatedBuffer l).Runs {.bufferStruct}
        (.error err) 0) ∨
    (∃ err kept, kept ≠ 0 ∧
      LowMemoryTableFails k size.toUInt32 lowMemDriverAllocatedBuffer ∧
      (mapPages k size direction lowMemDriverAllocatedBuffer l).Runs {.bufferStruct}
        (.error err) kept) ∨
    (∃ buffer table, ¬ LowMemoryTableFails k size.toUInt32 lowMemDriverAllocatedBuffer ∧
      buffer.kref = 1 ∧ buffer.isMmio = false ∧ buffer.isDmabuf = false ∧
      (prepareSgTable k l.addrOrFd size.toUInt32 lowMemDriverAllocatedBuffer).value = .ok table ∧
      (mapPages k size direction lowMemDriverAllocatedBuffer l).Runs {.bufferStruct}
        (.ok buffer)
        (.dmaMapping ::ₘ (pageRefs (sgPages table) + (.sgTable ::ₘ {.bufferStruct})))) := by
  obtain ⟨result, held', hprepared, hruns⟩ :=
    prepareSgTable_prepared hk l.addrOrFd size.toUInt32 lowMemDriverAllocatedBuffer
  have hvalue := (hruns 0).value
  unfold mapPages
  cases hprepared with
  | @table table hfits =>
    have hruns := hruns {.bufferStruct}
    rw [Multiset.cons_add, ← Multiset.add_cons] at hruns
    by_cases hempty : (k.dmaMapSg table direction).isEmpty = true
    · refine Or.inl ⟨-enxio, hfits, hruns.bind ?_⟩
      simp only
      rw [if_pos hempty]
      exact (clearSgTable_runs table _).bind ((runs_release _ _).bind (.pure _ _))
    · refine Or.inr (Or.inr ⟨⟨0, 1, l.bufferType, size.toUInt32, l.addrOrFd, direction,
        k.dmaMapSg table direction, false, false⟩, table, hfits, rfl, rfl, rfl, hvalue,
        hruns.bind ?_⟩)
      simp only
      rw [if_neg hempty]
      exact (runs_acquire _ _).bind (.pure _ _)
  | @released err hfits =>
    have hruns := hruns {.bufferStruct}
    rw [Multiset.zero_add] at hruns
    exact Or.inl ⟨_, hfits, hruns.bind ((runs_release _ _).bind (.pure _ _))⟩
  | @kept err pages hpages hfails =>
    have hruns := hruns {.bufferStruct}
    rw [Multiset.add_comm, Multiset.singleton_add] at hruns
    refine Or.inr (Or.inl ⟨err, pageRefs pages, pageRefs_ne_zero hpages, hfails, ?_⟩)
    exact hruns.bind ((runs_release _ _).bind (.pure _ _))

section Outcome
variable {held held' : Multiset MapResource} {result : Except Int32 HailoVdmaBuffer} {err : Int32}
  {buffer : HailoVdmaBuffer}

/-- The map goes on with what it looked up. -/
theorem hailoVdmaBufferMap_lookedUp (hkzalloc : k.kzalloc = true)
    (hlookUp : (lookUpVma k supportMmioDmaMapping addrOrFd bufferType).Runs {.bufferStruct}
      (.ok l) held)
    (hrest : Ledgered.Runs (match l.mmioVma supportMmioDmaMapping with
      | some vma => mapMmio k size direction lowMemDriverAllocatedBuffer l vma
      | none =>
        if l.bufferType = .dmabufBuffer then mapDmabuf k size direction l
        else mapPages k size direction lowMemDriverAllocatedBuffer l) held result held') :
    (hailoVdmaBufferMap k size direction lowMemDriverAllocatedBuffer supportMmioDmaMapping
      addrOrFd bufferType).Runs 0 result held' := by
  rw [hailoVdmaBufferMap, if_neg (by rw [hkzalloc]; decide)]
  exact (runs_acquire _ _).bind (hlookUp.bind hrest)

theorem mapBuffer_error
    (h : (hailoVdmaBufferMap k size direction lowMemDriverAllocatedBuffer supportMmioDmaMapping
      addrOrFd bufferType).Runs 0 (.error err) held) :
    (mapBuffer k size direction lowMemDriverAllocatedBuffer supportMmioDmaMapping addrOrFd
      bufferType).Runs 0 (.error err) held := h.bind (.pure _ _)

theorem mapBuffer_ok
    (hlookUp : (lookUpVma k supportMmioDmaMapping addrOrFd bufferType).value = .ok l)
    (h : (hailoVdmaBufferMap k size direction lowMemDriverAllocatedBuffer supportMmioDmaMapping
      addrOrFd bufferType).Runs 0 (.ok buffer) held) :
    (mapBuffer k size direction lowMemDriverAllocatedBuffer supportMmioDmaMapping addrOrFd
      bufferType).Runs 0
      (.ok (withBacking k size direction lowMemDriverAllocatedBuffer l buffer)) held := by
  refine h.bind ?_
  simp only
  rw [hlookUp]
  exact .pure _ _

/-- The dmabuf of a descriptor that the request gives. -/
theorem mapBuffer_dmabuf (hkzalloc : k.kzalloc = true) (htype : bufferType = .dmabufBuffer) :
    ∃ result held', MapOutcome k size direction lowMemDriverAllocatedBuffer
        supportMmioDmaMapping addrOrFd bufferType result held' ∧
      (mapBuffer k size direction lowMemDriverAllocatedBuffer supportMmioDmaMapping addrOrFd
        bufferType).Runs 0 result held' := by
  have hlookUp : (lookUpVma k supportMmioDmaMapping addrOrFd bufferType).Runs {.bufferStruct}
      (.ok ⟨none, bufferType, addrOrFd, 0⟩) {.bufferStruct} := by
    rw [lookUpVma, if_pos htype]
    exact .pure _ _
  have hnot : ¬ KeepsDescriptor k addrOrFd bufferType := fun hkeeps => hkeeps.2.1 htype
  by_cases hmaps : DmabufMaps k addrOrFd.toUInt32.toInt32 direction
  · obtain ⟨buffer, info, hinfo, hkref, hdmabuf, hruns, -⟩ :=
      @mapDmabuf_runs k size direction ⟨none, bufferType, addrOrFd, 0⟩ hmaps
    have hleaves : ¬ LeakyExit k size direction lowMemDriverAllocatedBuffer
        supportMmioDmaMapping addrOrFd bufferType := by
      rw [LeakyExit, if_pos htype]
      exact fun hexit => hexit.2 hmaps
    refine ⟨.ok ⟨buffer, some info, []⟩, _, .mapped hkref hleaves hnot, ?_⟩
    have hbacking : withBacking k size direction lowMemDriverAllocatedBuffer
        ⟨none, bufferType, addrOrFd, 0⟩ buffer = ⟨buffer, some info, []⟩ := by
      rw [withBacking, if_pos hdmabuf, hinfo]
    rw [← hbacking]
    refine mapBuffer_ok hlookUp.value (hailoVdmaBufferMap_lookedUp hkzalloc hlookUp ?_)
    simp only [mmioVma_dmabuf (l := ⟨none, bufferType, addrOrFd, 0⟩) htype]
    rw [if_pos htype, hbacking]
    exact hruns rfl _
  · refine ⟨.error (-einval), {.bufferStruct}, .leaky ⟨hkzalloc, ?_⟩
      (Multiset.singleton_ne_zero _), ?_⟩
    · rw [if_pos htype]
      exact hmaps
    · refine mapBuffer_error (hailoVdmaBufferMap_lookedUp hkzalloc hlookUp ?_)
      simp only [mmioVma_dmabuf (l := ⟨none, bufferType, addrOrFd, 0⟩) htype]
      rw [if_pos htype]
      exact mapDmabuf_fails hmaps _

/-- The failures of looking up the vma keep the structure. -/
theorem mapBuffer_lookUpFails (err : Int32) (hkzalloc : k.kzalloc = true)
    (hlookUp : (lookUpVma k supportMmioDmaMapping addrOrFd bufferType).Runs {.bufferStruct}
      (.error err) {.bufferStruct})
    (hexit : LeakyExit k size direction lowMemDriverAllocatedBuffer supportMmioDmaMapping
      addrOrFd bufferType) :
    ∃ result held', MapOutcome k size direction lowMemDriverAllocatedBuffer
        supportMmioDmaMapping addrOrFd bufferType result held' ∧
      (mapBuffer k size direction lowMemDriverAllocatedBuffer supportMmioDmaMapping addrOrFd
        bufferType).Runs 0 result held' := by
  refine ⟨.error err, {.bufferStruct}, .leaky hexit (Multiset.singleton_ne_zero _), ?_⟩
  refine mapBuffer_error ?_
  rw [hailoVdmaBufferMap, if_neg (by rw [hkzalloc]; decide)]
  exact (runs_acquire _ _).bind (hlookUp.bind (.pure _ _))

/-- A pointer to a dmabuf's memory is mapped by a descriptor of its own. -/
theorem mapBuffer_pointer (hkzalloc : k.kzalloc = true) (htype : bufferType ≠ .dmabufBuffer)
    (hvma : ¬ (supportMmioDmaMapping && (k.findVma addrOrFd).isNone) = true)
    (hdmabuf : isDmabufVma (k.findVma addrOrFd) = true) :
    ∃ result held', MapOutcome k size direction lowMemDriverAllocatedBuffer
        supportMmioDmaMapping addrOrFd bufferType result held' ∧
      (mapBuffer k size direction lowMemDriverAllocatedBuffer supportMmioDmaMapping addrOrFd
        bufferType).Runs 0 result held' := by
  rcases lookUpVma_fromPointer htype hvma hdmabuf with ⟨err, hfd, hlookUp⟩ | ⟨fd, hfd, hlookUp⟩
  · refine mapBuffer_lookUpFails err.value hkzalloc (hlookUp _) ⟨hkzalloc, ?_⟩
    rw [if_neg htype, if_neg hvma, if_pos hdmabuf, hfd]
    intro fd hok
    cases hok
  · have hlookUp := hlookUp {.bufferStruct}
    by_cases hmaps : DmabufMaps k fd.toUInt64.toUInt32.toInt32 direction
    · obtain ⟨buffer, info, hinfo, hkref, hisDmabuf, hkeeps, hcloses⟩ :=
        @mapDmabuf_runs k size direction
          ⟨k.findVma addrOrFd, .dmabufBuffer, fd.toUInt64, addrOrFd⟩ hmaps
      have hbacking : withBacking k size direction lowMemDriverAllocatedBuffer
          ⟨k.findVma addrOrFd, .dmabufBuffer, fd.toUInt64, addrOrFd⟩ buffer =
          ⟨buffer, some info, []⟩ := by
        rw [withBacking, if_pos hisDmabuf, hinfo]
      have hmapped {held : Multiset MapResource}
          (h : (mapDmabuf k size direction ⟨k.findVma addrOrFd, .dmabufBuffer, fd.toUInt64,
            addrOrFd⟩).Runs (.fd fd ::ₘ .vmFile ::ₘ {.bufferStruct}) (.ok buffer) held) :
          (mapBuffer k size direction lowMemDriverAllocatedBuffer supportMmioDmaMapping addrOrFd
            bufferType).Runs 0 (.ok ⟨buffer, some info, []⟩) held := by
        rw [← hbacking]
        refine mapBuffer_ok hlookUp.value (hailoVdmaBufferMap_lookedUp hkzalloc hlookUp ?_)
        simp only [mmioVma_dmabuf, if_true]
        exact h
      by_cases hzero : addrOrFd = 0
      · refine ⟨.ok ⟨buffer, some info, []⟩, .fd fd ::ₘ .vmFile ::ₘ _, .mappedOpen hkref
          ⟨hzero, htype, hdmabuf⟩, hmapped ?_⟩
        have hswap : (.fd fd ::ₘ .vmFile ::ₘ
            (⟨buffer, some info, []⟩ : MappedBuffer).held : Multiset MapResource) =
            dmabufHeld info (.fd fd ::ₘ .vmFile ::ₘ {.bufferStruct}) := by
          simp only [MappedBuffer.held, dmabufHeld, Multiset.cons_swap]
        rw [hswap]
        exact hkeeps hzero _
      · have hleaves : ¬ LeakyExit k size direction lowMemDriverAllocatedBuffer
            supportMmioDmaMapping addrOrFd bufferType := by
          rw [LeakyExit, if_neg htype, if_neg hvma, if_pos hdmabuf]
          rw [UInt32.toUInt32_toUInt64] at hmaps
          exact fun hexit => hexit.2 fd hfd hmaps
        refine ⟨.ok ⟨buffer, some info, []⟩, _, .mapped hkref hleaves
          (fun hkeeps => hzero hkeeps.1), hmapped ?_⟩
        have hclosed := hcloses hzero {.bufferStruct}
        rwa [UInt32.toUInt32_toUInt64] at hclosed
    · refine ⟨.error (-einval), .fd fd ::ₘ .vmFile ::ₘ {.bufferStruct},
        .leaky ⟨hkzalloc, ?_⟩ Multiset.cons_ne_zero,
        mapBuffer_error (hailoVdmaBufferMap_lookedUp hkzalloc hlookUp ?_)⟩
      · rw [if_neg htype, if_neg hvma, if_pos hdmabuf, hfd]
        intro fd' hok
        obtain rfl := Except.ok.inj hok
        rwa [UInt32.toUInt32_toUInt64] at hmaps
      · simp only [mmioVma_dmabuf, if_true]
        exact mapDmabuf_fails hmaps _

/-- Memory with pages, and device memory. -/
theorem mapBuffer_ordinary (hk : ListsPages k) (hkzalloc : k.kzalloc = true)
    (htype : bufferType ≠ .dmabufBuffer)
    (hvma : ¬ (supportMmioDmaMapping && (k.findVma addrOrFd).isNone) = true)
    (hdmabuf : ¬ isDmabufVma (k.findVma addrOrFd) = true) :
    ∃ result held', MapOutcome k size direction lowMemDriverAllocatedBuffer
        supportMmioDmaMapping addrOrFd bufferType result held' ∧
      (mapBuffer k size direction lowMemDriverAllocatedBuffer supportMmioDmaMapping addrOrFd
        bufferType).Runs 0 result held' := by
  have hlookUp : (lookUpVma k supportMmioDmaMapping addrOrFd bufferType).Runs {.bufferStruct}
      (.ok ⟨k.findVma addrOrFd, bufferType, addrOrFd, 0⟩) {.bufferStruct} := by
    rw [lookUpVma_ordinary htype hvma hdmabuf]
    exact .pure _ _
  have hnot : ¬ KeepsDescriptor k addrOrFd bufferType := fun hkeeps => hdmabuf hkeeps.2.2
  have hexit : LeakyExit k size direction lowMemDriverAllocatedBuffer supportMmioDmaMapping
      addrOrFd bufferType ↔
      LookedUp.mmioVma ⟨k.findVma addrOrFd, bufferType, addrOrFd, 0⟩ supportMmioDmaMapping =
          none ∧
        LowMemoryTableFails k size.toUInt32 lowMemDriverAllocatedBuffer := by
    rw [LeakyExit, if_neg htype, if_neg hvma, if_neg hdmabuf, and_iff_right hkzalloc]
  cases hmmio : LookedUp.mmioVma ⟨k.findVma addrOrFd, bufferType, addrOrFd, 0⟩
    supportMmioDmaMapping with
  | some vma =>
    have hleaves : ¬ LeakyExit k size direction lowMemDriverAllocatedBuffer
        supportMmioDmaMapping addrOrFd bufferType := by
      rw [hexit, hmmio]
      rintro ⟨hnone, -⟩
      cases hnone
    rcases mapMmio_runs k size direction lowMemDriverAllocatedBuffer
      ⟨k.findVma addrOrFd, bufferType, addrOrFd, 0⟩ vma with
      ⟨err, hruns⟩ | ⟨buffer, hkref, hisMmio, hisDmabuf, hruns⟩
    · refine ⟨.error err, 0, .failed hleaves, ?_⟩
      refine mapBuffer_error (hailoVdmaBufferMap_lookedUp hkzalloc hlookUp ?_)
      rw [hmmio]
      exact hruns
    · have hbacking : withBacking k size direction lowMemDriverAllocatedBuffer
          ⟨k.findVma addrOrFd, bufferType, addrOrFd, 0⟩ buffer = ⟨buffer, none, []⟩ := by
        rw [withBacking, if_neg (by rw [hisDmabuf]; decide), if_pos hisMmio]
      refine ⟨.ok ⟨buffer, none, []⟩, _, .mapped hkref hleaves hnot, ?_⟩
      rw [← hbacking]
      refine mapBuffer_ok hlookUp.value (hailoVdmaBufferMap_lookedUp hkzalloc hlookUp ?_)
      rw [hmmio, hbacking, MappedBuffer.held]
      simp only [hisMmio, if_true, Multiset.zero_add]
      exact hruns
  | none =>
    rw [hmmio, eq_self_iff_true, true_and] at hexit
    rcases mapPages_runs hk size direction lowMemDriverAllocatedBuffer
      ⟨k.findVma addrOrFd, bufferType, addrOrFd, 0⟩ with
      ⟨err, hfits, hruns⟩ | ⟨err, kept, hkept, hfails, hruns⟩ |
        ⟨buffer, table, hfits, hkref, hisMmio, hisDmabuf, hprepared, hruns⟩
    · refine ⟨.error err, 0, .failed (hexit.not.mpr hfits), ?_⟩
      refine mapBuffer_error (hailoVdmaBufferMap_lookedUp hkzalloc hlookUp ?_)
      rw [hmmio]
      simp only [if_neg htype]
      exact hruns
    · refine ⟨.error err, kept, .leaky (hexit.mpr hfails) hkept, ?_⟩
      refine mapBuffer_error (hailoVdmaBufferMap_lookedUp hkzalloc hlookUp ?_)
      rw [hmmio]
      simp only [if_neg htype]
      exact hruns
    · have hbacking : withBacking k size direction lowMemDriverAllocatedBuffer
          ⟨k.findVma addrOrFd, bufferType, addrOrFd, 0⟩ buffer = ⟨buffer, none, table⟩ := by
        rw [withBacking, if_neg (by rw [hisDmabuf]; decide), if_neg (by rw [hisMmio]; decide),
          hprepared]
      refine ⟨.ok ⟨buffer, none, table⟩, _, .mapped hkref (hexit.not.mpr hfits) hnot, ?_⟩
      rw [← hbacking]
      refine mapBuffer_ok hlookUp.value (hailoVdmaBufferMap_lookedUp hkzalloc hlookUp ?_)
      rw [hmmio, hbacking, MappedBuffer.held]
      simp only [hisMmio, if_neg htype, Bool.false_eq_true, if_false, Multiset.singleton_add]
      exact hruns

/-- Mapping ends with exactly what the buffer holds, or with nothing, but for the exits of
the two accidents. -/
theorem mapBuffer_outcome (hk : ListsPages k) (size : UInt64) (direction : DmaDataDirection)
    (lowMemDriverAllocatedBuffer : Option HailoVdmaLowMemoryBuffer)
    (supportMmioDmaMapping : Bool) (addrOrFd : UInt64) (bufferType : HailoDmaBufferType) :
    ∃ result held', MapOutcome k size direction lowMemDriverAllocatedBuffer
        supportMmioDmaMapping addrOrFd bufferType result held' ∧
      (mapBuffer k size direction lowMemDriverAllocatedBuffer supportMmioDmaMapping addrOrFd
        bufferType).Runs 0 result held' := by
  by_cases hkzalloc : k.kzalloc = true
  · by_cases htype : bufferType = .dmabufBuffer
    · exact mapBuffer_dmabuf hkzalloc htype
    · by_cases hvma : (supportMmioDmaMapping && (k.findVma addrOrFd).isNone) = true
      · refine mapBuffer_lookUpFails (-efault) hkzalloc ?_ ⟨hkzalloc, ?_⟩
        · rw [lookUpVma_failed htype hvma]
          exact .pure _ _
        · rw [if_neg htype, if_pos hvma]
          exact trivial
      · by_cases hdmabuf : isDmabufVma (k.findVma addrOrFd) = true
        · exact mapBuffer_pointer hkzalloc htype hvma hdmabuf
        · exact mapBuffer_ordinary hk hkzalloc htype hvma hdmabuf
  · refine ⟨.error (-enomem), 0, .failed fun hexit => hkzalloc hexit.1, mapBuffer_error ?_⟩
    rw [Bool.not_eq_true] at hkzalloc
    rw [hailoVdmaBufferMap, if_pos (by rw [hkzalloc]; rfl)]
    exact .pure _ _

end Outcome

section RoundTrip
variable (k size direction lowMemDriverAllocatedBuffer supportMmioDmaMapping addrOrFd bufferType)

/-- Mapping a buffer, and putting its only reference if that succeeds. -/
def mapThenUnmap : Mapping Unit := do
  match ← mapBuffer k size direction lowMemDriverAllocatedBuffer supportMmioDmaMapping addrOrFd
    bufferType with
  | .error _ => return ()
  | .ok buf => unmapBuffer buf

/-- The mapping takes something that neither it nor the unmapping gives back. -/
def LeavesHeld : Prop :=
  LeakyExit k size direction lowMemDriverAllocatedBuffer supportMmioDmaMapping addrOrFd
      bufferType ∨
    KeepsDescriptor k addrOrFd bufferType ∧
      ∃ buf, (mapBuffer k size direction lowMemDriverAllocatedBuffer supportMmioDmaMapping
        addrOrFd bufferType).value = .ok buf

variable {k size direction lowMemDriverAllocatedBuffer supportMmioDmaMapping addrOrFd bufferType}

section Runs
variable {held held' : Multiset MapResource}

theorem mapThenUnmap_mapped {buf : MappedBuffer}
    (hmap : (mapBuffer k size direction lowMemDriverAllocatedBuffer supportMmioDmaMapping addrOrFd
      bufferType).Runs 0 (.ok buf) held)
    (hunmap : (unmapBuffer buf).Runs held () held') :
    (mapThenUnmap k size direction lowMemDriverAllocatedBuffer supportMmioDmaMapping addrOrFd
      bufferType).Runs 0 () held' := hmap.bind hunmap

theorem mapThenUnmap_failed {err : Int32}
    (hmap : (mapBuffer k size direction lowMemDriverAllocatedBuffer supportMmioDmaMapping addrOrFd
      bufferType).Runs 0 (.error err) held) :
    (mapThenUnmap k size direction lowMemDriverAllocatedBuffer supportMmioDmaMapping addrOrFd
      bufferType).Runs 0 () held := hmap.bind (.pure _ _)

end Runs

/-- Unmapping gives back what mapping took, whatever the kind of the memory, exactly unless
the mapping failed by a leaky exit or was of a dmabuf's memory at the address 0. -/
theorem mapThenUnmap_givesBack_iff (hk : ListsPages k) :
    (mapThenUnmap k size direction lowMemDriverAllocatedBuffer supportMmioDmaMapping addrOrFd
        bufferType).Takes 0 0 ↔
      ¬ LeavesHeld k size direction lowMemDriverAllocatedBuffer supportMmioDmaMapping addrOrFd
        bufferType := by
  obtain ⟨result, held, houtcome, hmap⟩ := mapBuffer_outcome hk size direction
    lowMemDriverAllocatedBuffer supportMmioDmaMapping addrOrFd bufferType
  cases houtcome with
  | @mapped buf hkref hexit hpointer =>
    refine iff_of_true (mapThenUnmap_mapped hmap (unmapBuffer_runs buf)).takes ?_
    rintro (hleaky | ⟨hkeeps, -⟩)
    · exact hexit hleaky
    · exact hpointer hkeeps
  | @mappedOpen buf fd hkref hpointer =>
    have hunmap := LedgerFrames.Runs.frame (unmapBuffer_runs buf) (.fd fd ::ₘ {.vmFile})
    rw [Multiset.zero_add, Multiset.add_comm, Multiset.cons_add, Multiset.singleton_add] at hunmap
    refine iff_of_false ?_ (not_not.mpr (Or.inr ⟨hpointer, buf, hmap.value⟩))
    intro htakes
    exact Multiset.cons_ne_zero ((mapThenUnmap_mapped hmap hunmap).takes.unique htakes)
  | @failed err hexit =>
    refine iff_of_true (mapThenUnmap_failed hmap).takes ?_
    rintro (hleaky | ⟨-, buf, hok⟩)
    · exact hexit hleaky
    · rw [hmap.value] at hok
      cases hok
  | leaky hexit hkept =>
    refine iff_of_false ?_ (not_not.mpr (Or.inl hexit))
    exact fun htakes => hkept ((mapThenUnmap_failed hmap).takes.unique htakes)

/-- A hundred bytes over one page are mapped and unmapped. -/
theorem mapThenUnmap_givesBack_iff_onePage :
    (mapThenUnmap (plainKernel id) 100 .toDevice none false 4096 .userPtrBuffer).Takes 0 0 := by
  refine (mapThenUnmap_givesBack_iff (plainKernel_listsPages id)).mpr ?_
  rintro (⟨-, -, low, err, hlow, -⟩ | ⟨⟨hzero, -⟩, -⟩)
  · cases hlow
  · cases hzero

end RoundTrip

end HailortDrivers.BufferUnmapping
