import HailortDrivers.BufferMapping

/-!
Which failures of `hailo_vdma_buffer_map` give everything back. The exits by `cleanup` that
come after the buffer structure was allocated keep it, and with it the descriptor made for
a dmabuf's memory; a table that cannot be allocated over low memory keeps the references on
its pages.
-/
namespace HailortDrivers.MappingLeaks
open VdmaTypes ResourceLedger BufferMapping
open VdmaMemory hiding hailoVdmaBufferMap

/-- A call that starts with `held` and fails ends with nothing held. -/
def ReleasesFrom {α : Type} (held : Multiset MapResource) (x : Mapping (Except Int32 α)) : Prop :=
  ∀ err, x.value = .error err → x.Takes held 0

section Rules
variable {α β : Type} {held held' : Multiset MapResource} {x : Mapping α} {a : α}
  {f : α → Mapping (Except Int32 β)}

theorem releasesFrom_bind (hx : x.Runs held a held') :
    ReleasesFrom held (x >>= f) ↔ ReleasesFrom held' (f a) := by
  obtain ⟨rfl, htakes⟩ := hx
  have hmoves : heldAfter held (x >>= f).moves = heldAfter held' (f x.value).moves :=
    heldAfter_append htakes _
  simp only [ReleasesFrom, value_bind, Ledgered.Takes, hmoves]

theorem releasesFrom_error {y : Mapping (Except Int32 β)} (err : Int32)
    (h : y.Runs held (.error err) held') : ReleasesFrom held y ↔ held' = 0 := by
  constructor
  · intro hreleases
    exact h.takes.unique (hreleases err h.value)
  · rintro rfl err' -
    exact h.takes

theorem releasesFrom_ok {y : Mapping (Except Int32 β)} {b : β} (h : y.value = .ok b) :
    ReleasesFrom held y := by
  intro err herr
  rw [h] at herr
  cases herr

end Rules

variable {k : KernelOps}

/-- A table lists the pages it is made of. -/
def ListsPages (k : KernelOps) : Prop :=
  ∀ pages size table, pages.length = pagesOfSize size →
    k.sgAllocTableFromPages pages 0 size = .ok table → sgPages table = pages

/-- The dmabuf of a descriptor can be taken, attached and mapped. -/
def DmabufMaps (k : KernelOps) (dmabufFd : Int32) (direction : DmaDataDirection) : Prop :=
  ∃ dmabuf attachment sgt, k.dmaBufGet dmabufFd = .ok dmabuf ∧
    k.dmaBufAttach dmabuf = .ok attachment ∧ k.dmaBufMapAttachment attachment direction = .ok sgt

theorem hailoMapDmabuf_cases (k : KernelOps) (dmabufFd : Int32) (direction : DmaDataDirection) :
    (DmabufMaps k dmabufFd direction ∧ ∃ sgt held',
      ∀ held, (hailoMapDmabuf k dmabufFd direction).Runs held (.ok sgt) (held' + held)) ∨
    (¬ DmabufMaps k dmabufFd direction ∧
      ∀ held, (hailoMapDmabuf k dmabufFd direction).Runs held (.error (-einval)) held) := by
  unfold hailoMapDmabuf
  cases hget : k.dmaBufGet dmabufFd with
  | error err => exact Or.inr ⟨by simp [DmabufMaps, hget], fun held => .pure _ _⟩
  | ok dmabuf =>
    cases hattach : k.dmaBufAttach dmabuf with
    | error err =>
      refine Or.inr ⟨by simp [DmabufMaps, hget, hattach], fun held => ?_⟩
      refine (runs_acquire _ _).bind ?_
      rw [hattach]
      exact (runs_release _ _).bind (.pure _ _)
    | ok attachment =>
      cases hmap : k.dmaBufMapAttachment attachment direction with
      | error err =>
        refine Or.inr ⟨by simp [DmabufMaps, hget, hattach, hmap], fun held => ?_⟩
        refine (runs_acquire _ _).bind ?_
        rw [hattach]
        refine (runs_acquire _ _).bind ?_
        rw [hmap]
        exact (runs_release _ _).bind ((runs_release _ _).bind (.pure _ _))
      | ok sgt =>
        refine Or.inl ⟨⟨dmabuf, attachment, sgt, hget, hattach, hmap⟩, sgt,
          .dmabufMapping ::ₘ .dmabufAttachment attachment ::ₘ {.dmabuf dmabuf}, fun held => ?_⟩
        refine (runs_acquire _ _).bind ?_
        rw [hattach]
        refine (runs_acquire _ _).bind ?_
        rw [hmap, Multiset.cons_add, Multiset.cons_add, Multiset.singleton_add]
        exact (runs_acquire _ _).bind (.pure _ _)

theorem createFdFromVma_cases {vma : Option VmAreaStruct} (h : isDmabufVma vma = true) :
    (∃ err, k.getUnusedFdFlags = .error err ∧
      ∀ held, (createFdFromVma k vma).Runs held (.error err.value) held) ∨
    (∃ fd, k.getUnusedFdFlags = .ok fd ∧
      ∀ held, (createFdFromVma k vma).Runs held (.ok fd) (.fd fd ::ₘ .vmFile ::ₘ held)) := by
  have hfile : ¬ (vma.bind VmAreaStruct.vmFile).isNone = true := by
    cases vma with
    | none => cases h
    | some vma =>
      rw [isDmabufVma, beq_iff_eq] at h
      rw [Option.bind_some, h]
      exact Bool.false_ne_true
  unfold createFdFromVma
  rw [if_neg hfile]
  cases hfd : k.getUnusedFdFlags with
  | error err =>
    refine Or.inl ⟨err, rfl, fun held => (runs_acquire _ _).bind ?_⟩
    exact (runs_release _ _).bind (.pure _ _)
  | ok fd =>
    refine Or.inr ⟨fd, rfl, fun held => (runs_acquire _ _).bind ?_⟩
    exact (runs_acquire _ _).bind (.pure _ _)

section Pages
variable {pages : List Nat} {size : UInt32} {held : Multiset MapResource} {table : PageTable}
  {err : Errno}

/-- References on pages. -/
def pageRefs (pages : List Nat) : Multiset MapResource := pages.map MapResource.page

theorem sgTableFromPages_ok (pinned : Nat)
    (h : k.sgAllocTableFromPages pages 0 size = .ok table) :
    (sgTableFromPages k pages pinned size).Runs (pageRefs pages + (.pagesArray ::ₘ held))
      (.ok table) (.sgTable ::ₘ (pageRefs pages + held)) := by
  rw [sgTableFromPages, h]
  refine (runs_acquire _ _).bind (Ledgered.Runs.bind (a := ()) ?_ (.pure _ _))
  rw [Multiset.add_cons, Multiset.cons_swap]
  exact runs_release _ _

theorem sgTableFromPages_pinned (h : k.sgAllocTableFromPages pages 0 size = .error err) :
    (sgTableFromPages k pages pages.length size).Runs (pageRefs pages + (.pagesArray ::ₘ held))
      (.error err.value) held := by
  rw [sgTableFromPages, h]
  simp only [List.take_length]
  exact (runs_releaseAll _ _).bind ((runs_release _ _).bind (.pure _ _))

/-- Pages that do not count as pinned stay referenced. -/
theorem sgTableFromPages_notPinned (h : k.sgAllocTableFromPages pages 0 size = .error err) :
    (sgTableFromPages k pages 0 size).Runs (pageRefs pages + (.pagesArray ::ₘ held))
      (.error err.value) (pageRefs pages + held) := by
  rw [sgTableFromPages, h, Multiset.add_cons]
  exact Ledgered.Runs.bind ⟨rfl, rfl⟩ ((runs_release _ _).bind (.pure _ _))

end Pages

/-- The pages of a low memory buffer were referenced and no table could be made of them. -/
def LowMemoryTableFails (k : KernelOps) (size : UInt32)
    (lowMemDriverAllocatedBuffer : Option HailoVdmaLowMemoryBuffer) : Prop :=
  ∃ lowMemory err, lowMemDriverAllocatedBuffer = some lowMemory ∧
    k.kvmallocArray (pagesOfSize size) = true ∧
    pagesOfSize size = lowMemory.pagesAddress.length ∧ lowMemory.pagesAddress ≠ [] ∧
    k.sgAllocTableFromPages (lowMemory.pagesAddress.map k.virtToPage) 0 size = .error err

variable (k) in
/-- What preparing a table comes to, with what it leaves held. -/
inductive Prepared (size : UInt32)
    (lowMemDriverAllocatedBuffer : Option HailoVdmaLowMemoryBuffer) :
    Except Int32 PageTable → Multiset MapResource → Prop
  | table {table : PageTable} (hfits : ¬ LowMemoryTableFails k size lowMemDriverAllocatedBuffer) :
      Prepared size lowMemDriverAllocatedBuffer (.ok table)
        (.sgTable ::ₘ pageRefs (sgPages table))
  | released {err : Int32} (hfits : ¬ LowMemoryTableFails k size lowMemDriverAllocatedBuffer) :
      Prepared size lowMemDriverAllocatedBuffer (.error err) 0
  | kept {err : Int32} {pages : List Nat} (hpages : pages ≠ [])
      (hfails : LowMemoryTableFails k size lowMemDriverAllocatedBuffer) :
      Prepared size lowMemDriverAllocatedBuffer (.error err) (pageRefs pages)

theorem prepareSgTable_user (hk : ListsPages k) (userAddress : UInt64) (size : UInt32) :
    ∃ result held', Prepared k size none result held' ∧
      ∀ held, (prepareSgTable k userAddress size none).Runs held result (held' + held) := by
  have hfits : ¬ LowMemoryTableFails k size none := by
    rintro ⟨lowMemory, err, hnone, -⟩
    cases hnone
  unfold prepareSgTable
  simp only
  cases harray : k.kvmallocArray (pagesOfSize size) with
  | false =>
    refine ⟨.error (-enomem), 0, .released hfits, fun held => ?_⟩
    rw [Multiset.zero_add]
    exact .pure _ _
  | true =>
    rw [if_neg (by decide)]
    cases hpin : k.getUserPages userAddress (pagesOfSize size) with
    | error err =>
      refine ⟨.error err.value, 0, .released hfits, fun held => ?_⟩
      rw [Multiset.zero_add]
      exact (runs_acquire _ _).bind ((runs_release _ _).bind (.pure _ _))
    | ok pages =>
      simp only
      by_cases hall : pages.length = pagesOfSize size
      · rw [if_neg (not_not.mpr hall)]
        cases htable : k.sgAllocTableFromPages pages 0 size with
        | error err =>
          refine ⟨.error err.value, 0, .released hfits, fun held => ?_⟩
          rw [Multiset.zero_add]
          exact (runs_acquire _ _).bind
            ((runs_acquireAll _ _).bind (sgTableFromPages_pinned htable))
        | ok table =>
          refine ⟨.ok table, _, .table hfits, fun held => ?_⟩
          rw [hk pages size table hall htable, Multiset.cons_add]
          exact (runs_acquire _ _).bind ((runs_acquireAll _ _).bind (sgTableFromPages_ok _ htable))
      · rw [if_pos hall]
        refine ⟨.error (-einval), 0, .released hfits, fun held => ?_⟩
        rw [Multiset.zero_add]
        refine (runs_acquire _ _).bind ((runs_acquireAll _ _).bind ?_)
        exact (runs_releaseAll _ _).bind ((runs_release _ _).bind (.pure _ _))

theorem prepareSgTable_lowMemory (hk : ListsPages k) (userAddress : UInt64) (size : UInt32)
    (lowMemory : HailoVdmaLowMemoryBuffer) :
    ∃ result held', Prepared k size (some lowMemory) result held' ∧
      ∀ held, (prepareSgTable k userAddress size (some lowMemory)).Runs held result
        (held' + held) := by
  unfold prepareSgTable
  simp only
  cases harray : k.kvmallocArray (pagesOfSize size) with
  | false =>
    refine ⟨.error (-enomem), 0, .released ?_, fun held => ?_⟩
    · rintro ⟨low, err, -, htrue, -⟩
      rw [harray] at htrue
      cases htrue
    · rw [Multiset.zero_add]
      exact .pure _ _
  | true =>
    rw [if_neg (by decide)]
    by_cases hcount : pagesOfSize size = lowMemory.pagesAddress.length
    · rw [if_neg (not_not.mpr hcount)]
      have hlength : (lowMemory.pagesAddress.map k.virtToPage).length = pagesOfSize size := by
        rw [List.length_map, hcount]
      cases htable : k.sgAllocTableFromPages (lowMemory.pagesAddress.map k.virtToPage) 0 size with
      | error err =>
        have hruns (held : Multiset MapResource) :
            (do
              acquire .pagesArray
              acquireAll ((lowMemory.pagesAddress.map k.virtToPage).map .page)
              sgTableFromPages k (lowMemory.pagesAddress.map k.virtToPage) 0 size :
              Mapping (Except Int32 PageTable)).Runs held (.error err.value)
              (pageRefs (lowMemory.pagesAddress.map k.virtToPage) + held) :=
          (runs_acquire _ _).bind ((runs_acquireAll _ _).bind (sgTableFromPages_notPinned htable))
        by_cases hnil : lowMemory.pagesAddress = []
        · refine ⟨.error err.value, 0, .released ?_, fun held => ?_⟩
          · rintro ⟨low, err', hlow, -, -, hne, -⟩
            cases hlow
            exact hne hnil
          · have hrun := hruns held
            simp only [hnil, List.map_nil] at hrun ⊢
            exact hrun
        · refine ⟨.error err.value, pageRefs (lowMemory.pagesAddress.map k.virtToPage),
            .kept ?_ ⟨lowMemory, err, rfl, harray, hcount, hnil, htable⟩, hruns⟩
          rwa [ne_eq, List.map_eq_nil_iff]
      | ok table =>
        refine ⟨.ok table, _, .table ?_, fun held => ?_⟩
        · rintro ⟨low, err, hlow, -, -, -, hfails⟩
          cases hlow
          rw [htable] at hfails
          cases hfails
        · rw [hk _ size table hlength htable, Multiset.cons_add]
          exact (runs_acquire _ _).bind ((runs_acquireAll _ _).bind (sgTableFromPages_ok _ htable))
    · rw [if_pos hcount]
      refine ⟨.error (-einval), 0, .released ?_, fun held => ?_⟩
      · rintro ⟨low, err, hlow, -, hcount', -⟩
        cases hlow
        exact hcount hcount'
      · rw [Multiset.zero_add]
        exact (runs_acquire _ _).bind ((runs_release _ _).bind (.pure _ _))

theorem prepareSgTable_prepared (hk : ListsPages k) (userAddress : UInt64) (size : UInt32)
    (lowMemDriverAllocatedBuffer : Option HailoVdmaLowMemoryBuffer) :
    ∃ result held', Prepared k size lowMemDriverAllocatedBuffer result held' ∧
      ∀ held, (prepareSgTable k userAddress size lowMemDriverAllocatedBuffer).Runs held result
        (held' + held) := by
  cases lowMemDriverAllocatedBuffer with
  | none => exact prepareSgTable_user hk userAddress size
  | some lowMemory => exact prepareSgTable_lowMemory hk userAddress size lowMemory

theorem mapMmioAddress_cases (userAddress : UInt64) (size : UInt32) (vma : VmAreaStruct) :
    (∃ err, ∀ held, (mapMmioAddress k userAddress size vma).Runs held (.error err) held) ∨
    (∃ sgt, ∀ held, (mapMmioAddress k userAddress size vma).Runs held (.ok sgt)
      (.sgTable ::ₘ held)) := by
  unfold mapMmioAddress
  simp only
  split
  · exact Or.inl ⟨_, fun held => .pure _ _⟩
  · split
    · exact Or.inl ⟨_, fun held => .pure _ _⟩
    · split
      · exact Or.inl ⟨_, fun held => .pure _ _⟩
      · split
        · exact Or.inl ⟨_, fun held => .pure _ _⟩
        · exact Or.inr ⟨_, fun held => (runs_acquire _ _).bind (.pure _ _)⟩

section Map
variable {size : UInt64} {direction : DmaDataDirection}
  {lowMemDriverAllocatedBuffer : Option HailoVdmaLowMemoryBuffer} {l : LookedUp}

theorem mapMmio_releases (vma : VmAreaStruct) :
    ReleasesFrom {.bufferStruct}
      (mapMmio k size direction lowMemDriverAllocatedBuffer l vma) := by
  unfold mapMmio
  split
  · refine (releasesFrom_error (-einval) ?_).mpr rfl
    exact (runs_release _ _).bind (.pure _ _)
  · rcases mapMmioAddress_cases (k := k) l.addrOrFd size.toUInt32 vma with
      ⟨err, hruns⟩ | ⟨sgt, hruns⟩
    · rw [releasesFrom_bind (hruns _)]
      refine (releasesFrom_error err ?_).mpr rfl
      exact (runs_release _ _).bind (.pure _ _)
    · rw [releasesFrom_bind (hruns _)]
      exact releasesFrom_ok rfl

/-- A dmabuf that cannot be mapped leaves everything held that was held before. -/
theorem mapDmabuf_releases_iff {held : Multiset MapResource} (hheld : held ≠ 0) :
    ReleasesFrom held (mapDmabuf k size direction l) ↔
      DmabufMaps k l.addrOrFd.toUInt32.toInt32 direction := by
  rcases hailoMapDmabuf_cases k l.addrOrFd.toUInt32.toInt32 direction with
    ⟨hmaps, sgt, held', hruns⟩ | ⟨hnot, hruns⟩
  · rw [iff_true_right hmaps, mapDmabuf, releasesFrom_bind (hruns _)]
    simp only
    split
    · exact releasesFrom_ok rfl
    · exact releasesFrom_ok rfl
  · rw [iff_false_right hnot, mapDmabuf, releasesFrom_bind (hruns _),
      releasesFrom_error _ (.pure _ _)]
    exact hheld

theorem pageRefs_ne_zero {pages : List Nat} (h : pages ≠ []) : pageRefs pages ≠ 0 := by
  rw [pageRefs, ne_eq, Multiset.coe_eq_zero, List.map_eq_nil_iff]
  exact h

theorem mapPages_releases_iff (hk : ListsPages k) :
    ReleasesFrom {.bufferStruct}
        (mapPages k size direction lowMemDriverAllocatedBuffer l) ↔
      ¬ LowMemoryTableFails k size.toUInt32 lowMemDriverAllocatedBuffer := by
  obtain ⟨result, held', hprepared, hruns⟩ :=
    prepareSgTable_prepared hk l.addrOrFd size.toUInt32 lowMemDriverAllocatedBuffer
  rw [mapPages, releasesFrom_bind (hruns _)]
  cases hprepared with
  | @table table hfits =>
    rw [iff_true_right hfits]
    simp only
    split
    · refine (releasesFrom_error (-enxio) ?_).mpr rfl
      refine Ledgered.Runs.bind (a := ()) ?_
        ((runs_release MapResource.bufferStruct 0).bind (.pure _ _))
      rw [Multiset.cons_add, ← Multiset.add_cons]
      exact (runs_releaseAll _ _).bind (runs_release _ _)
    · exact releasesFrom_ok rfl
  | @released err hfits =>
    rw [iff_true_right hfits, Multiset.zero_add]
    refine (releasesFrom_error err ?_).mpr rfl
    exact (runs_release _ _).bind (.pure _ _)
  | @kept err pages hpages hfails =>
    rw [iff_false_right (not_not.mpr hfails), Multiset.add_comm, Multiset.singleton_add]
    have hrun : (do release .bufferStruct; return .error err :
        Mapping (Except Int32 HailoVdmaBuffer)).Runs (.bufferStruct ::ₘ pageRefs pages)
        (.error err) (pageRefs pages) := (runs_release _ _).bind (.pure _ _)
    rw [releasesFrom_error err hrun]
    exact pageRefs_ne_zero hpages

/-- The exits that keep what they should give back: by `cleanup` after the structure was
allocated, or over a low memory buffer. -/
def LeakyExit (k : KernelOps) (size : UInt64) (direction : DmaDataDirection)
    (lowMemDriverAllocatedBuffer : Option HailoVdmaLowMemoryBuffer)
    (supportMmioDmaMapping : Bool) (addrOrFd : UInt64) (bufferType : HailoDmaBufferType) : Prop :=
  k.kzalloc = true ∧
    if bufferType = .dmabufBuffer then ¬ DmabufMaps k addrOrFd.toUInt32.toInt32 direction
    else if supportMmioDmaMapping && (k.findVma addrOrFd).isNone then True
    else if isDmabufVma (k.findVma addrOrFd) then
      ∀ fd, k.getUnusedFdFlags = .ok fd → ¬ DmabufMaps k fd.toInt32 direction
    else
      LookedUp.mmioVma ⟨k.findVma addrOrFd, bufferType, addrOrFd, 0⟩ supportMmioDmaMapping =
          none ∧
        LowMemoryTableFails k size.toUInt32 lowMemDriverAllocatedBuffer

/-- Memory of a dmabuf is looked up by making a descriptor for it. -/
theorem lookUpVma_fromPointer {supportMmioDmaMapping : Bool} {addrOrFd : UInt64}
    {bufferType : HailoDmaBufferType} (htype : bufferType ≠ .dmabufBuffer)
    (hvma : ¬ (supportMmioDmaMapping && (k.findVma addrOrFd).isNone) = true)
    (hdmabuf : isDmabufVma (k.findVma addrOrFd) = true) :
    (∃ err, k.getUnusedFdFlags = .error err ∧
      ∀ held, (lookUpVma k supportMmioDmaMapping addrOrFd bufferType).Runs held
        (.error err.value) held) ∨
    (∃ fd, k.getUnusedFdFlags = .ok fd ∧
      ∀ held, (lookUpVma k supportMmioDmaMapping addrOrFd bufferType).Runs held
        (.ok ⟨k.findVma addrOrFd, .dmabufBuffer, fd.toUInt64, addrOrFd⟩)
        (.fd fd ::ₘ .vmFile ::ₘ held)) := by
  unfold lookUpVma
  rw [if_neg htype]
  simp only
  rw [if_neg hvma, if_pos hdmabuf]
  rcases createFdFromVma_cases (k := k) hdmabuf with ⟨err, hfd, hruns⟩ | ⟨fd, hfd, hruns⟩
  · exact Or.inl ⟨err, hfd, fun held => (hruns held).bind (.pure _ _)⟩
  · exact Or.inr ⟨fd, hfd, fun held => (hruns held).bind (.pure _ _)⟩

/-- A failed mapping gives back all it took, exactly unless it leaves by a leaky exit. -/
theorem hailoVdmaBufferMap_releases_iff (hk : ListsPages k) (size : UInt64)
    (direction : DmaDataDirection)
    (lowMemDriverAllocatedBuffer : Option HailoVdmaLowMemoryBuffer)
    (supportMmioDmaMapping : Bool) (addrOrFd : UInt64) (bufferType : HailoDmaBufferType) :
    ReleasesFrom 0 (hailoVdmaBufferMap k size direction lowMemDriverAllocatedBuffer
        supportMmioDmaMapping addrOrFd bufferType) ↔
      ¬ LeakyExit k size direction lowMemDriverAllocatedBuffer supportMmioDmaMapping addrOrFd
        bufferType := by
  have hstruct : ({.bufferStruct} : Multiset MapResource) ≠ 0 := Multiset.singleton_ne_zero _
  unfold hailoVdmaBufferMap LeakyExit
  cases k.kzalloc with
  | false =>
    simp only [Bool.not_false, if_true, Bool.false_eq_true, false_and, not_false_iff, iff_true]
    exact (releasesFrom_error _ (.pure _ _)).mpr rfl
  | true =>
    simp only [Bool.not_true, Bool.false_eq_true, if_false, true_and]
    rw [releasesFrom_bind (runs_acquire _ _)]
    by_cases htype : bufferType = .dmabufBuffer
    · rw [lookUpVma, if_pos htype, if_pos htype, releasesFrom_bind (.pure _ _)]
      simp only [mmioVma_dmabuf (l := ⟨none, bufferType, addrOrFd, 0⟩) htype]
      rw [if_pos htype, not_not]
      exact mapDmabuf_releases_iff hstruct
    · rw [if_neg htype]
      by_cases hvma : (supportMmioDmaMapping && (k.findVma addrOrFd).isNone) = true
      · rw [lookUpVma_failed htype hvma, if_pos hvma, releasesFrom_bind (.pure _ _),
          releasesFrom_error _ (.pure _ _),
          not_true]
        exact iff_false_intro hstruct
      · rw [if_neg hvma]
        by_cases hdmabuf : isDmabufVma (k.findVma addrOrFd) = true
        · rw [if_pos hdmabuf]
          rcases lookUpVma_fromPointer htype hvma hdmabuf with ⟨err, hfd, hruns⟩ | ⟨fd, hfd, hruns⟩
          · rw [releasesFrom_bind (hruns _), releasesFrom_error _ (.pure _ _), hfd]
            simp [hstruct]
          · rw [releasesFrom_bind (hruns _), hfd]
            simp only [mmioVma_dmabuf, if_true, Except.ok.injEq, forall_eq', not_not]
            rw [mapDmabuf_releases_iff (Multiset.cons_ne_zero), UInt32.toUInt32_toUInt64]
        · rw [lookUpVma_ordinary htype hvma hdmabuf, if_neg hdmabuf, releasesFrom_bind (.pure _ _)]
          simp only
          cases hmmio : LookedUp.mmioVma ⟨k.findVma addrOrFd, bufferType, addrOrFd, 0⟩
            supportMmioDmaMapping with
          | some vma =>
            simp only [reduceCtorEq, false_and, not_false_iff, iff_true]
            exact mapMmio_releases vma
          | none =>
            simp only [true_and]
            rw [if_neg htype]
            exact mapPages_releases_iff hk

end Map

theorem plainKernel_listsPages (pageOf : Nat → Nat) : ListsPages (plainKernel pageOf) := by
  intro pages size table hlength htable
  cases htable
  exact sgPages_onePerPage hlength

/-- A low memory buffer without pages is refused, and nothing is kept. -/
theorem hailoVdmaBufferMap_releases_iff_noPages :
    (hailoVdmaBufferMap (plainKernel id) 100 .toDevice (some ⟨[]⟩) false 4096
        .userPtrBuffer).value = .error (-einval) ∧
      ReleasesFrom 0 (hailoVdmaBufferMap (plainKernel id) 100 .toDevice (some ⟨[]⟩) false 4096
        .userPtrBuffer) := by
  refine ⟨rfl, (hailoVdmaBufferMap_releases_iff ?_ _ _ _ _ _ _).mpr ?_⟩
  · exact plainKernel_listsPages id
  · rintro ⟨-, -, lowMemory, err, hsome, -, hcount, -⟩
    cases hsome
    cases hcount

/-- Descriptor 7 is no dmabuf, and the buffer structure is never freed. -/
theorem noDmabuf_structKept :
    (hailoVdmaBufferMap (plainKernel id) 100 .toDevice none false 7 .dmabufBuffer).value =
        .error (-einval) ∧
      heldAfter 0 (hailoVdmaBufferMap (plainKernel id) 100 .toDevice none false 7
        .dmabufBuffer).moves = some {.bufferStruct} := ⟨rfl, rfl⟩

end HailortDrivers.MappingLeaks
