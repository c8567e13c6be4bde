import HailortDrivers.BootSuccess

/-!
What a batch of boot files delivers: every byte is held at one place of one channel, and one
pair of descriptors carries it to its device address. Only the sizes of the pair differ: on
the device side a whole page has the default stride for its size, which is zero.
-/
namespace HailortDrivers.BootDelivery
open KernelExec VdmaTypes SegmentSlicing PagePacking ProgrammedPages DescriptorWords
open ScatterGatherCoverage FirmwareImage FirmwareLoading BootProgramming BootDescriptors
open BootRounds BootBatch BootSuccess

/-- The channels before the first file: no descriptors, nothing in their memory, and no two
bytes of a channel's memory at one address. -/
structure FreshBoot (s : BootState) : Prop where
  index : s.currChannelIndex = 0
  ready : ∀ c < hailoPciOverVdmaNumChannels, ChannelReady (s.channels c)
  noDescs : ∀ c < hailoPciOverVdmaNumChannels, (s.channels c).descProgramNum = 0
  unwritten : ∀ c < hailoPciOverVdmaNumChannels, ∀ p, (s.channels c).buffer.bytes p = none
  distinct : ∀ c < hailoPciOverVdmaNumChannels,
    (allBytes (segments (s.channels c).sgTable.sgl)).Nodup

/-- Host descriptor `d` covers position `p` of the channel's memory, and at the same offset
device descriptor `d` covers the device's `address`. -/
def CoversByte (channel : HailoPcieBootDmaChannelState) (d p address : Nat) : Prop :=
  d < channel.descProgramNum.toNat ∧ ∃ offset a,
    (descriptorSegment (channel.hostDescriptorsBuffer.descList d)).bytes[offset]? = some a ∧
    (allBytes (segments channel.sgTable.sgl))[p]? = some a ∧
    (descriptorAddress (channel.deviceDescriptorsBuffer.descList d)).toNat + offset = address

def SameSize (channel : HailoPcieBootDmaChannelState) (d : Nat) : Prop :=
  descriptorPageSize (channel.deviceDescriptorsBuffer.descList d) =
    descriptorPageSize (channel.hostDescriptorsBuffer.descList d)

/-- Channel `c` and descriptor `d` carry a byte of a file to its address. -/
def Carries (s : BootState) (addressOf : Nat → Nat) (b : FirmwareByte) (c d : Nat) : Prop :=
  c < hailoPciOverVdmaNumChannels ∧ ∃ p, (s.channels c).buffer.bytes p = some b ∧
    CoversByte (s.channels c) d p (addressOf b.file + b.position)

/-- No byte was overwritten, each is carried by one pair of descriptors of one size, and no
channel has too many. -/
structure Delivered (s : BootState) (addressOf : Nat → Nat) (sizes : List Nat) : Prop where
  held : ∀ f, ∀ hf : f < sizes.length, ∀ k < sizes[f], ∃! x : Nat × Nat,
    x.1 < hailoPciOverVdmaNumChannels ∧ (s.channels x.1).buffer.bytes x.2 = some ⟨f, k⟩
  carried : ∀ f, ∀ hf : f < sizes.length, ∀ k < sizes[f], ∃! x : Nat × Nat,
    Carries s addressOf ⟨f, k⟩ x.1 x.2 ∧ SameSize (s.channels x.1) x.2
  bounded : ∀ c < hailoPciOverVdmaNumChannels, (s.channels c).descProgramNum.toNat ≤ 65535

section Fresh
variable {addressOf : Nat → Nat} {s s₀ : BootState}

theorem FreshBoot.programmed (h : FreshBoot s) : Programmed addressOf s [] false s where
  ready := h.ready
  sgTable _ _ := rfl
  bufferSize _ _ := rfl
  count c hc := by
    rw [h.noDescs c hc, List.length_nil, Nat.zero_sub, Nat.min_zero]
    rfl
  index := by
    rw [h.index]
    rfl
  bitmap c := by
    have hzero : ¬ (1 ≤ c ∧ c ≤ (([] : List Page).length - 1) / 65535) := by
      rw [List.length_nil]
      omega
    rw [decide_eq_false hzero, Bool.or_false]
  page g hg := absurd hg (Nat.not_lt_zero g)
  bytes c hc p := by
    rw [h.unwritten c hc, heldAt]
    split
    · rw [List.getElem?_nil]
      rfl
    · rfl

end Fresh

section Batch
variable {addressOf : Nat → Nat} {s s₀ : BootState} {sizes : List Nat} {final : Bool}
  (h : Programmed addressOf s₀ (pagesFrom 512 0 sizes) final s)
include h

theorem held_iff {c : Nat} (hc : c < 8) {p f k : Nat} :
    (s.channels c).buffer.bytes p = some ⟨f, k⟩ ↔
      heldAt 512 65535 (pagesFrom 512 0 sizes) c p = some (f, k) := by
  rw [h.bytes c hc, Option.map_eq_some_iff]
  constructor
  · rintro ⟨⟨f', k'⟩, hheld, heq⟩
    cases heq
    exact hheld
  · exact fun hheld => ⟨(f, k), hheld, rfl⟩

/-- A host descriptor of the batch covers its own page of the memory and nothing else. -/
theorem hostByte {g : Nat} (hg : g < (pagesFrom 512 0 sizes).length)
    (hroom : (pagesFrom 512 0 sizes).length ≤ 8 * 65535) {o : Nat}
    (ho : o < (pagesFrom 512 0 sizes)[g].size) :
    ∃ a, (descriptorSegment ((s.channels (g / 65535)).hostDescriptorsBuffer.descList
        (g % 65535))).bytes[o]? = some a ∧
      (allBytes (segments (s.channels (g / 65535)).sgTable.sgl))[g % 65535 * 512 + o]? =
        some a := by
  have hpage := h.page g hg
  have hsize := (mem_pagesFrom (by decide) (List.getElem_mem hg)).2.2
  refine ⟨_, Segment.getElem?_bytes (by rwa [hpage.len]), ?_⟩
  rw [getElem?_allBytes_page _ (by omega), hpage.base]
  · rfl
  · intro seg hseg
    obtain ⟨e, he, rfl⟩ := List.mem_map.mp hseg
    exact (h.ready _ (by omega)).pages.length e he

/-- The page that a descriptor stands for. -/
theorem page_of_desc {c d : Nat} (hc : c < 8)
    (hd : d < (s.channels c).descProgramNum.toNat) :
    c * 65535 + d < (pagesFrom 512 0 sizes).length ∧ (c * 65535 + d) / 65535 = c ∧
      (c * 65535 + d) % 65535 = d := by
  rw [h.count c hc] at hd
  omega

/-- Where a byte is carried, its page is. -/
theorem Carries.page (hroom : (pagesFrom 512 0 sizes).length ≤ 8 * 65535) {f k c d : Nat}
    (hdistinct : ∀ c < 8, (allBytes (segments (s.channels c).sgTable.sgl)).Nodup)
    (hcarries : Carries s addressOf ⟨f, k⟩ c d) :
    ∃ g, ∃ hg : g < (pagesFrom 512 0 sizes).length, g / 65535 = c ∧ g % 65535 = d ∧
      (pagesFrom 512 0 sizes)[g].item = f ∧ (pagesFrom 512 0 sizes)[g].index = k / 512 := by
  obtain ⟨hc, p, hbytes, hd, o, a, hbyte, hposition, -⟩ := hcarries
  rw [held_iff h hc] at hbytes
  obtain ⟨g, hg, hgc, hstart, hend, hitem, hindex⟩ :=
    (heldAt_eq_some (by decide) (by decide)).mp hbytes
  obtain ⟨hg', hdiv, hmod⟩ := page_of_desc h hc hd
  have hpage := h.page _ hg'
  rw [hdiv, hmod] at hpage
  have ho : o < (pagesFrom 512 0 sizes)[c * 65535 + d].size := by
    rw [← hpage.len, ← Segment.length_bytes]
    exact (List.getElem?_eq_some_iff.mp hbyte).1
  have hsmall := (mem_pagesFrom (by decide) (List.getElem_mem hg')).2.2
  obtain ⟨a', hbyte', hposition'⟩ := hostByte h hg' hroom ho
  rw [hdiv, hmod] at hbyte' hposition'
  obtain rfl : a = a' := Option.some.inj (hbyte.symm.trans hbyte')
  have hsame : p = d * 512 + o := (List.getElem?_inj (List.getElem?_eq_some_iff.mp hposition).1
    (hdistinct c hc)).mp (hposition.trans hposition'.symm)
  refine ⟨g, hg, hgc, by omega, hitem, by omega⟩

theorem carries_of_page (hroom : (pagesFrom 512 0 sizes).length ≤ 8 * 65535) {f k g : Nat}
    (haligned : 64 ∣ addressOf f) (haddress : addressOf f + k / 512 * 512 < 2 ^ 32)
    (hg : g < (pagesFrom 512 0 sizes).length) (hitem : (pagesFrom 512 0 sizes)[g].item = f)
    (hindex : (pagesFrom 512 0 sizes)[g].index = k / 512)
    (hsize : k % 512 < (pagesFrom 512 0 sizes)[g].size)
    (hheld : heldAt 512 65535 (pagesFrom 512 0 sizes) (g / 65535) (g % 65535 * 512 + k % 512) =
      some (f, k)) :
    Carries s addressOf ⟨f, k⟩ (g / 65535) (g % 65535) := by
  have hc : g / 65535 < 8 := by omega
  have hpage := h.page g hg
  have hdevice := hpage.deviceAddress
  rw [hitem, hindex] at hdevice
  obtain ⟨a, hbyte, hposition⟩ := hostByte h hg hroom hsize
  refine ⟨hc, g % 65535 * 512 + k % 512, (held_iff h hc).mpr hheld, ?_,
    k % 512, a, hbyte, hposition, ?_⟩
  · rw [h.count _ hc]
    exact Nat.lt_min.mpr ⟨Nat.mod_lt g (by decide), Nat.lt_sub_of_add_lt
      (by rwa [Nat.mod_add_div'])⟩
  · rw [hdevice haligned haddress]
    simp only
    omega

/-- Every byte whose page lies in the 32-bit space of device addresses is carried there, once,
whatever the sizes of the files. -/
theorem exists_unique_carries (hroom : (pagesFrom 512 0 sizes).length ≤ 8 * 65535)
    (hdistinct : ∀ c < 8, (allBytes (segments (s.channels c).sgTable.sgl)).Nodup) {f k : Nat}
    (hf : f < sizes.length) (hk : k < sizes[f]) (haligned : 64 ∣ addressOf f)
    (haddress : addressOf f + k / 512 * 512 < 2 ^ 32) :
    ∃! x : Nat × Nat, Carries s addressOf ⟨f, k⟩ x.1 x.2 := by
  obtain ⟨g, hg, hpage, hheld⟩ := exists_held (P := 512) (N := 65535) (by decide) (by decide) hf hk
  have hsize : k % 512 < (pagesFrom 512 0 sizes)[g].size := by
    rw [hpage]
    simp only
    omega
  refine ⟨(g / 65535, g % 65535), carries_of_page h hroom haligned haddress hg (by rw [hpage])
    (by rw [hpage]) hsize hheld, ?_⟩
  rintro ⟨c, d⟩ hcarries
  obtain ⟨g', hg', rfl, rfl, hitem, hindex⟩ := hcarries.page h hroom hdistinct
  obtain rfl := page_unique (by decide) hg' hg (by rw [hitem, hpage]) (by rw [hindex, hpage])
  rfl

theorem exists_unique_held (hroom : (pagesFrom 512 0 sizes).length ≤ 8 * 65535) {f k : Nat}
    (hf : f < sizes.length) (hk : k < sizes[f]) :
    ∃! x : Nat × Nat,
      x.1 < hailoPciOverVdmaNumChannels ∧ (s.channels x.1).buffer.bytes x.2 = some ⟨f, k⟩ := by
  obtain ⟨g, hg, -, hheld⟩ := exists_held (P := 512) (N := 65535) (by decide) (by decide) hf hk
  have hc : g / 65535 < 8 := by omega
  refine ⟨(g / 65535, g % 65535 * 512 + k % 512), ⟨hc, (held_iff h hc).mpr hheld⟩, ?_⟩
  rintro ⟨c, p⟩ ⟨hc', hp⟩
  obtain ⟨rfl, rfl⟩ := held_unique (by decide) (by decide) ((held_iff h hc').mp hp) hheld
  rfl

/-- The two descriptors of a page have one size where it is not a whole page. -/
theorem sameSize_iff {g : Nat} (hg : g < (pagesFrom 512 0 sizes).length) :
    SameSize (s.channels (g / 65535)) (g % 65535) ↔ (pagesFrom 512 0 sizes)[g].size < 512 := by
  have hpage := h.page g hg
  have hlen : (descriptorPageSize ((s.channels (g / 65535)).hostDescriptorsBuffer.descList
    (g % 65535))).toNat = (pagesFrom 512 0 sizes)[g].size := hpage.len
  have hpos := (mem_pagesFrom (by decide) (List.getElem_mem hg)).2.1
  rw [SameSize, ← UInt32.toNat_inj, hpage.deviceSize, hlen]
  split
  · omega
  · omega

theorem delivered_iff_small (hroom : (pagesFrom 512 0 sizes).length ≤ 8 * 65535)
    (hdistinct : ∀ c < 8, (allBytes (segments (s.channels c).sgTable.sgl)).Nodup)
    (haligned : ∀ f, 64 ∣ addressOf f) (haddress : ∀ f, addressOf f < 2 ^ 32) :
    Delivered s addressOf sizes ↔ ∀ size ∈ sizes, size < 512 := by
  constructor
  · intro hdelivered size hsize
    obtain ⟨f, hf, rfl⟩ := List.mem_iff_getElem.mp hsize
    by_contra hlarge
    -- The first page of the file is a whole page.
    obtain ⟨x, ⟨hcarries, hsame⟩, -⟩ := hdelivered.carried f hf 0 (by omega)
    obtain ⟨g, hg, hc, hd, hitem, hindex⟩ := hcarries.page h hroom hdistinct
    obtain ⟨g', hg', hpage, -⟩ := exists_held (P := 512) (N := 65535) (by decide) (by decide) hf
      (by omega : 0 < sizes[f])
    obtain rfl := page_unique (by decide) hg hg' (by rw [hitem, hpage]) (by rw [hindex, hpage])
    rw [← hc, ← hd, sameSize_iff h hg, hpage] at hsame
    simp only at hsame
    omega
  · intro hsmall
    refine ⟨fun f hf k hk => exists_unique_held h hroom hf hk, fun f hf k hk => ?_,
      fun c hc => by rw [h.count c hc]; exact Nat.min_le_left _ _⟩
    have hsize := hsmall _ (List.getElem_mem hf)
    have hfirst : k / 512 = 0 := Nat.div_eq_of_lt (by omega)
    have hlow : addressOf f + k / 512 * 512 < 2 ^ 32 := by
      rw [hfirst, Nat.zero_mul, Nat.add_zero]
      exact haddress f
    obtain ⟨x, hcarries, hunique⟩ := exists_unique_carries h hroom hdistinct hf hk (haligned f) hlow
    refine ⟨x, ⟨hcarries, ?_⟩, fun y hy => hunique y hy.1⟩
    obtain ⟨g, hg, hc, hd, hitem, hindex⟩ := Carries.page h hroom hdistinct hcarries
    obtain ⟨g', hg', hpage, -⟩ := exists_held (P := 512) (N := 65535) (by decide) (by decide) hf hk
    obtain rfl := page_unique (by decide) hg hg' (by rw [hitem, hpage]) (by rw [hindex, hpage])
    rw [← hc, ← hd, sameSize_iff h hg, hpage]
    simp only
    omega

end Batch

section Runs
variable {request : FirmwareStore} {rounds : Nat} {stageInfo : HailoPcieLoadingStage}
  {boot boot' : BootState}

theorem fileAddress_lt (files : List HailoFileBatch) (f : Nat) :
    fileAddress files f < 2 ^ 32 := by
  unfold fileAddress
  split
  · exact UInt32.toNat_lt _
  · decide

theorem fileAddress_aligned {files : List HailoFileBatch}
    (h : ∀ fileInfo ∈ files, 64 ∣ fileInfo.address.toNat) (f : Nat) :
    64 ∣ fileAddress files f := by
  unfold fileAddress
  split
  · next fileInfo hfile => exact h fileInfo (List.mem_of_getElem? hfile)
  · exact Nat.dvd_zero 64

/-- A batch that returns 0 has packed the pages of all of its files. -/
theorem programmed_of_run (hfiles : NonemptyFiles request stageInfo.files) (hfresh : FreshBoot boot)
    (hfit : descsOf (fileSizes request stageInfo.files) ≤ hailoPciOverVdmaNumChannels * 65535)
    (hrun : pcieVdmaProgramEntireBatch request rounds stageInfo boot = .ok (some (0, boot'))) :
    Programmed (fileAddress stageInfo.files) boot
      (pagesFrom 512 0 (fileSizes request stageInfo.files)) (!stageInfo.files.isEmpty) boot' := by
  have hstart : Programmed (fileAddress stageInfo.files) boot [] false boot := hfresh.programmed
  refine programFiles_nonneg hfiles (fun j hj => ?_) hstart ?_ hrun (by decide)
  · rw [Nat.zero_add, fileAddress, List.getElem?_eq_getElem hj]
  · rw [List.length_nil, Nat.zero_add]
    exact hfit

theorem distinct_of_run (hfresh : FreshBoot boot) {addressOf : Nat → Nat} {ps : List Page}
    {final : Bool} (h : Programmed addressOf boot ps final boot') :
    ∀ c < 8, (allBytes (segments (boot'.channels c).sgTable.sgl)).Nodup := by
  intro c hc
  rw [h.sgTable c hc]
  exact hfresh.distinct c hc

/-- A batch of boot files is delivered, descriptor by descriptor of one size, if and only if no
file of it fills a page. -/
theorem delivered_iff (hfiles : BootFiles request stageInfo.files) (hfresh : FreshBoot boot)
    (hfit : descsOf (fileSizes request stageInfo.files) ≤ hailoPciOverVdmaNumChannels * 65535)
    (hrun : pcieVdmaProgramEntireBatch request rounds stageInfo boot = .ok (some (0, boot'))) :
    Delivered boot' (fileAddress stageInfo.files) (fileSizes request stageInfo.files) ↔
      ∀ size ∈ fileSizes request stageInfo.files, size < hailoPciOverVdmaPageSize := by
  have h := programmed_of_run hfiles.toNonemptyFiles hfresh hfit hrun
  refine delivered_iff_small h ?_ (distinct_of_run hfresh h)
    (fileAddress_aligned hfiles.aligned) (fileAddress_lt _)
  rw [length_pagesFrom]
  exact hfit

/-- Files that are found and fit are programmed, in no more rounds than the largest has bytes. -/
theorem batch_total (hfiles : NonemptyFiles request stageInfo.files) (hfresh : FreshBoot boot)
    (hspace : ∀ c < 8, ChannelRoom (boot.channels c))
    (hloads : Loads request rounds stageInfo.files)
    (hfit : descsOf (fileSizes request stageInfo.files) ≤ hailoPciOverVdmaNumChannels * 65535) :
    ∃ boot', pcieVdmaProgramEntireBatch request rounds stageInfo boot = .ok (some (0, boot')) := by
  have hstart : Programmed (fileAddress stageInfo.files) boot [] false boot := hfresh.programmed
  refine programFiles_total hspace hfiles hloads (fun j hj => ?_) hstart ?_
  · rw [Nat.zero_add, fileAddress, List.getElem?_eq_getElem hj]
  · rw [List.length_nil, Nat.zero_add]
    exact hfit

end Runs

/-- The channels as allocating leaves them, each over one run of pages. -/
def emptyBoot : BootState :=
  let descs : HailoVdmaDescriptorsList := ⟨fun _ => ⟨0, 0, 0, 0⟩, 65536, 65535, 512, false⟩
  { channels := fun _ => ⟨descs, descs, ⟨0, [⟨0x10000, 33554432⟩]⟩, ⟨33554432, fun _ => none⟩, 0⟩
    currChannelIndex := 0
    bootUsedChannelBitmap := 1 }

theorem nodup_bytes {s : Segment UInt64} (h : s.len ≤ 2 ^ 64) : s.bytes.Nodup := by
  rw [Segment.bytes]
  refine List.Nodup.map_on ?_ List.nodup_range
  intro i hi j hj heq
  have hsame : UInt64.ofNat i = UInt64.ofNat j := (UInt64.add_right_inj s.base).mp heq
  rw [← UInt64.toNat_inj] at hsame
  rw [List.mem_range] at hi hj
  rwa [UInt64.toNat_ofNat_of_lt' (show i < 2 ^ 64 by omega),
    UInt64.toNat_ofNat_of_lt' (show j < 2 ^ 64 by omega)] at hsame

theorem emptyBoot_fresh : FreshBoot emptyBoot where
  index := rfl
  ready c _ := by
    refine ⟨⟨_, rfl⟩, ⟨_, rfl⟩, ?_, ?_⟩
    · intro e he
      obtain rfl := List.mem_singleton.mp he
      decide
    · intro e he
      obtain rfl := List.mem_singleton.mp he
      decide
  noDescs c _ := rfl
  unwritten c _ p := rfl
  distinct c _ := by
    have hsegments : segments (emptyBoot.channels c).sgTable.sgl = [⟨0x10000, 33554432⟩] := rfl
    rw [hsegments, allBytes_cons, allBytes_nil, List.append_nil]
    exact nodup_bytes (by decide)

theorem emptyBoot_room (c : Nat) : ChannelRoom (emptyBoot.channels c) := by
  refine ⟨?_, ?_⟩
  · have htotal : totalLen (segments (emptyBoot.channels c).sgTable.sgl) = 33554432 := rfl
    rw [htotal]
    decide
  · have hsize : (emptyBoot.channels c).buffer.size = 33554432 := rfl
    rw [hsize]
    decide

section Images
variable {sizeOf : Option String → Nat} (hlt : ∀ name, sizeOf name < 2 ^ 64)

/-- Under every name there is a file of the size the name is given. -/
def imagesOf : FirmwareStore := fun name =>
  .ok ⟨⟨List.replicate (sizeOf name) 0, by rw [List.length_replicate]; exact hlt name⟩, 0⟩

theorem size_imagesOf {name : Option String} {firmware : LoadedFile}
    (h : imagesOf hlt name = .ok firmware) : firmware.size.toNat = sizeOf name := by
  cases h
  rw [Firmware.size, List.length_replicate, UInt64.toNat_ofNat_of_lt' (hlt name)]

theorem fileSizes_imagesOf (files : List HailoFileBatch) :
    fileSizes (imagesOf hlt) files = files.map fun fileInfo => sizeOf fileInfo.filename :=
  List.map_congr_left fun _ _ => size_imagesOf hlt rfl

/-- The stage that goes over vDMA on a Hailo-10H. -/
def linuxStage : HailoPcieLoadingStage := hailoPcieGetLoadingStageInfo .hailo10h .secondStage

theorem linuxStage_bootFiles (hpos : ∀ name, 0 < sizeOf name) :
    BootFiles (imagesOf hlt) linuxStage.files where
  named := by decide
  nonempty fileInfo _ firmware hload := by
    rw [size_imagesOf hlt hload]
    exact hpos _
  aligned := by decide

theorem linuxStage_total {rounds : Nat} (hpos : ∀ name, 0 < sizeOf name)
    (hrounds : ∀ name, sizeOf name ≤ rounds)
    (hfit : descsOf (linuxStage.files.map fun fileInfo => sizeOf fileInfo.filename) ≤
      hailoPciOverVdmaNumChannels * 65535) :
    ∃ boot', pcieVdmaProgramEntireBatch (imagesOf hlt) rounds linuxStage emptyBoot =
      .ok (some (0, boot')) := by
  refine batch_total (linuxStage_bootFiles hlt hpos).toNonemptyFiles emptyBoot_fresh
    (fun c _ => emptyBoot_room c) (fun fileInfo _ => ?_) (by rwa [fileSizes_imagesOf])
  refine ⟨_, rfl, ?_⟩
  rw [size_imagesOf hlt rfl]
  exact hrounds _

end Images

theorem onePage_lt (_ : Option String) : hailoPciOverVdmaPageSize < 2 ^ 64 := by decide

/-- Files of one page each: the device descriptors have no size. -/
theorem wholePages_notDelivered :
    ∃ boot', pcieVdmaProgramEntireBatch (imagesOf onePage_lt) 512 linuxStage emptyBoot =
        .ok (some (0, boot')) ∧
      ¬ Delivered boot' (fileAddress linuxStage.files)
        (fileSizes (imagesOf onePage_lt) linuxStage.files) := by
  have hfit : descsOf (linuxStage.files.map fun _ => hailoPciOverVdmaPageSize) ≤
      hailoPciOverVdmaNumChannels * 65535 := by decide
  obtain ⟨boot', hrun⟩ := linuxStage_total onePage_lt (fun _ => by decide) (fun _ => le_rfl) hfit
  refine ⟨boot', hrun, fun hdelivered => ?_⟩
  have hfiles := linuxStage_bootFiles onePage_lt fun _ => by decide
  have h := programmed_of_run hfiles.toNonemptyFiles emptyBoot_fresh
    (by rw [fileSizes_imagesOf]; exact hfit) hrun
  rw [fileSizes_imagesOf] at h hdelivered
  have hsmall := (delivered_iff_small h (by rw [length_pagesFrom]; exact hfit)
    (distinct_of_run emptyBoot_fresh h) (fileAddress_aligned hfiles.aligned)
    (fileAddress_lt _)).mp hdelivered
  exact absurd (hsmall 512 (by decide)) (by decide)

theorem hundredBytes_lt (_ : Option String) : 100 < 2 ^ 64 := by decide

theorem delivered_iff_linuxStage :
    ∃ boot', pcieVdmaProgramEntireBatch (imagesOf hundredBytes_lt) 100 linuxStage emptyBoot =
        .ok (some (0, boot')) ∧
      Delivered boot' (fileAddress linuxStage.files)
        (fileSizes (imagesOf hundredBytes_lt) linuxStage.files) := by
  obtain ⟨boot', hrun⟩ := linuxStage_total hundredBytes_lt (fun _ => by decide)
    (fun _ => le_rfl) (by decide)
  refine ⟨boot', hrun, (delivered_iff (linuxStage_bootFiles _ fun _ => by decide)
    emptyBoot_fresh ?_ hrun).mpr ?_⟩
  · rw [fileSizes_imagesOf]
    decide
  · rw [fileSizes_imagesOf]
    decide

end HailortDrivers.BootDelivery
