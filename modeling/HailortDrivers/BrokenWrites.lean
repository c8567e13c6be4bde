import HailortDrivers.DeviceWindow
import HailortDrivers.FirmwareFormat
import HailortDrivers.FirmwareLoading

/-!
What a batch returns is settled by its files alone: no write that fails its
read-back is reported, however many do.
-/
namespace HailortDrivers.BrokenWrites
open KernelExec LittleEndian VdmaTypes FirmwareImage FirmwareFormat ResourceAccess DeviceMemory
open DeviceWindow FirmwareLoading

/-- A mapped board of a known type; `BUG_ON` asks for a window of one page. -/
structure LoadableResources extends HailoPcieResources where
  window_ge : 0x1000 ≤ fwAccess.size.toUInt32.toNat
  type_eq : hailoSetDeviceType boardType = some acceleratorType

/-- One call of `hailo_resource_write_buffer` and what it returned. -/
structure WriteCall where
  resource : HailoResource
  offset : Nat
  data : List UInt8
  ret : Int32

/-- The same calls on the device, and a record of the writes. -/
def recordOps {σ : Type} (ops : ResourceOps σ) : ResourceOps (σ × List WriteCall) where
  readBuffer := fun resource offset count dest s =>
    let (bytes, device) := ops.readBuffer resource offset count dest s.1
    (bytes, device, s.2)
  writeBuffer := fun resource offset data source s =>
    let (ret, device) := ops.writeBuffer resource offset data source s.1
    (ret, device, s.2 ++ [⟨resource, offset, data, ret⟩])

/-- A write of table 0 that was not read back, or a chunk of a mandatory file that was not. -/
def Broken (resources : HailoPcieResources) (isMandatory : Bool) (call : WriteCall) : Prop :=
  call.ret = -eio ∧ (call.resource = resources.config ∨ isMandatory = true)

/-- What `write_single_file` returns: an error of the file, or 0. -/
def fileError (resources : HailoPcieResources) (request : FirmwareStore)
    (fileInfo : HailoFileBatch) : Int32 :=
  match request fileInfo.filename with
  | .error err => err.val
  | .ok file =>
    if file.size > fileInfo.maxSize then -efbig
    else if fileInfo.hasHeader then
      match validateFwHeaders file.toFirmware ⟨some none, some none, some none⟩
          resources.boardType resources.acceleratorType with
      | none => 0
      | some (err, _) => err
    else 0

/-- A mandatory file that is missing, too big or no image. -/
def TurnedDown (resources : HailoPcieResources) (request : FirmwareStore)
    (fileInfo : HailoFileBatch) : Prop :=
  fileInfo.isMandatory = true ∧ fileError resources request fileInfo < 0

section
variable {σ : Type} (ops : ResourceOps σ) (resources : HailoPcieResources)
variable (request : FirmwareStore)

/-- A write breaks while the files are written, or while boot is triggered after them. -/
def BrokenWrite (stage : LoadingStages) : List HailoFileBatch → σ → Prop
  | [], s => ∃ s' calls,
      hailoTriggerFirmwareBoot (recordOps ops) resources stage (s, []) = .ok (s', calls) ∧
        ∃ call ∈ calls, Broken resources false call
  | fileInfo :: rest, s => ∃ err s' calls,
      writeSingleFile (recordOps ops) resources request fileInfo (s, []) = .ok (err, s', calls) ∧
        ((∃ call ∈ calls, Broken resources fileInfo.isMandatory call) ∨
          ¬ (err < 0 ∧ fileInfo.isMandatory = true) ∧ BrokenWrite stage rest s')

/-- When a write breaks the batch returns an error, and its last write is one of a file. -/
def ReportsBrokenWrites (stage : LoadingStages) (s : σ) : Prop :=
  BrokenWrite ops resources request stage
      (hailoPcieGetLoadingStageInfo resources.boardType stage).files s →
    ∃ err s', err < 0 ∧
      hailoPcieWriteFirmwareBatch (recordOps ops) resources request stage (s, []) =
        .ok (err, s') ∧
      writeFiles (recordOps ops) resources request
        (hailoPcieGetLoadingStageInfo resources.boardType stage).files (s, []) = .ok (err, s')

end

theorem nnc_of_hasCore {boardType : HailoBoardType} {acceleratorType : HailoAcceleratorType}
    (h : hailoSetDeviceType boardType = some acceleratorType) {stage : LoadingStages}
    {fileInfo : HailoFileBatch}
    (hmem : fileInfo ∈ (hailoPcieGetLoadingStageInfo boardType stage).files)
    (hcore : fileInfo.hasCore = true) : acceleratorType = .nnc := by
  have htable : ∀ boardType stage,
      ∀ fileInfo ∈ (hailoPcieGetLoadingStageInfo boardType stage).files,
        fileInfo.hasCore = true → hailoSetDeviceType boardType = some .nnc := by
    intro boardType stage
    cases boardType <;> cases stage <;> decide
  exact Option.some.inj (h.symm.trans (htable boardType stage fileInfo hmem hcore))

section
variable {σ : Type} (ops : ResourceOps σ) (resources : LoadableResources)

theorem hailoWriteAppFirmware_ok (file : LoadedFile) (fwHeader fwCert : Nat) (s : σ) :
    ∃ s', hailoWriteAppFirmware ops resources.toHailoPcieResources file fwHeader fwCert s =
      .ok s' := by
  have hwrite := writeMemory_ok ops resources.toHailoPcieResources resources.window_ge file.host
  obtain ⟨s₁, h₁⟩ := hwrite (compat resources.boardType).fwAddresses.bootFwHeader
    (file.address + fwHeader) firmwareHeaderSize s
  obtain ⟨s₂, h₂⟩ := hwrite (compat resources.boardType).fwAddresses.appFwCodeRamBase
    (file.address + fwHeader + 24) (wordIn file.data (fwHeader + 20)) s₁
  obtain ⟨s₃, h₃⟩ := hwrite (compat resources.boardType).fwAddresses.bootKeyCert
    (file.address + fwCert + 8) (wordIn file.data fwCert) s₂
  obtain ⟨s₄, h₄⟩ := hwrite (compat resources.boardType).fwAddresses.bootContCert
    (file.address + fwCert + 8 + (wordIn file.data fwCert).toNat)
    (wordIn file.data (fwCert + 4)) s₃
  refine ⟨s₄, ?_⟩
  rw [hailoWriteAppFirmware, h₁, ok_bind, h₂, ok_bind, h₃, ok_bind, h₄]

theorem hailoWriteCoreFirmware_ok (file : LoadedFile) (fwHeader : Nat) (s : σ) :
    ∃ s', hailoWriteCoreFirmware ops resources.toHailoPcieResources file fwHeader s = .ok s' := by
  have hwrite := writeMemory_ok ops resources.toHailoPcieResources resources.window_ge file.host
  obtain ⟨s₁, h₁⟩ := hwrite (compat resources.boardType).fwAddresses.coreCodeRamBase
    (file.address + fwHeader + 24) (wordIn file.data (fwHeader + 20)) s
  obtain ⟨s₂, h₂⟩ := hwrite (compat resources.boardType).fwAddresses.coreFwHeader
    (file.address + fwHeader) firmwareHeaderSize s₁
  refine ⟨s₂, ?_⟩
  rw [hailoWriteCoreFirmware, h₁, ok_bind, h₂]

theorem hailoTriggerFirmwareBoot_ok (stage : LoadingStages) (s : σ) :
    ∃ s', hailoTriggerFirmwareBoot ops resources.toHailoPcieResources stage s = .ok s' :=
  writeMemory_ok ops resources.toHailoPcieResources resources.window_ge _ _ 0 4 s

theorem writeImage_eq (resources : HailoPcieResources) (fileInfo : HailoFileBatch)
    (file : LoadedFile) (app cert : Nat) (core : Option Nat) (s : σ) :
    writeImage ops resources fileInfo file ⟨some (some app), some core, some (some cert)⟩ s =
      hailoWriteAppFirmware ops resources file app cert s >>= fun s =>
        if fileInfo.hasCore then
          followed (some core) >>= fun core => hailoWriteCoreFirmware ops resources file core s
        else .ok s := rfl

theorem writeImage_ok (file : LoadedFile) (fileInfo : HailoFileBatch) {parts : ImageParts}
    {magic : UInt32} (hparts : parts.WellFormed resources.boardType resources.acceleratorType magic)
    (hcore : fileInfo.hasCore = true → resources.acceleratorType = .nnc) (s : σ) :
    ∃ s', writeImage ops resources.toHailoPcieResources fileInfo file
      (OutParams.write ⟨some none, some none, some none⟩ parts.headers) s = .ok s' := by
  obtain ⟨middle, happ⟩ := hailoWriteAppFirmware_ok ops resources file 0
    (24 + parts.appCode.length) s
  cases hbool : fileInfo.hasCore with
  | false =>
    refine ⟨middle, ?_⟩
    change writeImage ops resources.toHailoPcieResources fileInfo file
      ⟨some (some 0), some _, some (some (24 + parts.appCode.length))⟩ s = .ok middle
    rw [writeImage_eq, happ, ok_bind, hbool]
    rfl
  | true =>
    have hisCore := hparts.core
    rw [hcore hbool] at hisCore
    obtain ⟨core, hsome⟩ : ∃ core, parts.core = some core := by
      cases hnone : parts.core with
      | none =>
        rw [hnone] at hisCore
        exact hisCore.elim
      | some core => exact ⟨core, rfl⟩
    obtain ⟨s', hlast⟩ := hailoWriteCoreFirmware_ok ops resources file
      (24 + parts.appCode.length + 8 + parts.key.length + parts.content.length) middle
    refine ⟨s', ?_⟩
    rw [ImageParts.headers, hsome]
    change writeImage ops resources.toHailoPcieResources fileInfo file
      ⟨some (some 0), some (some _), some (some (24 + parts.appCode.length))⟩ s = .ok s'
    rw [writeImage_eq, happ, ok_bind, hbool]
    exact hlast

theorem writeSingleFile_ok (request : FirmwareStore) {stage : LoadingStages}
    {fileInfo : HailoFileBatch}
    (hmem : fileInfo ∈ (hailoPcieGetLoadingStageInfo resources.boardType stage).files) (s : σ) :
    ∃ s', writeSingleFile ops resources.toHailoPcieResources request fileInfo s =
      .ok (fileError resources.toHailoPcieResources request fileInfo, s') := by
  rw [writeSingleFile, fileError]
  cases request fileInfo.filename with
  | error err => exact ⟨s, rfl⟩
  | ok file =>
    simp only
    split
    · exact ⟨s, rfl⟩
    split
    · rcases validateFwHeaders_cases file.toFirmware ⟨some none, some none, some none⟩
        resources.boardType resources.acceleratorType with ⟨parts, magic, hparts, _, hok⟩ | hfail
      · obtain ⟨s', hwrite⟩ := writeImage_ok ops resources file fileInfo hparts
          (nnc_of_hasCore resources.type_eq hmem) s
        have hzero : ¬ (0 : Int32) < 0 := by decide
        refine ⟨s', ?_⟩
        rw [hok]
        simp only [if_neg hzero]
        rw [hwrite, ok_bind]
      · have hneg : -einval < 0 := by decide
        refine ⟨s, ?_⟩
        rw [hfail]
        simp only [if_pos hneg]
    · obtain ⟨s', hwrite⟩ := writeMemory_ok ops resources.toHailoPcieResources resources.window_ge
        file.host fileInfo.address file.address file.size.toUInt32 s
      refine ⟨s', ?_⟩
      rw [hwrite, ok_bind]

/-- The loop ends, with an error if and only if it comes to a mandatory file that is turned
down. -/
theorem writeFiles_ok (request : FirmwareStore) {stage : LoadingStages}
    (files : List HailoFileBatch) :
    (∀ fileInfo ∈ files,
      fileInfo ∈ (hailoPcieGetLoadingStageInfo resources.boardType stage).files) → ∀ s : σ,
      ∃ err s', writeFiles ops resources.toHailoPcieResources request files s = .ok (err, s') ∧
        (err < 0 ↔ ∃ fileInfo ∈ files,
          TurnedDown resources.toHailoPcieResources request fileInfo) := by
  induction files with
  | nil =>
    intro _ s
    refine ⟨0, s, rfl, fun h => absurd h (by decide), ?_⟩
    rintro ⟨fileInfo, hmem, _⟩
    cases hmem
  | cons fileInfo rest ih =>
    intro hfiles s
    rw [List.forall_mem_cons] at hfiles
    obtain ⟨middle, hfirst⟩ := writeSingleFile_ok ops resources request hfiles.1 s
    by_cases hdown : TurnedDown resources.toHailoPcieResources request fileInfo
    · refine ⟨_, middle, ?_, fun _ => ⟨fileInfo, List.mem_cons_self .., hdown⟩, fun _ => hdown.2⟩
      rw [writeFiles, hfirst, ok_bind]
      exact if_pos ⟨hdown.2, hdown.1⟩
    · obtain ⟨err, s', hrest, hiff⟩ := ih hfiles.2 middle
      refine ⟨err, s', ?_, ?_⟩
      · rw [writeFiles, hfirst, ok_bind]
        exact (if_neg fun h => hdown ⟨h.2, h.1⟩).trans hrest
      · rw [hiff]
        constructor
        · rintro ⟨other, hmem, hother⟩
          exact ⟨other, List.mem_cons_of_mem _ hmem, hother⟩
        · rintro ⟨other, hmem, hother⟩
          rcases List.mem_cons.mp hmem with rfl | hmem
          · exact absurd hother hdown
          · exact ⟨other, hmem, hother⟩

theorem hailoPcieWriteFirmwareBatch_ok (request : FirmwareStore) (stage : LoadingStages) (s : σ) :
    ∃ err s', hailoPcieWriteFirmwareBatch ops resources.toHailoPcieResources request stage s =
        .ok (err, s') ∧
      (err < 0 ↔
        ∃ fileInfo ∈ (hailoPcieGetLoadingStageInfo resources.boardType stage).files,
          TurnedDown resources.toHailoPcieResources request fileInfo) ∧
      (err < 0 → writeFiles ops resources.toHailoPcieResources request
        (hailoPcieGetLoadingStageInfo resources.boardType stage).files s = .ok (err, s')) := by
  obtain ⟨err, middle, hfiles, hiff⟩ := writeFiles_ok ops resources request
    (hailoPcieGetLoadingStageInfo resources.boardType stage).files (fun _ hmem => hmem) s
  rw [hailoPcieWriteFirmwareBatch, hfiles, ok_bind]
  by_cases herr : err < 0
  · exact ⟨err, middle, if_pos herr, hiff, fun _ => rfl⟩
  · obtain ⟨s', htrigger⟩ := hailoTriggerFirmwareBoot_ok ops resources stage middle
    have hzero : ¬ (0 : Int32) < 0 := by decide
    refine ⟨0, s', ?_, ⟨fun h => absurd h hzero, fun h => absurd (hiff.mpr h) herr⟩,
      fun h => absurd h hzero⟩
    simp only [if_neg herr]
    rw [htrigger, ok_bind]

/-- On every device and for every file system: a broken write is reported if and only if there
is none, or a mandatory file is turned down for a reason of its own. -/
theorem reportsBrokenWrites_iff (request : FirmwareStore) (stage : LoadingStages) (s : σ) :
    ReportsBrokenWrites ops resources.toHailoPcieResources request stage s ↔
      ¬ BrokenWrite ops resources.toHailoPcieResources request stage
          (hailoPcieGetLoadingStageInfo resources.boardType stage).files s ∨
        ∃ fileInfo ∈ (hailoPcieGetLoadingStageInfo resources.boardType stage).files,
          TurnedDown resources.toHailoPcieResources request fileInfo := by
  obtain ⟨err, s', hbatch, hiff, hfiles⟩ :=
    hailoPcieWriteFirmwareBatch_ok (recordOps ops) resources request stage (s, [])
  rw [← hiff]
  constructor
  · intro hreports
    by_cases hbroken : BrokenWrite ops resources.toHailoPcieResources request stage
        (hailoPcieGetLoadingStageInfo resources.boardType stage).files s
    · obtain ⟨err', s'', hneg, hbatch', _⟩ := hreports hbroken
      have heq := Except.ok.inj (hbatch.symm.trans hbatch')
      rw [Prod.mk.injEq] at heq
      exact .inr (heq.1 ▸ hneg)
    · exact .inl hbroken
  · rintro (hnot | hneg)
    · exact fun hbroken => absurd hbroken hnot
    · exact fun _ => ⟨err, s', hneg, hbatch, hfiles hneg⟩

end

/-- The last call of every `write_memory` puts table 0 back. -/
theorem writeMemory_records {σ : Type} (ops : ResourceOps σ) (resources : HailoPcieResources)
    {host : Nat → UInt8} {dest : UInt64} {src : Nat} {len : UInt32} {s s' : σ × List WriteCall}
    (h : writeMemory (recordOps ops) resources host dest src len s = .ok s') :
    ∃ (calls : List WriteCall) (trslAddr : UInt64) (device : σ),
      s'.2 = calls ++ [⟨resources.config, 0x700, atrBytes trslAddr,
        (ops.writeBuffer resources.config 0x700 (atrBytes trslAddr) 0 device).1⟩] := by
  rw [writeMemory] at h
  obtain ⟨⟨atr, s₁⟩, _, h⟩ := bind_ok h
  obtain ⟨⟨offset, s₂⟩, _, h⟩ := bind_ok h
  obtain ⟨s₃, _, h⟩ := bind_ok h
  obtain ⟨⟨ret, s₄⟩, hrestore, h⟩ := bind_ok h
  rw [← Except.ok.inj h]
  have hparam : atrParam ||| ((0 : UInt32) <<< 12) = atrParam := by decide
  rw [restoreAtrTable, hailoPcieConfigureAtrTable, if_neg (by decide), hparam] at hrestore
  have heq := Except.ok.inj hrestore
  rw [Prod.mk.injEq] at heq
  refine ⟨s₃.2, (atr.atrTrslAddr2.toUInt64 <<< 32) ||| atr.atrTrslAddr1.toUInt64, s₃.1, ?_⟩
  rw [← heq.2]
  rfl

/-- Without a link every read is all ones and no write arrives. -/
def deadLink : Mmio Unit where
  ioread32 := fun _ s => (0xFFFFFFFF, s)
  iowrite32 := fun _ _ s => s

theorem deadLink_atrWrite (resource : HailoResource) (haligned : resource.address % 4 = 0)
    (trslAddr : UInt64) (s : Unit) :
    (hailoResourceWriteBuffer deadLink resource 0x700 (atrBytes trslAddr) 0 s).1 = -eio := by
  have hboth : ¬ ((resource.address + 0x700) % 4 ≠ 0 ∨ 0 % 4 ≠ 0) := by omega
  change (if (resource.address + 0x700) % 4 ≠ 0 ∨ 0 % 4 ≠ 0 then _
    else writeWords deadLink resource (atrBytes trslAddr) 0x700 s).1 = _
  rw [if_neg hboth]
  change (writeWords deadLink resource (_ :: _ :: _ :: _ :: _) 0x700 s).1 = _
  have hne : (0xFFFFFFFF : UInt32) ≠ wordIn (wordBytes atrParam) 0 := by decide
  rw [writeWords]
  exact congrArg Prod.fst (if_pos hne)

/-- The writes of the boot trigger break too. -/
theorem deadLink_trigger (resources : LoadableResources)
    (haligned : resources.config.address % 4 = 0) (request : FirmwareStore)
    (stage : LoadingStages) :
    BrokenWrite (hailoResourceOps deadLink) resources.toHailoPcieResources request stage [] () := by
  obtain ⟨⟨s', calls⟩, htrigger⟩ := hailoTriggerFirmwareBoot_ok
    (recordOps (hailoResourceOps deadLink)) resources stage ((), [])
  obtain ⟨before, trslAddr, device, hcalls⟩ := writeMemory_records _ _ htrigger
  change calls = _ at hcalls
  refine ⟨s', calls, htrigger, ⟨resources.config, 0x700, atrBytes trslAddr, _⟩, ?_,
    deadLink_atrWrite resources.config haligned trslAddr device, .inl rfl⟩
  rw [hcalls]
  exact List.mem_append_right _ (List.mem_singleton_self _)

/-- And no file that is there keeps the batch from going on to them. -/
theorem brokenWrite_of_trigger {σ : Type} (ops : ResourceOps σ) (resources : LoadableResources)
    (request : FirmwareStore) {stage : LoadingStages} (files : List HailoFileBatch)
    (htrigger : ∀ s, BrokenWrite ops resources.toHailoPcieResources request stage [] s) :
    (∀ fileInfo ∈ files,
      fileInfo ∈ (hailoPcieGetLoadingStageInfo resources.boardType stage).files ∧
        ¬ TurnedDown resources.toHailoPcieResources request fileInfo) → ∀ s : σ,
      BrokenWrite ops resources.toHailoPcieResources request stage files s := by
  induction files with
  | nil => exact fun _ s => htrigger s
  | cons fileInfo rest ih =>
    intro hfiles s
    rw [List.forall_mem_cons] at hfiles
    obtain ⟨⟨middle, calls⟩, hfirst⟩ :=
      writeSingleFile_ok (recordOps ops) resources request hfiles.1.1 (s, [])
    exact ⟨_, middle, calls, hfirst, .inr ⟨fun h => hfiles.1.2 ⟨h.2, h.1⟩, ih hfiles.2 middle⟩⟩

/-- A Hailo-8 with its BARs at the first pages. -/
def hailo8Resources : LoadableResources where
  config := ⟨0, 0x1000⟩
  fwAccess := ⟨0x1000, 0x4000⟩
  boardType := .hailo8
  acceleratorType := .nnc
  window_ge := by decide
  type_eq := rfl

def noSuchFile : RequestError := ⟨-2, by decide⟩

/-- A file system with the Hailo-8 firmware and nothing else. -/
def onlyHailo8Fw (file : LoadedFile) : FirmwareStore := fun filename =>
  if filename = some "hailo/hailo8_fw.bin" then .ok file else .error noSuchFile

/-- A Hailo-8 image of the format at an aligned address. -/
def hailo8File (key content : List UInt8) (hlen : key.length + content.length ≤ 0x2000) :
    LoadedFile where
  data := (packHailo8 key content).bytes
  length_lt := by
    rw [length_packHailo8]
    omega
  address := 0

theorem not_turnedDown_hailo8 {key content : List UInt8} (hkey : key.length ≤ 0x1000)
    (hcontent : content.length ≤ 0x1000) :
    ∀ fileInfo ∈ (hailoPcieGetLoadingStageInfo .hailo8 .firstStage).files,
      ¬ TurnedDown hailo8Resources.toHailoPcieResources
        (onlyHailo8Fw (hailo8File key content (Nat.add_le_add hkey hcontent))) fileInfo := by
  have hsize : ¬ (hailo8File key content (Nat.add_le_add hkey hcontent)).size >
      (0x50000 : UInt64) := by
    rw [gt_iff_lt, UInt64.lt_iff_toNat_lt, Firmware.toNat_size]
    have hlen := length_packHailo8 key content
    have hmax : (0x50000 : UInt64).toNat = 0x50000 := rfl
    change ¬ 0x50000 < (packHailo8 key content).bytes.length
    omega
  have hok : validateFwHeaders (hailo8File key content (Nat.add_le_add hkey hcontent)).toFirmware
      ⟨some none, some none, some none⟩ .hailo8 .nnc =
      some (0, OutParams.write ⟨some none, some none, some none⟩
        (packHailo8 key content).headers) := by
    rw [validateFwHeaders, findHeaders_ok (packHailo8_wellFormed hkey hcontent) rfl]
  intro fileInfo hmem hdown
  change fileInfo ∈ hailo8FilesStg1.take 3 at hmem
  simp only [hailo8FilesStg1, List.take_succ_cons, List.take_zero, List.mem_cons,
    List.not_mem_nil, or_false] at hmem
  rcases hmem with rfl | rfl | rfl
  · have herr := hdown.2
    change (if (hailo8File key content (Nat.add_le_add hkey hcontent)).size > 0x50000 then -efbig
      else match validateFwHeaders
          (hailo8File key content (Nat.add_le_add hkey hcontent)).toFirmware
          ⟨some none, some none, some none⟩ .hailo8 .nnc with
        | none => 0
        | some (err, _) => err) < 0 at herr
    have hzero : ¬ (0 : Int32) < 0 := by decide
    rw [if_neg hsize, hok] at herr
    exact hzero herr
  · exact absurd hdown.1 (by decide)
  · exact absurd hdown.1 (by decide)

/-- With the link gone the batch of a Hailo-8 with its firmware still returns 0. -/
theorem deadLink_notReported :
    ¬ ReportsBrokenWrites (hailoResourceOps deadLink) hailo8Resources.toHailoPcieResources
      (onlyHailo8Fw (hailo8File [] [] (by decide))) .firstStage () := by
  intro hreports
  have hempty : ([] : List UInt8).length ≤ 0x1000 := by decide
  have hup := not_turnedDown_hailo8 hempty hempty
  obtain ⟨err, s', hneg, hbatch, _⟩ := hreports (brokenWrite_of_trigger _ hailo8Resources _ _
    (fun _ => deadLink_trigger hailo8Resources (by decide) _ .firstStage)
    (fun fileInfo hmem => ⟨hmem, hup fileInfo hmem⟩) ())
  obtain ⟨err', s'', hbatch', hiff, _⟩ := hailoPcieWriteFirmwareBatch_ok
    (recordOps (hailoResourceOps deadLink)) hailo8Resources
    (onlyHailo8Fw (hailo8File [] [] (by decide))) .firstStage ((), [])
  have heq := Except.ok.inj (hbatch.symm.trans hbatch')
  rw [Prod.mk.injEq] at heq
  obtain ⟨fileInfo, hmem, hdown⟩ := hiff.mp (heq.1 ▸ hneg)
  exact hup fileInfo hmem hdown

end HailortDrivers.BrokenWrites

