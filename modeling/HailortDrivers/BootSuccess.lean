import HailortDrivers.BootBatch

/-!
When a batch is programmed: the files are found, they fit in the channels and the channels have
their memory. A round then always goes on, and no file takes more rounds than it has bytes.
-/
namespace HailortDrivers.BootSuccess
open KernelExec MachineWord VdmaTypes DescriptorProgramming SegmentSlicing PagePacking
open ProgrammedPages BoundBuffers ScatterGatherCoverage FirmwareLoading BootProgramming
open BootDescriptors BootRounds BootBatch

/-- The memory of a channel is as large as its descriptors need. -/
structure ChannelRoom (channel : HailoPcieBootDmaChannelState) : Prop where
  table : 65535 * 512 ≤ totalLen (segments channel.sgTable.sgl)
  buffer : 65535 * 512 ≤ channel.buffer.size

section Descriptors
variable {channel : HailoPcieBootDmaChannelState} {fileAddress : UInt32}
  {transferBuffer : HailoVdmaMappedTransferBuffer} {channelIndex : UInt8} {raiseInt : Bool}

theorem bind_total {l : HailoVdmaDescriptorsList} {startingDesc : UInt32} (hl : BootList l)
    (hsgl : WholePages transferBuffer.sgTable.sgl)
    (hoffset : transferBuffer.offset.toNat = startingDesc.toNat * 512)
    (hsize : 0 < transferBuffer.size.toNat)
    (hroom : startingDesc.toNat * 512 + transferBuffer.size.toNat ≤ 65535 * 512)
    (htable : 65535 * 512 ≤ totalLen (segments transferBuffer.sgTable.sgl)) :
    ∃ n l', bindAndProgramDescriptorsList hailoPcieVdmaHw l startingDesc transferBuffer
        channelIndex (if raiseInt then hailoVdmaInterruptsDomainHost
          else hailoVdmaInterruptsDomainNone) false defaultStride = .ok (n, l') ∧
      0 ≤ n.toInt := by
  have hpage := hl.descPageSize
  have hcount := hl.descCount
  have hP : 0 < l.descPageSize.toNat := by omega
  have hdvd : l.descPageSize.toNat ∣ transferBuffer.offset.toNat := by
    rw [hpage, hoffset]
    exact Nat.dvd_mul_left 512 _
  have hcov : totalLen (boundSegments transferBuffer) = transferBuffer.size.toNat := by
    rw [totalLen_boundSegments]
    omega
  have hneeded : descsNeeded l transferBuffer = transferBuffer.size.toNat ⌈/⌉ 512 := by
    rw [BufferPages.descsNeeded_aligned hP hsize
      (by rw [hpage]; exact segments_aligned hsgl.length) hdvd hcov, hpage]
  have hle : transferBuffer.size.toNat ⌈/⌉ 512 ≤ 65535 - startingDesc.toNat := by
    rw [ceilDiv_le_iff_le_mul (by decide)]
    omega
  have hcircular : l.isCircular = false := by
    rw [hl.eq]
  refine bind_of_fits hl.wellFormed hP hsize (by omega) (by omega) ⟨hdvd, by omega, by omega, ?_⟩
  rw [hcircular, hneeded, if_neg (by decide)]
  omega

theorem oneFileDescriptors_total (hready : ChannelReady channel)
    (hsgl : transferBuffer.sgTable = channel.sgTable)
    (hoffset : transferBuffer.offset.toNat = channel.descProgramNum.toNat * 512)
    (hsize : 0 < transferBuffer.size.toNat)
    (hroom : channel.descProgramNum.toNat * 512 + transferBuffer.size.toNat ≤ 65535 * 512)
    (htable : 65535 * 512 ≤ totalLen (segments channel.sgTable.sgl)) :
    ∃ ret channel', pcieVdmaProgramOneFileDescriptors channel fileAddress transferBuffer
      channelIndex raiseInt = .ok (ret, channel') ∧ ¬ ret < 0 := by
  have hlt := fileAddress.toNat_lt
  have haddress : fileAddress.toUInt64.toNat = fileAddress.toNat := UInt32.toNat_toUInt64 _
  have hpage : channel.deviceDescriptorsBuffer.descPageSize.toUInt32 ≠ 0 :=
    toNat_pos_iff.mp (by rw [UInt16.toNat_toUInt32, hready.device.descPageSize]; decide)
  obtain ⟨deviceDesc, descs, hdevice⟩ := hailoVdmaProgramDescriptorsInChunk_noFault hpage
    fileAddress.toUInt64 transferBuffer.size channel.descProgramNum
    (channel.deviceDescriptorsBuffer.descCount - 1) hailoPciEpHostDmaDataId defaultStride 0
  obtain ⟨hdeviceDesc, -⟩ := inChunk_deviceChunk hready.device (by omega) hsize
    hroom hdevice
  obtain ⟨hostDesc, hostList, hhost, hnonneg⟩ : ∃ n l', bindAndProgramDescriptorsList
      hailoPcieVdmaHw channel.hostDescriptorsBuffer channel.descProgramNum transferBuffer
      channelIndex (if raiseInt then hailoVdmaInterruptsDomainHost
        else hailoVdmaInterruptsDomainNone) false defaultStride = .ok (n, l') ∧ 0 ≤ n.toInt :=
    bind_total hready.host (by rw [hsgl]; exact hready.pages) hoffset hsize hroom
      (by rwa [hsgl])
  obtain ⟨hhostDesc, -⟩ := bind_hostChunk hready.host (by rw [hsgl]; exact hready.pages)
    hoffset hsize hroom hnonneg hhost
  have hsame : hostDesc = deviceDesc := Int32.toInt_inj.mp (hhostDesc.trans hdeviceDesc.symm)
  have hret : ¬ hostDesc < 0 := by
    rw [Int32.lt_iff_toInt_lt, not_lt]
    exact hnonneg
  subst hsame
  have hlist : hailoVdmaProgramDescriptorsList hailoPcieVdmaHw channel.hostDescriptorsBuffer
      channel.descProgramNum transferBuffer true channelIndex
      (if raiseInt then hailoVdmaInterruptsDomainHost else hailoVdmaInterruptsDomainNone) false
      defaultStride = .ok (hostDesc, hostList) := hhost
  refine ⟨hostDesc, { channel with
    deviceDescriptorsBuffer := channel.deviceDescriptorsBuffer.withDescs descs
    hostDescriptorsBuffer := hostList }, ?_, hret⟩
  simp only [pcieVdmaProgramOneFileDescriptors, hdevice, ok_bind, hlist, if_neg hret, ne_eq,
    not_true, if_false]
  rfl

end Descriptors

section Rounds
variable {addressOf : Nat → Nat} {s₀ : BootState} {ps : List Page} {file i : Nat}
  {fileAddress : UInt32} {raiseInt : Bool} {c : FileCursor}

/-- With the memory there, a round goes on. -/
theorem programRound_total (hspace : ∀ c < 8, ChannelRoom (s₀.channels c))
    (h : Programmed addressOf s₀ ps false c.boot) (hlt : ps.length < 8 * 65535)
    (hremaining : 0 < c.remainingSize) :
    ∃ c', programRound file fileAddress raiseInt c = .ok (.next c') := by
  have hat := h.roundAt hlt
  have hready := h.ready _ hat.current
  have hmemory := hspace _ hat.current
  have hbuffer := hmemory.buffer
  have htable := hmemory.table
  rw [← h.bufferSize _ hat.current] at hbuffer
  rw [← h.sgTable _ hat.current] at htable
  have hroom := hat.room
  have hcopied : roundBytes ps.length c.remainingSize =
      (sgPcopyFromBuffer (c.boot.channels (ps.length / 65535)).buffer file c.dataOffset
        (roundBytes ps.length c.remainingSize) (ps.length % 65535 * 512)).1 := by
    simp only [sgPcopyFromBuffer]
    omega
  have hcount : (copyIn (c.boot.channels (ps.length / 65535)) file c.dataOffset
      (roundBytes ps.length c.remainingSize) (ps.length % 65535 * 512)).descProgramNum.toNat =
      ps.length % 65535 := hat.count
  rw [hat.programRound_eq hcopied]
  obtain ⟨ret, channel, hdescs, hret⟩ : ∃ ret channel, pcieVdmaProgramOneFileDescriptors
      (copyIn (c.boot.channels (ps.length / 65535)) file c.dataOffset
        (roundBytes ps.length c.remainingSize) (ps.length % 65535 * 512))
      (UInt32.ofNat (fileAddress.toNat + c.dataOffset))
      (transferBufferOf (c.boot.channels (ps.length / 65535)) c.remainingSize)
      (selectChannel c.boot).currChannelIndex
      (decide (65535 = roundBytes ps.length c.remainingSize / 512 + ps.length % 65535) ||
        (raiseInt && decide (c.remainingSize = roundBytes ps.length c.remainingSize))) =
      .ok (ret, channel) ∧ ¬ ret < 0 :=
    oneFileDescriptors_total (hready.copyIn _ _ _ _) rfl (by rw [hat.offset, hcount])
      (by rw [hat.size]; exact roundBytes_pos hremaining)
      (by rw [hat.size, hcount]; exact hroom)
      htable
  rw [hdescs, ok_bind]
  simp only [if_neg hret]
  exact ⟨_, rfl⟩

theorem programRounds_total (hspace : ∀ c < 8, ChannelRoom (s₀.channels c))
    (haddr : addressOf file = fileAddress.toNat)
    {rounds : Nat} (hrounds : c.remainingSize ≤ rounds) (h : CursorAt addressOf s₀ i ps c) :
    ∃ c', programRounds file fileAddress raiseInt rounds c = .ok (some (.next c')) := by
  have hremaining := h.remaining
  induction rounds generalizing i ps c with
  | zero => omega
  | succ rounds ih =>
    obtain ⟨c₁, hround⟩ : ∃ c₁, programRound file fileAddress raiseInt c = .ok (.next c₁) :=
      programRound_total hspace h.programmed h.length_lt h.remaining
    rw [programRounds_succ (by omega), hround, ok_bind]
    obtain ⟨-, ⟨hend, -⟩ | ⟨m, hm, hsplit, hcursor⟩⟩ := h.round haddr hround
    · exact ⟨c₁, programRounds_done hend⟩
    · exact ih (by omega) hcursor hcursor.remaining

end Rounds

section Files
variable {addressOf : Nat → Nat} {request : FirmwareStore} {s₀ : BootState} {rounds : Nat}

/-- Every file is found, and takes no more than `rounds` rounds. -/
def Loads (request : FirmwareStore) (rounds : Nat) (files : List HailoFileBatch) : Prop :=
  ∀ fileInfo ∈ files, ∃ firmware, request fileInfo.filename = .ok firmware ∧
    firmware.size.toNat ≤ rounds

theorem pcieVdmaProgramOneFile_total (hspace : ∀ c < 8, ChannelRoom (s₀.channels c)) {file : Nat}
    {fileInfo : HailoFileBatch} {raiseInt : Bool} {ps : List Page} {boot : BootState}
    (hfiles : NonemptyFiles request [fileInfo]) (hloads : Loads request rounds [fileInfo])
    (haddr : addressOf file = fileInfo.address.toNat)
    (h : Programmed addressOf s₀ ps false boot)
    (hroom : ps.length + descsOf (fileSizes request [fileInfo]) ≤ 8 * 65535) :
    ∃ ret boot', pcieVdmaProgramOneFile request rounds file fileInfo raiseInt boot =
      .ok (some (ret, boot')) ∧ ¬ ret < 0 := by
  have hmem : fileInfo ∈ [fileInfo] := List.mem_singleton.mpr rfl
  obtain ⟨firmware, hload, hrounds⟩ := hloads _ hmem
  have hsizes : fileSizes request [fileInfo] = [firmware.size.toNat] := by
    simp only [fileSizes, List.map_cons, List.map_nil, hload]
  rw [hsizes, descsOf, List.map_singleton, List.sum_singleton] at hroom
  have hcursor : CursorAt addressOf s₀ 0 ps ⟨firmware.size.toNat, 0, 0, boot⟩ :=
    ⟨h, hfiles.nonempty _ hmem _ hload, (Nat.zero_mul 512).symm, hroom⟩
  obtain ⟨c, hrun⟩ : ∃ c, programRounds file fileInfo.address raiseInt rounds
      ⟨firmware.size.toNat, 0, 0, boot⟩ = .ok (some (.next c)) :=
    programRounds_total hspace haddr hrounds hcursor
  refine ⟨c.descProgrammed, c.boot, ?_,
    (programRounds_next haddr hcursor hrun).2⟩
  simp only [pcieVdmaProgramOneFile, hload, hrun, ok_bind]
  rfl

theorem programFiles_total (hspace : ∀ c < 8, ChannelRoom (s₀.channels c)) {file : Nat}
    {files : List HailoFileBatch} {ps : List Page} {boot : BootState}
    (hfiles : NonemptyFiles request files) (hloads : Loads request rounds files)
    (haddr : ∀ j, ∀ h : j < files.length, addressOf (file + j) = files[j].address.toNat)
    (h : Programmed addressOf s₀ ps false boot)
    (hroom : ps.length + descsOf (fileSizes request files) ≤ 8 * 65535) :
    ∃ boot', programFiles request rounds file files boot = .ok (some (0, boot')) := by
  induction files generalizing file ps boot with
  | nil => exact ⟨boot, rfl⟩
  | cons fileInfo rest ih =>
    have hsum : descsOf (fileSizes request (fileInfo :: rest)) =
        descsOf (fileSizes request [fileInfo]) + descsOf (fileSizes request rest) := by
      rw [fileSizes_cons, descsOf, List.map_append, List.sum_append]
      rfl
    have hfirst : Loads request rounds [fileInfo] := fun f hf => by
      rw [List.mem_singleton.mp hf]
      exact hloads _ List.mem_cons_self
    obtain ⟨ret, boot₁, hfile, hret⟩ : ∃ ret boot₁, pcieVdmaProgramOneFile request rounds file
        fileInfo rest.isEmpty boot = .ok (some (ret, boot₁)) ∧ ¬ ret < 0 :=
      pcieVdmaProgramOneFile_total hspace hfiles.head hfirst (haddr 0 (Nat.succ_pos _)) h
        (by omega)
    have hdone := pcieVdmaProgramOneFile_nonneg hfiles.head (haddr 0 (Nat.succ_pos _)) h
      (by omega) hfile hret
    rw [programFiles, if_neg (hfiles.named _ List.mem_cons_self), hfile, ok_bind]
    simp only [if_neg hret]
    cases rest with
    | nil => exact ⟨boot₁, rfl⟩
    | cons next rest =>
      refine ih hfiles.tail (fun f hf => hloads f (List.mem_cons_of_mem _ hf)) (fun j hj => ?_)
        hdone ?_
      · rw [Nat.add_right_comm, Nat.add_assoc]
        exact haddr (j + 1) (Nat.succ_lt_succ hj)
      · rw [List.length_append, length_pagesFrom, Nat.add_assoc]
        rw [hsum] at hroom
        exact hroom

end Files

end HailortDrivers.BootSuccess
