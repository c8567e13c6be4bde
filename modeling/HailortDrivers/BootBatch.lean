import HailortDrivers.BootRounds

/-!
A batch of boot files, file after file and round after round: when it is programmed, the
channels hold the pages of all of its files, packed without a gap.
-/
namespace HailortDrivers.BootBatch
open KernelExec VdmaTypes PagePacking ProgrammedPages FirmwareLoading BootProgramming BootRounds

/-- How many bytes each file of a batch has. -/
def fileSizes (request : FirmwareStore) (files : List HailoFileBatch) : List Nat :=
  files.map fun fileInfo =>
    match request fileInfo.filename with
    | .ok firmware => firmware.size.toNat
    | .error _ => 0

/-- The device address of each file of a batch. -/
def fileAddress (files : List HailoFileBatch) (file : Nat) : Nat :=
  match files[file]? with
  | some fileInfo => fileInfo.address.toNat
  | none => 0

/-- The descriptors that files of these sizes take. -/
def descsOf (sizes : List Nat) : Nat := (sizes.map (· ⌈/⌉ 512)).sum

/-- Every entry names a file, and no file that is found is empty. -/
structure NonemptyFiles (request : FirmwareStore) (files : List HailoFileBatch) : Prop where
  named : ∀ fileInfo ∈ files, fileInfo.filename ≠ none
  nonempty : ∀ fileInfo ∈ files, ∀ firmware, request fileInfo.filename = .ok firmware →
    0 < firmware.size.toNat

/-- Files that go to device addresses of 64-byte granules. -/
structure BootFiles (request : FirmwareStore) (files : List HailoFileBatch) : Prop extends
    NonemptyFiles request files where
  aligned : ∀ fileInfo ∈ files, 64 ∣ fileInfo.address.toNat

section Rounds
variable {addressOf : Nat → Nat} {s₀ : BootState} {file : Nat} {fileAddress : UInt32}
  {raiseInt : Bool}

theorem programRounds_done {rounds : Nat} {c : FileCursor} (h : c.remainingSize = 0) :
    programRounds file fileAddress raiseInt rounds c = .ok (some (.next c)) := by
  cases rounds with
  | zero => rw [programRounds, if_pos h]
  | succ rounds => rw [programRounds, if_pos h]

theorem programRounds_none {c : FileCursor} (h : c.remainingSize ≠ 0) :
    programRounds file fileAddress raiseInt 0 c = .ok none := by
  rw [programRounds, if_neg h]

theorem programRounds_succ {rounds : Nat} {c : FileCursor} (h : c.remainingSize ≠ 0) :
    programRounds file fileAddress raiseInt (rounds + 1) c = (do
      match ← programRound file fileAddress raiseInt c with
      | .failed err boot => return some (.failed err boot)
      | .next c => programRounds file fileAddress raiseInt rounds c) :=
  if_neg h

/-- The loop variables between two rounds: what the pages `ps` hold, and that the file goes on
at its page `i`. -/
structure CursorAt (addressOf : Nat → Nat) (s₀ : BootState) (i : Nat) (ps : List Page)
    (c : FileCursor) : Prop where
  programmed : Programmed addressOf s₀ ps false c.boot
  remaining : 0 < c.remainingSize
  offset : c.dataOffset = i * 512
  room : ps.length + c.remainingSize ⌈/⌉ 512 ≤ 8 * 65535

theorem CursorAt.length_lt {i : Nat} {ps : List Page} {c : FileCursor}
    (h : CursorAt addressOf s₀ i ps c) : ps.length < 8 * 65535 := by
  have hn : 0 < c.remainingSize ⌈/⌉ 512 := ceilDiv_pos (by decide) h.remaining
  have hroom := h.room
  omega

/-- A round ends the file, or it takes whole pages and fills a channel. -/
theorem CursorAt.round (haddr : addressOf file = fileAddress.toNat)
    {i : Nat} {ps : List Page} {c c' : FileCursor}
    (h : CursorAt addressOf s₀ i ps c)
    (hround : programRound file fileAddress raiseInt c = .ok (.next c')) :
    ¬ c'.descProgrammed < 0 ∧
      ((c'.remainingSize = 0 ∧
          Programmed addressOf s₀ (ps ++ pageRun 512 file i c.remainingSize) raiseInt c'.boot) ∨
        ∃ m, 0 < m ∧ c.remainingSize = m * 512 + c'.remainingSize ∧
          CursorAt addressOf s₀ (i + m) (ps ++ pageRun 512 file i (m * 512)) c') := by
  have hlt := h.length_lt
  obtain ⟨hrest, hnext, hret, hadd⟩ :=
    programRound_next h.programmed haddr h.remaining h.offset hlt hround
  have hdone := hadd.programmed h.programmed hlt (roundBytes_pos h.remaining)
    (roundBytes_fit _ _)
  refine ⟨hret, ?_⟩
  by_cases hlast : c.remainingSize = roundBytes ps.length c.remainingSize
  · rw [← hlast, decide_eq_true rfl, Bool.and_true] at hdone
    exact Or.inl ⟨by omega, hdone⟩
  · have hless : (65535 - ps.length % 65535) * 512 < c.remainingSize := by
      rw [roundBytes] at hlast
      omega
    have hwhole : roundBytes ps.length c.remainingSize = (65535 - ps.length % 65535) * 512 :=
      Nat.min_eq_right hless.le
    rw [hwhole] at hrest hnext
    rw [decide_eq_false hlast, Bool.and_false, hwhole] at hdone
    have hsplit : c.remainingSize = (65535 - ps.length % 65535) * 512 + c'.remainingSize := by
      omega
    refine Or.inr ⟨65535 - ps.length % 65535, by omega, hsplit, hdone, by omega, ?_, ?_⟩
    · rw [hnext, h.offset, Nat.add_mul]
    · rw [List.length_append, length_pageRun, mul_ceilDiv_self (by decide), Nat.add_assoc,
        ← ceilDiv_mul_add (by decide), ← hsplit]
      exact h.room

/-- The loop over a file programs the pages of all that remained of it. -/
theorem programRounds_next (haddr : addressOf file = fileAddress.toNat)
    {rounds i : Nat} {ps : List Page} {c c' : FileCursor}
    (h : CursorAt addressOf s₀ i ps c)
    (hrun : programRounds file fileAddress raiseInt rounds c = .ok (some (.next c'))) :
    Programmed addressOf s₀ (ps ++ pageRun 512 file i c.remainingSize) raiseInt c'.boot ∧
      ¬ c'.descProgrammed < 0 := by
  have hremaining := h.remaining
  induction rounds generalizing i ps c with
  | zero =>
    rw [programRounds_none (by omega)] at hrun
    cases hrun
  | succ rounds ih =>
    rw [programRounds_succ (by omega)] at hrun
    obtain ⟨exit, hround, hrun⟩ := bind_ok hrun
    cases exit with
    | failed err boot => cases hrun
    | next c₁ =>
      obtain ⟨hret, ⟨hend, hdone⟩ | ⟨m, -, hsplit, hcursor⟩⟩ := h.round haddr hround
      · simp only at hrun
        rw [programRounds_done hend] at hrun
        cases hrun
        exact ⟨hdone, hret⟩
      · have hall := ih hcursor hrun hcursor.remaining
        rwa [List.append_assoc, ← pageRun_append (by decide), ← hsplit] at hall

theorem programRounds_failed {rounds : Nat} {c : FileCursor} {err : Int32} {boot : BootState}
    (h : programRounds file fileAddress raiseInt rounds c = .ok (some (.failed err boot))) :
    err < 0 := by
  induction rounds generalizing c with
  | zero =>
    by_cases hdone : c.remainingSize = 0
    · rw [programRounds_done hdone] at h
      cases h
    · rw [programRounds_none hdone] at h
      cases h
  | succ rounds ih =>
    by_cases hdone : c.remainingSize = 0
    · rw [programRounds_done hdone] at h
      cases h
    · rw [programRounds_succ hdone] at h
      obtain ⟨exit, hround, h⟩ := bind_ok h
      cases exit with
      | failed err' boot' =>
        cases h
        exact programRound_failed hround
      | next c₁ => exact ih h

end Rounds

section Files
variable {addressOf : Nat → Nat} {request : FirmwareStore} {s₀ : BootState}

/-- A file that was programmed without an error is there as a whole. -/
theorem pcieVdmaProgramOneFile_nonneg {rounds file : Nat} {fileInfo : HailoFileBatch}
    {raiseInt : Bool} {ps : List Page} {boot boot' : BootState} {ret : Int32}
    (hfiles : NonemptyFiles request [fileInfo]) (haddr : addressOf file = fileInfo.address.toNat)
    (h : Programmed addressOf s₀ ps false boot)
    (hroom : ps.length + descsOf (fileSizes request [fileInfo]) ≤ 8 * 65535)
    (hrun : pcieVdmaProgramOneFile request rounds file fileInfo raiseInt boot =
      .ok (some (ret, boot'))) (hret : ¬ ret < 0) :
    Programmed addressOf s₀ (ps ++ pagesFrom 512 file (fileSizes request [fileInfo])) raiseInt
      boot' := by
  have hmem : fileInfo ∈ [fileInfo] := List.mem_singleton.mpr rfl
  unfold pcieVdmaProgramOneFile at hrun
  cases hload : request fileInfo.filename with
  | error err =>
    rw [hload] at hrun
    cases hrun
    exact absurd err.val_neg hret
  | ok firmware =>
    have hsizes : fileSizes request [fileInfo] = [firmware.size.toNat] := by
      simp only [fileSizes, List.map_cons, List.map_nil, hload]
    rw [hload] at hrun
    obtain ⟨result, hrounds, hrun⟩ := bind_ok hrun
    cases result with
    | none => cases hrun
    | some exit =>
      cases exit with
      | failed err boot₁ =>
        cases hrun
        exact absurd (programRounds_failed hrounds) hret
      | next c =>
        cases hrun
        rw [hsizes, descsOf, List.map_singleton, List.sum_singleton] at hroom
        rw [hsizes, pagesFrom, pagesFrom, List.append_nil]
        have hcursor : CursorAt addressOf s₀ 0 ps ⟨firmware.size.toNat, 0, 0, boot⟩ :=
          ⟨h, hfiles.nonempty _ hmem _ hload, (Nat.zero_mul 512).symm, hroom⟩
        exact (programRounds_next haddr hcursor hrounds).1

theorem NonemptyFiles.tail {fileInfo : HailoFileBatch} {rest : List HailoFileBatch}
    (h : NonemptyFiles request (fileInfo :: rest)) : NonemptyFiles request rest :=
  ⟨fun f hf => h.named f (List.mem_cons_of_mem _ hf),
    fun f hf => h.nonempty f (List.mem_cons_of_mem _ hf)⟩

theorem NonemptyFiles.head {fileInfo : HailoFileBatch} {rest : List HailoFileBatch}
    (h : NonemptyFiles request (fileInfo :: rest)) : NonemptyFiles request [fileInfo] := by
  have hmem (f : HailoFileBatch) (hf : f ∈ [fileInfo]) : f ∈ fileInfo :: rest := by
    rw [List.mem_singleton.mp hf]
    exact List.mem_cons_self
  exact ⟨fun f hf => h.named f (hmem f hf), fun f hf => h.nonempty f (hmem f hf)⟩

theorem fileSizes_cons (fileInfo : HailoFileBatch) (rest : List HailoFileBatch) :
    fileSizes request (fileInfo :: rest) =
      fileSizes request [fileInfo] ++ fileSizes request rest := rfl

/-- The loop over the files packs their pages one file behind another. -/
theorem programFiles_nonneg {rounds file : Nat} {files : List HailoFileBatch} {ps : List Page}
    {boot boot' : BootState} {ret : Int32} (hfiles : NonemptyFiles request files)
    (haddr : ∀ j, ∀ h : j < files.length, addressOf (file + j) = files[j].address.toNat)
    (h : Programmed addressOf s₀ ps false boot)
    (hroom : ps.length + descsOf (fileSizes request files) ≤ 8 * 65535)
    (hrun : programFiles request rounds file files boot = .ok (some (ret, boot')))
    (hret : ¬ ret < 0) :
    Programmed addressOf s₀ (ps ++ pagesFrom 512 file (fileSizes request files))
      (!files.isEmpty) boot' := by
  induction files generalizing file ps boot with
  | nil =>
    cases hrun
    rw [fileSizes, List.map_nil, pagesFrom, List.append_nil]
    exact h
  | cons fileInfo rest ih =>
    rw [programFiles, if_neg (hfiles.named _ List.mem_cons_self)] at hrun
    obtain ⟨result, hfile, hrun⟩ := bind_ok hrun
    cases result with
    | none => cases hrun
    | some pair =>
      obtain ⟨err, boot₁⟩ := pair
      simp only at hrun
      split at hrun
      · next hneg =>
        cases hrun
        exact absurd hneg hret
      next hnonneg =>
      have hsum : descsOf (fileSizes request (fileInfo :: rest)) =
          descsOf (fileSizes request [fileInfo]) + descsOf (fileSizes request rest) := by
        rw [fileSizes_cons, descsOf, List.map_append, List.sum_append]
        rfl
      have hfirst : Programmed addressOf s₀ (ps ++ pagesFrom 512 file
          (fileSizes request [fileInfo])) rest.isEmpty boot₁ :=
        pcieVdmaProgramOneFile_nonneg hfiles.head (haddr 0 (Nat.succ_pos _)) h (by omega) hfile
          hnonneg
      cases rest with
      | nil =>
        cases hrun
        exact hfirst
      | cons next rest =>
        have hlen : (ps ++ pagesFrom 512 file (fileSizes request [fileInfo])).length =
            ps.length + descsOf (fileSizes request [fileInfo]) := by
          rw [List.length_append, length_pagesFrom, descsOf]
        have hall := ih hfiles.tail (fun j hj => ?_) hfirst (by omega) hrun
        · rw [List.append_assoc] at hall
          rw [fileSizes_cons, pagesFrom_append]
          exact hall
        · rw [Nat.add_right_comm, Nat.add_assoc]
          exact haddr (j + 1) (Nat.succ_lt_succ hj)

/-- A batch does not end without an error when a file of it is missing. -/
theorem programFiles_loaded {rounds file : Nat} {files : List HailoFileBatch}
    {boot boot' : BootState} {ret : Int32}
    (hnamed : ∀ fileInfo ∈ files, fileInfo.filename ≠ none)
    (hrun : programFiles request rounds file files boot = .ok (some (ret, boot')))
    (hret : ¬ ret < 0) :
    ∀ fileInfo ∈ files, ∃ firmware, request fileInfo.filename = .ok firmware := by
  induction files generalizing file boot with
  | nil => exact fun _ hmem => absurd hmem List.not_mem_nil
  | cons fileInfo rest ih =>
    rw [programFiles, if_neg (hnamed _ List.mem_cons_self)] at hrun
    obtain ⟨result, hfile, hrun⟩ := bind_ok hrun
    cases result with
    | none => cases hrun
    | some pair =>
      obtain ⟨err, boot₁⟩ := pair
      simp only at hrun
      split at hrun
      · next hneg =>
        cases hrun
        exact absurd hneg hret
      next hnonneg =>
      have hrest := ih (fun f hf => hnamed f (List.mem_cons_of_mem _ hf)) hrun
      intro f hf
      cases List.mem_cons.mp hf with
      | inr hf => exact hrest f hf
      | inl hf =>
        subst hf
        unfold pcieVdmaProgramOneFile at hfile
        cases hload : request f.filename with
        | ok firmware => exact ⟨firmware, rfl⟩
        | error err =>
          rw [hload] at hfile
          cases hfile
          exact absurd err.val_neg hnonneg

theorem fileSizes_pos {files : List HailoFileBatch} (hfiles : NonemptyFiles request files)
    (hloaded : ∀ fileInfo ∈ files, ∃ firmware, request fileInfo.filename = .ok firmware) :
    ∀ size ∈ fileSizes request files, 0 < size := by
  intro size hsize
  obtain ⟨fileInfo, hmem, rfl⟩ := List.mem_map.mp hsize
  obtain ⟨firmware, hload⟩ := hloaded fileInfo hmem
  have hpos := hfiles.nonempty fileInfo hmem firmware hload
  simp only [hload]
  exact hpos

end Files

end HailortDrivers.BootBatch
