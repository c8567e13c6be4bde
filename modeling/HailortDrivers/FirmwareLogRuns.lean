import HailortDrivers.FirmwareLog
import Mathlib.Logic.Relation

/-!
Runs of the firmware log: the device appends bytes at the end, the host takes
them off with `hailo_read_firmware_log`. What the host got and what is still
unread are together everything that was appended, in order.
-/
namespace HailortDrivers.FirmwareLogRuns
open LittleEndian ResourceAccess ByteViews CircularBuffer FirmwareLog

/-- The resource of a log: the BAR is mapped at a page, the log lies at a word in it. -/
structure LogResource extends HailoResource where
  aligned : address % 4 = 0

theorem LogResource.mapped (resource : LogResource) :
    MappedWords resource.toHailoResource 4096 := ⟨resource.aligned, rfl⟩

/-- Device memory, all that was ever appended, and all that the calls returned. -/
structure LogState where
  memory : Nat → UInt8
  appended : List UInt8
  returned : List UInt8

section
variable (resource : LogResource)

def logBytes (memory : Nat → UInt8) (x : Nat) : UInt8 := memory (resource.address + x)

/-- The device puts `b` where `chip_offset` says and advances it. -/
def appendByte (b : UInt8) (memory : Nat → UInt8) : Nat → UInt8 :=
  let chip := chipOffset (logBytes resource memory)
  overlay (overlay memory (resource.address + (8 + chip)) [b]) (resource.address + 4)
    (wordBytes (UInt32.ofNat ((chip + 1) % 4088)))

def readLog (debugBufferHeader : Nat) (params : HailoReadLogParams) (memory : Nat → UInt8) :
    LogRead (Nat → UInt8) :=
  hailoReadFirmwareLog ram resource.toHailoResource debugBufferHeader params memory

/-- What the caller finds in `buffer` up to `read_bytes`. -/
def returnedBytes (host : Nat → UInt8) (r : LogRead (Nat → UInt8)) : List UInt8 :=
  bytesFrom (hostAfter host r.stores) r.params.buffer r.params.readBytes.toNat

inductive Step : LogState → LogState → Prop
  | append {s : LogState} (b : UInt8)
      (room : (unread (logBytes resource s.memory)).length + 1 < 4088) :
      Step s { s with
        memory := appendByte resource b s.memory
        appended := s.appended ++ [b] }
  | read {s : LogState} (debugBufferHeader : Nat) (params : HailoReadLogParams)
      (host : Nat → UInt8) (size_le : params.bufferSize.toNat ≤ 512) :
      Step s { s with
        memory := (readLog resource debugBufferHeader params s.memory).device
        returned := s.returned ++
          returnedBytes host (readLog resource debugBufferHeader params s.memory) }

def Runs : LogState → LogState → Prop := Relation.ReflTransGen (Step resource)

/-- Nothing was returned yet; what lies unread counts as appended. -/
def startOf (memory : Nat → UInt8) : LogState where
  memory := memory
  appended := unread (logBytes resource memory)
  returned := []

structure Faithful (s : LogState) : Prop where
  offsets : OffsetsInRange (logBytes resource s.memory)
  appended_eq : s.appended = s.returned ++ unread (logBytes resource s.memory)

end

variable {resource : LogResource} {memory : Nat → UInt8}

/-- Overwriting the host word moves the tail of the ring and leaves the rest. -/
theorem unread_hostWord (bytes : Nat → UInt8) {host : Nat} (hhost : host < 4088) :
    hostOffset (overlay bytes 0 (wordBytes (UInt32.ofNat host))) = host ∧
      chipOffset (overlay bytes 0 (wordBytes (UInt32.ofNat host))) = chipOffset bytes ∧
      unread (overlay bytes 0 (wordBytes (UInt32.ofNat host))) =
        contents 4088 (chipOffset bytes) host (logData bytes) := by
  have hword : hostOffset (overlay bytes 0 (wordBytes (UInt32.ofNat host))) = host := by
    change (wordAt (overlay bytes 0 (wordBytes (UInt32.ofNat host))) 0).toNat = host
    rw [wordAt_overlay, UInt32.toNat_ofNat', Nat.mod_eq_of_lt (by omega)]
  have hchip : chipOffset (overlay bytes 0 (wordBytes (UInt32.ofNat host))) =
      chipOffset bytes := by
    refine congrArg UInt32.toNat (wordAt_congr fun i _ => overlay_of_ge ?_)
    rw [length_wordBytes]
    omega
  have hdata : logData (overlay bytes 0 (wordBytes (UInt32.ofNat host))) = logData bytes := by
    funext k
    refine overlay_of_ge ?_
    rw [length_wordBytes]
    omega
  exact ⟨hword, hchip, by rw [unread, hword, hchip, hdata]⟩

theorem logBytes_appendByte (b : UInt8) :
    logBytes resource (appendByte resource b memory) =
      overlay (overlay (logBytes resource memory) (8 + chipOffset (logBytes resource memory)) [b])
        4 (wordBytes (UInt32.ofNat ((chipOffset (logBytes resource memory) + 1) % 4088))) := by
  funext x
  rw [logBytes, appendByte, overlay_shift]
  refine congrArg (fun f => overlay f 4 _ x) (funext fun y => ?_)
  exact overlay_shift y

/-- Appending a byte moves the head of the ring past it. -/
theorem unread_append (h : OffsetsInRange (logBytes resource memory)) (b : UInt8)
    (room : (unread (logBytes resource memory)).length + 1 < 4088) :
    OffsetsInRange (logBytes resource (appendByte resource b memory)) ∧
      unread (logBytes resource (appendByte resource b memory)) =
        unread (logBytes resource memory) ++ [b] := by
  rw [unread, length_contents] at room
  rw [logBytes_appendByte]
  generalize hbytes : logBytes resource memory = bytes at *
  have hlt : (chipOffset bytes + 1) % 4088 < 4088 := Nat.mod_lt _ (by decide)
  generalize hafter : overlay (overlay bytes (8 + chipOffset bytes) [b]) 4
    (wordBytes (UInt32.ofNat ((chipOffset bytes + 1) % 4088))) = after
  have hhost : hostOffset after = hostOffset bytes := by
    rw [← hafter]
    refine congrArg UInt32.toNat (wordAt_congr fun i hi => ?_)
    rw [overlay_of_lt (by omega), overlay_of_lt (by omega)]
  have hchip : chipOffset after = (chipOffset bytes + 1) % 4088 := by
    rw [← hafter]
    change (wordAt (overlay _ 4 (wordBytes (UInt32.ofNat _))) 4).toNat = _
    rw [wordAt_overlay, UInt32.toNat_ofNat', Nat.mod_eq_of_lt (by omega)]
  have hdata : logData after = Function.update (logData bytes) (chipOffset bytes) b := by
    funext k
    rw [← hafter, logData, overlay_of_ge (by rw [length_wordBytes]; omega)]
    rcases Nat.lt_trichotomy k (chipOffset bytes) with hk | hk | hk
    · rw [overlay_of_lt (by omega), Function.update_of_ne (by omega), logData]
    · rw [hk, overlay_head, Function.update_self]
    · rw [overlay_of_ge (by rw [List.length_singleton]; omega),
        Function.update_of_ne (by omega), logData]
  refine ⟨⟨by rw [hhost]; exact h.host_lt, by rw [hchip]; exact hlt⟩, ?_⟩
  rw [unread, hhost, hchip, hdata]
  exact contents_push h.chip_lt h.host_lt room b

theorem logBytes_put (view : Nat → UInt8) :
    logBytes resource
        ((ramView resource.address rfl : ByteView ram resource.address 4096).put memory view) =
      fun x => if x < 4096 then view x else logBytes resource memory x := by
  funext x
  change (if resource.address ≤ resource.address + x ∧
    resource.address + x < resource.address + 4096 then _ else _) = _
  rw [Nat.add_sub_cancel_left]
  split_ifs <;> first | rfl | omega

/-- What one call does to a log whose offsets are in range. -/
structure ReadsLog (resource : LogResource) (memory host : Nat → UInt8)
    (params : HailoReadLogParams) (r : LogRead (Nat → UInt8)) : Prop where
  err_eq : r.err = 0
  readBytes_eq : r.params.readBytes.toNat =
    min (unread (logBytes resource memory)).length params.bufferSize.toNat
  returned_eq : returnedBytes host r =
    (unread (logBytes resource memory)).take r.params.readBytes.toNat
  hostOffset_eq : hostOffset (logBytes resource r.device) =
    (hostOffset (logBytes resource memory) + r.params.readBytes.toNat) % 4088
  chipOffset_eq : chipOffset (logBytes resource r.device) = chipOffset (logBytes resource memory)
  unread_eq : unread (logBytes resource r.device) =
    (unread (logBytes resource memory)).drop r.params.readBytes.toNat

theorem readLog_reads (h : OffsetsInRange (logBytes resource memory)) (debugBufferHeader : Nat)
    {params : HailoReadLogParams} (hsize : params.bufferSize.toNat ≤ 512) (host : Nat → UInt8) :
    ReadsLog resource memory host params (readLog resource debugBufferHeader params memory) := by
  have htakes := hailoReadFirmwareLog_takes resource.mapped
    (ramView resource.address rfl : ByteView ram resource.address 4096) (s := memory) h hsize
    debugBufferHeader
  rw [← readLog] at htakes
  generalize readLog resource debugBufferHeader params memory = r at htakes
  obtain ⟨herr, hbuffer, hread, hstores, hdevice⟩ := htakes
  change r.params.readBytes.toNat =
    min (unread (logBytes resource memory)).length params.bufferSize.toNat at hread
  have hle : r.params.readBytes.toNat ≤ (unread (logBytes resource memory)).length := by omega
  have hhost : (hostOffset (logBytes resource memory) + r.params.readBytes.toNat) % 4088 < 4088 :=
    Nat.mod_lt _ (by decide)
  have hbytes : logBytes resource r.device = overlay (logBytes resource memory) 0
      (wordBytes (UInt32.ofNat
        ((hostOffset (logBytes resource memory) + r.params.readBytes.toNat) % 4088))) := by
    rw [hdevice, logBytes_put]
    funext x
    split
    · rfl
    · exact (overlay_of_ge (by rw [length_wordBytes]; omega)).symm
  obtain ⟨hword, hchip, hunread⟩ := unread_hostWord (logBytes resource memory) hhost
  rw [← hbytes] at hword hchip hunread
  refine ⟨herr, hread, ?_, hword, hchip, ?_⟩
  · have hlen : ((unread (logBytes resource memory)).take r.params.readBytes.toNat).length =
        r.params.readBytes.toNat := by rw [List.length_take, Nat.min_eq_left hle]
    have hall := bytesFrom_overlay host params.buffer
      ((unread (logBytes resource memory)).take r.params.readBytes.toNat)
    rw [hlen] at hall
    rw [returnedBytes, hstores, hbuffer]
    exact hall
  · rw [hunread, unread_split h hle]
    exact (List.drop_left' (length_logRun _ _)).symm

theorem faithful_start (h : OffsetsInRange (logBytes resource memory)) :
    Faithful resource (startOf resource memory) := ⟨h, rfl⟩

theorem Faithful.step {s t : LogState} (hs : Faithful resource s) (hstep : Step resource s t) :
    Faithful resource t := by
  cases hstep with
  | append b room =>
    obtain ⟨hoffsets, hunread⟩ := unread_append hs.offsets b room
    refine ⟨hoffsets, ?_⟩
    simp only
    rw [hunread, hs.appended_eq, List.append_assoc]
  | read debugBufferHeader params host hsize =>
    have hread := readLog_reads hs.offsets debugBufferHeader hsize host
    refine ⟨⟨?_, ?_⟩, ?_⟩
    · rw [hread.hostOffset_eq]
      exact Nat.mod_lt _ (by decide)
    · rw [hread.chipOffset_eq]
      exact hs.offsets.chip_lt
    · simp only
      rw [hread.unread_eq, hread.returned_eq, List.append_assoc, List.take_append_drop]
      exact hs.appended_eq

theorem faithful_of_runs {s t : LogState} (hs : Faithful resource s) (hrun : Runs resource s t) :
    Faithful resource t := by
  induction hrun with
  | refl => exact hs
  | tail _ hstep ih => exact ih.step hstep

/-- Along every run the bytes returned are a prefix of the bytes appended, what is left
is unread, and each call takes the oldest unread bytes, as many as fit. -/
theorem firmwareLog_faithful (resource : LogResource) (memory : Nat → UInt8)
    (hstart : OffsetsInRange (logBytes resource memory)) (s : LogState)
    (hrun : Runs resource (startOf resource memory) s) :
    OffsetsInRange (logBytes resource s.memory) ∧
      s.returned <+: s.appended ∧
      s.appended = s.returned ++ unread (logBytes resource s.memory) ∧
      ∀ debugBufferHeader params host, params.bufferSize.toNat ≤ 512 →
        ReadsLog resource s.memory host params
          (readLog resource debugBufferHeader params s.memory) := by
  have hs := faithful_of_runs (faithful_start hstart) hrun
  refine ⟨hs.offsets, ?_, hs.appended_eq, fun debugBufferHeader params host hsize =>
    readLog_reads hs.offsets debugBufferHeader hsize host⟩
  rw [hs.appended_eq]
  exact List.prefix_append _ _

/-- A log at address 0. -/
def emptyLog : LogResource := ⟨⟨0, debugBufferTotalSize⟩, rfl⟩

def twoBytesLog : LogState where
  memory := (readLog emptyLog 0 ⟨true, 1, 0, 0⟩
    (appendByte emptyLog 9 (appendByte emptyLog 7 fun _ => 0))).device
  appended := [7, 9]
  returned := [7]

theorem firmwareLog_faithful_twoBytes :
    (startOf emptyLog fun _ => 0).appended = [] ∧
      unread (logBytes emptyLog twoBytesLog.memory) = [9] ∧
      OffsetsInRange (logBytes emptyLog twoBytesLog.memory) ∧
      twoBytesLog.returned <+: twoBytesLog.appended ∧
      twoBytesLog.appended =
        twoBytesLog.returned ++ unread (logBytes emptyLog twoBytesLog.memory) ∧
      ∀ debugBufferHeader params host, params.bufferSize.toNat ≤ 512 →
        ReadsLog emptyLog twoBytesLog.memory host params
          (readLog emptyLog debugBufferHeader params twoBytesLog.memory) :=
  ⟨rfl, rfl, firmwareLog_faithful emptyLog (fun _ => 0) ⟨by decide, by decide⟩ twoBytesLog
    (.tail (.tail (.tail .refl (.append 7 (by decide))) (.append 9 (by decide)))
      (.read 0 ⟨true, 1, 0, 0⟩ (fun _ => 0) (by decide)))⟩

end HailortDrivers.FirmwareLogRuns
