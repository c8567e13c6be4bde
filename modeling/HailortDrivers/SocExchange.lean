import HailortDrivers.Doorbells
import HailortDrivers.FirmwareControl
import HailortDrivers.SocControl

/-!
Requests to a SoC device (`soc_control`) beside a device that answers when it likes. Request and
response lie at one place, and only the control code tells one answer from another.
-/
namespace HailortDrivers.SocExchange
open LittleEndian ResourceAccess ByteViews FirmwareControl SocControl Doorbells KernelCompletion
open ChannelControl VdmaTypes

def hailoPcieSocControlCodeQueryDriverInfo : UInt32 := 0x102
def hailoPcieSocControlPowerOff : UInt32 := 0x103

theorem wordAt_overlay_append (memory : Nat → UInt8) (x : Nat) (word : UInt32)
    (rest : List UInt8) : wordAt (overlay memory x (wordBytes word ++ rest)) x = word := by
  have h := wordAt_overlay_in memory (wordBytes word ++ rest) (x := x) (y := 0)
    (by rw [List.length_append, length_wordBytes]; omega)
  rw [Nat.add_zero, wordIn_wordBytes_append] at h
  exact h

/-- `HAILO_PCIE_SOC_MAX_REQUEST_SIZE_BYTES`, and the same for a response -/
def hailoPcieSocMaxSizeBytes : Nat := 16

/-- The bytes of the union of a request or a response. -/
abbrev Pad := { bytes : List UInt8 // bytes.length = hailoPcieSocMaxSizeBytes }

/-- The union with only its first bytes set. -/
def Pad.ofBytes (bytes : List UInt8) : Pad :=
  ⟨(bytes ++ List.replicate hailoPcieSocMaxSizeBytes 0).take hailoPcieSocMaxSizeBytes, by
    rw [List.length_take, List.length_append, List.length_replicate]
    exact Nat.min_eq_left (Nat.le_add_left _ _)⟩

structure HailoPcieSocRequest where
  controlCode : UInt32
  pad : Pad

namespace HailoPcieSocRequest

def connect (port : UInt16) : HailoPcieSocRequest :=
  ⟨hailoPcieSocControlCodeConnect, .ofBytes (halfBytes port)⟩

def close (channelsBitmap : UInt32) : HailoPcieSocRequest :=
  ⟨hailoPcieSocControlCodeClose, .ofBytes (wordBytes channelsBitmap)⟩

def queryDriverInfo : HailoPcieSocRequest :=
  ⟨hailoPcieSocControlCodeQueryDriverInfo, .ofBytes []⟩

def powerOff : HailoPcieSocRequest := ⟨hailoPcieSocControlPowerOff, .ofBytes []⟩

def bytes (request : HailoPcieSocRequest) : List UInt8 :=
  wordBytes request.controlCode ++ request.pad.1

@[simp] theorem length_bytes (request : HailoPcieSocRequest) : request.bytes.length = 20 := by
  rw [bytes, List.length_append, request.pad.2]
  rfl

/-- The request that lies at `x`. -/
def inMemory (memory : Nat → UInt8) (x : Nat) : HailoPcieSocRequest :=
  ⟨wordAt memory x, bytesFrom memory (x + 4) hailoPcieSocMaxSizeBytes, length_bytesFrom _ _ _⟩

theorem inMemory_overlay (request : HailoPcieSocRequest) (memory : Nat → UInt8) (x : Nat) :
    inMemory (overlay memory x request.bytes) x = request := by
  obtain ⟨controlCode, pad, hpad⟩ := request
  have hunion : bytesFrom (overlay memory x (wordBytes controlCode ++ pad)) (x + 4)
      hailoPcieSocMaxSizeBytes = pad := by
    have h := bytesFrom_overlay_part memory x (wordBytes controlCode) pad []
    rw [List.append_nil, hpad] at h
    exact h
  simp only [inMemory, bytes, wordAt_overlay_append, hunion]

end HailoPcieSocRequest

/-- The whole of `hailo_pcie_soc_response` -/
structure HailoPcieSocResponse where
  controlCode : UInt32
  status : Int32
  pad : Pad

namespace HailoPcieSocResponse

/-- The union read as the answer to a connect request. -/
def connect (response : HailoPcieSocResponse) : SocControl.HailoPcieSocResponse where
  controlCode := response.controlCode
  status := response.status
  inputChannelIndex := response.pad.1[0]?.getD 0
  outputChannelIndex := response.pad.1[1]?.getD 0

def bytes (response : HailoPcieSocResponse) : List UInt8 :=
  wordBytes response.controlCode ++ (wordBytes response.status.toUInt32 ++ response.pad.1)

/-- The response that lies at `x`. -/
def inMemory (memory : Nat → UInt8) (x : Nat) : HailoPcieSocResponse where
  controlCode := wordAt memory x
  status := (wordAt memory (x + 4)).toInt32
  pad := ⟨bytesFrom memory (x + 8) hailoPcieSocMaxSizeBytes, length_bytesFrom _ _ _⟩

theorem inMemory_overlay (response : HailoPcieSocResponse) (memory : Nat → UInt8) (x : Nat) :
    inMemory (overlay memory x response.bytes) x = response := by
  obtain ⟨controlCode, status, pad, hpad⟩ := response
  have hsize : hailoPcieSocMaxSizeBytes = 16 := rfl
  have hlength : (wordBytes controlCode ++ (wordBytes status.toUInt32 ++ pad)).length = 24 := by
    rw [List.length_append, List.length_append, hpad]
    rfl
  have hstatus : wordAt (overlay memory x (wordBytes controlCode ++
      (wordBytes status.toUInt32 ++ pad))) (x + 4) = status.toUInt32 := by
    rw [wordAt_overlay_in _ _ (by omega), ← Nat.add_zero 4, wordIn_skip, wordIn_wordBytes_append]
  have hunion : bytesFrom (overlay memory x (wordBytes controlCode ++
      (wordBytes status.toUInt32 ++ pad))) (x + 8) hailoPcieSocMaxSizeBytes = pad := by
    have h := bytesFrom_overlay_part memory x (wordBytes controlCode ++
      wordBytes status.toUInt32) pad []
    rw [List.append_nil, List.append_assoc, hpad] at h
    exact h
  simp only [inMemory, bytes, wordAt_overlay_append, hstatus, hunion, Int32.toInt32_toUInt32]

end HailoPcieSocResponse

section Mailbox
variable (fwAccess : FwAccess)

/-- `request` lies at `source`. -/
def hailoPcieSocWriteRequest (source : Nat) (request : HailoPcieSocRequest)
    (device : Nat → UInt8) : Nat → UInt8 :=
  (hailoResourceWriteBuffer ram fwAccess.toHailoResource 0 request.bytes source device).2

/-- The bytes of `*response`, which lies at `dest`. -/
def hailoPcieSocReadResponse (dest : Nat) (device : Nat → UInt8) : HailoPcieSocResponse :=
  let response := (hailoResourceReadBuffer ram fwAccess.toHailoResource 0
    (8 + hailoPcieSocMaxSizeBytes) dest device).1
  .inMemory (fun x => response[x]?.getD 0) 0

theorem hailoPcieSocWriteRequest_eq (source : Nat) (request : HailoPcieSocRequest)
    (device : Nat → UInt8) : hailoPcieSocWriteRequest fwAccess source request device =
      overlay device fwAccess.address request.bytes := by
  rw [hailoPcieSocWriteRequest, hailoResourceWriteBuffer_ram fwAccess.address_aligned,
    Nat.add_zero]

theorem hailoPcieSocReadResponse_eq (dest : Nat) (device : Nat → UInt8) :
    hailoPcieSocReadResponse fwAccess dest device = .inMemory device fwAccess.address := by
  have hread : (hailoResourceReadBuffer ram fwAccess.toHailoResource 0
      (8 + hailoPcieSocMaxSizeBytes) dest device).1 =
        bytesFrom device fwAccess.address 24 := by
    rw [hailoResourceReadBuffer_ram fwAccess.address_aligned, Nat.add_zero]
    rfl
  have hbyte {x : Nat} (hx : x < 24) :
      ((bytesFrom device fwAccess.address 24)[x]?).getD 0 = device (fwAccess.address + x) := by
    rw [List.getElem?_eq_getElem (by rwa [length_bytesFrom]), Option.getD_some]
    simp only [bytesFrom, List.getElem_map, List.getElem_range]
  have hcode : wordAt (fun x => (bytesFrom device fwAccess.address 24)[x]?.getD 0) 0 =
      wordAt device fwAccess.address :=
    wordAt_congr fun i hi => by rw [hbyte (by omega), Nat.zero_add]
  have hstatus : wordAt (fun x => (bytesFrom device fwAccess.address 24)[x]?.getD 0) (0 + 4) =
      wordAt device (fwAccess.address + 4) :=
    wordAt_congr fun i hi => by rw [hbyte (by omega), Nat.zero_add, Nat.add_assoc]
  have hunion : bytesFrom (fun x => (bytesFrom device fwAccess.address 24)[x]?.getD 0) (0 + 8)
      hailoPcieSocMaxSizeBytes =
        bytesFrom device (fwAccess.address + 8) hailoPcieSocMaxSizeBytes := by
    refine List.map_congr_left fun k hk => ?_
    have hlt : k < 16 := List.mem_range.mp hk
    exact (hbyte (x := 0 + 8 + k) (by omega)).trans (by rw [Nat.zero_add, Nat.add_assoc])
  rw [hailoPcieSocReadResponse, hread]
  simp only [HailoPcieSocResponse.inMemory, hcode, hstatus, hunion]

/-- The device reads requests and writes responses at the start of the BAR. -/
def socMailbox (source dest : Nat) :
    Mailbox (Nat → UInt8) HailoPcieSocRequest HailoPcieSocResponse where
  signal := Completion.completeAll
  send := hailoPcieSocWriteRequest fwAccess source
  seen := fun device => .inMemory device fwAccess.address
  post := fun response device => overlay device fwAccess.address response.bytes
  read := hailoPcieSocReadResponse fwAccess dest
  signal_done := fun _ => show uintMax ≠ 0 by decide
  seen_send := fun request device => by
    rw [hailoPcieSocWriteRequest_eq, HailoPcieSocRequest.inMemory_overlay]
  read_post := fun response device => by
    rw [hailoPcieSocReadResponse_eq, HailoPcieSocResponse.inMemory_overlay]

end Mailbox

section Answers
variable {K : Type} [DecidableEq K] (fwAccess : FwAccess) (source dest : Nat)

abbrev SocSystem (K : Type) := Exchange (Nat → UInt8) HailoPcieSocRequest HailoPcieSocResponse K

/-- `soc_control` for a request, once it was woken and has read the response. -/
def answered (request : HailoPcieSocRequest) (waited : Int32) (response : HailoPcieSocResponse) :
    Int32 :=
  socControl request.controlCode ⟨0, waited, response.connect⟩

/-- A call of `soc_control` that starts is sure to read the device's answer to its own request
exactly if the device is done with all earlier ones. -/
theorem soc_ownAnswer_iff {memory : Nat → UInt8} {s : SocSystem K} {call : K}
    {request : HailoPcieSocRequest}
    (hrun : Relation.ReflTransGen (Steps (socMailbox fwAccess source dest)) (initial memory) s)
    (hstart : s.holder = some (call, .started request)) :
    (∀ s' response, Relation.ReflTransGen (Steps (socMailbox fwAccess source dest)) s s' →
      s'.returned call = some (.got response) → Own s' call request response) ↔ Settled s :=
  own_iff_settled _ (sound_of_run hrun) hstart

def mappedBar : FwAccess := ⟨⟨0, 0x4000⟩, rfl⟩

/-- The first call of all, a power off. -/
def firstCall : SocSystem Bool := (initial fun _ => 0).setHolder true (.started .powerOff)

theorem soc_ownAnswer_firstCall : Settled firstCall ∧ ∀ s' response,
    Relation.ReflTransGen (Steps (socMailbox mappedBar 0 0)) firstCall s' →
    s'.returned true = some (.got response) → Own s' true .powerOff response := by
  have hsettled : Settled firstCall := ⟨fun _ => Or.inl rfl, rfl, rfl⟩
  have hrun : Relation.ReflTransGen (Steps (socMailbox mappedBar 0 0)) (initial fun _ => 0)
      firstCall := .single ⟨.start true .powerOff, rfl⟩
  exact ⟨hsettled, (soc_ownAnswer_iff mappedBar 0 0 hrun rfl).mpr hsettled⟩

/-- What is read back of a request as if it were the response. -/
theorem readBack (request : HailoPcieSocRequest) (device : Nat → UInt8) :
    (hailoPcieSocReadResponse fwAccess dest
        (hailoPcieSocWriteRequest fwAccess source request device)).controlCode =
      request.controlCode ∧
    (hailoPcieSocReadResponse fwAccess dest
        (hailoPcieSocWriteRequest fwAccess source request device)).status =
      (wordIn request.pad.1 0).toInt32 := by
  rw [hailoPcieSocReadResponse_eq, hailoPcieSocWriteRequest_eq]
  refine ⟨wordAt_overlay_append _ _ _ _, congrArg UInt32.toInt32 ?_⟩
  have hlength := request.length_bytes
  rw [wordAt_overlay_in _ _ (by omega), HailoPcieSocRequest.bytes, ← Nat.add_zero 4, wordIn_skip]

end Answers

end HailortDrivers.SocExchange
