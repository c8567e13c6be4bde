import HailortDrivers.ControlProtocol

/-!
The control path on hosts of both byte orders. Three of the requests carry structures that
are copied without a conversion, and the opcode that decides about the CPU is read without one.
-/
namespace HailortDrivers.ControlByteOrder
open LittleEndian HostOrder VdmaTypes FirmwareControl ControlProtocol

/-- The opcode that `hailo_fw_control_preprocess` compares. -/
def preprocessOpcode (order : ByteOrder) (request : Nat → UInt8) : UInt32 :=
  dtohl order (order.load request 0)

/-- `command->request.opcode`, as `hailo_pcie_write_firmware_control` reads it -/
def writeOpcode (order : ByteOrder) (request : Nat → UInt8) : UInt32 := order.load request 0

/-- `hailo_pcie_write_firmware_control`, up to the value that tells which CPU the request is
for; `written` is what writing the request to the device returned. -/
def hailoPcieWriteFirmwareControl (order : ByteOrder) (isFirmwareLoaded : Bool)
    (requestLen : UInt32) (request : Nat → UInt8) (written : Int32) : Except Int32 UInt32 :=
  let opcode := (writeOpcode order request).toNat
  if !isFirmwareLoaded then .error (-enodev)
  else if hailoControlOpcodeCount ≤ opcode then .error (-einval)
  else if controlProtocolMaxControlLength < requestLen then .error (-einval)
  else if written < 0 then .error written
  else if gFwControlCpuId[opcode]? = some .appCpu then .ok fwAccessAppCpuControlMask
  else .ok fwAccessCoreCpuControlMask

/-- The access bit of a CPU. -/
def accessMask : CpuId → UInt32
  | .appCpu => fwAccessAppCpuControlMask
  | .coreCpu => fwAccessCoreCpuControlMask

/-- The call writes what a little-endian host writes: every field in little-endian order. -/
def SameBytes (order : ByteOrder) (call : PackCall) : Prop :=
  call.run.stored order = call.run.stored .little

/-- Both functions read the opcode of the request, and it goes to the CPU listed for it. -/
structure Routed (order : ByteOrder) (call : PackCall) : Prop where
  preprocess : ∀ request,
    preprocessOpcode order (call.run.write order request) = call.run.opcode.value
  write : ∀ request, writeOpcode order (call.run.write order request) = call.run.opcode.value
  cpu : ∀ request requestLen written, requestLen ≤ controlProtocolMaxControlLength →
    0 ≤ written →
    hailoPcieWriteFirmwareControl order true requestLen (call.run.write order request) written =
      .ok (accessMask call.run.opcode.cpuId)

structure HostIndependent (order : ByteOrder) (call : PackCall) : Prop where
  bytes : SameBytes order call
  routed : Routed order call

/-- The values that are copied as the host has them are the same both ways round. -/
def Symmetric : PackCall → Prop
  | .contextSwitchSetNetworkGroupHeaderRequest header =>
    swap16 header.dynamicContextsCount = header.dynamicContextsCount ∧
      swap16 header.csmBufferSize = header.csmBufferSize ∧
      swap16 header.batchSize = header.batchSize ∧
      swap32 header.externalActionListAddress = header.externalActionListAddress ∧
      ∀ i, swap32 (header.boundaryChannelsBitmap i) = header.boundaryChannelsBitmap i
  | .configContextSwitchBreakpointRequest _ _ data =>
    swap16 data.batchIndex = data.batchIndex ∧ swap16 data.contextIndex = data.contextIndex ∧
      swap16 data.actionIndex = data.actionIndex
  | .changeHwInferStatusRequest _ _ _ _ info _ =>
    ∀ i, swap16 (info.channelInfo i).descProgramed = (info.channelInfo i).descProgramed
  | _ => True

section Bytes

theorem length_arrange (order : ByteOrder) (run : List UInt8) :
    (order.arrange run).length = run.length := by
  cases order with
  | little => rfl
  | big => exact List.length_reverse

/-- How long a field is does not depend on the host. -/
theorem length_stored (order : ByteOrder) (field : Field) :
    (field.stored order).length = (field.stored .little).length := by
  cases field with
  | u8 value => rfl
  | u16 value => simp [Field.stored, length_arrange]
  | u32 value => simp [Field.stored, length_arrange]
  | htods value => simp [Field.stored, length_arrange]
  | htodl value => simp [Field.stored, length_arrange]
  | htodll value => simp [Field.stored, length_arrange, dwordBytes]
  | bytes data => rfl
  | untouched count => rfl

/-- Fields one after another are stored alike exactly if each of them is. -/
theorem flatMap_stored_iff (order : ByteOrder) (fields : List Field) :
    fields.flatMap (Field.stored order) = fields.flatMap (Field.stored .little) ↔
      ∀ field ∈ fields, field.stored order = field.stored .little := by
  induction fields with
  | nil => simp
  | cons field fields ih =>
    rw [List.flatMap_cons, List.flatMap_cons, List.forall_mem_cons, ← ih]
    constructor
    · intro h
      exact List.append_inj h (length_stored order field)
    · rintro ⟨hfield, hfields⟩
      rw [hfield, hfields]

/-- The field is converted, or no different either way round. -/
def Palindromic : Field → Prop
  | .u16 value => swap16 value = value
  | .u32 value => swap32 value = value
  | _ => True

theorem wordBytes_inj {v w : UInt32} : wordBytes v = wordBytes w ↔ v = w := by
  refine ⟨fun h => ?_, fun h => by rw [h]⟩
  rw [← wordIn_wordBytes v, h, wordIn_wordBytes]

theorem halfBytes_inj {v w : UInt16} : halfBytes v = halfBytes w ↔ v = w := by
  refine ⟨fun h => ?_, fun h => by rw [h]⟩
  have hv := v.toNat_lt
  have hw := w.toNat_lt
  obtain ⟨hlow, hrest⟩ := List.cons.inj h
  have hlowNat := congrArg UInt8.toNat hlow
  have hhighNat := congrArg UInt8.toNat (List.cons.inj hrest).1
  rw [toNat_byteAt, toNat_byteAt, UInt16.toNat_toUInt32, UInt16.toNat_toUInt32] at hlowNat hhighNat
  simp only [Nat.mul_zero, Nat.mul_one, Nat.pow_zero, Nat.div_one] at hlowNat hhighNat
  exact UInt16.toNat_inj.mp (by omega)

theorem map_some_inj {run run' : List UInt8} : run.map some = run'.map some ↔ run = run' :=
  List.map_inj_right fun _ _ h => Option.some.inj h

theorem stored_iff (order : ByteOrder) (field : Field) :
    field.stored order = field.stored .little ↔ order = .little ∨ Palindromic field := by
  cases order with
  | little => simp
  | big =>
    simp only [reduceCtorEq, false_or]
    cases field with
    | u8 value => exact iff_of_true rfl trivial
    | u16 value =>
      simp only [Field.stored, map_some_inj, ByteOrder.arrange, ← halfBytes_swap16, halfBytes_inj]
      rfl
    | u32 value =>
      simp only [Field.stored, map_some_inj, ByteOrder.arrange, ← wordBytes_swap32, wordBytes_inj]
      rfl
    | htods value =>
      refine iff_of_true ?_ trivial
      rw [Field.stored, Field.stored, arrange_htods, arrange_htods]
    | htodl value =>
      refine iff_of_true ?_ trivial
      rw [Field.stored, Field.stored, arrange_htodl, arrange_htodl]
    | htodll value =>
      refine iff_of_true ?_ trivial
      rw [Field.stored, Field.stored, dwordBytes, dwordBytes, arrange_htodll, arrange_htodll]
    | bytes data => exact iff_of_true rfl trivial
    | untouched count => exact iff_of_true rfl trivial

theorem sameBytes_iff_palindromic (order : ByteOrder) (call : PackCall) :
    SameBytes order call ↔
      order = .little ∨ ∀ field ∈ call.run.fields, Palindromic field := by
  rw [SameBytes, PackedRequest.stored, PackedRequest.stored, flatMap_stored_iff]
  simp only [stored_iff]
  constructor
  · intro h
    by_cases horder : order = .little
    · exact Or.inl horder
    · exact Or.inr fun field hfield => (h field hfield).resolve_left horder
  · rintro (horder | hfields)
    · exact fun _ _ => Or.inl horder
    · exact fun field hfield => Or.inr (hfields field hfield)

end Bytes

section Fields

/-- The field is no value that is copied as the host has it. -/
def converted : Field → Bool
  | .u16 _ => false
  | .u32 _ => false
  | _ => true

theorem palindromic_of_converted {field : Field} (h : converted field = true) :
    Palindromic field := by
  cases field with
  | u16 value => cases h
  | u32 value => cases h
  | _ => trivial

theorem palindromic_of_all {fields : List Field} (h : fields.all converted = true) :
    ∀ field ∈ fields, Palindromic field := fun field hfield =>
  palindromic_of_converted (List.all_eq_true.mp h field hfield)

theorem converted_handleArray (values : List UInt64) :
    (handleArray values).all converted = true := by
  rw [handleArray, List.all_append, List.all_map, Bool.and_eq_true]
  exact ⟨List.all_eq_true.mpr fun _ _ => rfl, rfl⟩

theorem converted_contextInfo (contextInfo : ContextInfoChunk) :
    (packContextSwitchSetContextInfoRequest contextInfo).fields.all converted = true := by
  simp only [packContextSwitchSetContextInfoRequest, packed, PackedRequest.fields,
    TranslationTable.fields, List.all_cons, List.all_append, converted_handleArray]
  rfl

theorem palindromic_header (header : ApplicationHeader) :
    (∀ field ∈ (packContextSwitchSetNetworkGroupHeaderRequest header).fields, Palindromic field) ↔
      Symmetric (.contextSwitchSetNetworkGroupHeaderRequest header) := by
  simp only [packContextSwitchSetNetworkGroupHeaderRequest, packed, PackedRequest.fields,
    ApplicationHeader.fields, List.forall_mem_cons, List.forall_mem_append, List.forall_mem_map,
    List.mem_finRange, flag, Palindromic, Symmetric, true_and, and_true, forall_const,
    List.not_mem_nil, false_implies, implies_true, and_assoc]

theorem palindromic_breakpoint (breakpointId : UInt8) (breakpointControl : UInt32)
    (data : ContextSwitchBreakpointData) :
    (∀ field ∈ (packConfigContextSwitchBreakpointRequest breakpointId breakpointControl
      data).fields, Palindromic field) ↔
      Symmetric (.configContextSwitchBreakpointRequest breakpointId breakpointControl data) := by
  simp only [packConfigContextSwitchBreakpointRequest, packed, PackedRequest.fields,
    ContextSwitchBreakpointData.fields, List.forall_mem_cons, List.forall_mem_append, flag,
    Palindromic, Symmetric, true_and, and_true, List.not_mem_nil, false_implies, implies_true]

theorem palindromic_channels (state index : UInt8) (batchSize batchCount : UInt16)
    (info : HwInferChannelsInfo) (mode : UInt32) :
    (∀ field ∈ (packChangeHwInferStatusRequest state index batchSize batchCount info mode).fields,
      Palindromic field) ↔
      Symmetric (.changeHwInferStatusRequest state index batchSize batchCount info mode) := by
  simp only [packChangeHwInferStatusRequest, packed, PackedRequest.fields,
    HwInferChannelsInfo.fields, List.forall_mem_cons, List.forall_mem_append,
    List.forall_mem_flatMap, List.mem_finRange, Palindromic, Symmetric, true_and, and_true,
    forall_const, List.not_mem_nil, false_implies, implies_true]

/-- Of all requests, only three have values that are copied as the host has them. -/
theorem palindromic_fields_iff (call : PackCall) :
    (∀ field ∈ call.run.fields, Palindromic field) ↔ Symmetric call := by
  cases call with
  | contextSwitchSetNetworkGroupHeaderRequest header => exact palindromic_header header
  | contextSwitchSetContextInfoRequest contextInfo =>
    exact iff_of_true (palindromic_of_all (converted_contextInfo contextInfo)) trivial
  | configContextSwitchBreakpointRequest breakpointId breakpointControl data =>
    exact palindromic_breakpoint breakpointId breakpointControl data
  | changeHwInferStatusRequest state index batchSize batchCount info mode =>
    exact palindromic_channels state index batchSize batchCount info mode
  | _ => exact iff_of_true (palindromic_of_all rfl) trivial

end Fields

section Opcodes

/-- The list of the CPUs goes with the opcodes. -/
theorem gFwControlCpuId_value (opcode : HailoControlOpcode) :
    gFwControlCpuId[opcode.value.toNat]? = some opcode.cpuId := by
  cases opcode <;> rfl

theorem value_lt_count (opcode : HailoControlOpcode) :
    opcode.value.toNat < hailoControlOpcodeCount :=
  (List.getElem?_eq_some_iff.mp (gFwControlCpuId_value opcode)).1

theorem value_eq_zero_iff (opcode : HailoControlOpcode) :
    opcode.value = 0 ↔ opcode = .identify := by
  cases opcode <;> decide

theorem perCpu_ne_identify {core app : HailoControlOpcode} (cpuId : UInt8)
    (hcore : core ≠ .identify) (happ : app ≠ .identify) :
    (if cpuIdCoreCpu = cpuId then core else app) ≠ .identify := by
  split
  · exact hcore
  · exact happ

/-- Only the call for it packs the opcode of an identify request. -/
theorem opcode_eq_identify_iff (call : PackCall) :
    call.run.opcode = .identify ↔ call = .identifyRequest := by
  cases call with
  | identifyRequest => exact iff_of_true rfl rfl
  | wdEnable cpuId shouldEnable =>
    exact iff_of_false (perCpu_ne_identify cpuId (by decide) (by decide)) PackCall.noConfusion
  | wdConfig cpuId wdCycles wdMode =>
    exact iff_of_false (perCpu_ne_identify cpuId (by decide) (by decide)) PackCall.noConfusion
  | previousSystemStateRequest cpuId =>
    exact iff_of_false (perCpu_ne_identify cpuId (by decide) (by decide)) PackCall.noConfusion
  | _ => exact iff_of_false HailoControlOpcode.noConfusion PackCall.noConfusion

/-- Swapping a small value moves it to the upper byte. -/
theorem toNat_swap32_of_lt {n : UInt32} (h : n.toNat < 2 ^ 8) :
    (swap32 n).toNat = n.toNat * 2 ^ 24 := by
  rw [toNat_swap32_bytes, toNat_byteAt, toNat_byteAt, toNat_byteAt, toNat_byteAt]
  simp only [Nat.mul_zero, Nat.mul_one, Nat.reduceMul, Nat.pow_zero, Nat.div_one]
  omega

end Opcodes

section Routing
variable {order : ByteOrder} {call : PackCall} {request : Nat → UInt8}

theorem wordAt_write (packed : PackedRequest) (order : ByteOrder) (request : Nat → UInt8) :
    wordAt (packed.write order request) 0 = packed.opcode.value := by
  have hstored : packed.stored order = (wordBytes packed.opcode.value).map some ++
      (packed.parameters ++ [Field.bytes packed.beyond]).flatMap (Field.stored order) := by
    rw [PackedRequest.stored, PackedRequest.fields, List.cons_append, List.flatMap_cons,
      Field.stored, arrange_htodl]
  refine Eq.trans (wordAt_congr fun i hi => ?_) (wordIn_wordBytes packed.opcode.value)
  have hlength : 0 + i < (wordBytes packed.opcode.value).length := by
    rw [length_wordBytes, Nat.zero_add]
    exact hi
  rw [PackedRequest.write, hstored, List.getElem?_append_left (by rwa [List.length_map]),
    List.getElem?_map, List.getElem?_eq_getElem hlength]
  rfl

/-- The preprocessing reads the little-endian opcode on every host. -/
theorem preprocessOpcode_eq : preprocessOpcode order request = wordAt request 0 :=
  dtohl_load order request 0

/-- On a little-endian host these are the checks and the access bit of the control path. -/
theorem hailoPcieWriteFirmwareControl_little (isFirmwareLoaded : Bool) (command : HailoFwControl)
    (written : Int32) :
    hailoPcieWriteFirmwareControl .little isFirmwareLoaded command.requestLen command.request
        written =
      if checkFirmwareControl isFirmwareLoaded command ≠ 0 then
        .error (checkFirmwareControl isFirmwareLoaded command)
      else if written < 0 then .error written
      else .ok (accessBit command) := by
  have hopcode : (writeOpcode .little command.request).toNat = command.opcode := by
    rw [writeOpcode, load_little, HailoFwControl.opcode]
  simp only [hailoPcieWriteFirmwareControl, hopcode, checkFirmwareControl]
  split
  · rfl
  · split
    · rfl
    · split
      · rfl
      · rw [if_neg (not_not.mpr rfl), accessBit]
        split
        · rfl
        · split
          · rfl
          · rfl

theorem preprocessOpcode_write :
    preprocessOpcode order (call.run.write order request) = call.run.opcode.value := by
  rw [preprocessOpcode_eq, wordAt_write]

theorem writeOpcode_little :
    writeOpcode .little (call.run.write .little request) = call.run.opcode.value := by
  rw [writeOpcode, load_little, wordAt_write]

theorem writeOpcode_big :
    writeOpcode .big (call.run.write .big request) = swap32 call.run.opcode.value := by
  rw [writeOpcode, load_big, wordAt_write]

/-- A request whose opcode is read as it was packed goes to its CPU. -/
theorem write_ok {requestLen : UInt32} {written : Int32} {opcode : HailoControlOpcode}
    (hopcode : writeOpcode order request = opcode.value)
    (hlength : requestLen ≤ controlProtocolMaxControlLength) (hwritten : 0 ≤ written) :
    hailoPcieWriteFirmwareControl order true requestLen request written =
      .ok (accessMask opcode.cpuId) := by
  rw [hailoPcieWriteFirmwareControl, hopcode, if_neg (by decide),
    if_neg (Nat.not_le.mpr (value_lt_count opcode)), if_neg (UInt32.not_lt.mpr hlength),
    if_neg (Int32.not_lt.mpr hwritten), gFwControlCpuId_value]
  cases opcode.cpuId with
  | appCpu => rfl
  | coreCpu => rfl

/-- The packed opcode is read back unless the host swaps it into the upper byte. -/
theorem routed_iff : Routed order call ↔ order = .little ∨ call = .identifyRequest := by
  constructor
  · intro h
    cases order with
    | little => exact Or.inl rfl
    | big =>
      refine Or.inr ((opcode_eq_identify_iff call).mp ((value_eq_zero_iff _).mp ?_))
      have hlt := value_lt_count call.run.opcode
      have hcount : hailoControlOpcodeCount = 80 := by decide
      have hread := congrArg UInt32.toNat (h.write fun _ => 0)
      rw [writeOpcode_big, toNat_swap32_of_lt (by omega)] at hread
      exact UInt32.toNat_inj.mp (by rw [UInt32.toNat_zero]; omega)
  · intro h
    have hopcode (request : Nat → UInt8) :
        writeOpcode order (call.run.write order request) = call.run.opcode.value := by
      cases order with
      | little => exact writeOpcode_little
      | big =>
        have hidentify := h.resolve_left (by decide)
        rw [writeOpcode_big, hidentify]
        decide
    exact ⟨fun _ => preprocessOpcode_write, hopcode,
      fun request _ _ hlength hwritten => write_ok (hopcode request) hlength hwritten⟩

end Routing

/-- The control path does not depend on the byte order of the host exactly for a little-endian
host and for identify requests; the bytes alone depend on it only through the values of the
three requests that are copied as the host has them. -/
theorem pack_hostIndependent_iff (order : ByteOrder) (call : PackCall) :
    (HostIndependent order call ↔ order = .little ∨ call = .identifyRequest) ∧
    (SameBytes order call ↔ order = .little ∨ Symmetric call) := by
  have hbytes : SameBytes order call ↔ order = .little ∨ Symmetric call := by
    rw [sameBytes_iff_palindromic, palindromic_fields_iff]
  refine ⟨⟨fun h => routed_iff.mp h.routed, fun h => ⟨hbytes.mpr ?_, routed_iff.mpr h⟩⟩, hbytes⟩
  rcases h with horder | rfl
  · exact Or.inl horder
  · exact Or.inr trivial

/-- A big-endian host packs opcode 2 as the device expects it, reads it as 0x02000000 and turns
the request down. It sends batch 1 of a breakpoint as batch 256. -/
theorem bigEndian_rejected :
    (∃ request, hailoPcieWriteFirmwareControl .big true 12
      ((PackCall.readMemoryRequest 0 4).run.write .big request) 0 = .error (-einval)) ∧
    ¬ HostIndependent .big (.readMemoryRequest 0 4) ∧
    ¬ SameBytes .big (.configContextSwitchBreakpointRequest 0 0
      ⟨false, 0, false, 1, true, 0, true, 0⟩) := by
  refine ⟨⟨fun _ => 0, rfl⟩, fun h => ?_, fun h => ?_⟩
  · rcases routed_iff.mp h.routed with horder | hcall
    · cases horder
    · cases hcall
  · rcases (sameBytes_iff_palindromic _ _).mp h with horder | hfields
    · cases horder
    · exact absurd ((palindromic_fields_iff _).mp hfields).1 (by decide)

end HailortDrivers.ControlByteOrder
