import HailortDrivers.FirmwareImage
import HailortDrivers.MachineWord

/-!
The validation accepts exactly the strings of the format: header by header at
its offset first, then as a string cut into its parts.
-/
namespace HailortDrivers.FirmwareFormat
open LittleEndian VdmaTypes MachineWord FirmwareImage

/-- A header at offset `x` of the image with its code behind it. -/
structure FwHeaderAt (data : List UInt8) (x : Nat) (magic : UInt32) (maxCodeSize : Nat) :
    Prop where
  header_fits : x + 24 ≤ data.length
  magic_eq : wordIn data x = magic
  version_eq : wordIn data (x + 4) = 0
  code_ge : 80 ≤ (wordIn data (x + 20)).toNat
  code_le : (wordIn data (x + 20)).toNat ≤ maxCodeSize
  code_fits : x + 24 + (wordIn data (x + 20)).toNat ≤ data.length

/-- A certificate header at offset `x` with its key and content behind it. -/
structure CertificateAt (data : List UInt8) (x : Nat) : Prop where
  header_fits : x + 8 ≤ data.length
  key_le : (wordIn data x).toNat ≤ 0x1000
  content_le : (wordIn data (x + 4)).toNat ≤ 0x1000
  fits : x + 8 + (wordIn data x).toNat + (wordIn data (x + 4)).toNat ≤ data.length

variable {firmware : Firmware} {boardType : HailoBoardType}

@[simp] theorem validation_ok_bind {α β : Type} (a : α) (f : α → Validation β) :
    ((Except.ok a : Validation α) >>= f) = f a := rfl

@[simp] theorem validation_error_bind {α β : Type} (e : Stop) (f : α → Validation β) :
    ((Except.error e : Validation α) >>= f) = .error e := rfl

theorem Firmware.toNat_size (firmware : Firmware) :
    firmware.size.toNat = firmware.data.length := by
  rw [Firmware.size, UInt64.toNat_ofNat', Nat.mod_eq_of_lt firmware.length_lt]

theorem load32_ok {x : Nat} (h : x + 4 ≤ firmware.data.length) :
    firmware.load32 x = .ok (wordIn firmware.data x) := if_pos h

theorem consume_cond {consumed size : UInt32} (hroom : consumed.toNat + size.toNat < 2 ^ 32) :
    (firmware.size < size.toUInt64 ∨ firmware.size < (consumed + size).toUInt64) ↔
      firmware.data.length < consumed.toNat + size.toNat := by
  rw [UInt64.lt_iff_toNat_lt, UInt64.lt_iff_toNat_lt, Firmware.toNat_size,
    UInt32.toNat_toUInt64, UInt32.toNat_toUInt64, toNat_add_of_lt hroom]
  omega

theorem consumeFirmware_ok {consumed size : UInt32}
    (hroom : consumed.toNat + size.toNat < 2 ^ 32)
    (h : consumed.toNat + size.toNat ≤ firmware.data.length) :
    consumeFirmware firmware consumed size = .ok (consumed + size) :=
  if_neg fun hcond => absurd ((consume_cond hroom).mp hcond) (Nat.not_lt.mpr h)

theorem consumeFirmware_fail {consumed size : UInt32}
    (hroom : consumed.toNat + size.toNat < 2 ^ 32)
    (h : firmware.data.length < consumed.toNat + size.toNat) :
    consumeFirmware firmware consumed size = .error (.fail (-einval)) :=
  if_pos ((consume_cond hroom).mpr h)

theorem toNat_firmwareHeaderSize : firmwareHeaderSize.toNat = 24 := rfl

theorem toNat_certificateHeaderSize : certificateHeaderSize.toNat = 8 := rfl

section
variable {maxCodeSize consumed : UInt32}

theorem validateFwHeader_ok (consumed maxCodeSize : UInt32) {magic : UInt32}
    (hmagic : expectedFirmwareMagic boardType = some magic)
    (hroom : consumed.toNat + 24 + maxCodeSize.toNat < 2 ^ 32)
    (h : FwHeaderAt firmware.data consumed.toNat magic maxCodeSize.toNat) :
    ∃ next : UInt32,
      next.toNat = consumed.toNat + 24 + (wordIn firmware.data (consumed.toNat + 20)).toNat ∧
      validateFwHeader firmware maxCodeSize consumed boardType = .ok (next, consumed.toNat) := by
  have hfits := h.header_fits
  have hle := h.code_le
  have hsum : (consumed + firmwareHeaderSize).toNat = consumed.toNat + 24 := by
    rw [toNat_add_of_lt (by rw [toNat_firmwareHeaderSize]; omega), toNat_firmwareHeaderSize]
  have hge : ¬ minimumFirmwareCodeSize > wordIn firmware.data (consumed.toNat + 20) := by
    rw [gt_iff_lt, UInt32.lt_iff_toNat_lt]
    exact Nat.not_lt.mpr h.code_ge
  have hmax : ¬ maxCodeSize < wordIn firmware.data (consumed.toNat + 20) := by
    rw [UInt32.lt_iff_toNat_lt]
    exact Nat.not_lt.mpr hle
  have hfit := h.code_fits
  have hversion : 0 = firmwareHeaderVersionInitial := rfl
  refine ⟨consumed + firmwareHeaderSize + wordIn firmware.data (consumed.toNat + 20),
    by rw [toNat_add_of_lt (by omega), hsum], ?_⟩
  rw [validateFwHeader,
    consumeFirmware_ok (by rw [toNat_firmwareHeaderSize]; omega)
      (by rw [toNat_firmwareHeaderSize]; omega)]
  simp only [validation_ok_bind, hmagic]
  rw [load32_ok (by omega), validation_ok_bind, h.magic_eq, if_neg (not_not.mpr rfl),
    load32_ok (by omega), validation_ok_bind, h.version_eq, if_neg (not_not.mpr hversion),
    load32_ok (by omega), validation_ok_bind, if_neg hge, if_neg hmax,
    consumeFirmware_ok (by rw [hsum]; omega) (by rw [hsum]; omega), validation_ok_bind]

/-- Without a header of the format there the call fails, and never reads past the end. -/
theorem validateFwHeader_fail (hroom : consumed.toNat + 24 + maxCodeSize.toNat < 2 ^ 32)
    (h : ∀ magic, expectedFirmwareMagic boardType = some magic →
      ¬ FwHeaderAt firmware.data consumed.toNat magic maxCodeSize.toNat) :
    validateFwHeader firmware maxCodeSize consumed boardType = .error (.fail (-einval)) := by
  have hsum : (consumed + firmwareHeaderSize).toNat = consumed.toNat + 24 := by
    rw [toNat_add_of_lt (by rw [toNat_firmwareHeaderSize]; omega), toNat_firmwareHeaderSize]
  rw [validateFwHeader]
  by_cases hfits : consumed.toNat + 24 ≤ firmware.data.length
  swap
  · rw [consumeFirmware_fail (by rw [toNat_firmwareHeaderSize]; omega)
      (by rw [toNat_firmwareHeaderSize]; omega), validation_error_bind]
  rw [consumeFirmware_ok (by rw [toNat_firmwareHeaderSize]; omega)
    (by rw [toNat_firmwareHeaderSize]; omega), validation_ok_bind]
  cases hmagic : expectedFirmwareMagic boardType with
  | none => rfl
  | some magic =>
    simp only
    rw [load32_ok (by omega), validation_ok_bind]
    split
    · rfl
    · next hmagicEq =>
      rw [load32_ok (by omega), validation_ok_bind]
      split
      · rfl
      · next hversion =>
        rw [load32_ok (by omega), validation_ok_bind]
        split
        · rfl
        · next hge =>
          split
          · rfl
          · next hmax =>
            rw [gt_iff_lt, UInt32.lt_iff_toNat_lt] at hge
            rw [UInt32.lt_iff_toNat_lt] at hmax
            by_cases hcode : consumed.toNat + 24 +
                (wordIn firmware.data (consumed.toNat + 20)).toNat ≤ firmware.data.length
            · exact absurd ⟨hfits, (not_not.mp hmagicEq).symm, not_not.mp hversion,
                Nat.not_lt.mp hge, Nat.not_lt.mp hmax, hcode⟩ (h magic hmagic)
            · rw [consumeFirmware_fail (by rw [hsum]; omega) (by rw [hsum]; omega),
                validation_error_bind]

theorem validateCertHeader_ok (hroom : consumed.toNat + 8 + 0x2000 < 2 ^ 32)
    (h : CertificateAt firmware.data consumed.toNat) :
    ∃ next : UInt32,
      next.toNat = consumed.toNat + 8 + (wordIn firmware.data consumed.toNat).toNat +
        (wordIn firmware.data (consumed.toNat + 4)).toNat ∧
      validateCertHeader firmware consumed = .ok (next, consumed.toNat) := by
  obtain ⟨hheader, hkey, hcontent, hfits⟩ := h
  have hsum : (consumed + certificateHeaderSize).toNat = consumed.toNat + 8 := by
    rw [toNat_add_of_lt (by rw [toNat_certificateHeaderSize]; omega), toNat_certificateHeaderSize]
  have hsum' : (consumed + certificateHeaderSize + wordIn firmware.data consumed.toNat).toNat =
      consumed.toNat + 8 + (wordIn firmware.data consumed.toNat).toNat := by
    rw [toNat_add_of_lt (by rw [hsum]; omega), hsum]
  have hsmall : ¬ (maximumFirmwareCertKeySize < wordIn firmware.data consumed.toNat ∨
      maximumFirmwareCertContentSize < wordIn firmware.data (consumed.toNat + 4)) := by
    rw [UInt32.lt_iff_toNat_lt, UInt32.lt_iff_toNat_lt, not_or]
    exact ⟨Nat.not_lt.mpr hkey, Nat.not_lt.mpr hcontent⟩
  refine ⟨consumed + certificateHeaderSize + wordIn firmware.data consumed.toNat +
    wordIn firmware.data (consumed.toNat + 4), by rw [toNat_add_of_lt (by omega), hsum'], ?_⟩
  rw [validateCertHeader,
    consumeFirmware_ok (by rw [toNat_certificateHeaderSize]; omega)
      (by rw [toNat_certificateHeaderSize]; omega)]
  simp only [validation_ok_bind]
  rw [load32_ok (by omega), validation_ok_bind, load32_ok (by omega), validation_ok_bind,
    if_neg hsmall, consumeFirmware_ok (by rw [hsum]; omega) (by rw [hsum]; omega),
    validation_ok_bind, consumeFirmware_ok (by rw [hsum']; omega) (by rw [hsum']; omega),
    validation_ok_bind]

theorem validateCertHeader_fail (hroom : consumed.toNat + 8 + 0x2000 < 2 ^ 32)
    (h : ¬ CertificateAt firmware.data consumed.toNat) :
    validateCertHeader firmware consumed = .error (.fail (-einval)) := by
  have hsum : (consumed + certificateHeaderSize).toNat = consumed.toNat + 8 := by
    rw [toNat_add_of_lt (by rw [toNat_certificateHeaderSize]; omega), toNat_certificateHeaderSize]
  rw [validateCertHeader]
  by_cases hheader : consumed.toNat + 8 ≤ firmware.data.length
  swap
  · rw [consumeFirmware_fail (by rw [toNat_certificateHeaderSize]; omega)
      (by rw [toNat_certificateHeaderSize]; omega), validation_error_bind]
  rw [consumeFirmware_ok (by rw [toNat_certificateHeaderSize]; omega)
    (by rw [toNat_certificateHeaderSize]; omega)]
  simp only [validation_ok_bind]
  rw [load32_ok (by omega), validation_ok_bind, load32_ok (by omega), validation_ok_bind]
  split
  · rfl
  · next hsmall =>
    rw [UInt32.lt_iff_toNat_lt, UInt32.lt_iff_toNat_lt, not_or] at hsmall
    have hkey : (wordIn firmware.data consumed.toNat).toNat ≤ 0x1000 := Nat.not_lt.mp hsmall.1
    have hcontent : (wordIn firmware.data (consumed.toNat + 4)).toNat ≤ 0x1000 :=
      Nat.not_lt.mp hsmall.2
    by_cases hkeyFits : consumed.toNat + 8 + (wordIn firmware.data consumed.toNat).toNat ≤
        firmware.data.length
    swap
    · rw [consumeFirmware_fail (by rw [hsum]; omega) (by rw [hsum]; omega), validation_error_bind]
    have hsum' : (consumed + certificateHeaderSize + wordIn firmware.data consumed.toNat).toNat =
        consumed.toNat + 8 + (wordIn firmware.data consumed.toNat).toNat := by
      rw [toNat_add_of_lt (by rw [hsum]; omega), hsum]
    rw [consumeFirmware_ok (by rw [hsum]; omega) (by rw [hsum]; omega), validation_ok_bind]
    by_cases hfits : consumed.toNat + 8 + (wordIn firmware.data consumed.toNat).toNat +
        (wordIn firmware.data (consumed.toNat + 4)).toNat ≤ firmware.data.length
    · exact absurd ⟨hheader, hkey, hcontent, hfits⟩ h
    · rw [consumeFirmware_fail (by rw [hsum']; omega) (by rw [hsum']; omega),
        validation_error_bind]

end

/-! Cutting the string into its parts, behind the bytes that are consumed already. -/

section
variable (done rest : List UInt8) {magic : UInt32} {maxCodeSize : Nat}

theorem IsFwHeader.at {header code : List UInt8} (h : IsFwHeader magic maxCodeSize header code) :
    FwHeaderAt (done ++ (header ++ (code ++ rest))) done.length magic maxCodeSize ∧
      (wordIn (done ++ (header ++ (code ++ rest))) (done.length + 20)).toNat = code.length := by
  have hlen := h.length_eq
  have hword : ∀ y, y + 4 ≤ 24 →
      wordIn (done ++ (header ++ (code ++ rest))) (done.length + y) = wordIn header y := by
    intro y hy
    rw [wordIn_append_right, wordIn_append_left (by omega)]
  have hcode : (wordIn (done ++ (header ++ (code ++ rest))) (done.length + 20)).toNat =
      code.length := by
    rw [hword 20 (by decide), h.codeSize_eq]
  have hle := h.code_le
  refine ⟨⟨?_, ?_, ?_, ?_, ?_, ?_⟩, hcode⟩
  · simp only [List.length_append]
    omega
  · exact (hword 0 (by decide)).trans h.magic_eq
  · exact (hword 4 (by decide)).trans h.version_eq
  · rw [hcode]
    exact h.code_ge
  · rwa [hcode]
  · rw [hcode]
    simp only [List.length_append]
    omega

theorem FwHeaderAt.cut (h : FwHeaderAt (done ++ rest) done.length magic maxCodeSize) :
    ∃ header code left, rest = header ++ (code ++ left) ∧
      IsFwHeader magic maxCodeSize header code ∧
      (wordIn (done ++ rest) (done.length + 20)).toNat = code.length := by
  obtain ⟨hheader, hmagic, hversion, hge, hle, hfits⟩ := h
  have hword : ∀ y, y + 4 ≤ 24 →
      wordIn (done ++ rest) (done.length + y) = wordIn (rest.take 24) y := by
    intro y hy
    rw [List.length_append] at hheader
    rw [wordIn_append_right]
    conv_lhs => rw [← List.take_append_drop 24 rest]
    rw [wordIn_append_left (by rw [List.length_take]; omega)]
  have hmagic' : wordIn (rest.take 24) 0 = magic := (hword 0 (by decide)).symm.trans hmagic
  rw [hword 4 (by decide)] at hversion
  rw [hword 20 (by decide)] at hge hle hfits
  rw [List.length_append] at hheader hfits
  have hcode : ((rest.drop 24).take (wordIn (rest.take 24) 20).toNat).length =
      (wordIn (rest.take 24) 20).toNat := by
    rw [List.length_take, List.length_drop]
    omega
  refine ⟨rest.take 24, (rest.drop 24).take (wordIn (rest.take 24) 20).toNat,
    (rest.drop 24).drop (wordIn (rest.take 24) 20).toNat, ?_, ⟨?_, hmagic', hversion, ?_, ?_, ?_⟩,
    ?_⟩
  · rw [List.take_append_drop, List.take_append_drop]
  · rw [List.length_take]
    omega
  · exact hcode.symm
  · rwa [hcode]
  · rwa [hcode]
  · rw [hword 20 (by decide), hcode]

theorem IsCertificate.at {header key content : List UInt8} (h : IsCertificate header key content) :
    CertificateAt (done ++ (header ++ (key ++ (content ++ rest)))) done.length ∧
      (wordIn (done ++ (header ++ (key ++ (content ++ rest)))) done.length).toNat = key.length ∧
      (wordIn (done ++ (header ++ (key ++ (content ++ rest)))) (done.length + 4)).toNat =
        content.length := by
  have hlen := h.length_eq
  have hword : ∀ y, y + 4 ≤ 8 →
      wordIn (done ++ (header ++ (key ++ (content ++ rest)))) (done.length + y) =
        wordIn header y := by
    intro y hy
    rw [wordIn_append_right, wordIn_append_left (by omega)]
  have hkey : (wordIn (done ++ (header ++ (key ++ (content ++ rest)))) done.length).toNat =
      key.length := (congrArg UInt32.toNat (hword 0 (by decide))).trans h.keySize_eq
  have hcontent : (wordIn (done ++ (header ++ (key ++ (content ++ rest))))
      (done.length + 4)).toNat = content.length := by
    rw [hword 4 (by decide), h.contentSize_eq]
  refine ⟨⟨?_, ?_, ?_, ?_⟩, hkey, hcontent⟩
  · simp only [List.length_append]
    omega
  · rw [hkey]
    exact h.key_le
  · rw [hcontent]
    exact h.content_le
  · rw [hkey, hcontent]
    simp only [List.length_append]
    omega

theorem CertificateAt.cut (h : CertificateAt (done ++ rest) done.length) :
    ∃ header key content left, rest = header ++ (key ++ (content ++ left)) ∧
      IsCertificate header key content ∧
      (wordIn (done ++ rest) done.length).toNat = key.length ∧
      (wordIn (done ++ rest) (done.length + 4)).toNat = content.length := by
  obtain ⟨hheader, hkey, hcontent, hfits⟩ := h
  have hword : ∀ y, y + 4 ≤ 8 →
      wordIn (done ++ rest) (done.length + y) = wordIn (rest.take 8) y := by
    intro y hy
    rw [List.length_append] at hheader
    rw [wordIn_append_right]
    conv_lhs => rw [← List.take_append_drop 8 rest]
    rw [wordIn_append_left (by rw [List.length_take]; omega)]
  have hfirst : wordIn (done ++ rest) done.length = wordIn (rest.take 8) 0 := hword 0 (by decide)
  rw [hfirst] at hkey hfits ⊢
  rw [hword 4 (by decide)] at hcontent hfits ⊢
  rw [List.length_append] at hheader hfits
  generalize hk : (wordIn (rest.take 8) 0).toNat = keySize at *
  generalize hc : (wordIn (rest.take 8) 4).toNat = contentSize at *
  have hkeyLen : ((rest.drop 8).take keySize).length = keySize := by
    rw [List.length_take, List.length_drop]
    omega
  have hcontentLen : (((rest.drop 8).drop keySize).take contentSize).length = contentSize := by
    rw [List.length_take, List.length_drop, List.length_drop]
    omega
  refine ⟨rest.take 8, (rest.drop 8).take keySize, ((rest.drop 8).drop keySize).take contentSize,
    ((rest.drop 8).drop keySize).drop contentSize, ?_, ⟨?_, ?_, ?_, ?_, ?_⟩, hkeyLen.symm,
    hcontentLen.symm⟩
  · rw [List.take_append_drop, List.take_append_drop, List.take_append_drop]
  · rw [List.length_take]
    omega
  · rw [hk, hkeyLen]
  · rw [hc, hcontentLen]
  · rwa [hkeyLen]
  · rwa [hcontentLen]

end

section
variable {acceleratorType : HailoAcceleratorType} {magic : UInt32}

theorem toNat_maximumCoreFirmwareCodeSize : maximumCoreFirmwareCodeSize.toNat = 0x20000 := rfl

/-- The app header of an image is found at its start. -/
theorem app_found (hmagic : expectedFirmwareMagic boardType = some magic)
    {header code rest : List UInt8} (hdata : firmware.data = header ++ (code ++ rest))
    (h : IsFwHeader magic 0x40000 header code) :
    ∃ next : UInt32, next.toNat = (header ++ code).length ∧
      validateFwHeader firmware maximumAppFirmwareCodeSize 0 boardType = .ok (next, 0) := by
  obtain ⟨hat, hcode⟩ := IsFwHeader.at [] rest h
  rw [List.nil_append, List.length_nil, ← hdata] at hat hcode
  obtain ⟨next, hnext, hok⟩ := validateFwHeader_ok 0 maximumAppFirmwareCodeSize hmagic (by decide)
    hat
  refine ⟨next, ?_, hok⟩
  have hlen := h.length_eq
  change next.toNat = 0 + 24 + (wordIn firmware.data (0 + 20)).toNat at hnext
  rw [List.length_append]
  omega

theorem certificate_found {done header key content rest : List UInt8} {consumed : UInt32}
    (hdata : firmware.data = done ++ (header ++ (key ++ (content ++ rest))))
    (hconsumed : consumed.toNat = done.length) (hroom : done.length + 8 + 0x2000 < 2 ^ 32)
    (h : IsCertificate header key content) :
    ∃ next : UInt32,
      next.toNat = (done ++ (header ++ (key ++ content))).length ∧
      validateCertHeader firmware consumed = .ok (next, done.length) := by
  obtain ⟨hat, hkey, hcontent⟩ := IsCertificate.at done rest h
  rw [← hdata, ← hconsumed] at hat hkey hcontent
  obtain ⟨next, hnext, hok⟩ := validateCertHeader_ok (by omega) hat
  refine ⟨next, ?_, by rw [hok, hconsumed]⟩
  have hlen := h.length_eq
  simp only [List.length_append]
  omega

theorem core_found (hmagic : expectedFirmwareMagic boardType = some magic)
    {done header code rest : List UInt8} {consumed : UInt32}
    (hdata : firmware.data = done ++ (header ++ (code ++ rest)))
    (hconsumed : consumed.toNat = done.length) (hroom : done.length + 24 + 0x20000 < 2 ^ 32)
    (h : IsFwHeader magic 0x20000 header code) :
    ∃ next : UInt32, next.toNat = (done ++ (header ++ code)).length ∧
      validateFwHeader firmware maximumCoreFirmwareCodeSize consumed boardType =
        .ok (next, done.length) := by
  obtain ⟨hat, hcode⟩ := IsFwHeader.at done rest h
  rw [← hdata, ← hconsumed] at hat hcode
  obtain ⟨next, hnext, hok⟩ := validateFwHeader_ok consumed maximumCoreFirmwareCodeSize
    hmagic (by rw [toNat_maximumCoreFirmwareCodeSize]; omega) hat
  refine ⟨next, ?_, by rw [hok, hconsumed]⟩
  have hlen := h.length_eq
  simp only [List.length_append]
  omega

theorem consumed_eq_size_iff {consumed : UInt32} :
    consumed.toUInt64 ≠ firmware.size ↔ consumed.toNat ≠ firmware.data.length := by
  rw [ne_eq, ← UInt64.toNat_inj, UInt32.toNat_toUInt64, Firmware.toNat_size]

/-- A string of the format is accepted, with the headers where they lie. -/
theorem findHeaders_ok {parts : ImageParts}
    (h : parts.WellFormed boardType acceleratorType magic) (hdata : parts.bytes = firmware.data) :
    findHeaders firmware boardType acceleratorType = .ok parts.headers := by
  obtain ⟨hmagic, happ, hcert, hcore⟩ := h
  obtain ⟨appHeader, appCode, certHeader, key, content, core⟩ := parts
  simp only [ImageParts.bytes] at *
  have happLen := happ.length_eq
  have happLe := happ.code_le
  have hcertLen := hcert.length_eq
  have hkeyLe := hcert.key_le
  have hcontentLe := hcert.content_le
  obtain ⟨next, hnext, happOk⟩ := app_found hmagic hdata.symm happ
  have hdata' : firmware.data = (appHeader ++ appCode) ++
      (certHeader ++ (key ++ (content ++ coreBytes core))) := by
    rw [← hdata]
    simp only [List.append_assoc]
  obtain ⟨next', hnext', hcertOk⟩ := certificate_found hdata' hnext
    (by rw [List.length_append]; omega) hcert
  have hdone : (appHeader ++ appCode).length = 24 + appCode.length := by
    rw [List.length_append, happLen]
  have hdone' : ((appHeader ++ appCode) ++ (certHeader ++ (key ++ content))).length =
      24 + appCode.length + 8 + key.length + content.length := by
    simp only [List.length_append]
    omega
  rw [findHeaders, happOk]
  simp only [validation_ok_bind]
  rw [hcertOk]
  simp only [validation_ok_bind]
  match acceleratorType, core, hcore with
  | .nnc, some (header, code), hcore =>
    have hdata'' : firmware.data = ((appHeader ++ appCode) ++ (certHeader ++ (key ++ content))) ++
        (header ++ (code ++ [])) := by
      rw [← hdata, coreBytes]
      simp only [List.append_assoc, List.append_nil]
    obtain ⟨last, hlast, hcoreOk⟩ := core_found hmagic hdata'' hnext'
      (by rw [hdone']; omega) hcore
    rw [hcoreOk]
    simp only [validation_ok_bind]
    have hall : last.toNat = firmware.data.length := by
      rw [hlast, hdata'', List.append_nil]
    rw [if_neg (fun hne => consumed_eq_size_iff.mp hne hall)]
    simp only [ImageParts.headers, hdone, hdone', Option.map_some]
  | .soc, none, _ =>
    simp only
    have hall : next'.toNat = firmware.data.length := by
      rw [hnext', hdata', coreBytes]
      simp only [List.append_assoc, List.append_nil]
    rw [if_neg (fun hne => consumed_eq_size_iff.mp hne hall)]
    simp only [ImageParts.headers, hdone, Option.map_none]

/-- What is not accepted is turned down, without a read past the end. -/
theorem findHeaders_fail
    (h : ∀ parts : ImageParts, ∀ magic, parts.WellFormed boardType acceleratorType magic →
      parts.bytes ≠ firmware.data) :
    findHeaders firmware boardType acceleratorType = .error (.fail (-einval)) := by
  by_cases happ : ∃ magic, expectedFirmwareMagic boardType = some magic ∧
      FwHeaderAt firmware.data (0 : UInt32).toNat magic maximumAppFirmwareCodeSize.toNat
  swap
  · rw [findHeaders, validateFwHeader_fail (by decide)
      fun magic hmagic hat => happ ⟨magic, hmagic, hat⟩, validation_error_bind]
  obtain ⟨magic, hmagic, hat⟩ := happ
  obtain ⟨appHeader, appCode, rest, hrest, hisApp, _⟩ :=
    FwHeaderAt.cut [] firmware.data hat
  obtain ⟨next, hnext, happOk⟩ := app_found hmagic hrest hisApp
  have happLen := hisApp.length_eq
  have happLe : appCode.length ≤ 0x40000 := hisApp.code_le
  have hdone : (appHeader ++ appCode).length = 24 + appCode.length := by
    rw [List.length_append, happLen]
  rw [findHeaders, happOk]
  simp only [validation_ok_bind]
  by_cases hcertAt : CertificateAt firmware.data next.toNat
  swap
  · rw [validateCertHeader_fail (by rw [hnext, hdone]; omega) hcertAt, validation_error_bind]
  rw [← List.append_assoc] at hrest
  rw [hnext, hrest] at hcertAt
  obtain ⟨certHeader, key, content, left, hleft, hisCert, _, _⟩ := CertificateAt.cut _ _ hcertAt
  rw [hleft] at hrest
  obtain ⟨next', hnext', hcertOk⟩ := certificate_found hrest hnext (by rw [hdone]; omega) hisCert
  rw [hcertOk]
  simp only [validation_ok_bind]
  have hcertLen := hisCert.length_eq
  have hkeyLe := hisCert.key_le
  have hcontentLe := hisCert.content_le
  have hdata : firmware.data =
      ((appHeader ++ appCode) ++ (certHeader ++ (key ++ content))) ++ left := by
    rw [hrest]
    simp only [List.append_assoc]
  have hdone' : ((appHeader ++ appCode) ++ (certHeader ++ (key ++ content))).length =
      24 + appCode.length + 8 + key.length + content.length := by
    simp only [List.length_append]
    omega
  cases acceleratorType with
  | soc =>
    simp only
    refine if_pos (consumed_eq_size_iff.mpr fun hall => ?_)
    have hnil : left = [] := by
      rw [hnext', hdata, List.append_assoc] at hall
      simp only [List.length_append] at hall
      exact List.length_eq_zero_iff.mp (by omega)
    refine h ⟨appHeader, appCode, certHeader, key, content, none⟩ magic
      ⟨hmagic, hisApp, hisCert, trivial⟩ ?_
    rw [hdata, hnil, ImageParts.bytes, coreBytes]
    simp only [List.append_assoc]
  | nnc =>
    by_cases hcoreAt : FwHeaderAt firmware.data next'.toNat magic
        maximumCoreFirmwareCodeSize.toNat
    swap
    · rw [validateFwHeader_fail (by rw [toNat_maximumCoreFirmwareCodeSize, hnext', hdone']; omega)
        fun magic' hmagic' hat' => ?_]
      · rfl
      · rw [hmagic] at hmagic'
        exact hcoreAt (Option.some.inj hmagic' ▸ hat')
    rw [hnext', hdata] at hcoreAt
    obtain ⟨header, code, last, hlast, hisCore, _⟩ := FwHeaderAt.cut _ _ hcoreAt
    rw [hlast] at hdata
    obtain ⟨next'', hnext'', hcoreOk⟩ := core_found hmagic hdata hnext'
      (by rw [hdone']; omega) hisCore
    rw [hcoreOk]
    simp only [validation_ok_bind]
    refine if_pos (consumed_eq_size_iff.mpr fun hall => ?_)
    have hnil : last = [] := by
      rw [hnext'', hdata] at hall
      simp only [List.length_append] at hall
      exact List.length_eq_zero_iff.mp (by omega)
    refine h ⟨appHeader, appCode, certHeader, key, content, some (header, code)⟩ magic
      ⟨hmagic, hisApp, hisCert, hisCore⟩ ?_
    rw [hdata, hnil, ImageParts.bytes, coreBytes]
    simp only [List.append_assoc, List.append_nil]

end

/-- A file is either an image of the format, with its headers found, or turned down. -/
theorem validateFwHeaders_cases (firmware : Firmware) (outs : OutParams)
    (boardType : HailoBoardType) (acceleratorType : HailoAcceleratorType) :
    (∃ (parts : ImageParts) (magic : UInt32),
      parts.WellFormed boardType acceleratorType magic ∧ parts.bytes = firmware.data ∧
      validateFwHeaders firmware outs boardType acceleratorType =
        some (0, outs.write parts.headers)) ∨
    validateFwHeaders firmware outs boardType acceleratorType = some (-einval, outs) := by
  by_cases h : ∃ (parts : ImageParts) (magic : UInt32),
      parts.WellFormed boardType acceleratorType magic ∧ parts.bytes = firmware.data
  · obtain ⟨parts, magic, hparts, hdata⟩ := h
    refine .inl ⟨parts, magic, hparts, hdata, ?_⟩
    rw [validateFwHeaders, findHeaders_ok hparts hdata]
  · refine .inr ?_
    rw [validateFwHeaders, findHeaders_fail fun parts magic hparts hdata =>
      h ⟨parts, magic, hparts, hdata⟩]

/-- The call always ends with 0 or an error and reads only inside the image. It is 0 exactly
for the strings of the format, and then the out parameters get the headers; on an error they
stay as they were. -/
theorem validateFwHeaders_exact (firmware : Firmware) (outs : OutParams)
    (boardType : HailoBoardType) (acceleratorType : HailoAcceleratorType) :
    ∃ err after, validateFwHeaders firmware outs boardType acceleratorType = some (err, after) ∧
      (err = 0 ↔ ∃ (parts : ImageParts) (magic : UInt32),
        parts.WellFormed boardType acceleratorType magic ∧ parts.bytes = firmware.data) ∧
      (err ≠ 0 → after = outs) ∧
      ∀ (parts : ImageParts) (magic : UInt32),
        parts.WellFormed boardType acceleratorType magic → parts.bytes = firmware.data →
          after = outs.write parts.headers := by
  by_cases h : ∃ (parts : ImageParts) (magic : UInt32),
      parts.WellFormed boardType acceleratorType magic ∧ parts.bytes = firmware.data
  · obtain ⟨parts, magic, hparts, hdata⟩ := h
    refine ⟨0, outs.write parts.headers, ?_, ⟨fun _ => ⟨parts, magic, hparts, hdata⟩, fun _ => rfl⟩,
      fun hne => absurd rfl hne, fun parts' magic' hparts' hdata' => ?_⟩
    · rw [validateFwHeaders, findHeaders_ok hparts hdata]
    · have heq := (findHeaders_ok hparts hdata).symm.trans (findHeaders_ok hparts' hdata')
      rw [Except.ok.inj heq]
  · refine ⟨-einval, outs, ?_, ⟨fun herr => absurd herr (by decide), fun hparts => absurd hparts h⟩,
      fun _ => rfl, fun parts magic hparts hdata => absurd ⟨parts, magic, hparts, hdata⟩ h⟩
    rw [validateFwHeaders, findHeaders_fail fun parts magic hparts hdata =>
      h ⟨parts, magic, hparts, hdata⟩]

/-! An image of the format, put together from its code and its certificate. -/

def packFwHeader (magic : UInt32) (code : List UInt8) : List UInt8 :=
  wordBytes magic ++ (wordBytes 0 ++ (wordBytes 0 ++ (wordBytes 0 ++ (wordBytes 0 ++
    (wordBytes (UInt32.ofNat code.length) ++ [])))))

theorem packFwHeader_isFwHeader (magic : UInt32) {maxCodeSize : Nat} {code : List UInt8}
    (hmin : 80 ≤ code.length) (hmax : code.length ≤ maxCodeSize) (hlt : maxCodeSize < 2 ^ 32) :
    IsFwHeader magic maxCodeSize (packFwHeader magic code) code where
  length_eq := rfl
  magic_eq := wordIn_wordBytes_append magic _
  version_eq := by
    rw [packFwHeader, show 4 = 4 + 0 from rfl, wordIn_skip, wordIn_wordBytes_append]
  codeSize_eq := by
    rw [packFwHeader, show 20 = 4 + (4 + (4 + (4 + (4 + 0)))) from rfl, wordIn_skip, wordIn_skip,
      wordIn_skip, wordIn_skip, wordIn_skip, wordIn_wordBytes_append, UInt32.toNat_ofNat',
      Nat.mod_eq_of_lt (by omega)]
  code_ge := hmin
  code_le := hmax

def packCertHeader (key content : List UInt8) : List UInt8 :=
  wordBytes (UInt32.ofNat key.length) ++ (wordBytes (UInt32.ofNat content.length) ++ [])

theorem packCertHeader_isCertificate {key content : List UInt8} (hkey : key.length ≤ 0x1000)
    (hcontent : content.length ≤ 0x1000) :
    IsCertificate (packCertHeader key content) key content where
  length_eq := rfl
  keySize_eq := by
    rw [packCertHeader, wordIn_wordBytes_append, UInt32.toNat_ofNat', Nat.mod_eq_of_lt (by omega)]
  contentSize_eq := by
    rw [packCertHeader, show 4 = 4 + 0 from rfl, wordIn_skip, wordIn_wordBytes_append,
      UInt32.toNat_ofNat', Nat.mod_eq_of_lt (by omega)]
  key_le := hkey
  content_le := hcontent

/-- A Hailo-8 image of the smallest code and a given certificate. -/
def packHailo8 (key content : List UInt8) : ImageParts where
  appHeader := packFwHeader firmwareHeaderMagicHailo8 (List.replicate 80 0)
  appCode := List.replicate 80 0
  certHeader := packCertHeader key content
  key := key
  content := content
  core := some (packFwHeader firmwareHeaderMagicHailo8 (List.replicate 80 0), List.replicate 80 0)

theorem packHailo8_wellFormed {key content : List UInt8} (hkey : key.length ≤ 0x1000)
    (hcontent : content.length ≤ 0x1000) :
    (packHailo8 key content).WellFormed .hailo8 .nnc firmwareHeaderMagicHailo8 where
  magic_eq := rfl
  app := packFwHeader_isFwHeader _ (by decide) (by decide) (by decide)
  certificate := packCertHeader_isCertificate hkey hcontent
  core := packFwHeader_isFwHeader _ (by decide) (by decide) (by decide)

theorem length_packHailo8 (key content : List UInt8) :
    (packHailo8 key content).bytes.length = 216 + key.length + content.length := by
  have happ : (packFwHeader firmwareHeaderMagicHailo8 (List.replicate 80 0)).length = 24 := rfl
  have hcert : (packCertHeader key content).length = 8 := rfl
  simp only [ImageParts.bytes, packHailo8, coreBytes, List.length_append, List.length_replicate,
    happ, hcert]
  omega

end HailortDrivers.FirmwareFormat
