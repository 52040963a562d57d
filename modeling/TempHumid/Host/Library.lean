import TempHumid.Avr.Usb
import TempHumid.Th2.InData

/-!
# The getters of the host library

`libth_get_temperature` and `libth_get_humidity` from `libtemphumid`, against
either firmware. Each getter asks for its own report and, when that transfer
does not bring four bytes, for both words at once.

## Implementation notes

A reading is the integer before the division by 100, and `none` stands for
`NAN`. Of `libusb_control_transfer` it is assumed that a reply of at most
`wLength` bytes is delivered with its length, and that a longer one is an
error. A device at the time of a transfer is a `Moment`; what happens between
the two transfers of a call is the choice of the second moment.
-/

namespace TempHumid.Host

open Words

/-- The setup fields of a `libusb_control_transfer`. -/
structure ControlTransfer where
  bmRequestType : Byte
  bRequest : Byte
  wValue : BitVec 16
  wIndex : BitVec 16
  wLength : BitVec 16
  deriving DecidableEq

def lowByte (w : BitVec 16) : Byte := w.setWidth 8
def highByte (w : BitVec 16) : Byte := (w >>> 8).setWidth 8

/-- The SETUP packet on the bus. -/
def ControlTransfer.packet (t : ControlTransfer) : List Byte :=
  [t.bmRequestType, t.bRequest, lowByte t.wValue, highByte t.wValue, lowByte t.wIndex,
    highByte t.wIndex, lowByte t.wLength, highByte t.wLength]

def libusbRequestTypeClass : Byte := 0x20
def libusbRecipientInterface : Byte := 0x01
def libusbEndpointIn : Byte := 0x80

def requestType : Byte :=
  libusbRequestTypeClass ||| libusbRecipientInterface ||| libusbEndpointIn

/-- `HID_GET_REPORT` as the library asks for it. -/
def getReport (wValue wLength : BitVec 16) : ControlTransfer where
  bmRequestType := requestType
  bRequest := 1
  wValue := wValue
  wIndex := 0
  wLength := wLength

/-- The selection of report `i + 1` in `wValue`. -/
def reportValue (i : Fin 2) : BitVec 16 := 1 <<< 8 ||| BitVec.ofNat 16 (i + 1)

/-- The outcome of a transfer: the bytes received, or `none` for an error. -/
abbrev Transfer := ControlTransfer → Option (List Byte)

structure LibthDev where
  dev : Option ℕ
  deriving DecidableEq

/-- The guard `!dev || !dev->dev || !ctx`, negated. -/
def usable (ctx : Bool) (dev : Option LibthDev) : Bool :=
  ctx && dev.any fun d => d.dev.isSome

/-- The second transfer of a getter, for both words. -/
def fallback (i : Fin 2) (second : Transfer) : Option ℤ :=
  match second (getReport (1 <<< 8) 8) with
  | some bytes => if bytes.length = 8 then some (signed ((bytes.drop (4 * i)).take 4)) else none
  | none => none

/-- The body that the two getters share, for word `i` and report `i + 1`. -/
def libthGet (i : Fin 2) (ctx : Bool) (dev : Option LibthDev) (first second : Transfer) :
    Option ℤ :=
  if usable ctx dev then
    match first (getReport (reportValue i) 4) with
    | some bytes => if bytes.length = 4 then some (signed bytes) else fallback i second
    | none => fallback i second
  else none

def libthGetTemperature (ctx : Bool) (dev : Option LibthDev) (first second : Transfer) :
    Option ℤ :=
  libthGet ⟨0, Nat.two_pos⟩ ctx dev first second

def libthGetHumidity (ctx : Bool) (dev : Option LibthDev) (first second : Transfer) : Option ℤ :=
  libthGet ⟨1, Nat.one_lt_two⟩ ctx dev first second

/-! ## Devices -/

inductive Kind
  | avr
  | th2
  deriving DecidableEq

/-- A device while one transfer lasts: the state of its USB stack, its other
memory, the number of IN transactions after the first, and `usb_val`. -/
inductive Moment : Kind → Type
  | avr (d : Avr.Driver) (rom : Avr.Source → List Byte) (n : ℕ) (v : UsbVal) : Moment .avr
  | th2 (u : Th2.Usb) (hw : Th2.Hw) (rest : Th2.Payload → List Byte) (n : ℕ) (v : UsbVal) :
      Moment .th2

namespace Moment

def usbVal {k : Kind} : Moment k → UsbVal
  | avr _ _ _ v => v
  | th2 _ _ _ _ v => v

/-- The data that the device sends for a SETUP packet, `none` for a stall. -/
def reply {k : Kind} : Moment k → List Byte → Option (List Byte)
  | avr d rom n v, packet => some (Avr.inReply rom v n packet d)
  | th2 u hw rest n v, packet => Th2.inReply hw (Th2.payloadMem v rest) n packet u

/-- A transfer with the device, which may fail for a reason of its own. -/
def transfer {k : Kind} (m : Moment k) (fails : Bool) : Transfer := fun t =>
  if fails then none else (m.reply t.packet).filter fun bytes => bytes.length ≤ t.wLength.toNat

end Moment

/-- The two bytes of a word make up the word again. -/
theorem low_high (w : BitVec 16) :
    (highByte w).setWidth 16 <<< 8 + (lowByte w).setWidth 16 = w := by
  have hlt := w.isLt
  apply BitVec.eq_of_toNat_eq
  rw [BitVec.toNat_add, BitVec.toNat_shiftLeft, highByte, lowByte, BitVec.toNat_setWidth,
    BitVec.toNat_setWidth, BitVec.toNat_setWidth, BitVec.toNat_setWidth, BitVec.toNat_ushiftRight,
    Nat.shiftRight_eq_div_pow, Nat.shiftLeft_eq]
  omega

/-- The th2 firmware reads the fields of the request back from its packet. -/
theorem fetchRam_packet (t : ControlTransfer) : Th2.fetchRam t.packet =
    ⟨t.bmRequestType, t.bRequest, t.wValue, t.wIndex, t.wLength⟩ := by
  rw [Th2.fetchRam]
  simp only [ControlTransfer.packet, List.getD_cons_zero, List.getD_cons_succ, low_high]

/-- A device without a failure of its own delivers a reply that fits. -/
theorem transfer_of_le {k : Kind} {m : Moment k} {t : ControlTransfer} {bytes : List Byte}
    (hreply : m.reply t.packet = some bytes) (hle : bytes.length ≤ t.wLength.toNat) :
    m.transfer false t = some bytes := by
  simp [Moment.transfer, hreply, hle]

theorem transfer_of_lt {k : Kind} {m : Moment k} {t : ControlTransfer} {bytes : List Byte}
    (hreply : m.reply t.packet = some bytes) (hlt : t.wLength.toNat < bytes.length) :
    m.transfer false t = none := by
  simp [Moment.transfer, hreply, hlt]

/-! ## The AVR firmware -/

section Avr

variable (d : Avr.Driver) (rom : Avr.Source → List Byte) (n : ℕ) (v : UsbVal)

theorem isGetReport_packet (wValue wLength : BitVec 16) :
    Avr.IsGetReport (getReport wValue wLength).packet where
  length := rfl
  type := (by decide : requestType &&& Avr.typeMask = Avr.typeClass)
  bRequest := rfl

/-- The report is answered with its word. -/
theorem avr_report (i : Fin 2) :
    (Moment.avr d rom n v).transfer false (getReport (reportValue i) 4) =
      some ((v.bytes.drop (4 * i)).take 4) := by
  have hid : lowByte (reportValue i) = BitVec.ofNat 8 (i + 1) := by
    revert i
    decide
  have hlimit : ∀ i, (Avr.limitLength
      (Avr.UsbRequest.ofData (getReport (reportValue i) 4).packet) 4).toNat = 4 := by
    decide
  have hreply := (isGetReport_packet (reportValue i) 4).inReply_report rom v d i hid n
  rw [hlimit] at hreply
  apply transfer_of_le
  · exact congrArg some hreply
  · exact List.length_take_le 4 _

/-- The request for both words has report ID 0 and is answered without data. -/
theorem avr_both : (Moment.avr d rom n v).transfer false (getReport (1 <<< 8) 8) = some [] := by
  apply transfer_of_le
  · exact congrArg some
      ((isGetReport_packet (1 <<< 8) 8).inReply_other rom v d (by decide) (by decide) n)
  · exact Nat.zero_le _

end Avr

/-! ## The th2 firmware -/

section Th2

variable (u : Th2.Usb) (hw : Th2.Hw) (rest : Th2.Payload → List Byte) (n : ℕ) (v : UsbVal)

/-- Every request for an input report is answered with both words. -/
theorem th2_reply {wValue wLength : BitVec 16} (hreport : wValue >>> 8 = 1) (hlen : wLength ≠ 0) :
    (Moment.th2 u hw rest n v).reply (getReport wValue wLength).packet = some v.bytes := by
  have hfetch := fetchRam_packet (getReport wValue wLength)
  apply Th2.inReply_getInput
  · rfl
  · rw [hfetch]
    exact ⟨(by decide : requestType &&& 0x80 = 0x80),
      (by decide : requestType &&& 0x60 = Th2.typeClass),
      (by decide : requestType &&& 0x1f = Th2.recipInterface), rfl, hreport, hlen⟩
  · rw [hfetch]
    change (0 : BitVec 16) ≠ 1
    decide
  · rw [hfetch]
    change (0 : BitVec 16) ≠ 2
    decide

/-- The reply to the first request is too long. -/
theorem th2_report (i : Fin 2) :
    (Moment.th2 u hw rest n v).transfer false (getReport (reportValue i) 4) = none := by
  have hreport : reportValue i >>> 8 = 1 := by
    revert i
    decide
  apply transfer_of_lt (th2_reply u hw rest n v hreport (by decide))
  rw [UsbVal.bytes_length]
  change 4 < 8
  decide

theorem th2_both :
    (Moment.th2 u hw rest n v).transfer false (getReport (1 <<< 8) 8) = some v.bytes := by
  apply transfer_of_le (th2_reply u hw rest n v (by decide) (by decide))
  rw [UsbVal.bytes_length]
  decide

end Th2

/-! ## The getters -/

section Getters

variable (h : ℕ) (i : Fin 2)

/-- Against the AVR firmware the first transfer decides. -/
theorem libthGet_avr (m₁ m₂ : Moment .avr) (f₁ f₂ : Bool) :
    libthGet i true (some ⟨some h⟩) (m₁.transfer f₁) (m₂.transfer f₂) =
      if f₁ then none else some (m₁.usbVal.word i).toInt := by
  cases m₁ with | avr d₁ rom₁ n₁ v₁ =>
  cases m₂ with | avr d₂ rom₂ n₂ v₂ =>
  have hfallback : fallback i ((Moment.avr d₂ rom₂ n₂ v₂).transfer f₂) = none := by
    cases f₂ with
    | true => rfl
    | false =>
        rw [fallback, avr_both]
        rfl
  have husable : usable true (some ⟨some h⟩) = true := rfl
  rw [libthGet, if_pos husable]
  cases f₁ with
  | true => exact hfallback
  | false =>
      have hlen : ((v₁.bytes.drop (4 * i)).take 4).length = 4 := by
        rw [List.length_take, List.length_drop, UsbVal.bytes_length]
        omega
      rw [avr_report]
      simp only [if_pos hlen, UsbVal.signed_word]
      rfl

/-- Against the th2 firmware the second transfer decides. -/
theorem libthGet_th2 (m₁ m₂ : Moment .th2) (f₁ f₂ : Bool) :
    libthGet i true (some ⟨some h⟩) (m₁.transfer f₁) (m₂.transfer f₂) =
      if f₂ then none else some (m₂.usbVal.word i).toInt := by
  cases m₁ with | th2 u₁ hw₁ rest₁ n₁ v₁ =>
  cases m₂ with | th2 u₂ hw₂ rest₂ n₂ v₂ =>
  have hfirst : (Moment.th2 u₁ hw₁ rest₁ n₁ v₁).transfer f₁ (getReport (reportValue i) 4) = none := by
    cases f₁ with
    | true => rfl
    | false => exact th2_report u₁ hw₁ rest₁ n₁ v₁ i
  have husable : usable true (some ⟨some h⟩) = true := rfl
  rw [libthGet, if_pos husable, hfirst]
  change fallback i _ = _
  cases f₂ with
  | true => rfl
  | false =>
      rw [fallback, th2_both]
      simp only [UsbVal.bytes_length, if_true, UsbVal.signed_word]
      rfl

/-- A getter yields its own word as it was held during one of the two transfers,
and `NAN` only when a transfer that it makes fails. -/
theorem libthGet_sound {k : Kind} (m₁ m₂ : Moment k) (f₁ f₂ : Bool) :
    (∀ x, libthGet i true (some ⟨some h⟩) (m₁.transfer f₁) (m₂.transfer f₂) = some x →
      x = (m₁.usbVal.word i).toInt ∨ x = (m₂.usbVal.word i).toInt) ∧
    (f₁ = false → (k = .th2 → f₂ = false) →
      libthGet i true (some ⟨some h⟩) (m₁.transfer f₁) (m₂.transfer f₂) ≠ none) := by
  cases k with
  | avr =>
      rw [libthGet_avr]
      constructor
      · intro x hx
        left
        cases f₁ with
        | true => cases hx
        | false => exact (Option.some.inj hx).symm
      · rintro rfl _ hnone
        cases hnone
  | th2 =>
      rw [libthGet_th2]
      constructor
      · intro x hx
        right
        cases f₂ with
        | true => cases hx
        | false => exact (Option.some.inj hx).symm
      · intro _ hf hnone
        rw [hf rfl] at hnone
        cases hnone

end Getters

/-- Both getters against either firmware, with a live context and an open device. -/
theorem getters_sound {k : Kind} (h : ℕ) (m₁ m₂ : Moment k) (f₁ f₂ : Bool) :
    (∀ x, libthGetTemperature true (some ⟨some h⟩) (m₁.transfer f₁) (m₂.transfer f₂) = some x →
      x = m₁.usbVal.w0.toInt ∨ x = m₂.usbVal.w0.toInt) ∧
    (∀ x, libthGetHumidity true (some ⟨some h⟩) (m₁.transfer f₁) (m₂.transfer f₂) = some x →
      x = m₁.usbVal.w1.toInt ∨ x = m₂.usbVal.w1.toInt) ∧
    (f₁ = false → (k = .th2 → f₂ = false) →
      libthGetTemperature true (some ⟨some h⟩) (m₁.transfer f₁) (m₂.transfer f₂) ≠ none ∧
        libthGetHumidity true (some ⟨some h⟩) (m₁.transfer f₁) (m₂.transfer f₂) ≠ none) := by
  obtain ⟨htemp, htempSome⟩ := libthGet_sound h 0 m₁ m₂ f₁ f₂
  obtain ⟨hhumid, hhumidSome⟩ := libthGet_sound h 1 m₁ m₂ f₁ f₂
  exact ⟨htemp, hhumid, fun hf₁ hf₂ => ⟨htempSome hf₁ hf₂, hhumidSome hf₁ hf₂⟩⟩

end TempHumid.Host
