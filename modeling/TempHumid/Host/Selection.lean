import TempHumid.Host.Library

/-!
# Report selection

The library names a report in the low byte of `wValue` and the interface in
`wIndex`. The AVR firmware reads the report ID from `wValue`; the th2 firmware
looks for it in `wIndex`, finds the interface number there, and answers with
both words.
-/

namespace TempHumid.Host

/-- The bytes that report `i + 1` stands for: its word, least significant byte
first, up to `wLength` bytes. -/
def selected (v : UsbVal) (i : Fin 2) (wLength : BitVec 16) : List Byte :=
  (v.bytes.drop (4 * i)).take (min wLength.toNat 4)

section Selection

variable (v : UsbVal) (i : Fin 2) (wLength : BitVec 16)

/-- The limit of the V-USB driver, for a reply of four bytes. -/
theorem limitLength_getReport :
    (Avr.limitLength (Avr.UsbRequest.ofData (getReport (reportValue i) wLength).packet) 4).toNat =
      min wLength.toNat 4 := by
  have hlt := wLength.isLt
  have hlow : (lowByte wLength).toNat = wLength.toNat % 256 := BitVec.toNat_setWidth 8 wLength
  have hhigh : (highByte wLength).toNat = wLength.toNat / 256 := by
    rw [highByte, BitVec.toNat_setWidth, BitVec.toNat_ushiftRight, Nat.shiftRight_eq_div_pow]
    omega
  have hzero : highByte wLength = 0 ↔ wLength.toNat < 256 := by
    rw [← BitVec.toNat_inj, hhigh]
    change _ / 256 = 0 ↔ _
    omega
  have hsmall : lowByte wLength < 4 ↔ wLength.toNat % 256 < 4 := by
    rw [BitVec.lt_def, hlow]
    rfl
  have hcut : (Avr.limitLength
      (Avr.UsbRequest.ofData (getReport (reportValue i) wLength).packet) 4) =
        if highByte wLength = 0 ∧ lowByte wLength < 4 then lowByte wLength else 4 := rfl
  rw [hcut]
  split_ifs with h
  · rw [hzero, hsmall] at h
    rw [hlow]
    omega
  · rw [hzero, hsmall] at h
    change 4 = _
    omega

/-- The AVR firmware returns the selected bytes. -/
theorem avr_selects (d : Avr.Driver) (rom : Avr.Source → List Byte) (n : ℕ) :
    Avr.inReply rom v n (getReport (reportValue i) wLength).packet d = selected v i wLength := by
  have hid : lowByte (reportValue i) = BitVec.ofNat 8 (i + 1) := by
    revert i
    decide
  have hreply := (isGetReport_packet (reportValue i) wLength).inReply_report rom v d i hid n
  rw [limitLength_getReport] at hreply
  exact hreply

/-- The th2 firmware returns both words, whatever the report and the length are. -/
theorem th2_selects_both (u : Th2.Usb) (hw : Th2.Hw) (rest : Th2.Payload → List Byte) (n : ℕ)
    (hlen : wLength ≠ 0) :
    Th2.inReply hw (Th2.payloadMem v rest) n (getReport (reportValue i) wLength).packet u =
      some v.bytes := by
  have hreport : reportValue i >>> 8 = 1 := by
    revert i
    decide
  exact th2_reply u hw rest n v hreport hlen

theorem selected_length_le : (selected v i wLength).length ≤ 4 :=
  (List.length_take_le _ _).trans (Nat.min_le_right _ _)

/-- Both firmwares answer the request with the selected bytes. -/
def ReportsAgree (d : Avr.Driver) (rom : Avr.Source → List Byte) (n : ℕ) (u : Th2.Usb)
    (hw : Th2.Hw) (rest : Th2.Payload → List Byte) (m : ℕ) : Prop :=
  Avr.inReply rom v n (getReport (reportValue i) wLength).packet d = selected v i wLength ∧
    Th2.inReply hw (Th2.payloadMem v rest) m (getReport (reportValue i) wLength).packet u =
      some (selected v i wLength)

/-- The AVR firmware always returns the selected bytes, the th2 firmware never:
it returns both words. -/
theorem reports_never_agree (d : Avr.Driver) (rom : Avr.Source → List Byte) (n : ℕ)
    (u : Th2.Usb) (hw : Th2.Hw) (rest : Th2.Payload → List Byte) (m : ℕ) (hlen : wLength ≠ 0) :
    ¬ReportsAgree v i wLength d rom n u hw rest m ∧
      Avr.inReply rom v n (getReport (reportValue i) wLength).packet d = selected v i wLength ∧
      Th2.inReply hw (Th2.payloadMem v rest) m (getReport (reportValue i) wLength).packet u =
        some v.bytes := by
  have hboth := th2_selects_both v i wLength u hw rest m hlen
  refine ⟨fun h => ?_, avr_selects v i wLength d rom n, hboth⟩
  have heq : v.bytes = selected v i wLength := Option.some.inj (hboth.symm.trans h.2)
  have hlength := selected_length_le v i wLength
  rw [← heq, UsbVal.bytes_length] at hlength
  exact absurd hlength (by decide)

end Selection

/-- 25.00 degrees and 50.00 percent. -/
def comfortable : UsbVal := ⟨2500, 5000⟩

theorem reports_never_agree_humidity :
    ¬ReportsAgree comfortable 1 4 Avr.Driver.init (fun _ => []) 0 Th2.Usb.init ⟨true, true⟩
      (fun _ => []) 0 :=
  (reports_never_agree comfortable 1 4 Avr.Driver.init (fun _ => []) 0 Th2.Usb.init ⟨true, true⟩
    (fun _ => []) 0 (by decide)).1

/-- The library's request for the humidity: the AVR firmware answers with the
humidity, the th2 firmware with eight bytes that begin with the temperature. -/
theorem humidity_request :
    Avr.inReply (fun _ => []) comfortable 0 (getReport (reportValue 1) 4).packet Avr.Driver.init =
        [0x88, 0x13, 0x00, 0x00] ∧
      Th2.inReply ⟨true, true⟩ (Th2.payloadMem comfortable fun _ => []) 0
          (getReport (reportValue 1) 4).packet Th2.Usb.init =
        some [0xc4, 0x09, 0x00, 0x00, 0x88, 0x13, 0x00, 0x00] ∧
      ¬ReportsAgree comfortable 1 4 Avr.Driver.init (fun _ => []) 0 Th2.Usb.init ⟨true, true⟩
        (fun _ => []) 0 := by
  unfold ReportsAgree
  decide +kernel

end TempHumid.Host
