import TempHumid.Th2.ReplyLength

/-!
# Standard requests of the th2 firmware

A standard IN request that neither `udc_reqstd` nor the descriptor handler of the
HID interface supports ends at `parse_usb_request`, which does not look at its type.
It accepts every request with 1 in the high byte of `wValue`.
-/

namespace TempHumid.Th2

/-- A standard IN request for some data. -/
structure IsStandardIn (req : SetupReq) : Prop where
  isIn : req.isIn
  type : req.type = typeStandard
  wLength : req.wLength ≠ 0

/-- The descriptor handler of the HID interface is called and supports the request. -/
def DescriptorSupports (u : Usb) : Prop :=
  ReachesHid u.numConfiguration u.req ∧ u.req.bRequest = 6 ∧
    (udiHidReqstdifacegetDescriptor u).1 = true

/-- One of the standard handlers supports the request. -/
def StandardSupports (hw : Hw) (u : Usb) : Prop :=
  (udcReqstd hw (prepare u)).1 = true ∨ DescriptorSupports (prepare u)

instance (hw : Hw) (u : Usb) : Decidable (StandardSupports hw u) :=
  inferInstanceAs (Decidable (_ ∨ _ ∧ _ ∧ _))

/-- An unsupported request is rejected, and no request is answered with `usb_val`. -/
structure UnsupportedStalls (hw : Hw) (u : Usb) : Prop where
  rejected : ¬StandardSupports hw u → (udcProcessSetup hw u).1 = false
  payload : (udcProcessSetup hw u).1 = true → ∀ i, (udcProcessSetup hw u).2.payload ≠ .usbVal i

/-- The standard requests with 1 in the high byte of `wValue` that have a handler:
`GET_STATUS`, `GET_DESCRIPTOR` and `GET_CONFIGURATION` of the device, `GET_INTERFACE`
of the configured interface, and `GET_STATUS` of an endpoint. -/
def HasHandler (numConfiguration : Byte) (req : SetupReq) : Prop :=
  req.recipient = recipDevice ∧
      (req.bRequest = 0 ∧ req.wLength = 2 ∨ req.bRequest = 6 ∨
        req.bRequest = 8 ∧ req.wLength = 1) ∨
    req.recipient = recipInterface ∧ req.bRequest = 10 ∧ req.wLength = 1 ∧
      numConfiguration ≠ 0 ∧ req.indexLow = 0 ∨
    req.recipient = recipEndpoint ∧ req.bRequest = 0 ∧ req.wLength = 2

instance (n : Byte) (req : SetupReq) : Decidable (HasHandler n req) :=
  inferInstanceAs (Decidable (_ ∧ _ ∨ _ ∧ _ ∨ _ ∧ _))

section Standard

variable {u : Usb} {hw : Hw}

/-! ## Where a standard request ends -/

theorem udiHidSetup_standard (h : IsStandardIn u.req) :
    udiHidSetup u =
      if u.req.bRequest = 6 then udiHidReqstdifacegetDescriptor u else unsupported u := by
  have hclass : u.req.type ≠ typeClass := by
    rw [h.type]
    decide
  simp only [udiHidSetup, if_pos h.isIn, h.type, true_and]
  rw [h.type] at hclass
  rw [if_neg hclass]

/-- Behind `udc_reqstd` the descriptor handler answers, or `parse_usb_request`. -/
theorem descriptor_cases (h : IsStandardIn u.req)
    (hreject : udcReqstd hw (prepare u) = unsupported (prepare u)) :
    DescriptorSupports (prepare u) ∧ OtherReply (udcProcessSetup hw u) ∨
      ¬DescriptorSupports (prepare u) ∧ udcProcessSetup hw u = parseUsbRequest (prepare u) := by
  have heq := udcProcessSetup_eq (fun hc => h.wLength hc.2) ((if_pos h.type).trans hreject)
  have hsetup := udiHidSetup_standard (u := prepare u) h
  by_cases hdesc : DescriptorSupports (prepare u)
  · obtain ⟨hreach, hsix, haccepted⟩ := hdesc
    rw [if_pos hsix] at hsetup
    have hleft : udcProcessSetup hw u = udiHidReqstdifacegetDescriptor (prepare u) := by
      rw [heq, ← hsetup]
      exact (if_pos hreach).trans (Handler.orElse_eq_left (by rwa [hsetup]))
    refine .inl ⟨⟨hreach, hsix, haccepted⟩, ?_⟩
    rw [hleft]
    refine limits_hidDescriptor.resolve_left fun hno => ?_
    rw [hno] at haccepted
    cases haccepted
  · refine .inr ⟨hdesc, ?_⟩
    rw [heq]
    split
    · next hreach =>
        apply Handler.orElse_eq_right
        rw [hsetup]
        split
        · next hsix =>
            apply limits_hidDescriptor.resolve_right
            intro hreply
            exact hdesc ⟨hreach, hsix, hreply.accepted⟩
        · rfl
    · rfl

/-- A standard request is answered by a standard handler, or ends at `parse_usb_request`. -/
theorem standard_cases (hw : Hw) (h : IsStandardIn u.req) :
    StandardSupports hw u ∧ OtherReply (udcProcessSetup hw u) ∨
      ¬StandardSupports hw u ∧ udcProcessSetup hw u = parseUsbRequest (prepare u) := by
  rcases limits_udcReqstd hw (u := prepare u) h.isIn with hreject | hreply
  · have hsupports : StandardSupports hw u ↔ DescriptorSupports (prepare u) := by
      apply or_iff_right
      rw [hreject]
      exact Bool.false_ne_true
    rw [hsupports]
    exact descriptor_cases h hreject
  · left
    refine ⟨.inl hreply.accepted, ?_⟩
    have hwhen : Handler.when (fun u => u.req.type = typeStandard) (udcReqstd hw) (prepare u) =
        udcReqstd hw (prepare u) := if_pos h.type
    have hstd := hreply.accepted
    rw [← hwhen] at hstd
    rwa [udcProcessSetup_of_standard (fun hc => h.wLength hc.2) hstd, hwhen]

theorem unsupportedStalls_iff_supports (h : IsStandardIn u.req) :
    UnsupportedStalls hw u ↔ (u.req.wValue >>> 8 = 1 → StandardSupports hw u) := by
  rcases standard_cases hw h with ⟨hsupports, hreply⟩ | ⟨hno, heq⟩
  · refine iff_of_true ⟨fun hno => absurd hsupports hno, fun _ => hreply.payload⟩ fun _ => hsupports
  · constructor
    · intro hstalls hreport
      have haccepted := (parseUsbRequest_input (u := prepare u) hreport).1
      rw [← heq, hstalls.rejected hno] at haccepted
      cases haccepted
    · intro himp
      have hother := parseUsbRequest_other (u := prepare u) fun hreport => hno (himp hreport)
      rw [hother] at heq
      constructor
      · intro _
        rw [heq]
        rfl
      · intro haccepted
        rw [heq] at haccepted
        cases haccepted

/-! ## The handlers of such requests -/

theorem exact_accepts (p : Payload) (size : Half) :
    (if u.req.wLength ≠ size then unsupported u else reply p size u).1 = true ↔
      u.req.wLength = size := by
  by_cases h : u.req.wLength = size
  · rw [if_neg (not_not.mpr h)]
    exact iff_of_true rfl h
  · rw [if_pos h]
    exact iff_of_false Bool.false_ne_true h

theorem getDescriptor_accepts (h : u.req.wValue >>> 8 = 1) :
    (udcReqStdDevGetDescriptor u).1 = true := by
  have hhigh : u.req.valueHigh = 1 := by
    rw [SetupReq.valueHigh, h]
    rfl
  rw [udcReqStdDevGetDescriptor, if_pos hhigh]
  rfl

theorem getSetting_accepts : (udcReqStdIfaceGetSetting u).1 = true ↔
    u.req.wLength = 1 ∧ u.numConfiguration ≠ 0 ∧ u.req.indexLow = 0 := by
  rw [← updateIfaceDesc_iff]
  simp only [udcReqStdIfaceGetSetting]
  split_ifs with hlen hconf hiface
  · exact iff_of_false Bool.false_ne_true fun hc => hlen hc.1
  · exact iff_of_false Bool.false_ne_true fun hc => (updateIfaceDesc_iff.mp hc.2).1 hconf
  · exact iff_of_true rfl ⟨not_not.mp hlen, hiface⟩
  · exact iff_of_false Bool.false_ne_true fun hc => hiface hc.2

theorem udcReqstd_accepts (hw : Hw) (hin : u.req.isIn) (hlen : u.req.wLength ≠ 0)
    (hreport : u.req.wValue >>> 8 = 1) :
    (udcReqstd hw u).1 = true ↔ HasHandler u.numConfiguration u.req := by
  rw [udcReqstd, if_pos hin, if_neg hlen, HasHandler]
  by_cases hdev : u.req.recipient = recipDevice
  · have hiface : recipDevice ≠ recipInterface := by decide
    have hep : recipDevice ≠ recipEndpoint := by decide
    simp only [hdev, hiface, hep, if_true, true_and, false_and, or_false]
    split_ifs with h0 h6 h8
    · rw [udcReqStdDevGetStatus, exact_accepts]
      simp [h0]
    · simp [getDescriptor_accepts hreport, h6]
    · rw [udcReqStdDevGetConfiguration, exact_accepts]
      simp [h8]
    · refine iff_of_false Bool.false_ne_true ?_
      rintro (hc | hc | hc)
      · exact h0 hc.1
      · exact h6 hc
      · exact h8 hc.1
  · simp only [hdev, if_false, false_and, false_or]
    split_ifs with hiface hep
    · have hne : recipInterface ≠ recipEndpoint := by decide
      rw [getSetting_accepts]
      simp [hiface.1, hiface.2, hne]
    · have hne : recipEndpoint ≠ recipInterface := by decide
      rw [udcReqStdEpGetStatus, exact_accepts]
      simp [hep.1, hep.2, hne]
    · refine iff_of_false Bool.false_ne_true ?_
      rintro (hc | hc)
      · exact hiface ⟨hc.1, hc.2.1⟩
      · exact hep ⟨hc.1, hc.2.1⟩

theorem standardSupports_iff (hw : Hw) (h : IsStandardIn u.req)
    (hreport : u.req.wValue >>> 8 = 1) :
    StandardSupports hw u ↔ HasHandler u.numConfiguration u.req := by
  have hdesc : ¬DescriptorSupports (prepare u) := by
    rintro ⟨-, -, haccepted⟩
    have hvalue : (prepare u).req.wValue >>> 8 = 1 := hreport
    rw [udiHidReqstdifacegetDescriptor, hvalue] at haccepted
    cases haccepted
  have hstd := udcReqstd_accepts hw (u := prepare u) h.isIn h.wLength hreport
  rw [StandardSupports, or_iff_left hdesc]
  exact hstd

/-- An unsupported standard request is stalled, and never answered with `usb_val`,
unless the high byte of `wValue` is 1 and no standard handler takes it. -/
theorem unsupportedStalls_iff (hw : Hw) (u : Usb) (h : IsStandardIn u.req) :
    UnsupportedStalls hw u ↔
      (u.req.wValue >>> 8 = 1 → HasHandler u.numConfiguration u.req) := by
  rw [unsupportedStalls_iff_supports h]
  apply forall_congr'
  intro hreport
  exact standardSupports_iff hw h hreport

/-- The device descriptor, asked of the device. -/
theorem unsupportedStalls_deviceDescriptor :
    UnsupportedStalls ⟨true, true⟩
      (fetched [0x80, 0x06, 0x00, 0x01, 0x00, 0x00, 0x12, 0x00] Usb.init) :=
  (unsupportedStalls_iff ⟨true, true⟩ _ ⟨by decide, by decide, by decide⟩).mpr fun _ => by decide

/-! ## On the wire -/

section Wire

variable {packet : List Byte}

theorem processSetup_unsupported (h : IsStandardIn u.req) (hno : ¬StandardSupports hw u) :
    udcProcessSetup hw u = parseUsbRequest (prepare u) :=
  ((standard_cases hw h).resolve_left fun hc => hno hc.1).2

/-- The control endpoint stalls an unsupported standard request unless the high byte
of `wValue` is 1. -/
theorem inReply_eq_none_iff (mem : Payload → List Byte) (n : ℕ) (hlen : packet.length = 8)
    (h : IsStandardIn (fetchRam packet)) (hno : ¬StandardSupports hw (fetched packet u)) :
    inReply hw mem n packet u = none ↔ (fetchRam packet).wValue >>> 8 ≠ 1 := by
  have heq := processSetup_unsupported (u := fetched packet u) h hno
  by_cases hreport : (fetchRam packet).wValue >>> 8 = 1
  · have haccepted := (parseUsbRequest_input (u := prepare (fetched packet u)) hreport).1
    rw [← heq] at haccepted
    have hreply := inReply_of_accepted mem n hlen h.isIn (Prod.ext haccepted rfl)
    refine iff_of_false ?_ (not_not.mpr hreport)
    rw [hreply]
    exact Option.some_ne_none _
  · have hreject := heq.trans (parseUsbRequest_other (u := prepare (fetched packet u)) hreport)
    refine iff_of_true ?_ hreport
    have hstall : (ep0OnSetup hw packet u).1.epControlState = .stallReq := by
      simp only [ep0OnSetup, hlen, ne_eq, not_true_eq_false, if_false, dispatchSetup]
      rw [← fetched, hreject]
      rfl
    rw [inReply, if_pos hstall]

/-- With 1 there, and an index that selects both words, the host receives the readings. -/
theorem inReply_unsupported (v : UsbVal) (rest : Payload → List Byte) (n : ℕ)
    (hlen : packet.length = 8) (h : IsStandardIn (fetchRam packet))
    (hno : ¬StandardSupports hw (fetched packet u)) (hreport : (fetchRam packet).wValue >>> 8 = 1)
    (h1 : (fetchRam packet).wIndex ≠ 1) (h2 : (fetchRam packet).wIndex ≠ 2) :
    inReply hw (payloadMem v rest) n packet u = some v.bytes :=
  inReply_both v rest n hlen h.isIn (processSetup_unsupported (u := fetched packet u) h hno)
    hreport h1 h2

/-- `SYNCH_FRAME` with 0x0100 in `wValue`. -/
def synchFrame : List Byte := [0x82, 0x0c, 0x00, 0x01, 0x00, 0x00, 0x02, 0x00]

theorem synchFrame_answered :
    ¬UnsupportedStalls ⟨true, true⟩ (fetched synchFrame Usb.init) ∧
      inReply ⟨true, true⟩ (payloadMem ⟨2500, 5000⟩ fun _ => []) 0 synchFrame Usb.init =
        some (UsbVal.bytes ⟨2500, 5000⟩) := by
  have hstd : IsStandardIn (fetchRam synchFrame) := ⟨by decide, by decide, by decide⟩
  have hno : ¬StandardSupports ⟨true, true⟩ (fetched synchFrame Usb.init) := by decide
  constructor
  · intro h
    exact absurd (h.rejected hno) (by decide)
  · exact inReply_unsupported _ _ 0 rfl hstd hno (by decide) (by decide) (by decide)

end Wire

end Standard

end TempHumid.Th2
