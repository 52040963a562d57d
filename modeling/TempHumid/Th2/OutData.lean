import TempHumid.Th2.Control
import TempHumid.Th2.Routes

/-!
# OUT data of the th2 control endpoint

Where the bytes of an OUT data stage go. `parse_usb_request` does not look at
the direction of a request, so an OUT request whose `wValue` selects an input
report is given `usb_val` as its payload. Every other OUT request with data
leaves a payload that is empty or the feature report.

The calls of the endpoint driver belong here too: a request to halt an endpoint
without a job makes the driver leave its table of jobs, and so does the stall of
an OUT data stage that is longer than its payload.

## Implementation notes

`OutInv` is the invariant of the control endpoint. A request that is refused
never starts a data stage, so only accepted requests matter for it.
-/

namespace TempHumid.Th2

/-- `SET_IDLE` that reaches the HID interface. It is accepted with any length
and without a payload. -/
def IsSetIdle (numConfiguration : Byte) (req : SetupReq) : Prop :=
  ReachesHid numConfiguration req ∧ req.type = typeClass ∧ req.bRequest = 0x0a

instance (n : Byte) (req : SetupReq) : Decidable (IsSetIdle n req) :=
  inferInstanceAs (Decidable (_ ∧ _))

/-- An OUT request with data whose `wValue` selects an input report. -/
def ExposesReq (numConfiguration : Byte) (req : SetupReq) : Prop :=
  req.isOut ∧ req.wLength ≠ 0 ∧ req.wValue >>> 8 = 1 ∧ ¬IsSetIdle numConfiguration req

instance (n : Byte) (req : SetupReq) : Decidable (ExposesReq n req) :=
  inferInstanceAs (Decidable (_ ∧ _ ∧ _ ∧ ¬_))

/-- A request for the halt of an endpoint for which the driver has no job: every
number but 1 and 2 if the halt is to be set, 0 if it is to be cleared. -/
def StrayReq (req : SetupReq) : Prop :=
  IsEpHalt req ∧
    (req.bRequest = 3 ∧ ¬(epNum req.indexLow = 1 ∨ epNum req.indexLow = 2) ∨
      req.bRequest = 1 ∧ epNum req.indexLow = 0)

instance (req : SetupReq) : Decidable (IsEpHalt req) :=
  decidable_of_iff (¬req.isIn ∧ req.type = typeStandard ∧ req.recipient = recipEndpoint ∧
      (req.bRequest = 1 ∨ req.bRequest = 3) ∧ req.wLength = 0 ∧ req.wValue = 0)
    ⟨fun ⟨h₁, h₂, h₃, h₄, h₅, h₆⟩ => ⟨h₁, h₂, h₃, h₄, h₅, h₆⟩,
      fun ⟨h₁, h₂, h₃, h₄, h₅, h₆⟩ => ⟨h₁, h₂, h₃, h₄, h₅, h₆⟩⟩

instance (req : SetupReq) : Decidable (StrayReq req) :=
  inferInstanceAs (Decidable (_ ∧ (_ ∨ _)))

/-- The payload that OUT data may go to is empty or the feature report. -/
def OutSafe (u : Usb) : Prop :=
  u.payloadSize = 0 ∨ u.payload = .reportFeature ∧ u.payloadSize = 4

/-! ## What `udc_process_setup` does with OUT data -/

section ProcessSetup

variable {u : Usb} {hw : Hw}

/-- No standard OUT request with data is supported. -/
theorem udcReqstd_out (hout : u.req.isOut) (hlen : u.req.wLength ≠ 0) :
    udcReqstd hw u = unsupported u := by
  simp only [udcReqstd, if_neg (isOut_iff.mp hout), udcReqStdDevSetAddress,
    udcReqStdDevClearFeature, udcReqStdDevSetFeature, udcReqStdDevSetConfiguration,
    udcReqStdIfaceSetSetting, udcReqStdEpClearFeature, udcReqStdEpSetFeature, if_pos hlen,
    ite_self]

/-- The OUT branch of the HID interface for a request with data. -/
theorem udiHidSetup_out (hout : u.req.isOut) (hlen : u.req.wLength ≠ 0) :
    udiHidSetup u =
      if u.req.type = typeClass ∧ u.req.bRequest = 0x09 then udiHidGenericSetreport u
      else if u.req.type = typeClass ∧ u.req.bRequest = 0x0a then
        (true, { u with rate := (u.req.wValue >>> 8).setWidth 8 })
      else unsupported u := by
  simp only [udiHidSetup, if_neg (isOut_iff.mp hout), if_pos hlen, ite_self]
  by_cases hclass : u.req.type = typeClass
  · simp only [hclass, if_true, true_and]
  · simp only [hclass, false_and, if_false]

/-- An input report other than `SET_IDLE` is answered by `parse_usb_request`,
on the way through the HID interface or after it. -/
theorem hid_or_parse_input (hout : u.req.isOut) (hlen : u.req.wLength ≠ 0)
    (hval : u.req.wValue >>> 8 = 1) (hidle : ¬(u.req.type = typeClass ∧ u.req.bRequest = 0x0a)) :
    udiHidSetup.orElse parseUsbRequest u = parseUsbRequest u := by
  have hparse := parseUsbRequest_input hval
  have hhid := udiHidSetup_out hout hlen
  rw [if_neg hidle, setreport_input hval] at hhid
  split at hhid
  · rw [Handler.orElse_eq_left (by rw [hhid]; exact hparse.1), hhid]
  · exact Handler.orElse_eq_right hhid

/-- `SET_IDLE` is accepted at once. -/
theorem hid_or_parse_idle (hout : u.req.isOut) (hlen : u.req.wLength ≠ 0)
    (hidle : u.req.type = typeClass ∧ u.req.bRequest = 0x0a) :
    udiHidSetup.orElse parseUsbRequest u =
      (true, { u with rate := (u.req.wValue >>> 8).setWidth 8 }) := by
  have hhid := udiHidSetup_out hout hlen
  have h9 : ¬(u.req.type = typeClass ∧ u.req.bRequest = 0x09) := by
    rw [hidle.2]
    exact fun h => absurd h.2 (by decide)
  rw [if_neg h9, if_pos hidle] at hhid
  rw [Handler.orElse_eq_left (by rw [hhid]), hhid]

/-- A request for another report leaves an empty payload or the feature report. -/
theorem hid_or_parse_other (hout : u.req.isOut) (hlen : u.req.wLength ≠ 0)
    (hval : u.req.wValue >>> 8 ≠ 1) (hsize : u.payloadSize = 0) :
    OutSafe (udiHidSetup.orElse parseUsbRequest u).2 := by
  have hparse := parseUsbRequest_other hval
  have hunsupported : udiHidSetup u = unsupported u →
      OutSafe (udiHidSetup.orElse parseUsbRequest u).2 := by
    intro h
    rw [Handler.orElse_eq_right h, hparse]
    exact .inl hsize
  have hhid := udiHidSetup_out hout hlen
  split_ifs at hhid with h9 ha
  · rcases setreport_other hval with h | h
    · exact hunsupported (hhid.trans h)
    · rw [← hhid] at h
      rw [Handler.orElse]
      split
      · exact .inr h
      · have hkeep := keepsReq_udiHidSetup u
        rw [parseUsbRequest_other (by rw [hkeep]; exact hval)]
        exact .inr h
  · rw [hid_or_parse_idle hout hlen ha]
    exact .inl hsize
  · exact hunsupported hhid

/-- An OUT request with data goes to the HID interface, if it reaches it, and
then to `parse_usb_request`. -/
theorem udcProcessSetup_out (hout : u.req.isOut) (hlen : u.req.wLength ≠ 0) :
    udcProcessSetup hw u =
      if ReachesHid u.numConfiguration u.req then
        udiHidSetup.orElse parseUsbRequest (prepare u)
      else parseUsbRequest (prepare u) := by
  apply udcProcessSetup_eq
  · exact fun h => hlen h.2
  · rw [Handler.when, udcReqstd_out (u := prepare u) hout hlen, ite_self]

/-- A request that exposes `usb_val` is answered by `parse_usb_request`. -/
theorem udcProcessSetup_of_exposes (hw : Hw) (h : ExposesReq u.numConfiguration u.req) :
    udcProcessSetup hw u = parseUsbRequest (prepare u) := by
  obtain ⟨hout, hlen, hval, hidle⟩ := h
  rw [udcProcessSetup_out hout hlen]
  split
  · next h =>
      exact hid_or_parse_input (u := prepare u) hout hlen hval fun ha => hidle ⟨h, ha⟩
  · rfl

/-- It is accepted with a payload inside `usb_val`. -/
theorem processSetup_of_exposes (hw : Hw) (h : ExposesReq u.numConfiguration u.req) :
    (udcProcessSetup hw u).1 = true ∧ InUsbVal (udcProcessSetup hw u).2 := by
  rw [udcProcessSetup_of_exposes hw h]
  exact parseUsbRequest_input (u := prepare u) h.2.2.1

/-- Any other OUT request with data that is accepted leaves `usb_val` out of reach. -/
theorem processSetup_of_not_exposes (hout : u.req.isOut) (hlen : u.req.wLength ≠ 0)
    (h : ¬ExposesReq u.numConfiguration u.req) (hok : (udcProcessSetup hw u).1 = true) :
    OutSafe (udcProcessSetup hw u).2 := by
  rw [udcProcessSetup_out hout hlen] at hok ⊢
  by_cases hval : u.req.wValue >>> 8 = 1
  · have hidle : IsSetIdle u.numConfiguration u.req :=
      by_contra fun hn => h ⟨hout, hlen, hval, hn⟩
    rw [if_pos hidle.1, hid_or_parse_idle (u := prepare u) hout hlen hidle.2]
    exact .inl rfl
  · split
    · exact hid_or_parse_other (u := prepare u) hout hlen hval rfl
    · next hr =>
        rw [if_neg hr, parseUsbRequest_other (u := prepare u) hval] at hok
        cases hok

end ProcessSetup

/-! ## Calls outside the table of jobs -/

section Stray

variable {u : Usb}

/-- Endpoints 1 and 2 have their jobs in the table, and no other number has. -/
theorem jobInTable_iff {ep : Byte} : JobInTable ep ↔ epNum ep = 1 ∨ epNum ep = 2 := by
  have hnum : (epNum ep = 1 ↔ (epNum ep).toNat = 1) ∧ (epNum ep = 2 ↔ (epNum ep).toNat = 2) :=
    ⟨BitVec.toNat_inj.symm, BitVec.toNat_inj.symm⟩
  have hmax : deviceMaxEp.toNat = 2 := rfl
  rw [hnum.1, hnum.2, JobInTable, uddEpGetJob, hmax]
  split
  · next h =>
      have hzero : (epNum ep).toNat = 0 := by
        rcases h with rfl | rfl <;> rfl
      simp [hzero]
  · simp only [Option.mem_def, Option.some_inj, exists_eq_left']
    split <;> omega

theorem epExists_iff {ep : Byte} : epExists ep = true ↔ (epNum ep).toNat ≤ 2 := by
  rw [epExists, decide_eq_true_iff, BitVec.le_def]
  rfl

theorem inTable_checked_iff {ep : Byte} :
    (epExists ep = true → JobInTable ep) ↔ epNum ep ≠ 0 := by
  have hnum : (epNum ep = 1 ↔ (epNum ep).toNat = 1) ∧ (epNum ep = 2 ↔ (epNum ep).toNat = 2) ∧
      (epNum ep = 0 ↔ (epNum ep).toNat = 0) :=
    ⟨BitVec.toNat_inj.symm, BitVec.toNat_inj.symm, BitVec.toNat_inj.symm⟩
  rw [epExists_iff, jobInTable_iff, ne_eq, hnum.1, hnum.2.1, hnum.2.2]
  omega

/-- A request leaves the table of jobs exactly if it is a stray one. -/
theorem calls_inTable_iff (hw : Hw) :
    (∀ c ∈ (udcProcessSetup hw u).2.epCalls, c.InTable) ↔ ¬StrayReq u.req := by
  simp only [mem_epCalls_iff, and_imp]
  constructor
  · rintro h ⟨hhalt, ⟨hreq, hstray⟩ | ⟨hreq, hzero⟩⟩
    · have habort := h (.abort u.req.indexLow) hhalt (by simp [haltCalls, hreq])
      exact hstray (jobInTable_iff.mp habort)
    · have hclear := h (.clearHalt u.req.indexLow) hhalt (by simp [haltCalls, hreq])
      exact inTable_checked_iff.mp hclear hzero
  · intro h c hhalt hc
    rcases hhalt.bRequest with hreq | hreq
    · have hzero : epNum u.req.indexLow ≠ 0 := fun hzero => h ⟨hhalt, .inr ⟨hreq, hzero⟩⟩
      obtain rfl : c = .clearHalt u.req.indexLow := by simpa [haltCalls, hreq] using hc
      exact inTable_checked_iff.mpr hzero
    · have hjob : JobInTable u.req.indexLow :=
        jobInTable_iff.mpr (by_contra fun hn => h ⟨hhalt, .inl ⟨hreq, hn⟩⟩)
      obtain rfl | rfl : c = .abort u.req.indexLow ∨ c = .setHalt u.req.indexLow := by
        simpa [haltCalls, hreq] using hc
      · exact hjob
      · exact fun _ => hjob

end Stray

/-! ## The invariant of the control endpoint -/

/-- In an OUT data stage nothing can be stored into `usb_val`. -/
def OutInv (u : Usb) : Prop :=
  u.epControlState = .dataOut → u.ctrlPayloadNbTrans = 0 ∧ OutSafe u

/-- The output stores nothing into `usb_val`, and the driver stays in its table. -/
def Harmless : UsbAct → Prop
  | .store (.usbVal _) _ data => data = []
  | .endpoint c => c.InTable
  | .store _ _ _ | .stall | .receive _ | .send _ _ _ => True

/-- The event is a SETUP packet whose request exposes `usb_val`. -/
def ExposesPacket (u : Usb) : UsbEvent → Prop
  | .setup _ packet => packet.length = 8 ∧ ExposesReq u.numConfiguration (fetchRam packet)
  | .transferOk _ | .transferFail _ | .busReset => False

instance (u : Usb) : ∀ e, Decidable (ExposesPacket u e)
  | .setup _ packet =>
      inferInstanceAs (Decidable (packet.length = 8 ∧
        ExposesReq u.numConfiguration (fetchRam packet)))
  | .transferOk _ | .transferFail _ | .busReset => isFalse id

/-- The event is a SETUP packet with a stray request. -/
def StrayPacket : UsbEvent → Prop
  | .setup _ packet => packet.length = 8 ∧ StrayReq (fetchRam packet)
  | .transferOk _ | .transferFail _ | .busReset => False

instance : DecidablePred StrayPacket
  | .setup _ packet => inferInstanceAs (Decidable (packet.length = 8 ∧ StrayReq (fetchRam packet)))
  | .transferOk _ | .transferFail _ | .busReset => isFalse id

/-- The invariant holds after the step, and its outputs are harmless. -/
def Guarded (r : Usb × List UsbAct) : Prop := OutInv r.1 ∧ ∀ a ∈ r.2, Harmless a

section Guarded

variable {u : Usb} {hw : Hw}

theorem outInv_of_ne (h : u.epControlState ≠ .dataOut) : OutInv u := fun hout => absurd hout h

theorem guarded_stall (u : Usb) : Guarded (ctrlStallData u) := by
  constructor
  · exact outInv_of_ne (by simp [ctrlStallData])
  · simp [ctrlStallData, Harmless]

theorem guarded_sendZlp (u : Usb) : Guarded (ctrlSendZlpIn u) := by
  constructor
  · exact outInv_of_ne (by simp [ctrlSendZlpIn])
  · simp [ctrlSendZlpIn, Harmless]

theorem guarded_inContinue (h : u.epControlState ≠ .dataOut) (nbRemain : Half) :
    Guarded (ctrlInContinue nbRemain u) := by
  constructor
  · exact outInv_of_ne h
  · simp [ctrlInContinue, Harmless]

theorem guarded_inSent (h : u.epControlState ≠ .dataOut) : Guarded (ctrlInSent u) := by
  simp only [ctrlInSent]
  split_ifs
  · constructor
    · exact outInv_of_ne (by simp)
    · simp [Harmless]
  · exact guarded_inContinue h _
  · exact guarded_inContinue h _

/-- At the start of a data stage a packet is stored as far as it fits the payload. -/
theorem outSize_le (packet : List Byte) (htrans : u.ctrlPayloadNbTrans = 0) :
    (outSize packet u).toNat ≤ u.payloadSize.toNat := by
  rw [outSize, htrans]
  split
  · exact le_of_eq (congrArg BitVec.toNat (BitVec.sub_zero u.payloadSize))
  · next h =>
      change ¬u.payloadSize.toNat < 0 + packet.length at h
      rw [BitVec.toNat_ofNat]
      exact (Nat.mod_le _ _).trans (by omega)

/-- A packet that does not fill the buffer ends the data stage. -/
theorem ctrlOutReceived_last {packet : List Byte} (h : outSize packet u ≠ deviceEpCtrlSize) :
    ctrlOutReceived packet u =
      (let c := copyPayload packet u
       let r := ctrlSendZlpIn { c.1 with payloadSize := c.1.ctrlPayloadNbTrans }
       (r.1, c.2 ++ r.2)) :=
  if_pos (.inl h)

theorem harmless_copyPayload (packet : List Byte) (htrans : u.ctrlPayloadNbTrans = 0)
    (hsafe : OutSafe u) : ∀ a ∈ (copyPayload packet u).2, Harmless a := by
  intro a ha
  rw [copyPayload, List.mem_singleton] at ha
  subst ha
  rcases hsafe with hsize | ⟨hfeature, -⟩
  · have hle := outSize_le packet htrans
    rw [hsize] at hle
    have hdata : packet.take (outSize packet u).toNat = [] := by
      rw [Nat.le_zero.mp hle, List.take_zero]
    cases u.payload with
    | usbVal i => exact hdata
    | _ => trivial
  · rw [hfeature]
    trivial

/-- A received packet goes nowhere or to the feature report, and ends the data stage. -/
theorem guarded_outReceived (packet : List Byte) (hinv : OutInv u)
    (h : u.epControlState = .dataOut) : Guarded (ctrlOutReceived packet u) := by
  obtain ⟨htrans, hsafe⟩ := hinv h
  have hle := outSize_le packet htrans
  have hlast : outSize packet u ≠ deviceEpCtrlSize := by
    intro hfull
    rw [hfull] at hle
    rcases hsafe with hsize | ⟨-, hsize⟩ <;> rw [hsize] at hle <;> exact absurd hle (by decide)
  rw [ctrlOutReceived_last hlast]
  have hzlp := guarded_sendZlp { (copyPayload packet u).1 with
    payloadSize := (copyPayload packet u).1.ctrlPayloadNbTrans }
  exact ⟨hzlp.1, List.forall_mem_append.mpr ⟨harmless_copyPayload packet htrans hsafe, hzlp.2⟩⟩

/-- The answer to a request that does not expose `usb_val` is harmless. -/
theorem guarded_answerSetup (h : ¬ExposesReq u.numConfiguration u.req) :
    Guarded (answerSetup (udcProcessSetup hw u)) := by
  have hreq := keepsReq_udcProcessSetup hw u
  simp only [answerSetup]
  split_ifs with hfalse hin hlen
  · exact guarded_stall _
  · have hsent := guarded_inSent (u := startData .dataIn (udcProcessSetup hw u).2) (by simp [startData])
    exact ⟨hsent.1, List.forall_mem_cons.mpr ⟨trivial, hsent.2⟩⟩
  · exact guarded_sendZlp _
  · rw [hreq] at hin hlen
    have hsafe := processSetup_of_not_exposes (isOut_iff.mpr hin) hlen h (Bool.not_eq_false _ ▸ hfalse)
    exact ⟨fun _ => ⟨rfl, hsafe⟩, by simp [Harmless]⟩

/-- A SETUP packet that neither exposes `usb_val` nor strays starts a harmless transfer. -/
theorem guarded_dispatchSetup (h : ¬ExposesReq u.numConfiguration u.req)
    (hstray : ¬StrayReq u.req) : Guarded (dispatchSetup hw u) := by
  have hanswer : Guarded (answerSetup (udcProcessSetup hw u)) := guarded_answerSetup h
  have hcalls := (calls_inTable_iff hw).mpr hstray
  exact ⟨hanswer.1, List.forall_mem_append.mpr ⟨List.forall_mem_map.mpr hcalls, hanswer.2⟩⟩

theorem beginSetup_numConfiguration (u : Usb) :
    (beginSetup u).numConfiguration = u.numConfiguration := by
  rw [beginSetup, runCallback]
  split_ifs
  · cases u.callback with
    | none => rfl
    | some c => cases c <;> rfl
  · rfl

theorem guarded_ep0OnSetup (packet : List Byte) (h : ¬ExposesPacket u (.setup hw packet))
    (hstray : ¬StrayPacket (.setup hw packet)) : Guarded (ep0OnSetup hw packet u) := by
  rw [ep0OnSetup]
  split_ifs with hlen
  · exact guarded_stall _
  · apply guarded_dispatchSetup
    · intro hexp
      rw [beginSetup_numConfiguration] at hexp
      exact h ⟨of_not_not hlen, hexp⟩
    · exact fun hreq => hstray ⟨of_not_not hlen, hreq⟩

/-- A step that neither exposes `usb_val` nor strays keeps the invariant, leaves
`usb_val` alone and keeps the driver in its table. -/
theorem guarded_usbStep (hinv : OutInv u) {e : UsbEvent} (h : ¬ExposesPacket u e)
    (hstray : ¬StrayPacket e) : Guarded (usbStep u e) := by
  cases e with
  | setup hw packet => exact guarded_ep0OnSetup packet h hstray
  | transferOk packet =>
      simp only [usbStep, ep0OnTransferOk]
      cases hs : u.epControlState with
      | dataOut => exact guarded_outReceived packet hinv hs
      | dataIn => exact guarded_inSent (by rw [hs]; decide)
      | _ => exact ⟨outInv_of_ne (by simp), by simp⟩
  | transferFail dirIn =>
      cases dirIn with
      | true =>
          simp only [usbStep, ctrlUnderflow, if_true]
          cases hs : u.epControlState with
          | dataOut => exact guarded_sendZlp u
          | handshakeWaitOutZlp => exact ⟨hinv, by simp [Harmless]⟩
          | _ => exact ⟨hinv, by simp⟩
      | false =>
          simp only [usbStep, ctrlOverflow]
          cases hs : u.epControlState with
          | dataIn => exact ⟨outInv_of_ne (by simp), by simp⟩
          | handshakeWaitInZlp => exact ⟨hinv, by simp [Harmless]⟩
          | _ => exact ⟨hinv, by simp⟩
  | busReset => exact ⟨outInv_of_ne (by simp [usbStep, onBusReset]), by simp [usbStep, onBusReset]⟩

end Guarded

end TempHumid.Th2
