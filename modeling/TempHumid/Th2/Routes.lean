import TempHumid.Th2.Updates

/-!
# The routes of a SETUP request

The ways through `udc_process_setup` that end at the HID interface or at
`parse_usb_request`, for requests that no standard handler supports.
-/

namespace TempHumid.Th2

/-- The interface is configured and the recipient leads to it. -/
def ReachesHid (numConfiguration : Byte) (req : SetupReq) : Prop :=
  numConfiguration ≠ 0 ∧
    (req.recipient = recipInterface ∧ req.indexLow = 0 ∨ req.recipient = recipEndpoint)

instance (n : Byte) (req : SetupReq) : Decidable (ReachesHid n req) :=
  inferInstanceAs (Decidable (_ ∧ _))

/-- The payload lies within `usb_val`. -/
def InUsbVal (u : Usb) : Prop :=
  ∃ i, u.payload = .usbVal i ∧ (u.payloadSize = 4 ∨ i.val = 0 ∧ u.payloadSize = 8)

section Routes

variable {u : Usb} {hw : Hw}

theorem Handler.orElse_eq_right {f g : Handler} (h : f u = unsupported u) :
    f.orElse g u = g u := by
  rw [Handler.orElse, h]
  rfl

theorem Handler.orElse_eq_left {f g : Handler} (h : (f u).1 = true) : f.orElse g u = f u :=
  if_pos h

/-- The test of the high byte, once with a mask and once with a shift. -/
theorem and_high_iff (w : Half) : w &&& (0xff00 : Half) = (1 : Half) <<< 8 ↔ w >>> 8 = 1 := by
  have hmask : w &&& (0xff00 : Half) = (w >>> 8) <<< 8 := by
    apply BitVec.eq_of_getLsbD_eq
    intro i hi
    have hbit : ∀ i < 16, (0xff00 : Half).getLsbD i = decide (8 ≤ i) := by decide
    rw [BitVec.getLsbD_and, hbit i hi, BitVec.getLsbD_shiftLeft, BitVec.getLsbD_ushiftRight]
    by_cases h8 : 8 ≤ i
    · have hlt : ¬i < 8 := by omega
      simp [h8, hlt, hi]
    · have hlt : i < 8 := by omega
      simp [h8, hlt]
  have hsmall : (w >>> 8).toNat < 2 ^ 8 := by
    have := w.isLt
    rw [BitVec.toNat_ushiftRight, Nat.shiftRight_eq_div_pow]
    omega
  rw [hmask, ← BitVec.toNat_inj, ← BitVec.toNat_inj, BitVec.toNat_shiftLeft, Nat.shiftLeft_eq]
  change (w >>> 8).toNat * 2 ^ 8 % 2 ^ 16 = 256 ↔ (w >>> 8).toNat = 1
  omega

/-- The direction bit decides between IN and OUT. -/
theorem isOut_iff {req : SetupReq} : req.isOut ↔ ¬req.isIn := by
  have hbit : ∀ b : Byte, b &&& 0x80 = 0 ↔ ¬b &&& 0x80 = 0x80 := by decide
  exact hbit req.bmRequestType

theorem parseUsbRequest_input (h : u.req.wValue >>> 8 = 1) :
    (parseUsbRequest u).1 = true ∧ InUsbVal (parseUsbRequest u).2 := by
  rw [parseUsbRequest, if_pos ((and_high_iff _).mpr h)]
  split
  · exact ⟨rfl, 0, rfl, .inl rfl⟩
  · split
    · exact ⟨rfl, 1, rfl, .inl rfl⟩
    · exact ⟨rfl, 0, rfl, .inr ⟨rfl, rfl⟩⟩

/-- Without one of the indices 1 and 2 both words are selected. -/
theorem parseUsbRequest_default (h : u.req.wValue >>> 8 = 1) (h1 : u.req.wIndex ≠ 1)
    (h2 : u.req.wIndex ≠ 2) : parseUsbRequest u = reply (.usbVal 0) 8 u := by
  rw [parseUsbRequest, if_pos ((and_high_iff _).mpr h), if_neg h1, if_neg h2]

theorem parseUsbRequest_other (h : u.req.wValue >>> 8 ≠ 1) :
    parseUsbRequest u = unsupported u := by
  rw [parseUsbRequest, if_neg ((and_high_iff _).not.mpr h)]

theorem setreport_input (h : u.req.wValue >>> 8 = 1) :
    udiHidGenericSetreport u = parseUsbRequest u := by
  rw [udiHidGenericSetreport, hidReportTypeInput, if_pos h]
  exact Handler.orElse_eq_left (parseUsbRequest_input h).1

theorem setreport_other (h : u.req.wValue >>> 8 ≠ 1) :
    udiHidGenericSetreport u = unsupported u ∨
      (udiHidGenericSetreport u).2.payload = .reportFeature ∧
        (udiHidGenericSetreport u).2.payloadSize = 4 := by
  rw [udiHidGenericSetreport, hidReportTypeInput, if_neg h, udiHidGenericSetreportFeature]
  split
  · exact .inr ⟨rfl, rfl⟩
  · exact .inl rfl

/-- The only interface is found while a configuration is set. -/
theorem updateIfaceDesc_iff : udcUpdateIfaceDesc u.req.indexLow 0 u = true ↔
    u.numConfiguration ≠ 0 ∧ u.req.indexLow = 0 := by
  have hindex : u.req.indexLow < deviceNbInterface ↔ u.req.indexLow = 0 := by
    rw [deviceNbInterface, ← BitVec.toNat_inj, BitVec.lt_def]
    exact Nat.lt_one_iff
  simp [udcUpdateIfaceDesc, hindex]

theorem udcReqIface_eq (u : Usb) : udcReqIface u =
    if u.numConfiguration ≠ 0 ∧ u.req.indexLow = 0 then udiHidSetup u else unsupported u := by
  simp only [udcReqIface, updateIfaceDesc_iff]

theorem udcReqEp_eq (u : Usb) : udcReqEp u =
    if u.numConfiguration ≠ 0 then udiHidSetup u else unsupported u := by
  simp [udcReqEp, udcUpdateIfaceDesc, deviceNbInterface]

theorem Handler.orElse_congr {f f' g g' : Handler} (hf : f u = f' u)
    (hg : g (f' u).2 = g' (f' u).2) : f.orElse g u = f'.orElse g' u := by
  rw [Handler.orElse, Handler.orElse, hf, hg]

/-- The two routes to the HID interface are one. -/
theorem iface_or_ep_eq (g : Handler) (u : Usb) :
    (Handler.when (fun u => u.req.recipient = recipInterface) udcReqIface).orElse
        ((Handler.when (fun u => u.req.recipient = recipEndpoint) udcReqEp).orElse g) u =
      if ReachesHid u.numConfiguration u.req then udiHidSetup.orElse g u else g u := by
  by_cases hep : u.req.recipient = recipEndpoint
  · have hiface : Handler.when (fun u => u.req.recipient = recipInterface) udcReqIface u =
        unsupported u := by
      rw [Handler.when, hep]
      rfl
    have hreach : ReachesHid u.numConfiguration u.req ↔ u.numConfiguration ≠ 0 :=
      and_iff_left (.inr hep)
    have hroute : Handler.when (fun u => u.req.recipient = recipEndpoint) udcReqEp u =
        if u.numConfiguration ≠ 0 then udiHidSetup u else unsupported u := by
      rw [Handler.when, if_pos hep, udcReqEp_eq]
    rw [Handler.orElse_eq_right hiface]
    split
    · next h => exact Handler.orElse_congr (hroute.trans (if_pos (hreach.mp h))) rfl
    · next h => exact Handler.orElse_eq_right (hroute.trans (if_neg (hreach.not.mp h)))
  · have hskip : ∀ v : Usb, v.req = u.req →
        (Handler.when (fun u => u.req.recipient = recipEndpoint) udcReqEp).orElse g v = g v := by
      intro v hv
      rw [← hv] at hep
      exact Handler.orElse_eq_right (if_neg hep)
    have hroute : Handler.when (fun u => u.req.recipient = recipInterface) udcReqIface u =
        if ReachesHid u.numConfiguration u.req then udiHidSetup u else unsupported u := by
      simp only [Handler.when, udcReqIface_eq, ReachesHid, hep, or_false]
      split_ifs <;> first | rfl | tauto
    split
    · next h =>
        exact Handler.orElse_congr (hroute.trans (if_pos h)) (hskip _ (keepsReq_udiHidSetup u))
    · next h =>
        rw [Handler.orElse_eq_right (hroute.trans (if_neg h))]
        exact hskip u rfl

/-- A request without a standard handler goes to the HID interface, if it reaches
it, and then to `parse_usb_request`. -/
theorem udcProcessSetup_eq (hin : ¬(u.req.isIn ∧ u.req.wLength = 0))
    (hstd : Handler.when (fun u => u.req.type = typeStandard) (udcReqstd hw) (prepare u) =
      unsupported (prepare u)) :
    udcProcessSetup hw u =
      if ReachesHid u.numConfiguration u.req then
        udiHidSetup.orElse parseUsbRequest (prepare u)
      else parseUsbRequest (prepare u) :=
  calc udcProcessSetup hw u = _ := if_neg hin
    _ = _ := Handler.orElse_eq_right hstd
    _ = _ := iface_or_ep_eq parseUsbRequest (prepare u)

/-- A request that a standard handler supports goes no further. -/
theorem udcProcessSetup_of_standard (hin : ¬(u.req.isIn ∧ u.req.wLength = 0))
    (hstd : (Handler.when (fun u => u.req.type = typeStandard) (udcReqstd hw) (prepare u)).1 =
      true) :
    udcProcessSetup hw u =
      Handler.when (fun u => u.req.type = typeStandard) (udcReqstd hw) (prepare u) :=
  calc udcProcessSetup hw u = _ := if_neg hin
    _ = _ := Handler.orElse_eq_left hstd

end Routes

end TempHumid.Th2
