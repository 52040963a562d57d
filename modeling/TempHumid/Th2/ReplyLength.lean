import TempHumid.Library.Machine
import TempHumid.Th2.InData

/-!
# The length of a reply of the th2 firmware

Every handler of the USB stack limits its reply to `wLength`, or accepts one
length only. `parse_usb_request` alone does not look at `wLength`: its reply has
four or eight bytes whatever the host asked for.

## Implementation notes

The data stage of a request is any list of events without a further SETUP
packet. `b_shortpacket` keeps its value from the request before, so the bound is
for every state of the stack.
-/

namespace TempHumid.Th2

open Machine

/-! ## The other handlers -/

/-- Accepted with a payload outside `usb_val` that is no longer than `wLength`. -/
structure OtherReply (r : Bool × Usb) : Prop where
  accepted : r.1 = true
  payload : ∀ i, r.2.payload ≠ .usbVal i
  size : r.2.payloadSize ≤ r.2.req.wLength

/-- The handler rejects the request, or limits its reply. -/
def Limits (h : Handler) (u : Usb) : Prop := h u = unsupported u ∨ OtherReply (h u)

section Limits

variable {u : Usb} {f g : Handler}

theorem limits_unsupported : Limits unsupported u := .inl rfl

theorem limits_reply {p : Payload} {size : Half} (hp : ∀ i, p ≠ .usbVal i)
    (hsize : size ≤ u.req.wLength) : Limits (reply p size) u := by
  right
  constructor
  · rfl
  · exact hp
  · exact hsize

theorem Limits.ite {cond : Usb → Prop} [DecidablePred cond] (hf : cond u → Limits f u)
    (hg : ¬cond u → Limits g u) : Limits (fun u => if cond u then f u else g u) u := by
  by_cases h : cond u
  · simpa only [Limits, if_pos h] using hf h
  · simpa only [Limits, if_neg h] using hg h

/-- A handler that accepts one length only. -/
theorem limits_exact {p : Payload} (size : Half) (hp : ∀ i, p ≠ .usbVal i) :
    Limits (fun u => if u.req.wLength ≠ size then unsupported u else reply p size u) u := by
  apply Limits.ite
  · intro _
    exact limits_unsupported
  · intro hlen
    apply limits_reply hp
    rw [not_not.mp hlen]
    exact BitVec.le_refl size

theorem minSize_le (a b : Half) : minSize a b ≤ a := by
  rw [minSize]
  split
  · exact BitVec.le_refl a
  · next h => exact BitVec.not_lt.mp h

theorem one_le_of_ne {w : Half} (h : w ≠ 0) : 1 ≤ w := by
  rw [BitVec.le_def]
  exact BitVec.toNat_pos_of_ne_zero h

/-- Cutting a reply to `wLength` limits it. -/
theorem limits_cut {r : Bool × Usb}
    (h : r = unsupported u ∨ ∃ p size, (∀ i, p ≠ .usbVal i) ∧ r = reply p size u) :
    Limits (fun u =>
      if r.1 then (true, { r.2 with payloadSize := minSize u.req.wLength r.2.payloadSize })
      else r) u := by
  rcases h with rfl | ⟨p, size, hp, rfl⟩
  · exact .inl rfl
  · right
    constructor
    · rfl
    · exact hp
    · exact minSize_le u.req.wLength size

/-- `GET_DESCRIPTOR` cuts the descriptor to `wLength`. -/
theorem limits_getDescriptor : Limits udcReqStdDevGetDescriptor u := by
  refine limits_cut ?_
  simp only [udcReqStdDevGetStrDesc]
  split_ifs
  · exact .inr ⟨.deviceDesc, 18, by simp, rfl⟩
  · exact .inl rfl
  · exact .inr ⟨.confDesc, 41, by simp, rfl⟩
  · exact .inr ⟨.languageId, 4, by simp, rfl⟩
  · exact .inr ⟨.stringDesc, 76, by simp, rfl⟩
  · exact .inl rfl
  · exact .inl rfl

theorem limits_getSetting : Limits udcReqStdIfaceGetSetting u := by
  simp only [Limits, udcReqStdIfaceGetSetting]
  split_ifs with hlen hconf hiface
  · exact .inl rfl
  · exact .inl rfl
  · refine limits_reply (by simp) ?_
    rw [not_not.mp hlen]
    exact BitVec.le_refl 1
  · exact .inl rfl

/-- The standard IN requests. -/
theorem limits_udcReqstd (hw : Hw) (hin : u.req.isIn) : Limits (udcReqstd hw) u := by
  simp only [Limits, udcReqstd, if_pos hin]
  split_ifs
  · exact .inl rfl
  · exact limits_exact 2 (by simp)
  · exact limits_getDescriptor
  · exact limits_exact 1 (by simp)
  · exact .inl rfl
  · exact limits_getSetting
  · exact limits_exact 2 (by simp)
  · exact .inl rfl

theorem limits_setreportFeature : Limits udiHidGenericSetreportFeature u := by
  simp only [Limits, udiHidGenericSetreportFeature]
  split_ifs with h
  · right
    constructor
    · rfl
    · simp [reply]
    · change (4 : Half) ≤ u.req.wLength
      rw [h.2.2]
      exact BitVec.le_refl 4
  · exact .inl rfl

theorem limits_hidDescriptor : Limits udiHidReqstdifacegetDescriptor u := by
  simp only [Limits, udiHidReqstdifacegetDescriptor]
  split_ifs
  · exact limits_reply (by simp) (minSize_le _ _)
  · exact limits_reply (by simp) (minSize_le _ _)
  · exact .inl rfl

/-- The IN requests of the HID interface, beside the input report. -/
theorem udiHidSetup_in (hin : u.req.isIn) (hlen : u.req.wLength ≠ 0) :
    udiHidSetup u = parseUsbRequest u ∨ Limits udiHidSetup u := by
  have hone := one_le_of_ne hlen
  by_cases hreport : u.req.wValue >>> 8 = 1
  · simp only [Limits, udiHidSetup, if_pos hin, setreport_input hreport]
    split_ifs
    · exact .inr limits_hidDescriptor
    · exact .inl rfl
    · exact .inr (limits_reply (by simp) hone)
    · exact .inr (limits_reply (by simp) hone)
    · exact .inr (.inl rfl)
    · exact .inr (.inl rfl)
  · right
    have hfeature : udiHidGenericSetreport u = udiHidGenericSetreportFeature u := if_neg hreport
    simp only [Limits, udiHidSetup, if_pos hin, hfeature]
    split_ifs
    · exact limits_hidDescriptor
    · exact limits_setreportFeature
    · exact limits_reply (by simp) hone
    · exact limits_reply (by simp) hone
    · exact .inl rfl
    · exact .inl rfl

/-- An IN request ends at `parse_usb_request`, or is answered within `wLength`. -/
theorem udcProcessSetup_in (hw : Hw) (hin : u.req.isIn) (hlen : u.req.wLength ≠ 0) :
    udcProcessSetup hw u = parseUsbRequest (prepare u) ∨ OtherReply (udcProcessSetup hw u) := by
  have hstd : Limits (Handler.when (fun u => u.req.type = typeStandard) (udcReqstd hw))
      (prepare u) := by
    apply Limits.ite
    · intro _
      exact limits_udcReqstd hw hin
    · intro _
      exact limits_unsupported
  have hempty : ¬(u.req.isIn ∧ u.req.wLength = 0) := fun h => hlen h.2
  rcases hstd with hreject | hreply
  · rw [udcProcessSetup_eq hempty hreject]
    split
    · rcases udiHidSetup_in (u := prepare u) hin hlen with hparse | hother | hreply
      · left
        by_cases hreport : u.req.wValue >>> 8 = 1
        · have haccepted := (parseUsbRequest_input (u := prepare u) hreport).1
          rw [Handler.orElse_eq_left (by rwa [hparse]), hparse]
        · have hother := parseUsbRequest_other (u := prepare u) hreport
          exact Handler.orElse_eq_right (hparse.trans hother)
      · exact .inl (Handler.orElse_eq_right hother)
      · right
        rwa [Handler.orElse_eq_left hreply.accepted]
    · exact .inl rfl
  · right
    rwa [udcProcessSetup_of_standard hempty hreply.accepted]

end Limits

/-! ## The data stage -/

/-- The number of data bytes that an output hands to the endpoint. -/
def handed : UsbAct → ℕ
  | .send _ _ n => n.toNat
  | .stall | .receive _ | .store _ _ _ | .endpoint _ => 0

/-- The data bytes handed to the endpoint in a run. -/
def dataBytes (u : Usb) (evs : List UsbEvent) : ℕ :=
  ((trace usbStep u evs).map fun en => (en.outputs.map handed).sum).sum

def UsbEvent.isSetup : UsbEvent → Bool
  | .setup _ _ => true
  | .transferOk _ | .transferFail _ | .busReset => false

section DataStage

variable {u : Usb}

theorem dataBytes_cons (u : Usb) (e : UsbEvent) (evs : List UsbEvent) :
    dataBytes u (e :: evs) =
      ((usbStep u e).2.map handed).sum + dataBytes (usbStep u e).1 evs := rfl

/-- Outside a data stage no event but a SETUP packet hands over data. -/
theorem quiet_step {e : UsbEvent} (he : e.isSetup = false) (hin : u.epControlState ≠ .dataIn)
    (hout : u.epControlState ≠ .dataOut) :
    ((usbStep u e).2.map handed).sum = 0 ∧ (usbStep u e).1.epControlState ≠ .dataIn ∧
      (usbStep u e).1.epControlState ≠ .dataOut := by
  cases e with
  | setup hw packet => cases he
  | transferOk packet =>
      simp only [usbStep, ep0OnTransferOk]
      cases hs : u.epControlState with
      | dataIn => exact absurd hs hin
      | dataOut => exact absurd hs hout
      | _ => simp
  | transferFail dirIn =>
      cases dirIn <;> simp only [usbStep, ctrlUnderflow, ctrlOverflow] <;>
        cases hs : u.epControlState <;> simp_all [handed]
  | busReset => simp [usbStep, onBusReset]

theorem dataBytes_quiet (evs : List UsbEvent) : ∀ {u : Usb}, (∀ e ∈ evs, e.isSetup = false) →
    u.epControlState ≠ .dataIn → u.epControlState ≠ .dataOut → dataBytes u evs = 0 := by
  induction evs with
  | nil => exact fun _ _ _ => rfl
  | cons e evs ih =>
      intro u hevs hin hout
      obtain ⟨hzero, hin', hout'⟩ := quiet_step (hevs e List.mem_cons_self) hin hout
      rw [dataBytes_cons, hzero, ih (fun e' he' => hevs e' (List.mem_cons_of_mem e he')) hin' hout']

/-- The next packet of the payload. -/
theorem inContinue_step (remain : Half)
    (hle : u.ctrlPayloadNbTrans.toNat + remain.toNat ≤ u.payloadSize.toNat) :
    (ctrlInContinue remain u).1.ctrlPayloadNbTrans.toNat =
        u.ctrlPayloadNbTrans.toNat + ((ctrlInContinue remain u).2.map handed).sum ∧
      ((ctrlInContinue remain u).2.map handed).sum ≤ remain.toNat := by
  have hsize := u.payloadSize.isLt
  set n := if deviceEpCtrlSize ≤ remain then deviceEpCtrlSize else remain with hn
  have hpart : n.toNat ≤ remain.toNat := by
    rw [hn]
    split
    · next h => exact BitVec.le_def.mp h
    · exact le_rfl
  have hsum : ((ctrlInContinue remain u).2.map handed).sum = n.toNat := by
    simp [ctrlInContinue, handed, ← hn]
  constructor
  · rw [hsum]
    simp only [ctrlInContinue, ← hn]
    rw [BitVec.toNat_add, Nat.mod_eq_of_lt (by omega)]
  · rwa [hsum]

/-- A completed packet ends the data stage or continues it within the payload. -/
theorem inSent_step (h : u.epControlState = .dataIn)
    (hle : u.ctrlPayloadNbTrans.toNat ≤ u.payloadSize.toNat) :
    (((ctrlInSent u).2.map handed).sum = 0 ∧
        (ctrlInSent u).1.epControlState = .handshakeWaitOutZlp) ∨
      ((ctrlInSent u).1.epControlState = .dataIn ∧
        (ctrlInSent u).1.payloadSize = u.payloadSize ∧
        (ctrlInSent u).1.ctrlPayloadNbTrans.toNat =
          u.ctrlPayloadNbTrans.toNat + ((ctrlInSent u).2.map handed).sum ∧
        (ctrlInSent u).1.ctrlPayloadNbTrans.toNat ≤ u.payloadSize.toNat) := by
  have hremain : (u.payloadSize - u.ctrlPayloadNbTrans).toNat =
      u.payloadSize.toNat - u.ctrlPayloadNbTrans.toNat :=
    BitVec.toNat_sub_of_le hle
  simp only [ctrlInSent]
  split_ifs with hzero hend
  · left
    constructor <;> rfl
  · right
    have hnext := inContinue_step (u := { u with
      ctrlPrevPayloadNbTrans := u.ctrlPrevPayloadNbTrans + u.ctrlPayloadNbTrans }) 0 hle
    refine ⟨h, rfl, hnext.1, ?_⟩
    rw [hnext.1]
    exact (Nat.add_le_add_left hnext.2 _).trans hle
  · right
    have hnext := inContinue_step (u := u) (u.payloadSize - u.ctrlPayloadNbTrans) (by omega)
    refine ⟨h, rfl, hnext.1, ?_⟩
    omega

/-- A data stage hands over at most the rest of the payload. -/
theorem dataBytes_le (evs : List UsbEvent) : ∀ {u : Usb}, (∀ e ∈ evs, e.isSetup = false) →
    u.epControlState = .dataIn → u.ctrlPayloadNbTrans.toNat ≤ u.payloadSize.toNat →
    u.ctrlPayloadNbTrans.toNat + dataBytes u evs ≤ u.payloadSize.toNat := by
  induction evs with
  | nil => exact fun _ _ hle => hle
  | cons e evs ih =>
      intro u hevs hin hle
      have hrest : ∀ e' ∈ evs, e'.isSetup = false :=
        fun e' he' => hevs e' (List.mem_cons_of_mem e he')
      have hout : u.epControlState ≠ .dataOut := by
        rw [hin]
        decide
      rw [dataBytes_cons]
      cases e with
      | setup hw packet => cases hevs _ List.mem_cons_self
      | transferOk packet =>
          simp only [usbStep, ep0OnTransferOk, hin]
          rcases inSent_step hin hle with ⟨hzero, hend⟩ | ⟨hin', hsize, htrans, hle'⟩
          · rw [hzero, dataBytes_quiet evs hrest (by rw [hend]; decide) (by rw [hend]; decide)]
            exact hle
          · have hmore := ih hrest hin' (by rwa [hsize])
            rw [hsize] at hmore
            omega
      | transferFail dirIn =>
          cases dirIn with
          | true =>
              simpa [usbStep, ctrlUnderflow, hin] using ih hrest hin hle
          | false =>
              have hquiet : dataBytes (usbStep u (.transferFail false)).1 evs = 0 := by
                apply dataBytes_quiet evs hrest <;> simp [usbStep, ctrlOverflow, hin]
              rw [hquiet]
              simpa [usbStep, ctrlOverflow, hin] using hle
      | busReset =>
          have hquiet : dataBytes (usbStep u .busReset).1 evs = 0 := by
            apply dataBytes_quiet evs hrest <;> simp [usbStep, onBusReset]
          rw [hquiet]
          simpa [usbStep, onBusReset] using hle

end DataStage

/-! ## Requests that end at `parse_usb_request` -/

/-- The request as the handlers find it. -/
def fetched (packet : List Byte) (u : Usb) : Usb :=
  { beginSetup u with req := fetchRam packet }

/-- `parse_usb_request` accepts the request, after the handlers before it. -/
def ThroughParse (hw : Hw) (u : Usb) : Prop :=
  udcProcessSetup hw u = parseUsbRequest (prepare u) ∧ (parseUsbRequest (prepare u)).1 = true

instance (hw : Hw) (u : Usb) : Decidable (ThroughParse hw u) :=
  inferInstanceAs (Decidable (_ ∧ _))

/-- The reply fits the request: the payload is no longer than `wLength`, and the
data stage never hands over more than `wLength` bytes. -/
def FitsRequest (hw : Hw) (u : Usb) (packet : List Byte) : Prop :=
  (ep0OnSetup hw packet u).1.payloadSize ≤ (fetchRam packet).wLength ∧
    ∀ evs : List UsbEvent, (∀ e ∈ evs, e.isSetup = false) →
      dataBytes u (.setup hw packet :: evs) ≤ (fetchRam packet).wLength.toNat

/-- The host asks for as many bytes as the selected reply has. -/
def RoomForReply (req : SetupReq) : Prop :=
  if req.wIndex = 1 ∨ req.wIndex = 2 then 4 ≤ req.wLength else 8 ≤ req.wLength

instance (req : SetupReq) : Decidable (RoomForReply req) :=
  inferInstanceAs (Decidable (if req.wIndex = 1 ∨ req.wIndex = 2 then 4 ≤ req.wLength
    else 8 ≤ req.wLength))

section Parse

variable {u : Usb} {hw : Hw} {packet : List Byte}

/-- An accepted IN request starts a data stage with the payload of its handler. -/
theorem ep0OnSetup_in (hlen : packet.length = 8) (hin : (fetchRam packet).isIn)
    (hok : (udcProcessSetup hw (fetched packet u)).1 = true) :
    ep0OnSetup hw packet u =
      ((ctrlInSent (startData .dataIn (udcProcessSetup hw (fetched packet u)).2)).1,
        .receive deviceEpCtrlSize ::
          (ctrlInSent (startData .dataIn (udcProcessSetup hw (fetched packet u)).2)).2) := by
  have hreq := keepsReq_udcProcessSetup hw (fetched packet u)
  have hin' : (udcProcessSetup hw (fetched packet u)).2.req.isIn := by
    rw [hreq]
    exact hin
  rw [ep0OnSetup, if_neg (not_not.mpr hlen), ← fetched,
    dispatchSetup_of_not hw (u := fetched packet u) fun h => h.isOut hin, answerSetup, hok,
    if_neg (by decide), if_pos hin']

theorem ctrlInSent_payloadSize (u : Usb) : (ctrlInSent u).1.payloadSize = u.payloadSize := by
  simp only [ctrlInSent]
  split_ifs <;> rfl

/-- The reply fits if and only if the payload that the handler left does. -/
theorem fitsRequest_iff_payloadSize (hlen : packet.length = 8) (hin : (fetchRam packet).isIn)
    (hok : (udcProcessSetup hw (fetched packet u)).1 = true) :
    FitsRequest hw u packet ↔
      (udcProcessSetup hw (fetched packet u)).2.payloadSize ≤ (fetchRam packet).wLength := by
  have hsetup := ep0OnSetup_in hlen hin hok
  set r := startData .dataIn (udcProcessSetup hw (fetched packet u)).2 with hr
  have hsize : (ep0OnSetup hw packet u).1.payloadSize =
      (udcProcessSetup hw (fetched packet u)).2.payloadSize := by
    rw [hsetup, ctrlInSent_payloadSize]
    rfl
  constructor
  · intro h
    rw [← hsize]
    exact h.1
  · intro hle
    refine ⟨by rwa [hsize], fun evs hevs => ?_⟩
    have htotal : dataBytes u (.setup hw packet :: evs) ≤ r.payloadSize.toNat := by
      rw [dataBytes_cons, usbStep, hsetup]
      have hbytes := dataBytes_le (.transferOk [] :: evs) (u := r)
        (by simpa [UsbEvent.isSetup] using hevs) rfl (Nat.zero_le _)
      simpa [dataBytes_cons, usbStep, ep0OnTransferOk, handed, hr, startData] using hbytes
    exact htotal.trans (BitVec.le_def.mp hle)

/-- The reply of `parse_usb_request` has four or eight bytes. -/
theorem parseUsbRequest_size (h : (parseUsbRequest u).1 = true) :
    (parseUsbRequest u).2.payloadSize = if u.req.wIndex = 1 ∨ u.req.wIndex = 2 then 4 else 8 := by
  by_cases hreport : u.req.wValue >>> 8 = 1
  · rw [parseUsbRequest, if_pos ((and_high_iff _).mpr hreport)]
    split_ifs with h1 h2 <;> simp_all [reply]
  · rw [parseUsbRequest_other hreport] at h
    cases h

/-- A request that `parse_usb_request` accepts is answered within its length if and
only if the host leaves room for the whole reply. -/
theorem reply_fits_iff (hw : Hw) (u : Usb) (packet : List Byte) (hlen : packet.length = 8)
    (hin : (fetchRam packet).isIn) (hparse : ThroughParse hw (fetched packet u)) :
    FitsRequest hw u packet ↔ RoomForReply (fetchRam packet) := by
  have hok : (udcProcessSetup hw (fetched packet u)).1 = true := by
    rw [hparse.1]
    exact hparse.2
  have hsize := parseUsbRequest_size hparse.2
  rw [fitsRequest_iff_payloadSize hlen hin hok, hparse.1, hsize, RoomForReply]
  change (if (fetchRam packet).wIndex = 1 ∨ (fetchRam packet).wIndex = 2 then (4 : Half) else 8) ≤
    _ ↔ _
  split_ifs <;> rfl

/-- Both words for a host that asks for eight bytes. -/
theorem reply_fits_both :
    FitsRequest ⟨true, true⟩ Usb.init [0xa1, 0x01, 0x00, 0x01, 0x00, 0x00, 0x08, 0x00] :=
  (reply_fits_iff ⟨true, true⟩ Usb.init _ rfl (by decide) (by decide +kernel)).mpr (by decide)

/-- The host library asks for four bytes of report 1, and eight are handed over. -/
theorem reply_overruns :
    ThroughParse ⟨true, true⟩
        (fetched [0xa1, 0x01, 0x01, 0x01, 0x00, 0x00, 0x04, 0x00] Usb.init) ∧
      ¬FitsRequest ⟨true, true⟩ Usb.init [0xa1, 0x01, 0x01, 0x01, 0x00, 0x00, 0x04, 0x00] ∧
      dataBytes Usb.init
        [.setup ⟨true, true⟩ [0xa1, 0x01, 0x01, 0x01, 0x00, 0x00, 0x04, 0x00]] = 8 := by
  refine ⟨by decide +kernel, fun h => ?_, by decide +kernel⟩
  exact absurd h.1 (by decide +kernel)

/-- Every other accepted IN request is answered within its length. -/
theorem other_replies_fit (hlen : packet.length = 8) (hin : (fetchRam packet).isIn)
    (hpos : (fetchRam packet).wLength ≠ 0)
    (hok : (udcProcessSetup hw (fetched packet u)).1 = true)
    (hparse : ¬ThroughParse hw (fetched packet u)) : FitsRequest hw u packet := by
  rw [fitsRequest_iff_payloadSize hlen hin hok]
  rcases udcProcessSetup_in (u := fetched packet u) hw hin hpos with heq | hother
  · exact absurd ⟨heq, heq ▸ hok⟩ hparse
  · have hsize := hother.size
    rwa [keepsReq_udcProcessSetup hw (fetched packet u)] at hsize

end Parse

end TempHumid.Th2
