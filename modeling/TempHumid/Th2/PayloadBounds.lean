import TempHumid.Library.Machine
import TempHumid.Th2.OutData

/-!
# Bounds of the th2 control endpoint

Three kinds of memory are at stake: the object behind the payload pointer, the
control buffer that a received packet goes into, and the table of jobs that the
endpoint driver looks into. The accesses stay inside them in every run without
a stray request and without an OUT data stage longer than its payload.

## Implementation notes

The stall of a data stage that overruns its payload goes through
`udd_ep_set_halt(0)`, which aborts a job that endpoint 0 does not have.
-/

namespace TempHumid.Th2

open Machine

/-! ## The jobs of the endpoint -/

/-- The payload lies within its object. -/
def Fits (u : Usb) : Prop := u.payloadSize.toNat ≤ u.payload.room

theorem updates_fits : Updates fun u v => Fits u → Fits v where
  refl _ := id
  trans _ _ _ huv hvw h := hvw (huv h)
  payload _ _ _ hsize _ := hsize
  cut _ _ hle h := le_trans (BitVec.le_def.mp hle) h
  setfeature _ := id
  validAddress _ _ := id
  endpoint _ _ := id
  numConfiguration _ _ _ := id
  rate _ _ _ := id
  protocol _ _ _ := id

/-- After every request, supported or not, the payload lies within its object. -/
theorem fits_udcProcessSetup (hw : Hw) (u : Usb) : Fits (udcProcessSetup hw u).2 :=
  follows_udcProcessSetup updates_fits hw u (Nat.zero_le _)

/-- The hardware reads inside the object that the payload points into and writes
inside the control buffer, a copy goes from the one buffer into the other, and
the driver stays in its table of jobs. -/
def InBounds : UsbAct → Prop
  | .send p off n => off.toNat + n.toNat ≤ p.room
  | .store p off data =>
      off.toNat + data.length ≤ p.room ∧ data.length ≤ deviceEpCtrlSize.toNat
  | .receive n => n.toNat ≤ deviceEpCtrlSize.toNat
  | .endpoint c => c.InTable
  | .stall => True

/-- The packet starts an OUT data stage longer than the pair `usb_val`. -/
def OverrunsReq (numConfiguration : Byte) (req : SetupReq) : Prop :=
  ExposesReq numConfiguration req ∧ req.wIndex ≠ 1 ∧ req.wIndex ≠ 2 ∧ 8 < req.wLength

instance (n : Byte) (req : SetupReq) : Decidable (OverrunsReq n req) :=
  inferInstanceAs (Decidable (_ ∧ _))

/-- Endpoint 0 takes packets of up to eight bytes, and the host neither strays
nor overruns. -/
def Regular (u : Usb) : UsbEvent → Prop
  | .setup _ packet => packet.length = 8 →
      ¬StrayReq (fetchRam packet) ∧ ¬OverrunsReq u.numConfiguration (fetchRam packet)
  | .transferOk packet => packet.length ≤ deviceEpCtrlSize.toNat
  | .transferFail _ | .busReset => True

instance (u : Usb) : DecidablePred (Regular u)
  | .setup _ _ => inferInstanceAs (Decidable (_ → _ ∧ _))
  | .transferOk _ => inferInstanceAs (Decidable (_ ≤ _))
  | .transferFail _ | .busReset => isTrue trivial

/-- In a data stage the payload lies within its object. The bytes sent are part
of it, and one packet ends the OUT data stage. -/
structure BoundsInv (u : Usb) : Prop where
  dataIn : u.epControlState = .dataIn → u.ctrlPayloadNbTrans ≤ u.payloadSize ∧ Fits u
  dataOut : u.epControlState = .dataOut → Fits u ∧ u.ctrlPayloadNbTrans = 0 ∧
    (u.payloadSize.toNat < 8 ∨ u.payloadSize = 8 ∧ u.req.wLength.toNat ≤ 8)

/-- The invariant holds after the step, and its jobs are in bounds. -/
def Bounded (r : Usb × List UsbAct) : Prop := BoundsInv r.1 ∧ ∀ a ∈ r.2, InBounds a

section Bounded

variable {u : Usb} {hw : Hw}

theorem boundsInv_idle (hin : u.epControlState ≠ .dataIn) (hout : u.epControlState ≠ .dataOut) :
    BoundsInv u :=
  ⟨fun h => absurd h hin, fun h => absurd h hout⟩

theorem bounded_stallData (u : Usb) : Bounded (ctrlStallData u) :=
  ⟨boundsInv_idle (by simp [ctrlStallData]) (by simp [ctrlStallData]),
    by simp [ctrlStallData, InBounds]⟩

/-- The two sizes given for the control buffer are its own. -/
theorem receive_inBounds :
    InBounds (.receive setupBufferSize) ∧ InBounds (.receive deviceEpCtrlSize) := by
  simp [InBounds, setupBufferSize, deviceEpCtrlSize]

theorem bounded_sendZlpIn (u : Usb) : Bounded (ctrlSendZlpIn u) := by
  refine ⟨boundsInv_idle (by simp [ctrlSendZlpIn]) (by simp [ctrlSendZlpIn]), ?_⟩
  rw [ctrlSendZlpIn, List.forall_mem_cons, List.forall_mem_singleton]
  exact ⟨receive_inBounds.1, Nat.zero_le _⟩

/-- The next packet of a payload of which `remain` bytes are left. -/
theorem bounded_inContinue (hfits : Fits u) (remain : Half) (hstate : u.epControlState = .dataIn)
    (hle : u.ctrlPayloadNbTrans.toNat + remain.toNat ≤ u.payloadSize.toNat) :
    Bounded (ctrlInContinue remain u) := by
  have hsize := u.payloadSize.isLt
  have hpart : ∀ n : Half, n.toNat ≤ remain.toNat →
      (u.ctrlPayloadNbTrans + n).toNat = u.ctrlPayloadNbTrans.toNat + n.toNat := by
    intro n hn
    rw [BitVec.toNat_add, Nat.mod_eq_of_lt (by omega)]
  have hn : (if deviceEpCtrlSize ≤ remain then deviceEpCtrlSize else remain).toNat ≤
      remain.toNat := by
    split
    · next h => exact BitVec.le_def.mp h
    · exact le_rfl
  refine ⟨⟨fun _ => ⟨?_, hfits⟩, fun h => absurd (hstate.symm.trans h) (by decide)⟩, ?_⟩
  · rw [BitVec.le_def]
    change (u.ctrlPayloadNbTrans + _).toNat ≤ u.payloadSize.toNat
    rw [hpart _ hn]
    omega
  · simp only [ctrlInContinue, List.forall_mem_singleton, InBounds]
    exact le_trans (by omega) hfits

theorem bounded_inSent (hstate : u.epControlState = .dataIn)
    (hle : u.ctrlPayloadNbTrans ≤ u.payloadSize) (hfits : Fits u) : Bounded (ctrlInSent u) := by
  have hle' := BitVec.le_def.mp hle
  have hremain : (u.payloadSize - u.ctrlPayloadNbTrans).toNat =
      u.payloadSize.toNat - u.ctrlPayloadNbTrans.toNat :=
    BitVec.toNat_sub_of_le hle
  simp only [ctrlInSent]
  split_ifs
  · exact ⟨boundsInv_idle (by simp) (by simp), List.forall_mem_singleton.mpr receive_inBounds.1⟩
  · apply bounded_inContinue
    · exact hfits
    · exact hstate
    · exact hle'
  · exact bounded_inContinue hfits _ hstate (by omega)

/-- A packet for an OUT data stage is its last: a packet that fills the buffer
is all that the request has announced. -/
theorem bounded_outReceived {packet : List Byte} (hinv : BoundsInv u)
    (hstate : u.epControlState = .dataOut) (hpacket : packet.length ≤ deviceEpCtrlSize.toNat) :
    Bounded (ctrlOutReceived packet u) := by
  obtain ⟨hfits, htrans, hlast⟩ := hinv.dataOut hstate
  have hle := outSize_le packet htrans
  have hstore : ∀ a ∈ (copyPayload packet u).2, InBounds a := by
    simp only [copyPayload, List.forall_mem_singleton, InBounds, List.length_take, htrans]
    constructor
    · change 0 + min (outSize packet u).toNat packet.length ≤ _
      exact le_trans (by omega) hfits
    · exact (Nat.min_le_right _ _).trans hpacket
  have hend : outSize packet u ≠ deviceEpCtrlSize ∨
      (copyPayload packet u).1.req.wLength.toNat ≤
        (copyPayload packet u).1.ctrlPrevPayloadNbTrans.toNat +
          (copyPayload packet u).1.ctrlPayloadNbTrans.toNat := by
    by_cases hfull : outSize packet u = deviceEpCtrlSize
    · right
      rw [hfull] at hle
      have hlen : u.req.wLength.toNat ≤ 8 := by
        rcases hlast with hlt | ⟨-, hlen⟩
        · exact absurd hle (Nat.not_le.mpr hlt)
        · exact hlen
      have htotal : (copyPayload packet u).1.ctrlPayloadNbTrans = 8 ∧
          (copyPayload packet u).1.req = u.req := by
        simp only [copyPayload, hfull, htrans]
        split <;> exact ⟨rfl, rfl⟩
      rw [htotal.1, htotal.2]
      exact Nat.le_add_left_of_le hlen
    · exact .inl hfull
  have hzlp := bounded_sendZlpIn { (copyPayload packet u).1 with
    payloadSize := (copyPayload packet u).1.ctrlPayloadNbTrans }
  rw [ctrlOutReceived]
  simp only [if_pos hend]
  exact ⟨hzlp.1, List.forall_mem_append.mpr ⟨hstore, hzlp.2⟩⟩

/-- An accepted OUT request with data leaves a payload shorter than a packet, or
the pair `usb_val` for a request that asks for no more. -/
theorem payloadSize_of_out (hout : u.req.isOut) (hlen : u.req.wLength ≠ 0)
    (h : ¬OverrunsReq u.numConfiguration u.req) (hok : (udcProcessSetup hw u).1 = true) :
    (udcProcessSetup hw u).2.payloadSize.toNat < 8 ∨
      (udcProcessSetup hw u).2.payloadSize = 8 ∧ u.req.wLength.toNat ≤ 8 := by
  by_cases hexp : ExposesReq u.numConfiguration u.req
  · rw [udcProcessSetup_of_exposes hw hexp, parseUsbRequest,
      if_pos ((and_high_iff _).mpr (show (prepare u).req.wValue >>> 8 = 1 from hexp.2.2.1))]
    split_ifs with h1 h2
    · exact .inl (by change 4 < 8; decide)
    · exact .inl (by change 4 < 8; decide)
    · refine .inr ⟨rfl, ?_⟩
      exact BitVec.le_def.mp (BitVec.not_lt.mp fun hlt => h ⟨hexp, h1, h2, hlt⟩)
  · left
    rcases processSetup_of_not_exposes hout hlen hexp hok with hsize | ⟨-, hsize⟩ <;> rw [hsize] <;>
      decide

/-- A data stage starts with an empty part of a payload that fits. -/
theorem bounded_answerSetup (h : ¬OverrunsReq u.numConfiguration u.req) :
    Bounded (answerSetup (udcProcessSetup hw u)) := by
  have hreq := keepsReq_udcProcessSetup hw u
  have hfits := fits_udcProcessSetup hw u
  have hzero : (startData .dataIn (udcProcessSetup hw u).2).ctrlPayloadNbTrans ≤
      (udcProcessSetup hw u).2.payloadSize :=
    BitVec.le_def.mpr (Nat.zero_le _)
  simp only [answerSetup]
  split_ifs with hfalse hin hlen
  · exact bounded_stallData _
  · have hsent := bounded_inSent (u := startData .dataIn (udcProcessSetup hw u).2) rfl hzero hfits
    exact ⟨hsent.1, List.forall_mem_cons.mpr ⟨receive_inBounds.2, hsent.2⟩⟩
  · exact bounded_sendZlpIn _
  · rw [hreq] at hin hlen
    have hsize := payloadSize_of_out (isOut_iff.mpr hin) hlen h (Bool.not_eq_false _ ▸ hfalse)
    rw [← hreq] at hsize
    exact ⟨⟨fun h => absurd h (by simp [startData]), fun _ => ⟨hfits, rfl, hsize⟩⟩,
      List.forall_mem_singleton.mpr receive_inBounds.2⟩

theorem bounded_ep0OnSetup {packet : List Byte} (h : Regular u (.setup hw packet)) :
    Bounded (ep0OnSetup hw packet u) := by
  rw [ep0OnSetup]
  split_ifs with hlen
  · exact bounded_stallData _
  · obtain ⟨hstray, hover⟩ := h (not_not.mp hlen)
    rw [← beginSetup_numConfiguration] at hover
    have hanswer : Bounded (answerSetup (udcProcessSetup hw
        { beginSetup u with req := fetchRam packet })) := bounded_answerSetup hover
    have hcalls := (calls_inTable_iff hw
      (u := { beginSetup u with req := fetchRam packet })).mpr hstray
    exact ⟨hanswer.1, List.forall_mem_append.mpr ⟨List.forall_mem_map.mpr hcalls, hanswer.2⟩⟩

theorem bounded_usbStep (hinv : BoundsInv u) {e : UsbEvent} (h : Regular u e) :
    Bounded (usbStep u e) := by
  cases e with
  | setup hw packet => exact bounded_ep0OnSetup h
  | transferOk packet =>
      simp only [usbStep, ep0OnTransferOk]
      cases hs : u.epControlState with
      | dataIn => exact bounded_inSent hs (hinv.dataIn hs).1 (hinv.dataIn hs).2
      | dataOut => exact bounded_outReceived hinv hs h
      | _ => exact ⟨boundsInv_idle (by simp) (by simp), by simp⟩
  | transferFail dirIn =>
      cases dirIn with
      | true =>
          simp only [usbStep, ctrlUnderflow, if_true]
          cases u.epControlState with
          | dataOut => exact bounded_sendZlpIn u
          | handshakeWaitOutZlp => exact ⟨hinv, by simp [InBounds]⟩
          | _ => exact ⟨hinv, by simp⟩
      | false =>
          simp only [usbStep, ctrlOverflow]
          cases u.epControlState with
          | dataIn => exact ⟨boundsInv_idle (by simp) (by simp), by simp⟩
          | handshakeWaitInZlp => exact ⟨hinv, by simp [InBounds]⟩
          | _ => exact ⟨hinv, by simp⟩
  | busReset =>
      exact ⟨boundsInv_idle (by simp [usbStep, onBusReset]) (by simp [usbStep, onBusReset]),
        by simp [usbStep, onBusReset]⟩

end Bounded

theorem boundsInv_init : BoundsInv Usb.init := boundsInv_idle (by decide) (by decide)

/-- In a run of regular steps every access of the control endpoint is in bounds. -/
theorem jobs_inBounds (evs : List UsbEvent) (h : AllSteps usbStep Regular Usb.init evs) :
    AllSteps usbStep (fun u e => ∀ a ∈ (usbStep u e).2, InBounds a) Usb.init evs :=
  h.of_invariant boundsInv_init (fun _ _ hinv hreg => (bounded_usbStep hinv hreg).1)
    fun _ _ hinv hreg => (bounded_usbStep hinv hreg).2

/-- The host halts the OUT endpoint, stores eight bytes into `usb_val`, and asks
for the device descriptor. -/
def regularRun : List UsbEvent :=
  [.setup ⟨true, true⟩ [0x02, 0x03, 0x00, 0x00, 0x02, 0x00, 0x00, 0x00], .transferOk [],
    .setup ⟨true, true⟩ [0x21, 0x09, 0x00, 0x01, 0x00, 0x00, 0x08, 0x00],
    .transferOk [1, 2, 3, 4, 5, 6, 7, 8], .transferOk [],
    .setup ⟨true, true⟩ [0x80, 0x06, 0x00, 0x01, 0x00, 0x00, 0x12, 0x00], .transferOk []]

theorem jobs_inBounds_regular :
    AllSteps usbStep (fun u e => ∀ a ∈ (usbStep u e).2, InBounds a) Usb.init regularRun :=
  jobs_inBounds regularRun (by decide)

end TempHumid.Th2
