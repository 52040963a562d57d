import TempHumid.Sensor.Memory
import TempHumid.Th2.Control
import TempHumid.Th2.Routes

/-!
# IN data of the th2 control endpoint

The bytes that the host receives in an IN data stage, as many as it asks for
with further IN transactions. An input report is answered with `usb_val`
whatever the state of the USB stack is.

## Implementation notes

`usb_val` does not change within one transfer here. The memory behind the other
payload pointers is a parameter.
-/

namespace TempHumid.Th2

/-- The memory from a payload pointer on. `rest` holds all but `usb_val`. -/
def payloadMem (v : UsbVal) (rest : Payload → List Byte) : Payload → List Byte
  | .usbVal i => v.bytes.drop (4 * i)
  | p => rest p

def sentBytes (mem : Payload → List Byte) : UsbAct → List Byte
  | .send p off n => ((mem p).drop off.toNat).take n.toNat
  | .stall | .receive _ | .store _ _ _ | .endpoint _ => []

/-- The outputs of up to `n` completed IN transactions of a data stage. -/
def inStage : ℕ → Usb → List UsbAct
  | 0, _ => []
  | n + 1, u =>
      if u.epControlState = .dataIn then (ctrlInSent u).2 ++ inStage n (ctrlInSent u).1 else []

/-- The data sent for a SETUP packet and `n` completed IN transactions, or
`none` for a stalled request. -/
def inReply (hw : Hw) (mem : Payload → List Byte) (n : ℕ) (packet : List Byte) (u : Usb) :
    Option (List Byte) :=
  let r := ep0OnSetup hw packet u
  if r.1.epControlState = .stallReq then none
  else some ((r.2 ++ inStage n r.1).flatMap (sentBytes mem))

/-! ## The bytes of a data stage -/

section DataStage

variable {u : Usb} (mem : Payload → List Byte)

theorem inStage_of_ne (n : ℕ) (h : u.epControlState ≠ .dataIn) : inStage n u = [] := by
  cases n with
  | zero => rfl
  | succ n => exact if_neg h

/-- The end of the payload: a handshake or one more empty packet. -/
theorem ctrlInSent_end (hsize : u.ctrlPayloadNbTrans = u.payloadSize) :
    (ctrlInSent u).2.flatMap (sentBytes mem) = [] ∧
      ((ctrlInSent u).1.epControlState = .handshakeWaitOutZlp ∨
        (ctrlInSent u).1.epControlState = u.epControlState ∧
          (ctrlInSent u).1.ctrlPayloadNbTrans = (ctrlInSent u).1.payloadSize) := by
  have hremain : u.payloadSize - u.ctrlPayloadNbTrans = 0 := by
    rw [hsize]
    exact BitVec.sub_self _
  simp only [ctrlInSent, if_pos hremain]
  split
  · exact ⟨rfl, .inl rfl⟩
  · refine ⟨?_, .inr ⟨rfl, ?_⟩⟩
    · simp [ctrlInContinue, sentBytes, deviceEpCtrlSize]
    · simpa [ctrlInContinue, deviceEpCtrlSize] using hsize

/-- One packet of the payload: the next eight bytes, or all that remain. -/
theorem ctrlInSent_part (hle : u.ctrlPayloadNbTrans.toNat < u.payloadSize.toNat) :
    ∃ k : ℕ, k = min 8 (u.payloadSize.toNat - u.ctrlPayloadNbTrans.toNat) ∧
      (ctrlInSent u).2.flatMap (sentBytes mem) =
        ((mem u.payload).drop u.ctrlPayloadNbTrans.toNat).take k ∧
      (ctrlInSent u).1.epControlState = u.epControlState ∧
      (ctrlInSent u).1.payload = u.payload ∧ (ctrlInSent u).1.payloadSize = u.payloadSize ∧
      (ctrlInSent u).1.ctrlPayloadNbTrans.toNat = u.ctrlPayloadNbTrans.toNat + k := by
  have hremain : (u.payloadSize - u.ctrlPayloadNbTrans).toNat =
      u.payloadSize.toNat - u.ctrlPayloadNbTrans.toNat :=
    BitVec.toNat_sub_of_le hle.le
  have hne : u.payloadSize - u.ctrlPayloadNbTrans ≠ 0 := by
    intro h
    rw [h] at hremain
    change 0 = _ at hremain
    omega
  simp only [ctrlInSent, if_neg hne]
  generalize u.payloadSize - u.ctrlPayloadNbTrans = remain at hremain hne
  set n := if deviceEpCtrlSize ≤ remain then deviceEpCtrlSize else remain with hn
  have hk : n.toNat = min 8 remain.toNat := by
    rw [hn]
    split
    · next h =>
        rw [BitVec.le_def] at h
        exact (Nat.min_eq_left h).symm
    · next h =>
        rw [BitVec.le_def, not_le] at h
        exact (Nat.min_eq_right h.le).symm
  refine ⟨n.toNat, by rw [hk, hremain], ?_, rfl, rfl, rfl, ?_⟩
  · simp [ctrlInContinue, sentBytes, ← hn]
  · have hbound := u.payloadSize.isLt
    simp only [ctrlInContinue, ← hn]
    rw [BitVec.toNat_add, Nat.mod_eq_of_lt (by omega)]

/-- After `n` IN transactions the host has the next `8 * n` bytes of the payload,
or all that remain. -/
theorem inStage_bytes (n : ℕ) : ∀ {u : Usb}, u.epControlState = .dataIn →
    u.ctrlPayloadNbTrans.toNat ≤ u.payloadSize.toNat →
    (inStage n u).flatMap (sentBytes mem) =
      ((mem u.payload).drop u.ctrlPayloadNbTrans.toNat).take
        (min (8 * n) (u.payloadSize.toNat - u.ctrlPayloadNbTrans.toNat)) := by
  induction n with
  | zero => intro u _ _; simp [inStage]
  | succ n ih =>
      intro u hstate hle
      rw [inStage, if_pos hstate, List.flatMap_append]
      rcases hle.eq_or_lt with heq | hlt
      · obtain ⟨hnone, hend⟩ := ctrlInSent_end mem (BitVec.eq_of_toNat_eq heq)
        rw [hnone, heq, Nat.sub_self, Nat.min_zero, List.take_zero, List.nil_append]
        rcases hend with hzlp | ⟨hsame, hsize⟩
        · rw [inStage_of_ne n (by rw [hzlp]; decide), List.flatMap_nil]
        · rw [ih (hsame.trans hstate) (by rw [hsize]), hsize, Nat.sub_self, Nat.min_zero,
            List.take_zero]
      · obtain ⟨k, hk, hbytes, hsame, hpayload, hsize, htrans⟩ := ctrlInSent_part mem hlt
        rw [hbytes, ih (hsame.trans hstate) (by rw [htrans, hsize]; omega), hpayload, hsize,
          htrans, ← List.drop_drop, ← List.take_add]
        congr 1
        omega

end DataStage

/-! ## Accepted requests -/

section Accepted

variable {u : Usb} {hw : Hw}

theorem ctrlInSent_ne_stall (h : u.epControlState = .dataIn) :
    (ctrlInSent u).1.epControlState ≠ .stallReq := by
  simp only [ctrlInSent]
  split_ifs
  · simp
  · simp [ctrlInContinue, h]
  · simp [ctrlInContinue, h]

/-- An accepted IN request is answered with the payload, eight bytes a packet. -/
theorem inReply_of_accepted (mem : Payload → List Byte) (n : ℕ) {packet : List Byte}
    (hlen : packet.length = 8) (hin : (fetchRam packet).isIn) {r : Usb}
    (hr : udcProcessSetup hw { beginSetup u with req := fetchRam packet } = (true, r)) :
    inReply hw mem n packet u =
      some ((mem r.payload).take (min (8 * (n + 1)) r.payloadSize.toNat)) := by
  have hreq : r.req = fetchRam packet := by
    have h := keepsReq_udcProcessSetup hw { beginSetup u with req := fetchRam packet }
    rwa [hr] at h
  have hsetup : ep0OnSetup hw packet u = ((ctrlInSent (startData .dataIn r)).1,
      .receive deviceEpCtrlSize :: (ctrlInSent (startData .dataIn r)).2) := by
    rw [ep0OnSetup, if_neg (not_not.mpr hlen), dispatchSetup_of_not hw fun h => h.isOut hin, hr]
    simp only [answerSetup, hreq, hin, if_true, Bool.true_eq_false, if_false]
  have hstall := ctrlInSent_ne_stall (u := startData .dataIn r) rfl
  have hbytes := inStage_bytes mem (n + 1) (u := startData .dataIn r) rfl (Nat.zero_le _)
  rw [inStage, if_pos (show (startData .dataIn r).epControlState = .dataIn from rfl)] at hbytes
  rw [inReply, hsetup, if_neg hstall, List.cons_append, List.flatMap_cons, hbytes]
  rfl

/-- A class `GET_REPORT` to the interface for an input report. -/
structure IsGetInput (req : SetupReq) : Prop where
  isIn : req.isIn
  type : req.type = typeClass
  recipient : req.recipient = recipInterface
  bRequest : req.bRequest = 0x01
  report : req.wValue >>> 8 = 1
  wLength : req.wLength ≠ 0

theorem udiHidSetup_getInput (h : IsGetInput u.req) : udiHidSetup u = parseUsbRequest u := by
  have hstd : ¬(u.req.type = typeStandard ∧ u.req.bRequest = 6) := by
    rw [h.type]
    exact fun hc => absurd hc.1 (by decide)
  rw [udiHidSetup, if_pos h.isIn, if_neg hstd, if_pos h.type, if_pos h.bRequest]
  exact setreport_input h.report

/-- Configured or not, `parse_usb_request` answers it. -/
theorem udcProcessSetup_getInput (hw : Hw) (h : IsGetInput u.req) :
    udcProcessSetup hw u = parseUsbRequest (prepare u) := by
  have hstd : Handler.when (fun u => u.req.type = typeStandard) (udcReqstd hw) (prepare u) =
      unsupported (prepare u) := by
    apply if_neg
    change ¬u.req.type = typeStandard
    rw [h.type]
    decide
  have hhid := udiHidSetup_getInput (u := prepare u) h
  have hparse := parseUsbRequest_input (u := prepare u) h.report
  rw [udcProcessSetup_eq (fun hc => h.wLength hc.2) hstd]
  split
  · rw [Handler.orElse_eq_left (by rw [hhid]; exact hparse.1), hhid]
  · rfl

/-- What `parse_usb_request` sends when the index selects both words. -/
theorem inReply_both (v : UsbVal) (rest : Payload → List Byte) (n : ℕ) {packet : List Byte}
    (hlen : packet.length = 8) (hin : (fetchRam packet).isIn)
    (hparse : udcProcessSetup hw { beginSetup u with req := fetchRam packet } =
      parseUsbRequest (prepare { beginSetup u with req := fetchRam packet }))
    (hreport : (fetchRam packet).wValue >>> 8 = 1)
    (h1 : (fetchRam packet).wIndex ≠ 1) (h2 : (fetchRam packet).wIndex ≠ 2) :
    inReply hw (payloadMem v rest) n packet u = some v.bytes := by
  have hboth := parseUsbRequest_default
    (u := prepare { beginSetup u with req := fetchRam packet }) hreport h1 h2
  rw [inReply_of_accepted (payloadMem v rest) n hlen hin (hparse.trans hboth)]
  change some (v.bytes.take (min (8 * (n + 1)) 8)) = _
  rw [Nat.min_eq_right (by omega), List.take_of_length_le (by rw [UsbVal.bytes_length])]

/-- The report ID is not looked at, and an index other than 1 and 2 selects both words. -/
theorem inReply_getInput (v : UsbVal) (rest : Payload → List Byte) (n : ℕ) {packet : List Byte}
    (hlen : packet.length = 8) (h : IsGetInput (fetchRam packet))
    (h1 : (fetchRam packet).wIndex ≠ 1) (h2 : (fetchRam packet).wIndex ≠ 2) :
    inReply hw (payloadMem v rest) n packet u = some v.bytes :=
  inReply_both v rest n hlen h.isIn (udcProcessSetup_getInput hw h) h.report h1 h2

end Accepted

end TempHumid.Th2
