import TempHumid.Th2.Updates

/-!
# The control endpoint of the th2 firmware

The callbacks of endpoint 0 from `usb_device_udd.c`: a received SETUP packet, a
completed or failed transfer, and a bus reset.

## Implementation notes

The outputs are the jobs given to the hardware of endpoint 0, the stores into
the payload buffer and the calls of the endpoint driver. What a call does to
endpoints 1 and 2 is the subject of a later module; here it matters which entry
of `udd_ep_job` it touches. A completed IN transfer is a `transferOk` with no bytes.
`over_under_run` is always `NULL`, so the branches that would call it are the
ones for its absence.
-/

namespace TempHumid.Th2

open Words

/-- Jobs of endpoint 0, stores into the payload and calls of the endpoint driver,
in program order. `receive n` lets the hardware write `n` bytes to
`udd_ctrl_buffer`. -/
inductive UsbAct
  | stall
  | receive (n : Half)
  | send (p : Payload) (off n : Half)
  | store (p : Payload) (off : Half) (data : List Byte)
  | endpoint (c : EpCall)
  deriving DecidableEq

/-- The events of endpoint 0 and of the bus. -/
inductive UsbEvent
  | setup (hw : Hw) (packet : List Byte)
  | transferOk (packet : List Byte)
  | transferFail (dirIn : Bool)
  | busReset
  deriving DecidableEq

def deviceEpCtrlSize : Half := 8

/-- The size that `usb_device_endpoint_setup_buffer_job` gives to its buffer. -/
def setupBufferSize : Half := 8

/-- `udd_ep_get_job`: an index into `udd_ep_job`, or `none` for `NULL`. -/
def uddEpGetJob (ep : Byte) : Option ℤ :=
  if ep = 0 ∨ ep = 0x80 then none
  else some (2 * (epNum ep).toNat + (if ep &&& 0x80 ≠ 0 then 1 else 0) - 2)

/-- The entry lies in `udd_ep_job`, which has two for each endpoint. -/
def JobInTable (ep : Byte) : Prop :=
  ∃ i ∈ uddEpGetJob ep, 0 ≤ i ∧ i < 2 * deviceMaxEp.toNat

instance (ep : Byte) : Decidable (JobInTable ep) :=
  match h : uddEpGetJob ep with
  | some i => decidable_of_iff (0 ≤ i ∧ i < 2 * deviceMaxEp.toNat) (by simp [JobInTable, h])
  | none => isFalse (by simp [JobInTable, h])

/-- The call touches no memory outside `udd_ep_job`. An abort looks up the job
of any endpoint, the other two check the number first. -/
def EpCall.InTable : EpCall → Prop
  | .abort ep => JobInTable ep
  | .setHalt ep | .clearHalt ep => epExists ep = true → JobInTable ep

instance : DecidablePred EpCall.InTable
  | .abort ep => inferInstanceAs (Decidable (JobInTable ep))
  | .setHalt _ | .clearHalt _ => inferInstanceAs (Decidable (_ → _))

def fetchRam (buf : List Byte) : SetupReq where
  bmRequestType := buf.getD 0 0
  bRequest := buf.getD 1 0
  wValue := (buf.getD 3 0).setWidth 16 <<< 8 + (buf.getD 2 0).setWidth 16
  wIndex := (buf.getD 5 0).setWidth 16 <<< 8 + (buf.getD 4 0).setWidth 16
  wLength := (buf.getD 7 0).setWidth 16 <<< 8 + (buf.getD 6 0).setWidth 16

/-- The callback of the current request. -/
def runCallback (u : Usb) : Usb :=
  match u.callback with
  | some .validAddress => { u with address := (u.req.wValue &&& 0x7f).setWidth 8 }
  | some .setfeatureValid | none => u

def ctrlStallData (u : Usb) : Usb × List UsbAct :=
  ({ u with epControlState := .stallReq }, [.stall])

def ctrlSendZlpIn (u : Usb) : Usb × List UsbAct :=
  ({ u with epControlState := .handshakeWaitInZlp }, [.receive setupBufferSize, .send u.payload 0 0])

/-- The last part of `udd_ctrl_in_sent`, with `nb_remain` bytes to go. -/
def ctrlInContinue (nbRemain : Half) (u : Usb) : Usb × List UsbAct :=
  let n := if deviceEpCtrlSize ≤ nbRemain then deviceEpCtrlSize else nbRemain
  ({ u with
      shortpacket := !decide (deviceEpCtrlSize ≤ nbRemain)
      ctrlPayloadNbTrans := u.ctrlPayloadNbTrans + n },
    [.send u.payload u.ctrlPayloadNbTrans n])

def ctrlInSent (u : Usb) : Usb × List UsbAct :=
  let nbRemain := u.payloadSize - u.ctrlPayloadNbTrans
  if nbRemain = 0 then
    let u := { u with
      ctrlPrevPayloadNbTrans := u.ctrlPrevPayloadNbTrans + u.ctrlPayloadNbTrans }
    if u.req.wLength = u.ctrlPrevPayloadNbTrans ∨ u.shortpacket = true then
      ({ u with epControlState := .handshakeWaitOutZlp }, [.receive setupBufferSize])
    else ctrlInContinue 0 u
  else ctrlInContinue nbRemain u

/-- The number of received bytes that fit the payload. -/
def outSize (packet : List Byte) (u : Usb) : Half :=
  if u.payloadSize.toNat < u.ctrlPayloadNbTrans.toNat + packet.length then
    u.payloadSize - u.ctrlPayloadNbTrans
  else BitVec.ofNat 16 packet.length

/-- `memcpy` into the payload. The feature report is the only buffer beside
`usb_val` that receives data. -/
def copyPayload (packet : List Byte) (u : Usb) : Usb × List UsbAct :=
  let data := packet.take (outSize packet u).toNat
  let u' := { u with ctrlPayloadNbTrans := u.ctrlPayloadNbTrans + outSize packet u }
  (if u.payload = .reportFeature then
      { u' with reportFeature := splice u.reportFeature u.ctrlPayloadNbTrans.toNat data }
    else u',
    [.store u.payload u.ctrlPayloadNbTrans data])

def ctrlOutReceived (packet : List Byte) (u : Usb) : Usb × List UsbAct :=
  let c := copyPayload packet u
  if outSize packet u ≠ deviceEpCtrlSize ∨
      c.1.req.wLength.toNat ≤
        c.1.ctrlPrevPayloadNbTrans.toNat + c.1.ctrlPayloadNbTrans.toNat then
    let r := ctrlSendZlpIn { c.1 with payloadSize := c.1.ctrlPayloadNbTrans }
    (r.1, c.2 ++ r.2)
  else if c.1.payloadSize = c.1.ctrlPayloadNbTrans then
    -- `udd_ep_set_halt(0)` aborts the job of endpoint 0, which has none
    ({ c.1 with epControlState := .stallReq }, c.2 ++ [.endpoint (.setHalt 0)])
  else (c.1, c.2 ++ [.receive deviceEpCtrlSize])

/-- The counters and the state at the start of a data stage. -/
def startData (state : EpCtrl) (u : Usb) : Usb :=
  { u with ctrlPrevPayloadNbTrans := 0, ctrlPayloadNbTrans := 0, epControlState := state }

/-- What `_usb_ep0_on_setup` does with the result of `udc_process_setup`. -/
def answerSetup (r : Bool × Usb) : Usb × List UsbAct :=
  if r.1 = false then ctrlStallData r.2
  else if r.2.req.isIn then
    let c := ctrlInSent (startData .dataIn r.2)
    (c.1, .receive deviceEpCtrlSize :: c.2)
  else if r.2.req.wLength = 0 then ctrlSendZlpIn r.2
  else (startData .dataOut r.2, [.receive deviceEpCtrlSize])

/-- The part of `_usb_ep0_on_setup` after the packet has been fetched. -/
def dispatchSetup (hw : Hw) (u : Usb) : Usb × List UsbAct :=
  let r := udcProcessSetup hw u
  ((answerSetup r).1, r.2.epCalls.map .endpoint ++ (answerSetup r).2)

/-- Most requests make no calls. -/
theorem dispatchSetup_of_not (hw : Hw) {u : Usb} (h : ¬IsEpHalt u.req) :
    dispatchSetup hw u = answerSetup (udcProcessSetup hw u) := by
  rw [dispatchSetup, epCalls_of_not hw h]
  rfl

/-- A SETUP packet ends the transfer before it. -/
def beginSetup (u : Usb) : Usb :=
  if u.epControlState ≠ .setup then { runCallback u with epControlState := .setup } else u

def ep0OnSetup (hw : Hw) (packet : List Byte) (u : Usb) : Usb × List UsbAct :=
  if packet.length ≠ 8 then ctrlStallData (beginSetup u)
  else dispatchSetup hw { beginSetup u with req := fetchRam packet }

def ctrlUnderflow (u : Usb) : Usb × List UsbAct :=
  match u.epControlState with
  | .dataOut => ctrlSendZlpIn u
  | .handshakeWaitOutZlp => (u, [.stall])
  | .setup | .dataIn | .handshakeWaitInZlp | .stallReq => (u, [])

def ctrlOverflow (u : Usb) : Usb × List UsbAct :=
  match u.epControlState with
  | .dataIn => ({ u with epControlState := .handshakeWaitOutZlp }, [])
  | .handshakeWaitInZlp => (u, [.stall])
  | .setup | .dataOut | .handshakeWaitOutZlp | .stallReq => (u, [])

def ep0OnTransferOk (packet : List Byte) (u : Usb) : Usb × List UsbAct :=
  match u.epControlState with
  | .dataOut => ctrlOutReceived packet u
  | .dataIn => ctrlInSent u
  | .setup | .handshakeWaitInZlp | .handshakeWaitOutZlp | .stallReq =>
      ({ runCallback u with epControlState := .setup }, [])

def onBusReset (u : Usb) : Usb × List UsbAct :=
  ({ udcReset u with address := 0, epControlState := .setup }, [])

def usbStep (u : Usb) : UsbEvent → Usb × List UsbAct
  | .setup hw packet => ep0OnSetup hw packet u
  | .transferOk packet => ep0OnTransferOk packet u
  | .transferFail dirIn => if dirIn then ctrlUnderflow u else ctrlOverflow u
  | .busReset => onBusReset u

end TempHumid.Th2
