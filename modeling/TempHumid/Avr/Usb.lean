import TempHumid.Avr.Firmware
import TempHumid.Sensor.Memory

/-!
# The USB driver of the AVR firmware

`usbFunctionSetup` of `main.c` and the control endpoint of `usbdrv.c`:
`usbProcessRx`, `usbDriverSetup`, `usbBuildTxBlock` and `usbPoll`.

## Implementation notes

The configuration is the one of `usbconfig.h`: no `usbFunctionRead` or
`usbFunctionWrite`, no long transfers, no halt feature and the default
descriptors. A message pointer names the object it points into, which makes
`usbMsgFlags` redundant. The tables in flash are a parameter. The interrupt
routine is present through a received message, and through `taken` when the
host has fetched a block.
-/

namespace TempHumid.Avr

/-- What `usbMsgPtr` points into. -/
inductive Source
  | usbVal
  | txReply
  | usbConfiguration
  | descriptorDevice
  | descriptorConfiguration
  | descriptorString0
  | descriptorStringVendor
  | descriptorStringDevice
  | descriptorStringSerialNumber
  | descriptorHidReport
  deriving DecidableEq

structure MsgPtr where
  src : Source
  off : ℕ
  deriving DecidableEq

/-- The variables of the driver. `usbTxPid` and `usbTxData` are `usbTxBuf`
without its CRC, and `txReply` its bytes from 9 on. -/
structure Driver where
  usbDeviceAddr : Byte
  usbNewDeviceAddr : Byte
  usbConfiguration : Byte
  usbMsgPtr : MsgPtr
  usbMsgLen : Byte
  usbTxLen : Byte
  usbTxPid : Byte
  usbTxData : List Byte
  txReply : List Byte
  deriving DecidableEq

/-- The fields of `usbRequest_t`, each word as its two bytes. -/
structure UsbRequest where
  bmRequestType : Byte
  bRequest : Byte
  wValue : Byte × Byte
  wIndex : Byte × Byte
  wLength : Byte × Byte
  deriving DecidableEq

def UsbRequest.ofData (data : List Byte) : UsbRequest where
  bmRequestType := data.getD 0 0
  bRequest := data.getD 1 0
  wValue := (data.getD 2 0, data.getD 3 0)
  wIndex := (data.getD 4 0, data.getD 5 0)
  wLength := (data.getD 6 0, data.getD 7 0)

def usbNoMsg : Byte := 0xff

def usbpidSetup : Byte := 0x2d
def usbpidData0 : Byte := 0xc3
def usbpidData1 : Byte := 0x4b
def usbpidNak : Byte := 0x5a

def typeMask : Byte := 0x60
def typeStandard : Byte := 0
def typeClass : Byte := 0x20
def typeVendor : Byte := 0x40

/-- The initial values of the variables. No message is pending, so the message
pointer is never followed. -/
def Driver.init : Driver where
  usbDeviceAddr := 0
  usbNewDeviceAddr := 0
  usbConfiguration := 0
  usbMsgPtr := ⟨.txReply, 0⟩
  usbMsgLen := usbNoMsg
  usbTxLen := usbpidNak
  usbTxPid := 0
  usbTxData := []
  txReply := [0, 0]

/-! ## Requests -/

def usbFunctionSetup (rq : UsbRequest) (d : Driver) : Driver × Byte :=
  let rqtype := rq.bmRequestType &&& typeMask
  if rqtype = typeVendor then
    if rq.bRequest = 1 then ({ d with usbMsgPtr := ⟨.usbVal, 0⟩ }, 8) else (d, 0)
  else if rqtype = typeClass then
    if rq.bRequest = 0x01 then
      let rptid := rq.wValue.1
      if rptid = 1 then ({ d with usbMsgPtr := ⟨.usbVal, 0⟩ }, 4)
      else if rptid = 2 then ({ d with usbMsgPtr := ⟨.usbVal, 4⟩ }, 4)
      else (d, 0)
    else (d, 0)
  else (d, 0)

/-- A table in flash, with its length. -/
def getDescriptor (src : Source) (off : ℕ) (len : Byte) (d : Driver) : Driver × Byte :=
  ({ d with usbMsgPtr := ⟨src, off⟩ }, len)

def usbDriverDescriptor (rq : UsbRequest) (d : Driver) : Driver × Byte :=
  if rq.wValue.2 = 1 then getDescriptor .descriptorDevice 0 18 d
  else if rq.wValue.2 = 2 then getDescriptor .descriptorConfiguration 0 34 d
  else if rq.wValue.2 = 3 then
    if rq.wValue.1 = 0 then getDescriptor .descriptorString0 0 4 d
    else if rq.wValue.1 = 1 then getDescriptor .descriptorStringVendor 0 76 d
    else if rq.wValue.1 = 2 then getDescriptor .descriptorStringDevice 0 20 d
    else if rq.wValue.1 = 3 then getDescriptor .descriptorStringSerialNumber 0 76 d
    else (d, 0)
  else if rq.wValue.2 = 0x21 then getDescriptor .descriptorConfiguration 18 9 d
  else if rq.wValue.2 = 0x22 then getDescriptor .descriptorHidReport 0 48 d
  else (d, 0)

def usbDriverSetup (rq : UsbRequest) (d : Driver) : Driver × Byte :=
  let d := { d with txReply := d.txReply.set 0 0 }
  if rq.bRequest = 6 then usbDriverDescriptor rq d
  else
    let d := { d with usbMsgPtr := ⟨.txReply, 0⟩ }
    if rq.bRequest = 0 then ({ d with txReply := d.txReply.set 1 0 }, 2)
    else if rq.bRequest = 5 then ({ d with usbNewDeviceAddr := rq.wValue.1 }, 0)
    else if rq.bRequest = 8 then ({ d with usbMsgPtr := ⟨.usbConfiguration, 0⟩ }, 1)
    else if rq.bRequest = 9 then ({ d with usbConfiguration := rq.wValue.1 }, 0)
    else if rq.bRequest = 10 then (d, 1)
    else (d, 0)

/-- The limit of a reply to `wLength`, when that is below 256. -/
def limitLength (rq : UsbRequest) (replyLen : Byte) : Byte :=
  if rq.wLength.2 = 0 ∧ rq.wLength.1 < replyLen then rq.wLength.1 else replyLen

/-- The start of a SETUP: data toggling begins anew, a pending block is dropped. -/
def abortPending (d : Driver) : Driver := { d with usbTxPid := usbpidData0, usbTxLen := usbpidNak }

/-- OUT data is ignored without `usbFunctionWrite`. -/
def usbProcessRx (token : Byte) (data : List Byte) (d : Driver) : Driver :=
  if token = usbpidSetup then
    if data.length ≠ 8 then d
    else
      let rq := UsbRequest.ofData data
      let r :=
        if rq.bmRequestType &&& typeMask ≠ typeStandard then usbFunctionSetup rq (abortPending d)
        else usbDriverSetup rq (abortPending d)
      { r.1 with usbMsgLen := limitLength rq r.2 }
  else d

/-! ## Transmission -/

section Transmission

variable (rom : Source → List Byte) (v : UsbVal)

/-- The memory behind a message pointer. -/
def memory (d : Driver) : Source → List Byte
  | .usbVal => v.bytes
  | .txReply => d.txReply
  | .usbConfiguration => [d.usbConfiguration]
  | s => rom s

def usbDeviceRead (len : ℕ) (d : Driver) : List Byte :=
  ((memory rom v d d.usbMsgPtr.src).drop d.usbMsgPtr.off).take len

/-- The number of data bytes of the next block. -/
def wantLen (d : Driver) : Byte := if 8 < d.usbMsgLen then 8 else d.usbMsgLen

def usbBuildTxBlock (d : Driver) : Driver :=
  let len := wantLen d + 4
  { d with
    usbTxData := usbDeviceRead rom v (wantLen d).toNat d
    usbMsgPtr := ⟨d.usbMsgPtr.src, d.usbMsgPtr.off + (wantLen d).toNat⟩
    usbTxPid := d.usbTxPid ^^^ (usbpidData0 ^^^ usbpidData1)
    usbMsgLen := if len < 12 then usbNoMsg else d.usbMsgLen - wantLen d
    usbTxLen := len }

/-- Bit 4 of `usbTxLen`: a handshake token and no block. -/
def Driver.Idle (d : Driver) : Prop := d.usbTxLen &&& 0x10 ≠ 0

instance (d : Driver) : Decidable d.Idle := inferInstanceAs (Decidable (_ ≠ _))

/-- A message from the interrupt routine, if there is one, then the next block.
`reset` is the line state at the end. -/
def usbPoll (rx : Option (Byte × List Byte)) (reset : Bool) (d : Driver) : Driver :=
  let d := match rx with
    | some (token, data) => usbProcessRx token data d
    | none => d
  let d := if d.Idle ∧ d.usbMsgLen ≠ usbNoMsg then usbBuildTxBlock rom v d else d
  if reset then { d with usbNewDeviceAddr := 0, usbDeviceAddr := 0 } else d

/-- The interrupt routine has sent the block. -/
def taken (d : Driver) : Driver := { d with usbTxLen := usbpidNak }

/-- The data of up to `n` IN transactions, each after one more `usbPoll`. The
first of these calls finds the message `rx`. -/
def exchange : ℕ → Option (Byte × List Byte) → Driver → List Byte
  | 0, _, _ => []
  | n + 1, rx, d =>
      let d := usbPoll rom v rx false d
      if d.Idle then [] else d.usbTxData ++ exchange n none (taken d)

/-- The data sent for a SETUP packet and `n` more IN transactions. -/
def inReply (n : ℕ) (packet : List Byte) (d : Driver) : List Byte :=
  exchange rom v (n + 1) (some (usbpidSetup, packet)) d

end Transmission

/-! ## The bytes of a reply -/

section Reply

variable {rom : Source → List Byte} {v : UsbVal} {d : Driver}

theorem wantLen_toNat (d : Driver) : (wantLen d).toNat = min 8 d.usbMsgLen.toNat := by
  rw [wantLen]
  split
  · next h => exact (Nat.min_eq_left (BitVec.lt_def.mp h).le).symm
  · next h => exact (Nat.min_eq_right (Nat.le_of_not_lt h)).symm

theorem exchange_of_noMsg (n : ℕ) (hidle : d.Idle) (hmsg : d.usbMsgLen = usbNoMsg) :
    exchange rom v n none d = [] := by
  cases n with
  | zero => rfl
  | succ n =>
      have hpending : ¬(d.Idle ∧ d.usbMsgLen ≠ usbNoMsg) := fun h => h.2 hmsg
      have hpoll : usbPoll rom v none false d = d := if_neg hpending
      rw [exchange, hpoll]
      exact if_pos hidle

/-- While a message is pending and the transmitter is idle, a poll builds a block. -/
theorem exchange_succ (n : ℕ) (hidle : d.Idle) (hmsg : d.usbMsgLen ≠ usbNoMsg) :
    exchange rom v (n + 1) none d = usbDeviceRead rom v (wantLen d).toNat d ++
      exchange rom v n none (taken (usbBuildTxBlock rom v d)) := by
  have hpending : d.Idle ∧ d.usbMsgLen ≠ usbNoMsg := ⟨hidle, hmsg⟩
  have hpoll : usbPoll rom v none false d = usbBuildTxBlock rom v d := if_pos hpending
  have hlen : ∀ b : Byte, b.toNat ≤ 8 → b + 4 &&& 0x10 = 0 := by decide
  have hbusy : ¬(usbBuildTxBlock rom v d).Idle := by
    refine not_not_intro (hlen (wantLen d) ?_)
    rw [wantLen_toNat]
    exact Nat.min_le_left 8 _
  rw [exchange, hpoll]
  exact if_neg hbusy

theorem memory_taken (d : Driver) :
    memory rom v (taken (usbBuildTxBlock rom v d)) = memory rom v d := by
  funext s
  cases s <;> rfl

/-- A full block leaves the rest of the message, a short one ends it. -/
theorem usbMsgLen_build (rom : Source → List Byte) (v : UsbVal) (hmsg : d.usbMsgLen ≠ usbNoMsg) :
    if 8 ≤ d.usbMsgLen.toNat then
      (usbBuildTxBlock rom v d).usbMsgLen ≠ usbNoMsg ∧
        (usbBuildTxBlock rom v d).usbMsgLen.toNat = d.usbMsgLen.toNat - 8
    else (usbBuildTxBlock rom v d).usbMsgLen = usbNoMsg := by
  have hbytes : ∀ b : Byte, b ≠ usbNoMsg →
      let w : Byte := if 8 < b then 8 else b
      let m := if w + 4 < 12 then usbNoMsg else b - w
      if 8 ≤ b.toNat then m ≠ usbNoMsg ∧ m.toNat = b.toNat - 8 else m = usbNoMsg := by
    decide
  exact hbytes d.usbMsgLen hmsg

/-- After `n` IN transactions the host has `8 * n` bytes of the message, or all of it. -/
theorem exchange_bytes (n : ℕ) : ∀ {d : Driver}, d.Idle → d.usbMsgLen ≠ usbNoMsg →
    exchange rom v n none d =
      ((memory rom v d d.usbMsgPtr.src).drop d.usbMsgPtr.off).take
        (min (8 * n) d.usbMsgLen.toNat) := by
  induction n with
  | zero => intro d _ _; simp [exchange]
  | succ n ih =>
      intro d hidle hmsg
      have hnext : (taken (usbBuildTxBlock rom v d)).Idle := by
        change usbpidNak &&& 0x10 ≠ 0
        decide
      have hlen := usbMsgLen_build rom v hmsg
      rw [exchange_succ n hidle hmsg, usbDeviceRead, wantLen_toNat]
      split at hlen
      · rw [ih hnext hlen.1, memory_taken]
        change _ ++ (((memory rom v d d.usbMsgPtr.src).drop
          (d.usbMsgPtr.off + (wantLen d).toNat)).take
            (min (8 * n) (usbBuildTxBlock rom v d).usbMsgLen.toNat)) = _
        rw [hlen.2, wantLen_toNat, ← List.drop_drop, ← List.take_add]
        congr 1
        omega
      · rw [exchange_of_noMsg n hnext hlen, List.append_nil]
        congr 1
        omega

/-- The driver with a new message. -/
def loaded (ptr : MsgPtr) (len : Byte) (d : Driver) : Driver :=
  { abortPending d with usbMsgPtr := ptr, usbMsgLen := len }

theorem idle_loaded (ptr : MsgPtr) (len : Byte) (d : Driver) : (loaded ptr len d).Idle := by
  change usbpidNak &&& 0x10 ≠ 0
  decide

theorem memory_loaded (ptr : MsgPtr) (len : Byte) (d : Driver) :
    memory rom v (loaded ptr len d) = memory rom v d := by
  funext s
  cases s <;> rfl

/-- A request that is not a standard one loads the limited message of
`usbFunctionSetup`. -/
theorem usbProcessRx_loaded {packet : List Byte} (hlen : packet.length = 8) {ptr : MsgPtr}
    {len : Byte} (htype : (UsbRequest.ofData packet).bmRequestType &&& typeMask ≠ typeStandard)
    (hsetup : usbFunctionSetup (UsbRequest.ofData packet) (abortPending d) =
      ({ abortPending d with usbMsgPtr := ptr }, len)) :
    usbProcessRx usbpidSetup packet d =
      loaded ptr (limitLength (UsbRequest.ofData packet) len) d := by
  simp only [usbProcessRx, if_true, hlen, ne_eq, not_true_eq_false, if_false, htype,
    not_false_eq_true, hsetup, loaded]

/-- Such a request is answered with that message, whatever the state of the driver is. -/
theorem inReply_eq (n : ℕ) {packet : List Byte} (hlen : packet.length = 8) {ptr : MsgPtr}
    {len : Byte} (htype : (UsbRequest.ofData packet).bmRequestType &&& typeMask ≠ typeStandard)
    (hsetup : usbFunctionSetup (UsbRequest.ofData packet) (abortPending d) =
      ({ abortPending d with usbMsgPtr := ptr }, len))
    (hmsg : limitLength (UsbRequest.ofData packet) len ≠ usbNoMsg) :
    inReply rom v n packet d = ((memory rom v d ptr.src).drop ptr.off).take
      (min (8 * (n + 1)) (limitLength (UsbRequest.ofData packet) len).toNat) := by
  calc inReply rom v n packet d
      = exchange rom v (n + 1) none (usbProcessRx usbpidSetup packet d) := rfl
    _ = _ := by
        rw [usbProcessRx_loaded hlen htype hsetup, exchange_bytes (n + 1)
          (idle_loaded ptr (limitLength (UsbRequest.ofData packet) len) d) hmsg, memory_loaded]
        rfl

/-- The first block of such an answer is built in the call that finds the request. -/
theorem usbTxData_of_setup {packet : List Byte} (hlen : packet.length = 8) {ptr : MsgPtr}
    {len : Byte} (htype : (UsbRequest.ofData packet).bmRequestType &&& typeMask ≠ typeStandard)
    (hsetup : usbFunctionSetup (UsbRequest.ofData packet) (abortPending d) =
      ({ abortPending d with usbMsgPtr := ptr }, len))
    (hmsg : limitLength (UsbRequest.ofData packet) len ≠ usbNoMsg) (reset : Bool) :
    (usbPoll rom v (some (usbpidSetup, packet)) reset d).usbTxData =
      ((memory rom v d ptr.src).drop ptr.off).take
        (min 8 (limitLength (UsbRequest.ofData packet) len).toNat) := by
  have hidle := idle_loaded ptr (limitLength (UsbRequest.ofData packet) len) d
  have hpoll : usbPoll rom v (some (usbpidSetup, packet)) false d =
      usbBuildTxBlock rom v (loaded ptr (limitLength (UsbRequest.ofData packet) len) d) := by
    have hpending : (loaded ptr (limitLength (UsbRequest.ofData packet) len) d).Idle ∧
        (loaded ptr (limitLength (UsbRequest.ofData packet) len) d).usbMsgLen ≠ usbNoMsg :=
      ⟨hidle, hmsg⟩
    simp only [usbPoll, usbProcessRx_loaded hlen htype hsetup, if_pos hpending]
    rfl
  have hreset : (usbPoll rom v (some (usbpidSetup, packet)) reset d).usbTxData =
      (usbPoll rom v (some (usbpidSetup, packet)) false d).usbTxData := by
    cases reset <;> rfl
  rw [hreset, hpoll, usbBuildTxBlock, usbDeviceRead, wantLen_toNat, memory_loaded]
  rfl

theorem limitLength_le (rq : UsbRequest) (len : Byte) : limitLength rq len ≤ len := by
  rw [limitLength]
  split
  · next h => exact BitVec.le_of_lt h.2
  · exact BitVec.le_refl len

/-- A limited reply is a message. -/
theorem limitLength_ne_noMsg (rq : UsbRequest) {len : Byte} (h : len < usbNoMsg) :
    limitLength rq len ≠ usbNoMsg := by
  intro hfull
  have hle := limitLength_le rq len
  rw [hfull] at hle
  exact Nat.not_lt.mpr (BitVec.le_def.mp hle) (BitVec.lt_def.mp h)

/-- A class `GET_REPORT`. -/
structure IsGetReport (packet : List Byte) : Prop where
  length : packet.length = 8
  type : (UsbRequest.ofData packet).bmRequestType &&& typeMask = typeClass
  bRequest : (UsbRequest.ofData packet).bRequest = 0x01

namespace IsGetReport

variable {packet : List Byte}

theorem type_ne (h : IsGetReport packet) :
    (UsbRequest.ofData packet).bmRequestType &&& typeMask ≠ typeStandard := by
  rw [h.type]
  decide

/-- The selection by the report ID. -/
theorem setup_eq (h : IsGetReport packet) (d : Driver) :
    usbFunctionSetup (UsbRequest.ofData packet) d =
      if (UsbRequest.ofData packet).wValue.1 = 1 then ({ d with usbMsgPtr := ⟨.usbVal, 0⟩ }, 4)
      else if (UsbRequest.ofData packet).wValue.1 = 2 then
        ({ d with usbMsgPtr := ⟨.usbVal, 4⟩ }, 4)
      else (d, 0) := by
  have hvendor : ¬typeClass = typeVendor := by decide
  simp only [usbFunctionSetup, h.type, if_neg hvendor, if_pos h.bRequest, if_true]

/-- The two reports are answered with the words of `usb_val`, up to `wLength` bytes. -/
theorem inReply_report (h : IsGetReport packet) (rom : Source → List Byte) (v : UsbVal)
    (d : Driver) (i : Fin 2)
    (hid : (UsbRequest.ofData packet).wValue.1 = BitVec.ofNat 8 (i + 1)) (n : ℕ) :
    inReply rom v n packet d =
      (v.bytes.drop (4 * i)).take (limitLength (UsbRequest.ofData packet) 4).toNat := by
  have hsetup : usbFunctionSetup (UsbRequest.ofData packet) (abortPending d) =
      ({ abortPending d with usbMsgPtr := ⟨.usbVal, 4 * i⟩ }, 4) := by
    rw [h.setup_eq, hid]
    match i with
    | 0 => rfl
    | 1 => rfl
  have hlimit : (limitLength (UsbRequest.ofData packet) 4).toNat ≤ 4 :=
    BitVec.le_def.mp (limitLength_le (UsbRequest.ofData packet) 4)
  have hmsg := limitLength_ne_noMsg (UsbRequest.ofData packet) (by decide : (4 : Byte) < usbNoMsg)
  rw [inReply_eq n h.length h.type_ne hsetup hmsg, Nat.min_eq_right (by omega)]
  rfl

/-- Any other report ID is answered without data. -/
theorem inReply_other (h : IsGetReport packet) (rom : Source → List Byte) (v : UsbVal)
    (d : Driver) (h1 : (UsbRequest.ofData packet).wValue.1 ≠ 1)
    (h2 : (UsbRequest.ofData packet).wValue.1 ≠ 2) (n : ℕ) : inReply rom v n packet d = [] := by
  have hsetup : usbFunctionSetup (UsbRequest.ofData packet) (abortPending d) =
      ({ abortPending d with usbMsgPtr := d.usbMsgPtr }, 0) := by
    rw [h.setup_eq, if_neg h1, if_neg h2]
    rfl
  have hlimit : limitLength (UsbRequest.ofData packet) 0 = 0 :=
    BitVec.le_zero_iff.mp (limitLength_le _ 0)
  rw [inReply_eq n h.length h.type_ne hsetup (by rw [hlimit]; decide), hlimit]
  exact List.take_zero

end IsGetReport

end Reply

end TempHumid.Avr
