import TempHumid.Library.Words
import TempHumid.Sensor.Frame

/-!
# SETUP requests of the th2 firmware

`udc_process_setup` with the standard requests of `udc.c`, the HID requests of
`udi_hid.c` and `udi_hid_generic.c`, and `parse_usb_request` of `main.c`, which
is both the handler of input reports and the device-specific fallback.

## Implementation notes

A handler returns whether the request is supported and the new state, also
when it fails. A payload names the variable that the pointer points into. The
calls of the endpoint driver that a request makes are collected in `epCalls`,
which is no variable of the source. The
configuration is the one of `conf_usb.h`: one interface with one setting, full
speed, self powered, a serial number as the only string, no BOS descriptor.
`over_under_run` is `NULL` after every request and has no field. Both callbacks
that a request may install run at the end of its transfer.
-/

namespace TempHumid.Th2

abbrev Half := BitVec 16

/-- The fields of a SETUP packet. -/
structure SetupReq where
  bmRequestType : Byte
  bRequest : Byte
  wValue : Half
  wIndex : Half
  wLength : Half
  deriving DecidableEq

namespace SetupReq

def isIn (req : SetupReq) : Prop := req.bmRequestType &&& 0x80 = 0x80
def isOut (req : SetupReq) : Prop := req.bmRequestType &&& 0x80 = 0
def type (req : SetupReq) : Byte := req.bmRequestType &&& 0x60
def recipient (req : SetupReq) : Byte := req.bmRequestType &&& 0x1f

instance (req : SetupReq) : Decidable req.isIn :=
  inferInstanceAs (Decidable (req.bmRequestType &&& 0x80 = 0x80))

instance (req : SetupReq) : Decidable req.isOut :=
  inferInstanceAs (Decidable (req.bmRequestType &&& 0x80 = 0))

end SetupReq

def typeStandard : Byte := 0
def typeClass : Byte := 0x20

def recipDevice : Byte := 0
def recipInterface : Byte := 1
def recipEndpoint : Byte := 2

/-- What a payload pointer points into. -/
inductive Payload
  | null
  | usbVal (i : Fin 2)
  | rate
  | protocol
  | reportFeature
  | deviceStatus
  | epStatus
  | numConfiguration
  | ifaceSetting
  | languageId
  | stringDesc
  | deviceDesc
  | confDesc
  | hidDesc
  | reportDesc
  deriving DecidableEq

inductive Callback
  | validAddress
  | setfeatureValid
  deriving DecidableEq

/-- The state of the control endpoint. -/
inductive EpCtrl
  | setup
  | dataOut
  | dataIn
  | handshakeWaitInZlp
  | handshakeWaitOutZlp
  | stallReq
  deriving DecidableEq

/-- A call of the endpoint driver for an endpoint address: `udd_ep_abort`,
`udd_ep_set_halt` and `udd_ep_clear_halt`. -/
inductive EpCall
  | abort (ep : Byte)
  | setHalt (ep : Byte)
  | clearHalt (ep : Byte)
  deriving DecidableEq

/-- The variables of the USB stack: `udd_g_ctrlreq`, those of `udc.c` and of the
HID interface, and those of the control endpoint. `epCalls` are the calls that
the current request has made. -/
structure Usb where
  req : SetupReq
  payload : Payload
  payloadSize : Half
  callback : Option Callback
  numConfiguration : Byte
  address : Byte
  rate : Byte
  protocol : Byte
  reportFeature : List Byte
  epControlState : EpCtrl
  ctrlPrevPayloadNbTrans : Half
  ctrlPayloadNbTrans : Half
  shortpacket : Bool
  epCalls : List EpCall
  deriving DecidableEq

def Usb.init : Usb where
  req := ⟨0, 0, 0, 0, 0⟩
  payload := .null
  payloadSize := 0
  callback := none
  numConfiguration := 0
  address := 0
  rate := 0
  protocol := 0
  reportFeature := [0, 0, 0, 0]
  epControlState := .setup
  ctrlPrevPayloadNbTrans := 0
  ctrlPayloadNbTrans := 0
  shortpacket := false
  epCalls := []

def Usb.call (calls : List EpCall) (u : Usb) : Usb := { u with epCalls := u.epCalls ++ calls }

/-- What the endpoint hardware answers while an interface is enabled. -/
structure Hw where
  epAlloc : Bool
  epRun : Bool
  deriving DecidableEq

/-- A handler tells whether it supports the request. -/
abbrev Handler := Usb → Bool × Usb

def unsupported : Handler := fun u => (false, u)

/-- `udd_set_setup_payload`, then success. -/
def reply (p : Payload) (size : Half) : Handler :=
  fun u => (true, { u with payload := p, payloadSize := size })

/-- `if (first()) return true;`, then the second handler. -/
def Handler.orElse (first second : Handler) : Handler := fun u =>
  if (first u).1 then first u else second (first u).2

/-! ## `main.c` -/

def parseUsbRequest : Handler := fun u =>
  if u.req.wValue &&& (0xff00 : Half) = (1 : Half) <<< 8 then
    if u.req.wIndex = 1 then reply (.usbVal 0) 4 u
    else if u.req.wIndex = 2 then reply (.usbVal 1) 4 u
    else reply (.usbVal 0) 8 u
  else unsupported u

/-! ## `udi_hid_generic.c` and `udi_hid.c` -/

def hidReportTypeInput : Half := 1
def hidReportTypeFeature : Half := 3

def udiHidGenericSetreportFeature : Handler := fun u =>
  if u.req.wValue >>> 8 = hidReportTypeFeature ∧ 0xff &&& u.req.wValue = 0 ∧
      u.req.wLength = 4 then
    reply .reportFeature 4 { u with callback := some .setfeatureValid }
  else unsupported u

def udiHidGenericSetreport : Handler := fun u =>
  if u.req.wValue >>> 8 = hidReportTypeInput then
    Handler.orElse parseUsbRequest udiHidGenericSetreportFeature u
  else udiHidGenericSetreportFeature u

/-- The smaller of two lengths. -/
def minSize (a b : Half) : Half := if a < b then a else b

def udiHidReqstdifacegetDescriptor : Handler := fun u =>
  if u.req.wValue >>> 8 = 0x21 then reply .hidDesc (minSize u.req.wLength 9) u
  else if u.req.wValue >>> 8 = 0x22 then reply .reportDesc (minSize u.req.wLength 53) u
  else unsupported u

def udiHidSetup : Handler := fun u =>
  if u.req.isIn then
    if u.req.type = typeStandard ∧ u.req.bRequest = 6 then udiHidReqstdifacegetDescriptor u
    else if u.req.type = typeClass then
      if u.req.bRequest = 0x01 then udiHidGenericSetreport u
      else if u.req.bRequest = 0x02 then reply .rate 1 u
      else if u.req.bRequest = 0x03 then reply .protocol 1 u
      else unsupported u
    else unsupported u
  else
    if u.req.type = typeClass then
      if u.req.bRequest = 0x09 then udiHidGenericSetreport u
      else if u.req.bRequest = 0x0a then
        (true, { u with rate := (u.req.wValue >>> 8).setWidth 8 })
      else if u.req.bRequest = 0x0b then
        if u.req.wLength ≠ 0 then unsupported u
        else (true, { u with protocol := u.req.wValue.setWidth 8 })
      else unsupported u
    else unsupported u

/-! ## `udc.c` -/

def deviceNbInterface : Byte := 1
def deviceMaxEp : Byte := 2

/-- The low byte of `wIndex` and of `wValue`. -/
def SetupReq.indexLow (req : SetupReq) : Byte := (req.wIndex &&& 0xff).setWidth 8
def SetupReq.valueLow (req : SetupReq) : Byte := (req.wValue &&& 0xff).setWidth 8
def SetupReq.valueHigh (req : SetupReq) : Byte := (req.wValue >>> 8).setWidth 8

/-- The only interface has the only setting 0. -/
def udcUpdateIfaceDesc (iface setting : Byte) (u : Usb) : Bool :=
  u.numConfiguration ≠ 0 && decide (iface < deviceNbInterface) && setting == 0

def udcIfaceEnable (hw : Hw) (iface setting : Byte) : Handler := fun u =>
  if udcUpdateIfaceDesc iface setting u && hw.epAlloc then
    (hw.epRun, { u with rate := 0, protocol := 0 })
  else unsupported u

def udcReset (u : Usb) : Usb := { u with numConfiguration := 0 }

def udcReqStdDevGetStatus : Handler := fun u =>
  if u.req.wLength ≠ 2 then unsupported u else reply .deviceStatus 2 u

def udcReqStdEpGetStatus : Handler := fun u =>
  if u.req.wLength ≠ 2 then unsupported u else reply .epStatus 2 u

def udcReqStdDevClearFeature : Handler := fun u =>
  if u.req.wLength ≠ 0 then unsupported u else (decide (u.req.wValue = 1), u)

/-- `USB_EP_ADDR_MASK` of an endpoint address. -/
def epNum (ep : Byte) : Byte := ep &&& 0x0f

/-- What `udd_ep_set_halt` and `udd_ep_clear_halt` return. -/
def epExists (ep : Byte) : Bool := decide (epNum ep ≤ deviceMaxEp)

def udcReqStdEpClearFeature : Handler := fun u =>
  if u.req.wLength ≠ 0 then unsupported u
  else if u.req.wValue = 0 then
    (epExists u.req.indexLow, u.call [.clearHalt u.req.indexLow])
  else unsupported u

/-- Remote wakeup is not configured, and full speed has no test modes. -/
def udcReqStdDevSetFeature : Handler := unsupported

/-- The endpoint is aborted before its number is checked. -/
def udcReqStdEpSetFeature : Handler := fun u =>
  if u.req.wLength ≠ 0 then unsupported u
  else if u.req.wValue = 0 then
    (epExists u.req.indexLow, u.call [.abort u.req.indexLow, .setHalt u.req.indexLow])
  else unsupported u

def udcReqStdDevSetAddress : Handler := fun u =>
  if u.req.wLength ≠ 0 then unsupported u
  else (true, { u with callback := some .validAddress })

/-- The serial number has 37 characters. -/
def udcReqStdDevGetStrDesc : Handler := fun u =>
  if u.req.valueLow = 0 then reply .languageId 4 u
  else if u.req.valueLow = 3 then reply .stringDesc 76 u
  else unsupported u

def udcReqStdDevGetDescriptor : Handler := fun u =>
  let r :=
    if u.req.valueHigh = 1 then reply .deviceDesc 18 u
    else if u.req.valueHigh = 2 then
      if 1 ≤ u.req.valueLow then unsupported u else reply .confDesc 41 u
    else if u.req.valueHigh = 3 then udcReqStdDevGetStrDesc u
    else unsupported u
  if r.1 then (true, { r.2 with payloadSize := minSize u.req.wLength r.2.payloadSize }) else r

def udcReqStdDevGetConfiguration : Handler := fun u =>
  if u.req.wLength ≠ 1 then unsupported u else reply .numConfiguration 1 u

def udcReqStdDevSetConfiguration (hw : Hw) : Handler := fun u =>
  if u.req.wLength ≠ 0 then unsupported u
  else if u.address = 0 then unsupported u
  else if 1 < u.req.valueLow then unsupported u
  else
    let u := { udcReset u with numConfiguration := u.req.valueLow }
    if u.numConfiguration = 0 then (true, u) else udcIfaceEnable hw 0 0 u

def udcReqStdIfaceGetSetting : Handler := fun u =>
  if u.req.wLength ≠ 1 then unsupported u
  else if u.numConfiguration = 0 then unsupported u
  else if udcUpdateIfaceDesc u.req.indexLow 0 u then reply .ifaceSetting 1 u
  else unsupported u

def udcReqStdIfaceSetSetting (hw : Hw) : Handler := fun u =>
  if u.req.wLength ≠ 0 then unsupported u
  else if u.numConfiguration = 0 then unsupported u
  else if udcUpdateIfaceDesc u.req.indexLow 0 u then
    udcIfaceEnable hw u.req.indexLow u.req.valueLow u
  else unsupported u

def udcReqstd (hw : Hw) : Handler := fun u =>
  if u.req.isIn then
    if u.req.wLength = 0 then unsupported u
    else if u.req.recipient = recipDevice then
      if u.req.bRequest = 0 then udcReqStdDevGetStatus u
      else if u.req.bRequest = 6 then udcReqStdDevGetDescriptor u
      else if u.req.bRequest = 8 then udcReqStdDevGetConfiguration u
      else unsupported u
    else if u.req.recipient = recipInterface ∧ u.req.bRequest = 10 then
      udcReqStdIfaceGetSetting u
    else if u.req.recipient = recipEndpoint ∧ u.req.bRequest = 0 then udcReqStdEpGetStatus u
    else unsupported u
  else
    if u.req.recipient = recipDevice then
      if u.req.bRequest = 5 then udcReqStdDevSetAddress u
      else if u.req.bRequest = 1 then udcReqStdDevClearFeature u
      else if u.req.bRequest = 3 then udcReqStdDevSetFeature u
      else if u.req.bRequest = 9 then udcReqStdDevSetConfiguration hw u
      else unsupported u
    else if u.req.recipient = recipInterface ∧ u.req.bRequest = 11 then
      udcReqStdIfaceSetSetting hw u
    else if u.req.recipient = recipEndpoint ∧ u.req.bRequest = 1 then udcReqStdEpClearFeature u
    else if u.req.recipient = recipEndpoint ∧ u.req.bRequest = 3 then udcReqStdEpSetFeature u
    else unsupported u

def udcReqIface : Handler := fun u =>
  if udcUpdateIfaceDesc u.req.indexLow 0 u then udiHidSetup u else unsupported u

/-- An endpoint request goes to the interface whatever its index says. -/
def udcReqEp : Handler := fun u =>
  if udcUpdateIfaceDesc 0 0 u then udiHidSetup u else unsupported u

/-- `if (cond) { if (h()) return true; }` -/
def Handler.when (cond : Usb → Prop) [DecidablePred cond] (h : Handler) : Handler := fun u =>
  if cond u then h u else unsupported u

def udcProcessSetup (hw : Hw) : Handler := fun u =>
  let u := { u with payloadSize := 0, callback := none, epCalls := [] }
  if u.req.isIn ∧ u.req.wLength = 0 then unsupported u
  else
    ((Handler.when (fun u => u.req.type = typeStandard) (udcReqstd hw)).orElse
      ((Handler.when (fun u => u.req.recipient = recipInterface) udcReqIface).orElse
        ((Handler.when (fun u => u.req.recipient = recipEndpoint) udcReqEp).orElse
          parseUsbRequest))) u

end TempHumid.Th2
