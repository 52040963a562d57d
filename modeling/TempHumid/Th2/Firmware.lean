import TempHumid.Library.Machine
import TempHumid.Sensor.Frame

/-!
# The th2 interrupt handlers

`TC1_Handler` and the two loops of `SERCOM0_Handler` from the th2 `main.c`,
as a machine whose inputs are handler activations and whose outputs are the
register accesses they make, in program order.

## Implementation notes

All interrupts keep one priority, so a handler runs to completion. The inputs
`mb` and `sb` are one iteration of the loop on that flag, and an activation of
`SERCOM0_Handler` is a sequence of them. The level of the switch pin is part
of the input of each handler that samples it. Waits on `SYNCBUSY` are assumed
to end. In smart mode a read of `DATA` answers with the current `ACKACT`, so
`Act.read` records both.
-/

namespace TempHumid.Th2

open Machine

/-- The protocol states, in the order of the `STATE_*` constants. -/
inductive I2CState
  | idle
  | hihRequest
  | hihReceive
  | dac0Write
  | dac0Write2
  | dac0Write3
  | dac1Write
  | dac1Write2
  | dac1Write3
  deriving DecidableEq

/-- The static and volatile variables of `main.c` and the `ACKACT` bit of `CTRLB`. -/
structure Firmware where
  state : I2CState
  bytesRead : ℕ
  hihVal : Frame
  usbVal : UsbVal
  curTick : Word
  hihRequestAt : Word
  tdacVal : Word
  hdacVal : Word
  pollCnt : ℕ
  ackAct : Bool
  deriving DecidableEq

/-- The initial values of the variables. -/
def init : Firmware where
  state := .idle
  bytesRead := 0
  hihVal := ⟨0, 0, 0, 0⟩
  usbVal := ⟨0, 0⟩
  curTick := 0
  hihRequestAt := 0
  tdacVal := 0
  hdacVal := 0
  pollCnt := 0
  ackAct := false

def i2cAddrHih : Byte := (0x27 : Byte) <<< 1
def i2cAddrTdac : Byte := (0x60 : Byte) <<< 1
def i2cAddrHdac : Byte := (0x61 : Byte) <<< 1

/-- The read address of the sensor. -/
def slaR : Byte := i2cAddrHih ||| 1

def pollDelay : ℕ := 10
def calibDelay : Word := 20

def statusR : Word := (1 : Word) <<< 5
def statusG : Word := (1 : Word) <<< 4

/-- Register accesses of the handlers. `store` and `decode` record the store
into `hih_val` and the entry into the block that decodes a complete frame. -/
inductive Act
  | ackAct (nack : Bool)
  | addr (a : Byte)
  | write (b : Byte)
  | read (b : Byte) (nack : Bool)
  | stop
  | store (i : ℕ) (b : Byte)
  | decode (f : Frame)
  | outSet (pins : Word)
  | outClr (pins : Word)
  | clearMB
  | clearSB
  | clearMC0
  deriving DecidableEq

/-- One handler activation or loop iteration. `released` is the switch level
that the handler would sample. -/
inductive Event
  | tick (released : Bool)
  | mb
  | sb (data : Byte) (released : Bool)
  deriving DecidableEq

/-- The low byte of a word, as a write to the 8-bit `DATA` register stores it. -/
def toByte (w : Word) : Byte := w.setWidth 8

def requestMeasurement (s : Firmware) : Firmware × List Act :=
  ({ s with state := .hihRequest }, [.addr (i2cAddrHih ||| 0)])

/-- The calibration level of a tick: high for one period, low for the next. -/
def calibLevel (tick : Word) : Word :=
  if (tick / calibDelay) &&& 1 ≠ 0 then 0xfff else 0

/-- The branch of `TC1_Handler` for a pressed switch. -/
def calibrate (s : Firmware) : Firmware :=
  { s with tdacVal := calibLevel s.curTick, hdacVal := calibLevel s.curTick }

/-- The branch of `TC1_Handler` that starts a read of the sensor. -/
def startRead (s : Firmware) : Firmware × List Act :=
  ({ s with ackAct := false, state := .hihReceive, bytesRead := 0 },
    [.ackAct false, .addr slaR])

/-- The counters and the calibration branch, which come before any bus access. -/
def countTick (released : Bool) (s : Firmware) : Firmware :=
  let s := { s with curTick := s.curTick + 1, pollCnt := s.pollCnt + 1 }
  if released then s else calibrate s

def tc1Handler (released : Bool) (s : Firmware) : Firmware × List Act :=
  let s := countTick released s
  let r := if s.curTick = s.hihRequestAt then startRead s else (s, [])
  let p :=
    if pollDelay ≤ r.1.pollCnt then
      ({ (requestMeasurement r.1).1 with pollCnt := 0 }, (requestMeasurement r.1).2)
    else (r.1, [])
  (p.1, r.2 ++ p.2 ++ [.clearMC0])

/-- One iteration of the loop on `INTFLAG.MB`. -/
def sercom0HandlerMB (s : Firmware) : Firmware × List Act :=
  match s.state with
  | .hihRequest =>
      ({ s with hihRequestAt := s.curTick + 2 }, [.stop])
  | .dac0Write =>
      ({ s with ackAct := false, state := .dac0Write2 },
        [.ackAct false, .write (toByte (s.tdacVal >>> 8))])
  | .dac0Write2 =>
      ({ s with ackAct := true, state := .dac0Write3 },
        [.ackAct true, .write (toByte (s.tdacVal &&& 0xff))])
  | .dac0Write3 =>
      ({ s with state := .dac1Write }, [.stop, .addr (i2cAddrHdac ||| 0)])
  | .dac1Write =>
      ({ s with ackAct := false, state := .dac1Write2 },
        [.ackAct false, .write (toByte (s.hdacVal >>> 8))])
  | .dac1Write2 =>
      ({ s with ackAct := true, state := .dac1Write3 },
        [.ackAct true, .write (toByte (s.hdacVal &&& 0xff))])
  | .dac1Write3 =>
      ({ s with state := .idle }, [.stop])
  | .idle | .hihReceive =>
      (s, [.outSet statusR, .outClr statusG, .clearMB])

/-- `temp_val` and `humid_val` as first gathered from `hih_val`. -/
def tempBits (f : Frame) : Word := (f.b3.setWidth 32 >>> 2) + (f.b2.setWidth 32 <<< 6)
def humidBits (f : Frame) : Word := f.b1.setWidth 32 + ((f.b0.setWidth 32 &&& 0x3f) <<< 8)

/-- The published words of a frame, in wrapping unsigned arithmetic. -/
def tempWord (f : Frame) : Word := tempBits f * 16500 / (16384 - 2) - 4000
def humidWord (f : Frame) : Word := humidBits f * 10000 / (16384 - 2)

/-- The scaling to the 12-bit space of the DACs. -/
def scaleTemp (temp : Word) : Word := temp * 0xfff / 5000
def scaleHumid (humid : Word) : Word := humid * 0xfff / 10000

/-- The block that decodes a complete frame. -/
def decodeFrame (released : Bool) (s : Firmware) : Firmware :=
  if s.hihVal.status = 0 then
    let s := { s with usbVal := ⟨tempWord s.hihVal, humidWord s.hihVal⟩ }
    if released then
      { s with tdacVal := scaleTemp s.usbVal.w0, hdacVal := scaleHumid s.usbVal.w1 }
    else s
  else s

/-- The branch of the fourth byte: `state++`, STOP and the decoding. -/
def completeFrame (released : Bool) (s : Firmware) : Firmware × List Act :=
  (decodeFrame released { s with state := .dac0Write, bytesRead := 0 },
    [.stop, .decode s.hihVal])

/-- The start of the DAC writes. -/
def beginDacWrite (s : Firmware) : Firmware × List Act :=
  ({ s with state := .dac0Write }, [.outSet statusG, .addr (i2cAddrTdac ||| 0)])

/-- The acknowledge decision and `hih_val[bytes_read++] = DATA`. -/
def receiveByte (b : Byte) (s : Firmware) : Firmware × List Act :=
  let nack := !decide (s.bytesRead ≤ 2)
  ({ s with ackAct := nack, hihVal := s.hihVal.set s.bytesRead b, bytesRead := s.bytesRead + 1 },
    [.ackAct nack, .read b nack, .store s.bytesRead b])

/-- One iteration of the loop on `INTFLAG.SB`. -/
def sercom0HandlerSB (b : Byte) (released : Bool) (s : Firmware) : Firmware × List Act :=
  if s.state = .hihReceive then
    let r := receiveByte b s
    let c := if r.1.bytesRead = 4 then completeFrame released r.1 else (r.1, [])
    let d := if c.1.bytesRead = 0 then beginDacWrite c.1 else (c.1, [])
    (d.1, r.2 ++ c.2 ++ d.2)
  else
    (s, [.outSet (statusG ||| statusR), .clearSB])

def step (s : Firmware) : Event → Firmware × List Act
  | .tick released => tc1Handler released s
  | .mb => sercom0HandlerMB s
  | .sb b released => sercom0HandlerSB b released s

/-- Handler activations from the initial state. -/
def run (evs : List Event) : Firmware := finish step init evs

/-- Activations up to the fourth byte of the first read, without delays. -/
def firstRead (f : Frame) (released : Bool) : List Event :=
  List.replicate 10 (.tick released) ++ [.mb, .tick released, .tick released] ++
    f.toList.map fun b => .sb b released

end TempHumid.Th2
