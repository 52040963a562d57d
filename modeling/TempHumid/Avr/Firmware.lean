import TempHumid.Sensor.Frame

/-!
# The sensor functions of the AVR firmware

`request_measurement` and `read_result` from `main.c` of the AVR firmware, as
functions of the answers of the TWI unit. Their outputs are the writes to the
TWI registers and the calls of `usbPoll`, in program order.

## Implementation notes

Waits on `TWINT` are assumed to end. Every write to `TWCR` sets `TWINT` and
`TWEN`, so a command names the remaining bits. A call of `usbPoll` carries the
`usb_val` that a request served in it would read. The `int32_t` arithmetic
uses signed operations on 32-bit words.
-/

namespace TempHumid.Avr

def sla : Byte := (0x27 : Byte) <<< 1
def slaR : Byte := sla ||| 0x1

/-- The bits of a write to `TWCR` beside `TWINT` and `TWEN`. -/
inductive TwcrCmd
  | run
  | start
  | ack
  | stop
  deriving DecidableEq

inductive Act
  | twcr (c : TwcrCmd)
  | twdr (b : Byte)
  | poll (usbVal : UsbVal)
  deriving DecidableEq

/-- The global variables that hold sensor values. -/
structure Globals where
  usbVal : UsbVal
  tempVal : Word
  humidVal : Word
  deriving DecidableEq

/-- The initial values of the variables. -/
def init : Globals := ⟨⟨0, 0⟩, 0, 0⟩

/-- The status test of a START: 0x08, or 0x10 for a repeated one. -/
def startRefused (twsr : Byte) : Bool :=
  twsr &&& 0xf8 ≠ 0x08 && twsr &&& 0xf8 ≠ 0x10

/-- What the TWI unit answers to `request_measurement`. -/
structure RequestEnv where
  start : Byte
  address : Byte

def requestMeasurement (env : RequestEnv) (g : Globals) : List Act × ℤ :=
  if startRefused env.start then ([.twcr .start, .twcr .run], -1)
  else
    let acts := [.twcr .start, .poll g.usbVal, .twdr sla, .twcr .run]
    if env.address &&& 0xf8 ≠ 0x18 then (acts ++ [.twcr .run], -2)
    else (acts ++ [.poll g.usbVal, .twcr .stop], 0)

/-- `TWSR` and `TWDR` after one data byte. -/
structure TwiByte where
  status : Byte
  data : Byte

/-- What the TWI unit answers to `read_result`. -/
structure ReadEnv where
  start : Byte
  address : Byte
  d0 : TwiByte
  d1 : TwiByte
  d2 : TwiByte
  d3 : TwiByte

def ReadEnv.frame (env : ReadEnv) : Frame := ⟨env.d0.data, env.d1.data, env.d2.data, env.d3.data⟩

/-- `temp_val` and `humid_val` as first gathered. -/
def tempRaw (f : Frame) : Word := (f.b2.setWidth 32 <<< 6) + (f.b3.setWidth 32).sshiftRight 2
def humidRaw (f : Frame) : Word := f.b1.setWidth 32 + ((f.b0 &&& 0x3f).setWidth 32 <<< 8)

/-- The published words. -/
def tempHundredths (f : Frame) : Word := (tempRaw f * 16500).sdiv (16384 - 2) - 4000
def humidHundredths (f : Frame) : Word := (humidRaw f * 10000).sdiv (16384 - 2)

/-- The clamp of the temperature to the analog range. -/
def clampTemp (t : Word) : Word :=
  let t := if t.slt 0 then 0 else t
  if (5000 : Word).slt t then 5000 else t

/-- The scaling to the 10-bit compare registers. -/
def scaleTemp (t : Word) : Word := (clampTemp t * 0x3ff).sdiv 5000
def scaleHumid (h : Word) : Word := (h * 0x3ff).sdiv 10000

/-- The part of `read_result` after the STOP. The poll between the two stores
sees the new temperature beside the old humidity. -/
def decodeResult (f : Frame) (g : Globals) : Globals × List Act × ℤ :=
  if f.status = 0 then
    let usbVal := { g.usbVal with w0 := tempHundredths f }
    ({ usbVal := { usbVal with w1 := humidHundredths f }
       tempVal := scaleTemp (tempHundredths f)
       humidVal := scaleHumid (humidHundredths f) }, [.poll usbVal], 0)
  else if f.status = 1 then (g, [], 0)
  else (g, [], -3)

/-- The accesses from the first data byte to the poll after the STOP. -/
def receiveActs (usbVal : UsbVal) : List Act :=
  [.twcr .ack, .poll usbVal, .twcr .ack, .poll usbVal, .twcr .ack, .poll usbVal,
    .twcr .run, .poll usbVal, .twcr .stop, .poll usbVal]

/-- The statuses of the data bytes are not tested. -/
def readResult (env : ReadEnv) (g : Globals) : Globals × List Act × ℤ :=
  if startRefused env.start then (g, [.twcr .start, .twcr .run], -1)
  else
    let acts := [.twcr .start, .poll g.usbVal, .twdr slaR, .twcr .run]
    if env.address &&& 0xf8 ≠ 0x40 then (g, acts ++ [.twcr .run], -2)
    else
      let r := decodeResult env.frame g
      (r.1, acts ++ [.poll g.usbVal] ++ receiveActs g.usbVal ++ r.2.1, r.2.2)

/-- The HID report descriptor of the AVR firmware. -/
def usbDescriptorHidReport : List Byte :=
  [0x06, 0x00, 0xff, 0x09, 0x01, 0xa1, 0x00, 0x09, 0x01, 0x85, 0x01, 0x95, 0x01, 0x75, 0x20,
    0x26, 0x74, 0x40, 0x16, 0x60, 0xf0, 0x35, 0xd8, 0x46, 0xa5, 0x00, 0x81, 0x02,
    0x09, 0x02, 0x85, 0x02, 0x95, 0x01, 0x75, 0x20, 0x15, 0x00, 0x26, 0x10, 0x27,
    0x35, 0x00, 0x45, 0x64, 0x81, 0x02, 0xc0]

end TempHumid.Avr
