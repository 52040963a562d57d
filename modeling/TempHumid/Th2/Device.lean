import TempHumid.Th2.OutData
import TempHumid.Th2.Decode
import TempHumid.Sensor.Memory

/-!
# The th2 device: sensor bus and USB together

The sensor handlers and the control endpoint share `usb_val`. Only the OUT data
stage of a request that `parse_usb_request` accepts without a look at the
direction writes into it, and such a request does. A request to halt an endpoint
without a job makes the driver follow a pointer from outside its table of jobs.

## Implementation notes

All interrupts keep one priority, so the combined machine interleaves whole
handler activations. A store into `usb_val` splices bytes into its eight bytes
of little-endian memory. A call outside the table of jobs may change any
variable. The machine does not follow it, and the results about `usb_val` are
about runs without one.
-/

namespace TempHumid

open Machine Words

namespace Th2

/-- The two halves of the firmware. `usb_val` belongs to the first. -/
structure Device where
  fw : Firmware
  usb : Usb
  deriving DecidableEq

def Device.init : Device := ⟨Th2.init, Usb.init⟩

inductive DeviceEvent
  | irq (e : Event)
  | usb (e : UsbEvent)
  deriving DecidableEq

/-- The effect of a USB output on `usb_val`. -/
def storeUsbVal (v : UsbVal) : UsbAct → UsbVal
  | .store (.usbVal i) off data => .ofBytes (splice v.bytes (4 * i + off.toNat) data)
  | .store _ _ _ | .stall | .receive _ | .send _ _ _ | .endpoint _ => v

inductive DeviceAct
  | irq (a : Act)
  | usb (a : UsbAct)
  deriving DecidableEq

def deviceStep : Step Device DeviceEvent DeviceAct := fun d e =>
  match e with
  | .irq e => (⟨(step d.fw e).1, d.usb⟩, (step d.fw e).2.map .irq)
  | .usb e =>
      (⟨{ d.fw with usbVal := (usbStep d.usb e).2.foldl storeUsbVal d.fw.usbVal },
          (usbStep d.usb e).1⟩, (usbStep d.usb e).2.map .usb)

/-- The handler activations of the sensor bus within a device run. -/
def irqs (evs : List DeviceEvent) : List Event :=
  evs.filterMap fun
    | .irq e => some e
    | .usb _ => none

/-- The event is a SETUP packet that exposes `usb_val`. -/
def Exposes (d : Device) : DeviceEvent → Prop
  | .irq _ => False
  | .usb e => ExposesPacket d.usb e

instance (d : Device) : ∀ e, Decidable (Exposes d e)
  | .irq _ => isFalse id
  | .usb e => inferInstanceAs (Decidable (ExposesPacket d.usb e))

/-- The event is a SETUP packet with a stray request. -/
def Strays : DeviceEvent → Prop
  | .irq _ => False
  | .usb e => StrayPacket e

instance : DecidablePred Strays
  | .irq _ => isFalse id
  | .usb e => inferInstanceAs (Decidable (StrayPacket e))

/-- The calls of the endpoint driver in a step stay inside its table of jobs. -/
def StaysInTable (d : Device) (e : DeviceEvent) : Prop :=
  ∀ c, .usb (.endpoint c) ∈ (deviceStep d e).2 → c.InTable

/-- A USB step leaves `usb_val` alone. -/
def KeepsUsbVal (d : Device) : DeviceEvent → Prop
  | .irq _ => True
  | .usb e => (deviceStep d (.usb e)).1.fw.usbVal = d.fw.usbVal

instance (d : Device) : ∀ e, Decidable (KeepsUsbVal d e)
  | .irq _ => isTrue trivial
  | .usb e => inferInstanceAs (Decidable ((deviceStep d (.usb e)).1.fw.usbVal = d.fw.usbVal))

/-! ## Runs without an exposing or a stray request -/

theorem storeUsbVal_harmless {a : UsbAct} (h : Harmless a) (v : UsbVal) :
    storeUsbVal v a = v := by
  cases a with
  | store p off data =>
      cases p with
      | usbVal i =>
          have hdata : data = [] := h
          rw [storeUsbVal, hdata, splice_nil, UsbVal.ofBytes_bytes]
      | _ => rfl
  | _ => rfl

theorem foldl_storeUsbVal {acts : List UsbAct} (h : ∀ a ∈ acts, Harmless a) (v : UsbVal) :
    acts.foldl storeUsbVal v = v := by
  induction acts with
  | nil => rfl
  | cons a acts ih =>
      rw [List.foldl_cons, storeUsbVal_harmless (h a List.mem_cons_self)]
      exact ih fun b hb => h b (List.mem_cons_of_mem a hb)

/-- The step neither exposes `usb_val` nor strays. -/
def Sound (d : Device) (e : DeviceEvent) : Prop := ¬Exposes d e ∧ ¬Strays e

instance (d : Device) (e : DeviceEvent) : Decidable (Sound d e) :=
  inferInstanceAs (Decidable (_ ∧ _))

/-- Such a USB step changes the USB half only. -/
theorem deviceStep_usb {d : Device} (hinv : OutInv d.usb) {e : UsbEvent}
    (h : Sound d (.usb e)) : (deviceStep d (.usb e)).1 = ⟨d.fw, (usbStep d.usb e).1⟩ := by
  simp only [deviceStep, foldl_storeUsbVal (guarded_usbStep hinv h.1 h.2).2]

theorem outInv_deviceStep (d : Device) (e : DeviceEvent) (hinv : OutInv d.usb)
    (h : Sound d e) : OutInv (deviceStep d e).1.usb := by
  cases e with
  | irq e => exact hinv
  | usb e => exact (guarded_usbStep hinv h.1 h.2).1

theorem keepsUsbVal_deviceStep (d : Device) (e : DeviceEvent) (hinv : OutInv d.usb)
    (h : Sound d e) : KeepsUsbVal d e := by
  cases e with
  | irq e => trivial
  | usb e => rw [KeepsUsbVal, deviceStep_usb hinv h]

theorem mem_usb_iff {d : Device} {e : UsbEvent} {c : EpCall} :
    .usb (.endpoint c) ∈ (deviceStep d (.usb e)).2 ↔ .endpoint c ∈ (usbStep d.usb e).2 := by
  simp only [deviceStep, List.mem_map, DeviceAct.usb.injEq, exists_eq_right]

theorem staysInTable_deviceStep (d : Device) (e : DeviceEvent) (hinv : OutInv d.usb)
    (h : Sound d e) : StaysInTable d e := by
  intro c hc
  cases e with
  | irq e => simp [deviceStep] at hc
  | usb e => exact (guarded_usbStep hinv h.1 h.2).2 _ (mem_usb_iff.mp hc)

theorem outInv_init : OutInv Usb.init := outInv_of_ne (by decide)

/-- The sensor half of such a run is the run of its own activations. -/
theorem fw_finish {evs : List DeviceEvent} :
    ∀ {d : Device}, OutInv d.usb → AllSteps deviceStep Sound d evs →
      (finish deviceStep d evs).fw = finish step d.fw (irqs evs) := by
  induction evs with
  | nil => exact fun _ _ => rfl
  | cons e evs ih =>
      intro d hinv h
      have hrest := ih (outInv_deviceStep d e hinv h.1) h.2
      cases e with
      | irq e => exact hrest
      | usb e =>
          rw [finish_cons, hrest, deviceStep_usb hinv h.1]
          rfl

/-- The initial pair or the words of one completed fresh frame. -/
def FromOneFrame (fs : List Frame) (v : UsbVal) : Prop :=
  v = ⟨0, 0⟩ ∨ ∃ f ∈ fs, f.Fresh ∧ v = f.reading.words

instance (fs : List Frame) (v : UsbVal) : Decidable (FromOneFrame fs v) :=
  inferInstanceAs (Decidable (_ ∨ ∃ f ∈ fs, _))

/-- In a run without an exposing or a stray request, `usb_val` is the initial pair
or the decoding of one completed fresh frame, no USB step changes it, and no call
of the endpoint driver leaves its table of jobs. -/
theorem published_integrity (evs : List DeviceEvent)
    (h : AllSteps deviceStep Sound Device.init evs) :
    FromOneFrame (frames (irqs evs)) (finish deviceStep Device.init evs).fw.usbVal ∧
      AllSteps deviceStep KeepsUsbVal Device.init evs ∧
      AllSteps deviceStep StaysInTable Device.init evs := by
  refine ⟨?_, ?_, ?_⟩
  · rw [fw_finish outInv_init h]
    have hrun := usbVal_run (irqs evs)
    rw [run] at hrun
    rw [FromOneFrame, Device.init, hrun]
    rcases published_eq_zero_or (frames (irqs evs)) with hzero | ⟨f, hf, hfresh, heq⟩
    · left
      rw [hzero]
      rfl
    · right
      exact ⟨f, hf, hfresh, by rw [heq]⟩
  · exact h.of_invariant (I := fun d => OutInv d.usb) outInv_init outInv_deviceStep
      keepsUsbVal_deviceStep
  · exact h.of_invariant (I := fun d => OutInv d.usb) outInv_init outInv_deviceStep
      staysInTable_deviceStep

/-- The host configures the device, halts the OUT endpoint, sends a byte with a
`SET_IDLE` whose `wValue` selects an input report, and asks for a report after
the first read. -/
def polledFirstRead : List DeviceEvent :=
  [.usb (.setup ⟨true, true⟩ [0x00, 0x05, 0x05, 0x00, 0x00, 0x00, 0x00, 0x00]),
    .usb (.transferOk []),
    .usb (.setup ⟨true, true⟩ [0x00, 0x09, 0x01, 0x00, 0x00, 0x00, 0x00, 0x00]),
    .usb (.transferOk []),
    .usb (.setup ⟨true, true⟩ [0x02, 0x03, 0x00, 0x00, 0x02, 0x00, 0x00, 0x00]),
    .usb (.transferOk []),
    .usb (.setup ⟨true, true⟩ [0x21, 0x0a, 0x00, 0x01, 0x00, 0x00, 0x01, 0x00]),
    .usb (.transferOk [0xff])] ++
  (firstRead ⟨0x20, 0x00, 0x64, 0xd8⟩ true).map .irq ++
  [.usb (.setup ⟨true, true⟩ [0xa1, 0x01, 0x00, 0x01, 0x00, 0x00, 0x08, 0x00])]

theorem published_integrity_polled :
    AllSteps deviceStep Sound Device.init polledFirstRead ∧
      FromOneFrame (frames (irqs polledFirstRead))
        (finish deviceStep Device.init polledFirstRead).fw.usbVal ∧
      AllSteps deviceStep KeepsUsbVal Device.init polledFirstRead ∧
      AllSteps deviceStep StaysInTable Device.init polledFirstRead := by
  have hsteps : AllSteps deviceStep Sound Device.init polledFirstRead := by
    decide +kernel
  exact ⟨hsteps, published_integrity polledFirstRead hsteps⟩

/-! ## An exposing request -/

/-- A request with data makes no calls. -/
theorem not_isEpHalt {req : SetupReq} (h : req.wLength ≠ 0) : ¬IsEpHalt req :=
  fun hhalt => h hhalt.wLength

/-- After an exposing request the OUT stage is open with `usb_val` as its payload. -/
theorem dispatchSetup_of_exposes (hw : Hw) {u : Usb} (h : ExposesReq u.numConfiguration u.req) :
    (dispatchSetup hw u).1.epControlState = .dataOut ∧ InUsbVal (dispatchSetup hw u).1 ∧
      (dispatchSetup hw u).1.ctrlPayloadNbTrans = 0 ∧
      (dispatchSetup hw u).2 = [.receive deviceEpCtrlSize] := by
  have hreq := keepsReq_udcProcessSetup hw u
  obtain ⟨hok, hin⟩ := processSetup_of_exposes hw h
  have hdir : ¬(udcProcessSetup hw u).2.req.isIn := by
    rw [hreq]
    exact isOut_iff.mp h.1
  have hlen : (udcProcessSetup hw u).2.req.wLength ≠ 0 := by
    rw [hreq]
    exact h.2.1
  have heq : dispatchSetup hw u =
      (startData .dataOut (udcProcessSetup hw u).2, [.receive deviceEpCtrlSize]) := by
    rw [dispatchSetup_of_not hw (not_isEpHalt h.2.1)]
    simp only [answerSetup, hok, if_neg hdir, if_neg hlen]
    rfl
  rw [heq]
  exact ⟨rfl, hin, rfl, rfl⟩

/-- One byte of OUT data for a payload in `usb_val` is stored there. -/
theorem usbVal_outReceived (b : Byte) {u : Usb} {i : Fin 2} (hpayload : u.payload = .usbVal i)
    (hsize : u.payloadSize = 4 ∨ i.val = 0 ∧ u.payloadSize = 8) (htrans : u.ctrlPayloadNbTrans = 0)
    (v : UsbVal) :
    (ctrlOutReceived [b] u).2.foldl storeUsbVal v = .ofBytes (splice v.bytes (4 * i) [b]) := by
  have hone : outSize [b] u = 1 := by
    rw [outSize, htrans]
    rcases hsize with h | ⟨-, h⟩
    · rw [h]
      rfl
    · rw [h]
      rfl
  have hcopy : (copyPayload [b] u).2 = [.store (.usbVal i) 0 [b]] := by
    rw [copyPayload, hone, hpayload, htrans]
    rfl
  rw [ctrlOutReceived_last (by rw [hone]; decide)]
  simp only [hcopy, List.singleton_append, List.foldl_cons]
  rw [foldl_storeUsbVal (guarded_sendZlp _).2]
  rfl

/-- A changed byte of memory changes the pair of words. -/
theorem splice_ne (v : UsbVal) (i : Fin 2) {b : Byte} (hb : v.bytes[4 * i.val]? ≠ some b) :
    UsbVal.ofBytes (splice v.bytes (4 * i) [b]) ≠ v := by
  intro heq
  have hoff : 4 * i.val < v.bytes.length := by
    rw [UsbVal.bytes_length]
    omega
  have hlen : (splice v.bytes (4 * i) [b]).length = 8 := by
    rw [splice_length hoff, UsbVal.bytes_length]
  have hmem := UsbVal.bytes_ofBytes hlen
  rw [heq] at hmem
  apply hb
  rw [hmem]
  exact getElem?_splice_singleton hoff b

/-- From any state, an exposing request and one more packet change `usb_val`. -/
theorem exposed_write (d : Device) (hw : Hw) (packet : List Byte)
    (h : Exposes d (.usb (.setup hw packet))) : ∃ b,
      (finish deviceStep d [.usb (.setup hw packet), .usb (.transferOk [b])]).fw.usbVal ≠
        d.fw.usbVal := by
  obtain ⟨hlen, hexp⟩ := h
  rw [← beginSetup_numConfiguration] at hexp
  obtain ⟨hstate, ⟨i, hpayload, hsize⟩, htrans, hacts⟩ := dispatchSetup_of_exposes hw
    (u := { beginSetup d.usb with req := fetchRam packet }) hexp
  have hsetup : (deviceStep d (.usb (.setup hw packet))).1 =
      ⟨d.fw, (dispatchSetup hw { beginSetup d.usb with req := fetchRam packet }).1⟩ := by
    simp only [deviceStep, usbStep, ep0OnSetup, hlen, ne_eq, not_true_eq_false, if_false, hacts]
    rfl
  have hout : ∀ b,
      (finish deviceStep d [.usb (.setup hw packet), .usb (.transferOk [b])]).fw.usbVal =
        .ofBytes (splice d.fw.usbVal.bytes (4 * i) [b]) := by
    intro b
    rw [finish_cons, hsetup, finish_cons, finish_nil]
    simp only [deviceStep, usbStep, ep0OnTransferOk, hstate]
    exact usbVal_outReceived b hpayload hsize htrans d.fw.usbVal
  obtain ⟨b, hb⟩ : ∃ b, d.fw.usbVal.bytes[4 * i.val]? ≠ some b := by
    cases d.fw.usbVal.bytes[4 * i.val]? with
    | none => exact ⟨0, by simp⟩
    | some x => exact ⟨x + 1, by simp⟩
  refine ⟨b, ?_⟩
  rw [hout]
  exact splice_ne d.fw.usbVal i hb

/-- From any state, a stray request makes the driver leave its table of jobs. -/
theorem stray_leaves_table (d : Device) (e : DeviceEvent) (h : Strays e) :
    ¬StaysInTable d e := by
  rcases e with e | (⟨hw, packet⟩ | _ | _ | _)
  · exact absurd h id
  · obtain ⟨hlen, hstray⟩ := h
    intro hstays
    refine (calls_inTable_iff hw (u := { beginSetup d.usb with req := fetchRam packet })).mp ?_
      hstray
    intro c hc
    apply hstays
    rw [mem_usb_iff, usbStep, ep0OnSetup, if_neg (not_not.mpr hlen), dispatchSetup]
    exact List.mem_append_left _ (List.mem_map_of_mem hc)
  · exact absurd h id
  · exact absurd h id
  · exact absurd h id

/-- A host sends eight bytes with a class `SET_REPORT` for an input report. -/
def hostWrite : List DeviceEvent :=
  [.usb (.setup ⟨true, true⟩ [0x21, 0x09, 0x00, 0x01, 0x00, 0x00, 0x08, 0x00]),
    .usb (.transferOk [0x11, 0x22, 0x33, 0x44, 0x55, 0x66, 0x77, 0x88])]

/-- The host's own bytes become the published pair, without any frame. -/
theorem hostWrite_published :
    (finish deviceStep Device.init hostWrite).fw.usbVal = ⟨0x44332211, 0x88776655⟩ ∧
      ¬FromOneFrame (frames (irqs hostWrite)) (finish deviceStep Device.init hostWrite).fw.usbVal ∧
      ¬AllSteps deviceStep KeepsUsbVal Device.init hostWrite := by
  decide +kernel

end Th2

end TempHumid
