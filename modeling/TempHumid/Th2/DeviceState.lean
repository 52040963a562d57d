import TempHumid.Library.Simulation
import TempHumid.Th2.OutData
import TempHumid.Th2.Transfer

/-!
# The state of the th2 device as its host sees it

The address, the configuration and the two settings of the HID interface are
spread over the USB stack, and an address becomes valid only after its request.
`HostView` is the device that the stack presents. Its step `HostView.next` is
defined from the requests alone, and the USB stack refines it.

It is not quite the device that a host expects, `HostView.expected`. The stack keeps
the settings of the interface over a bus reset, keeps the configuration of a refused
`SET_CONFIGURATION`, and takes an address also when the next SETUP packet comes
instead of the status stage. Where the last two do not happen, the first cannot be
seen: the interface answers only in a configuration, and enabling it resets both
settings.

## Implementation notes

`udd_g_ctrlreq.callback` is cleared by the next SETUP packet, not when it is
called. Called twice it sets the same address, except across a bus reset; an
orderly bus delivers no completed transfer in between.
-/

namespace TempHumid.Th2

open Machine Packets

/-- The device as the requests have set it up. `pending` is the address of a request
that is not over. -/
structure HostView where
  address : Byte
  pending : Option Byte
  configuration : Byte
  rate : Byte
  protocol : Byte
  deriving DecidableEq

namespace HostView

def init : HostView := ⟨0, none, 0, 0, 0⟩

/-- The request before is over. -/
def commit (v : HostView) : HostView :=
  { v with address := v.pending.getD v.address, pending := none }

/-- Enabling the interface resets its settings, once its endpoints are allocated. -/
def enable (hw : Hw) (v : HostView) : HostView :=
  if hw.epAlloc then { v with rate := 0, protocol := 0 } else v

/-- `SET_ADDRESS`, `SET_CONFIGURATION`, `SET_INTERFACE`, `SET_IDLE` and
`SET_PROTOCOL`. No other request changes the device. The configuration is set before
the interface is enabled, and stays when that fails. -/
def request (hw : Hw) (req : SetupReq) (v : HostView) : HostView :=
  if req.isIn then v
  else if req.type = typeStandard then
    if req.wLength ≠ 0 then v
    else if req.recipient = recipDevice then
      if req.bRequest = 5 then { v with pending := some ((req.wValue &&& 0x7f).setWidth 8) }
      else if req.bRequest = 9 ∧ v.address ≠ 0 ∧ ¬1 < req.valueLow then
        if req.valueLow = 0 then { v with configuration := 0 }
        else enable hw { v with configuration := req.valueLow }
      else v
    else if req.recipient = recipInterface ∧ req.bRequest = 11 ∧ v.configuration ≠ 0 ∧
        req.indexLow = 0 ∧ req.valueLow = 0 then enable hw v
    else v
  else if req.type = typeClass ∧ ReachesHid v.configuration req then
    if req.bRequest = 0x0a then { v with rate := req.valueHigh }
    else if req.bRequest = 0x0b ∧ req.wLength = 0 then { v with protocol := req.wValue.setWidth 8 }
    else v
  else v

/-- A SETUP packet ends the request before, like its status stage. A bus reset leaves
the settings of the interface alone. -/
def next (v : HostView) : UsbEvent → HostView
  | .setup hw packet => v.commit.request hw (fetchRam packet)
  | .transferOk _ => v.commit
  | .transferFail _ => v
  | .busReset => { v with address := 0, pending := none, configuration := 0 }

def step : Step HostView UsbEvent UsbAct := fun v e => (v.next e, [])

/-- The requests that need endpoints: `SET_CONFIGURATION` and `SET_INTERFACE`. -/
def Enables (req : SetupReq) : Prop :=
  ¬req.isIn ∧ req.type = typeStandard ∧
    (req.recipient = recipDevice ∧ req.bRequest = 9 ∧ req.valueLow ≠ 0 ∨
      req.recipient = recipInterface ∧ req.bRequest = 11)

instance (req : SetupReq) : Decidable (Enables req) := inferInstanceAs (Decidable (_ ∧ _))

/-- The device that a host expects: a request without its status stage and a refused
one change nothing, and a bus reset clears everything. -/
def expected (v : HostView) : UsbEvent → HostView
  | .setup hw packet =>
      if Enables (fetchRam packet) ∧ ¬hw.epAlloc then { v with pending := none }
      else { v with pending := none }.request hw (fetchRam packet)
  | .transferOk _ => v.commit
  | .transferFail _ => v
  | .busReset => init

def expectedStep : Step HostView UsbEvent UsbAct := fun v e => (v.expected e, [])

/-- A host sees the settings of the interface only in a configuration. -/
structure Same (v w : HostView) : Prop where
  address : v.address = w.address
  pending : v.pending = w.pending
  configuration : v.configuration = w.configuration
  settings : v.configuration ≠ 0 → v.rate = w.rate ∧ v.protocol = w.protocol

/-- Every `SET_ADDRESS` request has got its status stage, and the endpoints can be
allocated. -/
def Settled (v : HostView) : UsbEvent → Prop
  | .setup hw packet => v.pending = none ∧ (Enables (fetchRam packet) → hw.epAlloc)
  | .transferOk _ | .transferFail _ | .busReset => True

instance (v : HostView) : ∀ e, Decidable (Settled v e)
  | .setup hw packet =>
      inferInstanceAs (Decidable (v.pending = none ∧ (Enables (fetchRam packet) → hw.epAlloc)))
  | .transferOk _ | .transferFail _ | .busReset => isTrue trivial

section Expected

variable {v w : HostView} {hw : Hw} {req : SetupReq}

theorem Same.enable (h : Same v w) (hw : Hw) : Same (v.enable hw) (w.enable hw) := by
  rw [HostView.enable, HostView.enable]
  split
  · exact ⟨h.address, h.pending, h.configuration, fun _ => ⟨rfl, rfl⟩⟩
  · exact h

/-- Enabled, two devices have the same settings whatever they had before. -/
theorem same_enable (halloc : hw.epAlloc) (haddress : v.address = w.address)
    (hpending : v.pending = w.pending) (hconfiguration : v.configuration = w.configuration) :
    Same (v.enable hw) (w.enable hw) := by
  rw [HostView.enable, HostView.enable, if_pos halloc, if_pos halloc]
  exact ⟨haddress, hpending, hconfiguration, fun _ => ⟨rfl, rfl⟩⟩

/-- No request sees the settings outside a configuration. -/
theorem Same.request (h : Same v w) (halloc : Enables req → hw.epAlloc) :
    Same (v.request hw req) (w.request hw req) := by
  rw [HostView.request, HostView.request, h.address, h.configuration]
  split_ifs with hin htype hlen hdev h5 h9 hzero h11 hclass ha hb
  · exact h
  · exact h
  · exact ⟨rfl, rfl, rfl, fun hne => h.settings (h.configuration ▸ hne)⟩
  · exact ⟨rfl, h.pending, rfl, fun hne => absurd rfl hne⟩
  · exact same_enable (halloc ⟨hin, htype, .inl ⟨hdev, h9.1, hzero⟩⟩) rfl h.pending rfl
  · exact h
  · exact h.enable hw
  · exact h
  · have hset : v.configuration ≠ 0 := h.configuration ▸ hclass.2.1
    exact ⟨rfl, h.pending, rfl, fun _ => ⟨rfl, (h.settings hset).2⟩⟩
  · have hset : v.configuration ≠ 0 := h.configuration ▸ hclass.2.1
    exact ⟨rfl, h.pending, rfl, fun _ => ⟨(h.settings hset).1, rfl⟩⟩
  · exact h
  · exact h

theorem Same.commit (h : Same v w) : Same v.commit w.commit := by
  have haddress : v.commit.address = w.commit.address := by
    rw [HostView.commit, HostView.commit, h.pending, h.address]
  exact ⟨haddress, rfl, h.configuration, h.settings⟩

theorem commit_of_none (h : v.pending = none) : v.commit = v := by
  cases v
  cases h
  rfl

/-- In a settled run a step of the stack is a step of the device that a host expects. -/
theorem Same.next {e : UsbEvent} (h : Same v w) (hsettled : v.Settled e) :
    Same (v.next e) (w.expected e) := by
  cases e with
  | setup hw packet =>
      obtain ⟨hnone, halloc⟩ := hsettled
      have hnone' : w.pending = none := h.pending ▸ hnone
      have hdrop : { w with pending := none } = w := by
        rw [← hnone']
      rw [HostView.next, HostView.expected, commit_of_none hnone, hdrop,
        if_neg fun hrefused => hrefused.2 (halloc hrefused.1)]
      exact h.request halloc
  | transferOk packet => exact h.commit
  | transferFail dirIn => exact h
  | busReset => exact ⟨rfl, rfl, rfl, fun hne => absurd rfl hne⟩

theorem simulates_expected : Simulates step expectedStep Settled Same := by
  intro v w e h hsettled
  exact h.next hsettled

end Expected

end HostView

/-! ## The view of the stack -/

/-- The variables that the host can set. -/
def hostView (u : Usb) : HostView where
  address := u.address
  pending := if u.callback = some .validAddress then some ((u.req.wValue &&& 0x7f).setWidth 8)
    else none
  configuration := u.numConfiguration
  rate := u.rate
  protocol := u.protocol

/-- Between two transfers the callback has been called or given up. -/
def absView (u : Usb) : HostView :=
  if u.epControlState = .setup then { hostView u with pending := none } else hostView u

/-- A SETUP packet has eight bytes, and no transfer completes between two transfers. -/
def Orderly (u : Usb) : UsbEvent → Prop
  | .setup _ packet => packet.length = 8
  | .transferOk _ => u.epControlState ≠ .setup
  | .transferFail _ | .busReset => True

instance (u : Usb) : ∀ e, Decidable (Orderly u e)
  | .setup _ packet => inferInstanceAs (Decidable (packet.length = 8))
  | .transferOk _ => inferInstanceAs (Decidable (u.epControlState ≠ .setup))
  | .transferFail _ | .busReset => isTrue trivial

section Requests

variable {u : Usb} {hw : Hw}

theorem hostView_parseUsbRequest (u : Usb) : hostView (parseUsbRequest u).2 = hostView u := by
  rw [parseUsbRequest]
  split_ifs <;> rfl

/-- An IN request changes nothing that the host can set. -/
theorem updates_hostView : Updates fun u v => v.req = u.req ∧
    (u.req.isIn → u.callback ≠ some .validAddress →
      hostView v = hostView u ∧ v.callback ≠ some .validAddress) where
  refl _ := ⟨rfl, fun _ h => ⟨rfl, h⟩⟩
  trans _ _ _ huv hvw := by
    refine ⟨hvw.1.trans huv.1, fun hin hcall => ?_⟩
    obtain ⟨hview, hcall'⟩ := huv.2 hin hcall
    obtain ⟨hview', hcall''⟩ := hvw.2 (huv.1 ▸ hin) hcall'
    exact ⟨hview'.trans hview, hcall''⟩
  payload _ _ _ _ := ⟨rfl, fun _ h => ⟨rfl, h⟩⟩
  cut _ _ _ := ⟨rfl, fun _ h => ⟨rfl, h⟩⟩
  setfeature u := by
    refine ⟨rfl, fun _ h => ⟨?_, by simp⟩⟩
    simp [hostView, h]
  validAddress _ hout := ⟨rfl, fun hin => absurd hin hout⟩
  endpoint _ h := ⟨rfl, fun hin => absurd hin h.isOut⟩
  numConfiguration _ _ hout := ⟨rfl, fun hin => absurd hin hout⟩
  rate _ _ hout := ⟨rfl, fun hin => absurd hin hout⟩
  protocol _ _ hout := ⟨rfl, fun hin => absurd hin hout⟩

/-- `enable` is what `udc_iface_enable` does to the settings. -/
theorem hostView_ifaceEnable (hw : Hw) (hcall : u.callback = none) (iface setting : Byte) :
    hostView (udcIfaceEnable hw iface setting u).2 =
      if udcUpdateIfaceDesc iface setting u then (hostView u).enable hw else hostView u := by
  rw [udcIfaceEnable, HostView.enable]
  cases udcUpdateIfaceDesc iface setting u <;> cases hw.epAlloc <;>
    simp [hostView, hcall, unsupported]

theorem updateIfaceDesc_eq (iface setting : Byte) (u : Usb) :
    udcUpdateIfaceDesc iface setting u = true ↔
      u.numConfiguration ≠ 0 ∧ iface = 0 ∧ setting = 0 := by
  have hiface : iface < deviceNbInterface ↔ iface = 0 := by
    rw [deviceNbInterface, ← BitVec.toNat_inj, BitVec.lt_def]
    exact Nat.lt_one_iff
  simp [udcUpdateIfaceDesc, hiface, and_assoc]

/-- `SET_CONFIGURATION` sets the configuration before it enables the interface, and
keeps it when that fails. -/
theorem hostView_setConfiguration (hw : Hw) (hcall : u.callback = none) (hlen : u.req.wLength = 0) :
    hostView (udcReqStdDevSetConfiguration hw u).2 =
      if u.address ≠ 0 ∧ ¬1 < u.req.valueLow then
        if u.req.valueLow = 0 then { hostView u with configuration := 0 }
        else ({ hostView u with configuration := u.req.valueLow } : HostView).enable hw
      else hostView u := by
  have henable := hostView_ifaceEnable hw
    (u := { udcReset u with numConfiguration := u.req.valueLow }) hcall 0 0
  simp only [udcReqStdDevSetConfiguration, hlen, ne_eq, not_true_eq_false, if_false]
  by_cases haddr : u.address = 0
  · simp only [haddr, if_true, not_true_eq_false, false_and, if_false]
    rfl
  · by_cases hbig : 1 < u.req.valueLow
    · simp only [haddr, hbig, if_true, if_false, not_true_eq_false, and_false]
      rfl
    · simp only [haddr, hbig, if_false, not_false_eq_true, and_self, if_true]
      by_cases hzero : u.req.valueLow = 0
      · simp only [hzero, if_true]
        rfl
      · simp only [hzero, if_false, henable]
        rw [if_pos ((updateIfaceDesc_eq _ _ _).mpr ⟨hzero, rfl, rfl⟩)]
        rfl

theorem hostView_setSetting (hw : Hw) (hcall : u.callback = none) (hlen : u.req.wLength = 0) :
    hostView (udcReqStdIfaceSetSetting hw u).2 =
      if u.numConfiguration ≠ 0 ∧ u.req.indexLow = 0 ∧ u.req.valueLow = 0 then
        (hostView u).enable hw
      else hostView u := by
  have henable := hostView_ifaceEnable hw hcall u.req.indexLow u.req.valueLow
  simp only [udcReqStdIfaceSetSetting, hlen, ne_eq, not_true_eq_false, if_false]
  by_cases hconf : u.numConfiguration = 0
  · simp only [hconf, if_true, not_true_eq_false, false_and, if_false]
    rfl
  · simp only [hconf, if_false, not_false_eq_true, true_and]
    by_cases hindex : u.req.indexLow = 0
    · have hcur : udcUpdateIfaceDesc u.req.indexLow 0 u = true :=
        (updateIfaceDesc_eq _ _ _).mpr ⟨hconf, hindex, rfl⟩
      have hsetting : udcUpdateIfaceDesc u.req.indexLow u.req.valueLow u = true ↔
          u.req.indexLow = 0 ∧ u.req.valueLow = 0 :=
        (updateIfaceDesc_eq _ _ _).trans (and_iff_right hconf)
      rw [if_pos hcur, henable]
      simp only [hsetting]
    · have hcur : ¬udcUpdateIfaceDesc u.req.indexLow 0 u = true :=
        fun h => hindex ((updateIfaceDesc_eq _ _ _).mp h).2.1
      rw [if_neg hcur]
      simp only [hindex, false_and, if_false]
      rfl

theorem clearFeature_snd (u : Usb) : (udcReqStdDevClearFeature u).2 = u := by
  rw [udcReqStdDevClearFeature]
  split <;> rfl

theorem hostView_epClearFeature (u : Usb) :
    hostView (udcReqStdEpClearFeature u).2 = hostView u := by
  rw [udcReqStdEpClearFeature]
  split_ifs <;> rfl

theorem hostView_epSetFeature (u : Usb) : hostView (udcReqStdEpSetFeature u).2 = hostView u := by
  rw [udcReqStdEpSetFeature]
  split_ifs <;> rfl

/-- The standard OUT requests. -/
theorem hostView_udcReqstd (hw : Hw) (hout : ¬u.req.isIn) (htype : u.req.type = typeStandard)
    (hcall : u.callback = none) :
    hostView (udcReqstd hw u).2 = (hostView u).request hw u.req := by
  rw [HostView.request, if_neg hout, if_pos htype]
  by_cases hlen : u.req.wLength = 0
  · rw [if_neg (not_not.mpr hlen), udcReqstd, if_neg hout]
    by_cases hdev : u.req.recipient = recipDevice
    · rw [if_pos hdev, if_pos hdev]
      by_cases h5 : u.req.bRequest = 5
      · rw [if_pos h5, if_pos h5, udcReqStdDevSetAddress, if_neg (not_not.mpr hlen)]
        simp [hostView]
      · rw [if_neg h5, if_neg h5]
        by_cases h9 : u.req.bRequest = 9
        · have h1 : u.req.bRequest ≠ 1 := by rw [h9]; decide
          have h3 : u.req.bRequest ≠ 3 := by rw [h9]; decide
          rw [if_neg h1, if_neg h3, if_pos h9, hostView_setConfiguration hw hcall hlen]
          simp only [h9, true_and]
          rfl
        · rw [if_neg h9, if_neg (fun h : _ ∧ _ => h9 h.1)]
          split_ifs
          · rw [clearFeature_snd]
          · rfl
          · rfl
    · rw [if_neg hdev, if_neg hdev]
      by_cases h11 : u.req.recipient = recipInterface ∧ u.req.bRequest = 11
      · rw [if_pos h11, hostView_setSetting hw hcall hlen]
        simp only [h11, true_and]
        rfl
      · rw [if_neg h11, if_neg (fun h : _ ∧ _ ∧ _ => h11 ⟨h.1, h.2.1⟩)]
        split_ifs
        · exact hostView_epClearFeature u
        · exact hostView_epSetFeature u
        · rfl
  · rw [udcReqstd_out (isOut_iff.mpr hout) hlen, if_pos hlen]
    rfl

/-- The requests of the HID interface. -/
theorem hostView_udiHidSetup (hw : Hw) (hout : ¬u.req.isIn) (htype : u.req.type ≠ typeStandard)
    (hreach : ReachesHid u.numConfiguration u.req) (hcall : u.callback = none) :
    hostView (udiHidSetup u).2 = (hostView u).request hw u.req := by
  have hreport : hostView (udiHidGenericSetreport u).2 = hostView u := by
    have hfeature : ∀ v : Usb, v.callback = none →
        hostView (udiHidGenericSetreportFeature v).2 = hostView v := by
      intro v hv
      rw [udiHidGenericSetreportFeature]
      split
      · simp [hostView, reply, hv]
      · rfl
    rw [udiHidGenericSetreport]
    split
    · rw [Handler.orElse]
      split
      · exact hostView_parseUsbRequest u
      · have hcall' : (parseUsbRequest u).2.callback = none := by
          rw [parseUsbRequest]
          split_ifs <;> exact hcall
        rw [hfeature _ hcall', hostView_parseUsbRequest]
    · exact hfeature u hcall
  rw [HostView.request, if_neg hout, if_neg htype, udiHidSetup, if_neg hout]
  by_cases hclass : u.req.type = typeClass
  · have hboth : u.req.type = typeClass ∧ ReachesHid (hostView u).configuration u.req :=
      ⟨hclass, hreach⟩
    rw [if_pos hclass, if_pos hboth]
    by_cases ha : u.req.bRequest = 0x0a
    · have h9 : u.req.bRequest ≠ 0x09 := by rw [ha]; decide
      rw [if_neg h9, if_pos ha, if_pos ha]
      rfl
    · rw [if_neg ha, if_neg ha]
      by_cases h9 : u.req.bRequest = 0x09
      · have hb : ¬(u.req.bRequest = 0x0b ∧ u.req.wLength = 0) := by
          rw [h9]
          exact fun h => absurd h.1 (by decide)
        rw [if_pos h9, if_neg hb, hreport]
      · rw [if_neg h9]
        by_cases hb : u.req.bRequest = 0x0b
        · rw [if_pos hb]
          simp only [hb, true_and, ne_eq]
          by_cases hlen : u.req.wLength = 0
          · rw [if_neg (not_not.mpr hlen), if_pos hlen]
            rfl
          · rw [if_pos hlen, if_neg hlen]
            rfl
        · rw [if_neg hb, if_neg (fun h : _ ∧ _ => hb h.1)]
          rfl
  · rw [if_neg hclass, if_neg (fun h : _ ∧ _ => hclass h.1)]
    rfl

/-- `parse_usb_request` changes nothing that the host can set. -/
theorem hostView_orElse_parse (h : Handler) (u : Usb) :
    hostView (h.orElse parseUsbRequest u).2 = hostView (h u).2 := by
  rw [Handler.orElse]
  split
  · rfl
  · exact hostView_parseUsbRequest _

/-- Behind `udc_reqstd` a standard OUT request changes nothing any more. -/
theorem hostView_behind_reqstd (hout : ¬u.req.isIn) (htype : u.req.type = typeStandard) :
    hostView ((Handler.when (fun u => u.req.recipient = recipInterface) udcReqIface).orElse
      ((Handler.when (fun u => u.req.recipient = recipEndpoint) udcReqEp).orElse
        parseUsbRequest) u).2 = hostView u := by
  rw [iface_or_ep_eq]
  split
  · have hclass : u.req.type ≠ typeClass := by
      rw [htype]
      decide
    rw [hostView_orElse_parse, udiHidSetup, if_neg hout, if_neg hclass]
    rfl
  · exact hostView_parseUsbRequest u

/-- `udc_process_setup` does to the device what the request asks for, on top of
a device without a pending address. -/
theorem hostView_udcProcessSetup (hw : Hw) (u : Usb) :
    hostView (udcProcessSetup hw u).2 =
      ({ hostView u with pending := none } : HostView).request hw u.req := by
  have hview : hostView (prepare u) = { hostView u with pending := none } := rfl
  by_cases hin : u.req.isIn
  · have h := follows_udcProcessSetup updates_hostView hw u
    have hnone : (prepare u).callback ≠ some .validAddress := by
      change none ≠ _
      decide
    rw [(h.2 hin hnone).1, HostView.request, if_pos hin]
    rfl
  · have hnot : ¬(u.req.isIn ∧ u.req.wLength = 0) := fun h => hin h.1
    by_cases htype : u.req.type = typeStandard
    · have hstd := hostView_udcReqstd hw (u := prepare u) hin htype rfl
      have hwhen : Handler.when (fun u => u.req.type = typeStandard) (udcReqstd hw) (prepare u) =
          udcReqstd hw (prepare u) := if_pos htype
      have hkeep := keepsReq_standard hw (prepare u)
      rw [hwhen] at hkeep
      rw [← hview]
      change _ = (hostView (prepare u)).request hw (prepare u).req
      rw [← hstd, udcProcessSetup]
      simp only [if_neg hnot]
      change hostView (Handler.orElse _ _ (prepare u)).2 = _
      rw [Handler.orElse, hwhen]
      split
      · rfl
      · exact hostView_behind_reqstd (hkeep ▸ hin) (hkeep ▸ htype)
    · rw [udcProcessSetup_eq hnot (if_neg htype), ← hview]
      split
      · next hreach =>
          rw [hostView_orElse_parse]
          exact hostView_udiHidSetup hw (u := prepare u) hin htype hreach rfl
      · next hreach =>
          rw [hostView_parseUsbRequest, HostView.request, if_neg hin, if_neg htype]
          exact (if_neg fun h : _ ∧ _ => hreach h.2).symm

end Requests

/-! ## The refinement -/

/-- No data stage belongs to a `SET_ADDRESS` request. -/
def AddressInv (u : Usb) : Prop :=
  u.epControlState = .dataIn ∨ u.epControlState = .dataOut → u.callback ≠ some .validAddress

section Refinement

variable {u : Usb}

theorem absView_of_ne (h : u.epControlState ≠ .setup) : absView u = hostView u := if_neg h

theorem absView_of_setup (h : u.epControlState = .setup) :
    absView u = { hostView u with pending := none } :=
  if_pos h

/-- The callback of a `SET_ADDRESS` request commits the pending address. -/
theorem hostView_runCallback (u : Usb) :
    ({ hostView (runCallback u) with pending := none } : HostView) = (hostView u).commit := by
  rw [runCallback]
  cases hcall : u.callback with
  | none => simp [hostView, hcall, HostView.commit]
  | some c => cases c <;> simp [hostView, hcall, HostView.commit]

theorem hostView_beginSetup (u : Usb) :
    ({ hostView (beginSetup u) with pending := none } : HostView) = (absView u).commit := by
  by_cases h : u.epControlState = .setup
  · rw [absView_of_setup h, beginSetup, if_neg (not_not.mpr h)]
    rfl
  · rw [absView_of_ne h, beginSetup, if_pos h]
    exact hostView_runCallback u

/-- `SET_ADDRESS` has no data stage. -/
theorem request_pending {hw : Hw} {req : SetupReq} {v : HostView} (hnone : v.pending = none)
    (h : (v.request hw req).pending ≠ none) : ¬req.isIn ∧ req.wLength = 0 := by
  have henable : ∀ v : HostView, (v.enable hw).pending = v.pending := by
    intro v
    rw [HostView.enable]
    split <;> rfl
  by_contra hdata
  apply h
  rw [HostView.request]
  split_ifs with hin htype hlen hdev h5
  all_goals first | exact hnone | exact (henable _).trans hnone | skip
  exact absurd ⟨hin, not_not.mp hlen⟩ hdata

theorem callback_of_data (hw : Hw) (h : u.req.isIn ∨ u.req.wLength ≠ 0) :
    (udcProcessSetup hw u).2.callback ≠ some .validAddress := by
  intro hcall
  have hpending : (hostView (udcProcessSetup hw u).2).pending ≠ none := by
    simp [hostView, hcall]
  rw [hostView_udcProcessSetup] at hpending
  obtain ⟨hout, hlen⟩ := request_pending rfl hpending
  rcases h with hin | hdata
  · exact hout hin
  · exact hdata hlen

theorem hostView_inSent (u : Usb) : hostView (ctrlInSent u).1 = hostView u := by
  simp only [ctrlInSent]
  split_ifs <;> rfl

theorem inSent_keeps (u : Usb) : (ctrlInSent u).1.callback = u.callback ∧
    ((ctrlInSent u).1.epControlState = u.epControlState ∨
      (ctrlInSent u).1.epControlState = .handshakeWaitOutZlp) := by
  simp only [ctrlInSent]
  split_ifs
  · exact ⟨rfl, .inr rfl⟩
  · exact ⟨rfl, .inl rfl⟩
  · exact ⟨rfl, .inl rfl⟩

theorem outReceived_keeps (packet : List Byte) (h : u.epControlState = .dataOut) :
    hostView (ctrlOutReceived packet u).1 = hostView u ∧
      (ctrlOutReceived packet u).1.callback = u.callback ∧
      (ctrlOutReceived packet u).1.epControlState ≠ .setup := by
  have hcopy : hostView (copyPayload packet u).1 = hostView u ∧
      (copyPayload packet u).1.callback = u.callback ∧
      (copyPayload packet u).1.epControlState = .dataOut := by
    simp only [copyPayload]
    split <;> exact ⟨rfl, rfl, h⟩
  simp only [ctrlOutReceived]
  split_ifs
  · exact ⟨hcopy.1, hcopy.2.1, by simp [ctrlSendZlpIn]⟩
  · exact ⟨hcopy.1, hcopy.2.1, by simp⟩
  · exact ⟨hcopy.1, hcopy.2.1, by simp [hcopy.2.2]⟩

theorem commit_of_callback (h : u.callback ≠ some .validAddress) :
    (hostView u).commit = hostView u := by
  simp [HostView.commit, hostView, h]

theorem addressInv_of_callback (h : u.callback ≠ some .validAddress) : AddressInv u := fun _ => h

theorem addressInv_init : AddressInv Usb.init := fun h => absurd h (by decide)

theorem addressInv_idle (hin : u.epControlState ≠ .dataIn) (hout : u.epControlState ≠ .dataOut) :
    AddressInv u := by
  rintro (h | h)
  · exact absurd h hin
  · exact absurd h hout

/-- After a SETUP packet, accepted or not, the view is the one of the variables that
`udc_process_setup` leaves. -/
theorem absView_dispatchSetup (hw : Hw) (u : Usb) :
    absView (dispatchSetup hw u).1 = hostView (udcProcessSetup hw u).2 ∧
      AddressInv (dispatchSetup hw u).1 := by
  have hkeep := keepsReq_udcProcessSetup hw u
  simp only [dispatchSetup, answerSetup]
  split_ifs with hok hin hlen
  · exact ⟨absView_of_ne (by simp [ctrlStallData]),
      addressInv_idle (by simp [ctrlStallData]) (by simp [ctrlStallData])⟩
  · obtain ⟨hcall, hstate⟩ := inSent_keeps (startData .dataIn (udcProcessSetup hw u).2)
    have hdata := callback_of_data hw (u := u) (.inl (hkeep ▸ hin))
    constructor
    · rw [absView_of_ne]
      · exact hostView_inSent _
      · rcases hstate with h | h
        · rw [h]
          simp [startData]
        · rw [h]
          decide
    · exact addressInv_of_callback (hcall ▸ hdata)
  · exact ⟨absView_of_ne (by simp [ctrlSendZlpIn]),
      addressInv_idle (by simp [ctrlSendZlpIn]) (by simp [ctrlSendZlpIn])⟩
  · have hdata := callback_of_data hw (u := u) (.inr (hkeep ▸ hlen))
    exact ⟨absView_of_ne (by simp [startData]), addressInv_of_callback hdata⟩

/-- A step of the stack is a step of the device that the host sees. -/
theorem absView_usbStep {e : UsbEvent} (hinv : AddressInv u) (h : Orderly u e) :
    absView (usbStep u e).1 = (absView u).next e ∧ AddressInv (usbStep u e).1 := by
  cases e with
  | setup hw packet =>
      obtain ⟨hview, hinv'⟩ := absView_dispatchSetup hw
        { beginSetup u with req := fetchRam packet }
      rw [usbStep_setup h]
      refine ⟨?_, hinv'⟩
      rw [hview, hostView_udcProcessSetup, HostView.next, ← hostView_beginSetup]
      rfl
  | transferOk packet =>
      have hne : u.epControlState ≠ .setup := h
      simp only [usbStep, ep0OnTransferOk]
      cases hs : u.epControlState with
      | setup => exact absurd hs hne
      | dataIn =>
          have hcall := hinv (.inl hs)
          obtain ⟨hkeep, hstate⟩ := inSent_keeps u
          refine ⟨?_, addressInv_of_callback (hkeep ▸ hcall)⟩
          rw [absView_of_ne hne, HostView.next, commit_of_callback hcall, absView_of_ne]
          · exact hostView_inSent u
          · rcases hstate with h' | h' <;> rw [h']
            · exact hne
            · decide
      | dataOut =>
          have hcall := hinv (.inr hs)
          obtain ⟨hview, hkeep, hstate⟩ := outReceived_keeps packet hs
          refine ⟨?_, addressInv_of_callback (hkeep ▸ hcall)⟩
          rw [absView_of_ne hne, HostView.next, commit_of_callback hcall, absView_of_ne hstate]
          exact hview
      | _ =>
          refine ⟨?_, addressInv_idle (by simp) (by simp)⟩
          rw [absView_of_setup rfl, absView_of_ne hne]
          exact hostView_runCallback u
  | transferFail dirIn =>
      cases dirIn with
      | true =>
          simp only [usbStep, ctrlUnderflow, if_true]
          cases hs : u.epControlState with
          | dataOut =>
              refine ⟨?_, addressInv_idle (by simp [ctrlSendZlpIn]) (by simp [ctrlSendZlpIn])⟩
              rw [absView_of_ne (by simp [ctrlSendZlpIn]), absView_of_ne (by simp [hs])]
              rfl
          | _ => exact ⟨rfl, hinv⟩
      | false =>
          simp only [usbStep, ctrlOverflow]
          cases hs : u.epControlState with
          | dataIn =>
              refine ⟨?_, addressInv_idle (by simp) (by simp)⟩
              rw [absView_of_ne (by simp), absView_of_ne (by simp [hs])]
              rfl
          | _ => exact ⟨rfl, hinv⟩
  | busReset =>
      refine ⟨?_, addressInv_idle (by simp [usbStep, onBusReset]) (by simp [usbStep, onBusReset])⟩
      rw [absView_of_setup (by simp [usbStep, onBusReset]), absView]
      split <;> rfl

end Refinement

theorem simulates_hostView : Simulates usbStep HostView.step Orderly
    fun u v => absView u = v ∧ AddressInv u := by
  rintro u _ e ⟨rfl, hinv⟩ h
  exact absView_usbStep hinv h

/-- The host gives the address 5, selects the configuration and sets the idle rate. -/
def configuredRun : List UsbEvent :=
  [.setup ⟨true, true⟩ [0x00, 0x05, 0x05, 0x00, 0x00, 0x00, 0x00, 0x00], .transferOk [],
    .setup ⟨true, true⟩ [0x00, 0x09, 0x01, 0x00, 0x00, 0x00, 0x00, 0x00], .transferOk [],
    .setup ⟨true, true⟩ [0x21, 0x0a, 0x00, 0x7d, 0x00, 0x00, 0x00, 0x00], .transferOk []]

/-- A refused `SET_CONFIGURATION` after a bus reset brings the idle rate back. -/
example : (finish HostView.step HostView.init (configuredRun ++
    [.busReset, .setup ⟨true, true⟩ [0x00, 0x05, 0x05, 0x00, 0x00, 0x00, 0x00, 0x00],
      .transferOk [], .setup ⟨false, true⟩ [0x00, 0x09, 0x01, 0x00, 0x00, 0x00, 0x00, 0x00]])) =
    ⟨5, none, 1, 0x7d, 0⟩ := by
  decide

/-! ## Reading a setting back -/

/-- The memory behind the payload pointers, with the settings as they are in `u`. -/
def settingsMem (rest : Payload → List Byte) (u : Usb) : Payload → List Byte
  | .numConfiguration => [u.numConfiguration]
  | .rate => [u.rate]
  | .protocol => [u.protocol]
  | p => rest p

/-- The requests that read a setting back: `GET_CONFIGURATION`, `GET_IDLE` and
`GET_PROTOCOL`, with the setting that `HostView` holds. -/
inductive ReadsBack (v : HostView) (req : SetupReq) : Payload → Byte → Prop
  | configuration (hin : req.isIn) (htype : req.type = typeStandard)
      (hdev : req.recipient = recipDevice) (hreq : req.bRequest = 8) (hlen : req.wLength = 1) :
      ReadsBack v req .numConfiguration v.configuration
  | idle (hin : req.isIn) (htype : req.type = typeClass) (hreach : ReachesHid v.configuration req)
      (hreq : req.bRequest = 0x02) (hlen : req.wLength ≠ 0) : ReadsBack v req .rate v.rate
  | protocol (hin : req.isIn) (htype : req.type = typeClass)
      (hreach : ReachesHid v.configuration req) (hreq : req.bRequest = 0x03)
      (hlen : req.wLength ≠ 0) : ReadsBack v req .protocol v.protocol

section ReadsBack

variable {u : Usb} {v : HostView} {p : Payload} {b : Byte}

/-- The two requests for a setting of the HID interface. -/
theorem processSetup_reads {n : Byte} (hw : Hw) (hin : u.req.isIn) (htype : u.req.type = typeClass)
    (hreach : ReachesHid u.numConfiguration u.req) (hlen : u.req.wLength ≠ 0)
    (hreq : u.req.bRequest = n) (hn : n = 0x02 ∨ n = 0x03) :
    udcProcessSetup hw u = reply (if n = 0x02 then .rate else .protocol) 1 (prepare u) := by
  have hne : ¬(prepare u).req.type = typeStandard := by
    change ¬u.req.type = typeStandard
    rw [htype]
    decide
  have hhid : udiHidSetup (prepare u) =
      reply (if n = 0x02 then .rate else .protocol) 1 (prepare u) := by
    have hstd : ¬((prepare u).req.type = typeStandard ∧ (prepare u).req.bRequest = 6) :=
      fun h => hne h.1
    rw [udiHidSetup, if_pos (show (prepare u).req.isIn from hin), if_neg hstd,
      if_pos (show (prepare u).req.type = typeClass from htype),
      show (prepare u).req.bRequest = n from hreq]
    rcases hn with rfl | rfl <;> rfl
  rw [udcProcessSetup_eq (fun h => hlen h.2) (if_neg hne), if_pos hreach,
    Handler.orElse_eq_left (by rw [hhid]; rfl), hhid]

/-- A request for a setting is answered with the variable that holds it. -/
theorem processSetup_readsBack (hw : Hw) (hview : u.numConfiguration = v.configuration)
    (h : ReadsBack v u.req p b) : udcProcessSetup hw u = reply p 1 (prepare u) := by
  cases h with
  | configuration hin htype hdev hreq hlen =>
      have hnot : ¬(u.req.isIn ∧ u.req.wLength = 0) := by
        rw [hlen]
        exact fun h => absurd h.2 (by decide)
      have hget : udcReqstd hw (prepare u) = reply .numConfiguration 1 (prepare u) := by
        have hne : ¬(prepare u).req.wLength = 0 := fun h => hnot ⟨hin, h⟩
        rw [udcReqstd, if_pos (show (prepare u).req.isIn from hin), if_neg hne,
          if_pos (show (prepare u).req.recipient = recipDevice from hdev),
          show (prepare u).req.bRequest = 8 from hreq]
        exact if_neg (not_not.mpr hlen)
      have hwhen : Handler.when (fun u => u.req.type = typeStandard) (udcReqstd hw) (prepare u) =
          reply .numConfiguration 1 (prepare u) := (if_pos htype).trans hget
      rw [udcProcessSetup_of_standard hnot (by rw [hwhen]; rfl), hwhen]
  | idle hin htype hreach hreq hlen =>
      exact processSetup_reads hw hin htype (hview ▸ hreach) hlen hreq (.inl rfl)
  | protocol hin htype hreach hreq hlen =>
      exact processSetup_reads hw hin htype (hview ▸ hreach) hlen hreq (.inr rfl)

theorem settingsMem_of_readsBack (rest : Payload → List Byte) {req : SetupReq}
    (hview : absView u = v) (h : ReadsBack v req p b) : settingsMem rest u p = [b] := by
  subst hview
  have hconf : (absView u).configuration = u.numConfiguration := by
    rw [absView]
    split <;> rfl
  have hrate : (absView u).rate = u.rate := by
    rw [absView]
    split <;> rfl
  have hprotocol : (absView u).protocol = u.protocol := by
    rw [absView]
    split <;> rfl
  cases h with
  | configuration => rw [hconf, settingsMem]
  | idle => rw [hrate, settingsMem]
  | protocol => rw [hprotocol, settingsMem]

end ReadsBack

end TempHumid.Th2
