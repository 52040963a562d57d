import TempHumid.Th2.Setup

/-!
# What the request handlers change

`Updates` lists the updates that the handlers of a SETUP request make. A property
of the variables that each of them keeps is kept by `udc_process_setup`, so it is
checked once for each update and not once for each handler. No handler changes
the request, and only the two requests for the halt of an endpoint call the
endpoint driver.
-/

namespace TempHumid.Th2

/-- The size of the object behind a payload pointer. -/
def Payload.room : Payload → ℕ
  | .null => 0
  | .usbVal i => 8 - 4 * i
  | .rate | .protocol | .numConfiguration | .ifaceSetting => 1
  | .deviceStatus | .epStatus => 2
  | .reportFeature | .languageId => 4
  | .stringDesc => 76
  | .deviceDesc => 18
  | .confDesc => 41
  | .hidDesc => 9
  | .reportDesc => 53

/-- `GET_DESCRIPTOR` without its last step. -/
def findDescriptor : Handler := fun u =>
  if u.req.valueHigh = 1 then reply .deviceDesc 18 u
  else if u.req.valueHigh = 2 then
    if 1 ≤ u.req.valueLow then unsupported u else reply .confDesc 41 u
  else if u.req.valueHigh = 3 then udcReqStdDevGetStrDesc u
  else unsupported u

/-- The last step of `GET_DESCRIPTOR`: a reply found is cut to `wLength`. -/
def cutReply (wLength : Half) (r : Bool × Usb) : Bool × Usb :=
  if r.1 then (true, { r.2 with payloadSize := minSize wLength r.2.payloadSize }) else r

theorem getDescriptor_eq (u : Usb) :
    udcReqStdDevGetDescriptor u = cutReply u.req.wLength (findDescriptor u) := rfl

/-- The state in which the handlers of a request start. -/
def prepare (u : Usb) : Usb := { u with payloadSize := 0, callback := none, epCalls := [] }

/-! ## What the handlers may change -/

/-- `SET_FEATURE` or `CLEAR_FEATURE` for the halt of an endpoint. -/
structure IsEpHalt (req : SetupReq) : Prop where
  isOut : ¬req.isIn
  type : req.type = typeStandard
  recipient : req.recipient = recipEndpoint
  bRequest : req.bRequest = 1 ∨ req.bRequest = 3
  wLength : req.wLength = 0
  wValue : req.wValue = 0

/-- The calls that such a request makes. -/
def haltCalls (req : SetupReq) : List EpCall :=
  if req.bRequest = 3 then [.abort req.indexLow, .setHalt req.indexLow]
  else [.clearHalt req.indexLow]

/-- A preorder on the variables that holds across every update of a handler. An
IN request installs no address and changes no setting. -/
structure Updates (R : Usb → Usb → Prop) : Prop where
  refl : ∀ u, R u u
  trans : ∀ u v w, R u v → R v w → R u w
  payload : ∀ u p size, size.toNat ≤ p.room → R u { u with payload := p, payloadSize := size }
  cut : ∀ u (size : Half), size ≤ u.payloadSize → R u { u with payloadSize := size }
  setfeature : ∀ u, R u { u with callback := some .setfeatureValid }
  validAddress : ∀ u, ¬u.req.isIn → R u { u with callback := some .validAddress }
  endpoint : ∀ u, IsEpHalt u.req → R u (u.call (haltCalls u.req))
  numConfiguration : ∀ u n, ¬u.req.isIn → R u { u with numConfiguration := n }
  rate : ∀ u r, ¬u.req.isIn → R u { u with rate := r }
  protocol : ∀ u p, ¬u.req.isIn → R u { u with protocol := p }

/-- A handler relates the variables that it finds to those that it leaves. -/
def Follows (R : Usb → Usb → Prop) (h : Handler) : Prop := ∀ u, R u (h u).2

section Follows

variable {R : Usb → Usb → Prop} {f g : Handler}

theorem Updates.unsupported (hR : Updates R) : Follows R unsupported := hR.refl

theorem Updates.reply (hR : Updates R) {p : Payload} {size : Half} (h : size.toNat ≤ p.room) :
    Follows R (reply p size) :=
  fun u => hR.payload u p size h

theorem Follows.ite {cond : Usb → Prop} [DecidablePred cond] (hf : Follows R f)
    (hg : Follows R g) : Follows R fun u => if cond u then f u else g u := by
  intro u
  by_cases h : cond u
  · simpa only [if_pos h] using hf u
  · simpa only [if_neg h] using hg u

theorem Follows.orElse (hR : Updates R) (hf : Follows R f) (hg : Follows R g) :
    Follows R (f.orElse g) := by
  intro u
  rw [Handler.orElse]
  split
  · exact hf u
  · exact hR.trans _ _ _ (hf u) (hg _)

theorem Follows.when (hR : Updates R) {p : Usb → Prop} [DecidablePred p]
    (hf : ∀ u, p u → R u (f u).2) : Follows R (Handler.when p f) := by
  intro u
  rw [Handler.when]
  split
  · next h => exact hf u h
  · exact hR.refl u

theorem follows_parseUsbRequest (hR : Updates R) : Follows R parseUsbRequest := by
  intro u
  rw [parseUsbRequest]
  split_ifs
  · exact hR.reply (by decide) u
  · exact hR.reply (by decide) u
  · exact hR.reply (by decide) u
  · exact hR.refl u

theorem follows_setreport (hR : Updates R) : Follows R udiHidGenericSetreport := by
  have hfeature : Follows R udiHidGenericSetreportFeature := by
    intro u
    rw [udiHidGenericSetreportFeature]
    split
    · exact hR.trans _ _ _ (hR.setfeature u) (hR.reply (by decide) _)
    · exact hR.refl u
  intro u
  rw [udiHidGenericSetreport]
  split
  · exact (follows_parseUsbRequest hR).orElse hR hfeature u
  · exact hfeature u

theorem minSize_le_right (a b : Half) : minSize a b ≤ b := by
  rw [minSize]
  split
  · next h => exact BitVec.le_of_lt h
  · exact BitVec.le_refl b

theorem follows_hidDescriptor (hR : Updates R) : Follows R udiHidReqstdifacegetDescriptor := by
  intro u
  rw [udiHidReqstdifacegetDescriptor]
  split_ifs
  · exact hR.reply (BitVec.le_def.mp (minSize_le_right _ 9)) u
  · exact hR.reply (BitVec.le_def.mp (minSize_le_right _ 53)) u
  · exact hR.refl u

theorem follows_udiHidSetup (hR : Updates R) : Follows R udiHidSetup := by
  intro u
  rw [udiHidSetup]
  by_cases hin : u.req.isIn
  · rw [if_pos hin]
    split_ifs
    · exact follows_hidDescriptor hR u
    · exact follows_setreport hR u
    · exact hR.reply (by decide) u
    · exact hR.reply (by decide) u
    · exact hR.refl u
    · exact hR.refl u
  · rw [if_neg hin]
    split_ifs
    · exact follows_setreport hR u
    · exact hR.rate u _ hin
    · exact hR.refl u
    · exact hR.protocol u _ hin
    · exact hR.refl u
    · exact hR.refl u

theorem follows_udcIfaceEnable (hR : Updates R) (hw : Hw) (iface setting : Byte) {u : Usb}
    (hout : ¬u.req.isIn) : R u (udcIfaceEnable hw iface setting u).2 := by
  rw [udcIfaceEnable]
  split
  · exact hR.trans _ _ _ (hR.rate u 0 hout) (hR.protocol _ 0 hout)
  · exact hR.refl u

theorem follows_findDescriptor (hR : Updates R) : Follows R findDescriptor := by
  have hstr : Follows R udcReqStdDevGetStrDesc :=
    (hR.reply (by decide)).ite ((hR.reply (by decide)).ite hR.unsupported)
  exact (hR.reply (by decide)).ite ((hR.unsupported.ite (hR.reply (by decide))).ite
    (hstr.ite hR.unsupported))

theorem follows_getDescriptor (hR : Updates R) : Follows R udcReqStdDevGetDescriptor := by
  intro u
  have h := follows_findDescriptor hR u
  rw [getDescriptor_eq, cutReply]
  split
  · exact hR.trans _ _ _ h (hR.cut _ _ (minSize_le_right _ _))
  · exact h

theorem follows_setConfiguration (hR : Updates R) (hw : Hw) {u : Usb} (hout : ¬u.req.isIn) :
    R u (udcReqStdDevSetConfiguration hw u).2 := by
  have hconf := hR.numConfiguration u u.req.valueLow hout
  simp only [udcReqStdDevSetConfiguration, udcReset]
  split_ifs
  · exact hR.refl u
  · exact hR.refl u
  · exact hR.refl u
  · exact hconf
  · exact hR.trans _ _ _ hconf (follows_udcIfaceEnable hR hw 0 0 hout)

theorem follows_setSetting (hR : Updates R) (hw : Hw) {u : Usb} (hout : ¬u.req.isIn) :
    R u (udcReqStdIfaceSetSetting hw u).2 := by
  rw [udcReqStdIfaceSetSetting]
  split_ifs
  · exact hR.refl u
  · exact hR.refl u
  · exact follows_udcIfaceEnable hR hw _ _ hout
  · exact hR.refl u

/-- The two requests for the halt of an endpoint. -/
theorem follows_epHalt (hR : Updates R) {u : Usb} (hout : ¬u.req.isIn)
    (htype : u.req.type = typeStandard) (hrecip : u.req.recipient = recipEndpoint) :
    (u.req.bRequest = 1 → R u (udcReqStdEpClearFeature u).2) ∧
      (u.req.bRequest = 3 → R u (udcReqStdEpSetFeature u).2) := by
  constructor
  · intro hreq
    rw [udcReqStdEpClearFeature]
    split_ifs with hlen hvalue
    · exact hR.refl u
    · have hcalls : haltCalls u.req = [.clearHalt u.req.indexLow] :=
        if_neg (by rw [hreq]; decide)
      rw [← hcalls]
      exact hR.endpoint u ⟨hout, htype, hrecip, .inl hreq, not_not.mp hlen, hvalue⟩
    · exact hR.refl u
  · intro hreq
    rw [udcReqStdEpSetFeature]
    split_ifs with hlen hvalue
    · exact hR.refl u
    · have hcalls : haltCalls u.req = [.abort u.req.indexLow, .setHalt u.req.indexLow] :=
        if_pos hreq
      rw [← hcalls]
      exact hR.endpoint u ⟨hout, htype, hrecip, .inr hreq, not_not.mp hlen, hvalue⟩
    · exact hR.refl u

theorem follows_udcReqstd (hR : Updates R) (hw : Hw) {u : Usb}
    (htype : u.req.type = typeStandard) : R u (udcReqstd hw u).2 := by
  have hexact : ∀ {p : Payload} {size : Half}, size.toNat ≤ p.room → Follows R fun u =>
      if u.req.wLength ≠ size then Th2.unsupported u else Th2.reply p size u :=
    fun h => hR.unsupported.ite (hR.reply h)
  have hsetting : Follows R udcReqStdIfaceGetSetting :=
    hR.unsupported.ite (hR.unsupported.ite ((hR.reply (by decide)).ite hR.unsupported))
  have hclear : Follows R udcReqStdDevClearFeature := hR.unsupported.ite hR.refl
  rw [udcReqstd]
  by_cases hin : u.req.isIn
  · rw [if_pos hin]
    split_ifs
    · exact hR.refl u
    · exact hexact (by decide) u
    · exact follows_getDescriptor hR u
    · exact hexact (by decide) u
    · exact hR.refl u
    · exact hsetting u
    · exact hexact (by decide) u
    · exact hR.refl u
  · rw [if_neg hin]
    split_ifs with _ _ _ _ _ _ hepClear hepSet
    · rw [udcReqStdDevSetAddress]
      split
      · exact hR.refl u
      · exact hR.validAddress u hin
    · exact hclear u
    · exact hR.refl u
    · exact follows_setConfiguration hR hw hin
    · exact hR.refl u
    · exact follows_setSetting hR hw hin
    · exact (follows_epHalt hR hin htype hepClear.1).1 hepClear.2
    · exact (follows_epHalt hR hin htype hepSet.1).2 hepSet.2
    · exact hR.refl u

theorem follows_udcReqIface (hR : Updates R) : Follows R udcReqIface :=
  (follows_udiHidSetup hR).ite hR.unsupported

theorem follows_udcReqEp (hR : Updates R) : Follows R udcReqEp :=
  (follows_udiHidSetup hR).ite hR.unsupported

/-- `udc_process_setup` keeps what every update of its handlers keeps. -/
theorem follows_udcProcessSetup (hR : Updates R) (hw : Hw) (u : Usb) :
    R (prepare u) (udcProcessSetup hw u).2 := by
  have hiface := follows_udcReqIface hR
  have hep := follows_udcReqEp hR
  simp only [udcProcessSetup]
  split
  · exact hR.refl _
  · exact (Follows.when hR fun _ h => follows_udcReqstd hR hw h).orElse hR
      ((Follows.when hR fun u _ => hiface u).orElse hR
        ((Follows.when hR fun u _ => hep u).orElse hR (follows_parseUsbRequest hR))) _

end Follows

/-! ## No handler changes the request -/

def KeepsReq (h : Handler) : Prop := ∀ u, (h u).2.req = u.req

section KeepsReq

theorem updates_req : Updates fun u v => v.req = u.req where
  refl _ := rfl
  trans _ _ _ huv hvw := hvw.trans huv
  payload _ _ _ _ := rfl
  cut _ _ _ := rfl
  setfeature _ := rfl
  validAddress _ _ := rfl
  endpoint _ _ := rfl
  numConfiguration _ _ _ := rfl
  rate _ _ _ := rfl
  protocol _ _ _ := rfl

theorem keepsReq_parseUsbRequest : KeepsReq parseUsbRequest := follows_parseUsbRequest updates_req

theorem keepsReq_udiHidSetup : KeepsReq udiHidSetup := follows_udiHidSetup updates_req

/-- The first of the four routes of a request. -/
theorem keepsReq_standard (hw : Hw) :
    KeepsReq (Handler.when (fun u => u.req.type = typeStandard) (udcReqstd hw)) :=
  Follows.when updates_req fun _ h => follows_udcReqstd updates_req hw h

theorem keepsReq_iface :
    KeepsReq (Handler.when (fun u => u.req.recipient = recipInterface) udcReqIface) :=
  Follows.when updates_req fun u _ => follows_udcReqIface updates_req u

theorem keepsReq_ep :
    KeepsReq (Handler.when (fun u => u.req.recipient = recipEndpoint) udcReqEp) :=
  Follows.when updates_req fun u _ => follows_udcReqEp updates_req u

theorem keepsReq_udcProcessSetup (hw : Hw) : KeepsReq (udcProcessSetup hw) :=
  follows_udcProcessSetup updates_req hw

end KeepsReq

/-! ## The calls of the endpoint driver -/

section Calls

variable {u : Usb}

/-- Calls are only added, and only by a request for the halt of an endpoint. -/
theorem updates_epCalls : Updates fun u v => v.req = u.req ∧
    ∃ calls, v.epCalls = u.epCalls ++ calls ∧
      ∀ c ∈ calls, IsEpHalt u.req ∧ c ∈ haltCalls u.req where
  refl _ := ⟨rfl, [], (List.append_nil _).symm, by simp⟩
  trans _ _ _ huv hvw := by
    obtain ⟨hreq, xs, hxs, hall⟩ := huv
    obtain ⟨hreq', ys, hys, hall'⟩ := hvw
    rw [hreq] at hall'
    refine ⟨hreq'.trans hreq, xs ++ ys, ?_, List.forall_mem_append.mpr ⟨hall, hall'⟩⟩
    rw [hys, hxs, List.append_assoc]
  payload _ _ _ _ := ⟨rfl, [], (List.append_nil _).symm, by simp⟩
  cut _ _ _ := ⟨rfl, [], (List.append_nil _).symm, by simp⟩
  setfeature _ := ⟨rfl, [], (List.append_nil _).symm, by simp⟩
  validAddress _ _ := ⟨rfl, [], (List.append_nil _).symm, by simp⟩
  endpoint u h := ⟨rfl, haltCalls u.req, rfl, fun _ hc => ⟨h, hc⟩⟩
  numConfiguration _ _ _ := ⟨rfl, [], (List.append_nil _).symm, by simp⟩
  rate _ _ _ := ⟨rfl, [], (List.append_nil _).symm, by simp⟩
  protocol _ _ _ := ⟨rfl, [], (List.append_nil _).symm, by simp⟩

theorem mem_epCalls (hw : Hw) {c : EpCall} (h : c ∈ (udcProcessSetup hw u).2.epCalls) :
    IsEpHalt u.req ∧ c ∈ haltCalls u.req := by
  obtain ⟨-, calls, hcalls, hall⟩ := follows_udcProcessSetup updates_epCalls hw u
  rw [hcalls] at h
  exact hall c h

/-- Another request makes no calls. -/
theorem epCalls_of_not (hw : Hw) (h : ¬IsEpHalt u.req) :
    (udcProcessSetup hw u).2.epCalls = [] :=
  List.eq_nil_iff_forall_not_mem.mpr fun _ hc => h (mem_epCalls hw hc).1

/-- `udc_reqstd` makes the calls of such a request, also when it fails. -/
theorem udcReqstd_epHalt (hw : Hw) (h : IsEpHalt u.req) :
    udcReqstd hw u = (epExists u.req.indexLow, u.call (haltCalls u.req)) := by
  have hdev : recipEndpoint ≠ recipDevice := by decide
  have hiface : recipEndpoint ≠ recipInterface := by decide
  rw [udcReqstd, if_neg h.isOut]
  simp only [h.recipient, hdev, hiface, false_and, true_and, if_false]
  rcases h.bRequest with hreq | hreq
  · simp [hreq, udcReqStdEpClearFeature, h.wLength, h.wValue, haltCalls]
  · simp [hreq, udcReqStdEpSetFeature, h.wLength, h.wValue, haltCalls]

/-- The calls that the first handler makes are made, whoever is tried after it. -/
theorem mem_epCalls_orElse {f g : Handler} {c : EpCall}
    (hg : Follows (fun u v => u.epCalls <+: v.epCalls) g) (hc : c ∈ (f u).2.epCalls) :
    c ∈ (f.orElse g u).2.epCalls := by
  rw [Handler.orElse]
  split
  · exact hc
  · exact (hg _).subset hc

theorem updates_prefix : Updates fun u v => u.epCalls <+: v.epCalls where
  refl _ := List.prefix_refl _
  trans _ _ _ huv hvw := huv.trans hvw
  payload _ _ _ _ := List.prefix_refl _
  cut _ _ _ := List.prefix_refl _
  setfeature _ := List.prefix_refl _
  validAddress _ _ := List.prefix_refl _
  endpoint u _ := List.prefix_append u.epCalls _
  numConfiguration _ _ _ := List.prefix_refl _
  rate _ _ _ := List.prefix_refl _
  protocol _ _ _ := List.prefix_refl _

theorem mem_epCalls_iff (hw : Hw) {c : EpCall} :
    c ∈ (udcProcessSetup hw u).2.epCalls ↔ IsEpHalt u.req ∧ c ∈ haltCalls u.req := by
  refine ⟨mem_epCalls hw, fun ⟨h, hc⟩ => ?_⟩
  have hin : ¬(u.req.isIn ∧ u.req.wLength = 0) := fun hc => h.isOut hc.1
  have hrest := (Follows.when updates_prefix (p := fun u => u.req.recipient = recipInterface)
    fun u _ => follows_udcReqIface updates_prefix u).orElse updates_prefix
      ((Follows.when updates_prefix (p := fun u => u.req.recipient = recipEndpoint)
        fun u _ => follows_udcReqEp updates_prefix u).orElse updates_prefix
          (follows_parseUsbRequest updates_prefix))
  have hstd : Handler.when (fun u => u.req.type = typeStandard) (udcReqstd hw) (prepare u) =
      (epExists u.req.indexLow, (prepare u).call (haltCalls u.req)) :=
    (if_pos h.type).trans (udcReqstd_epHalt (u := prepare u) hw h)
  simp only [udcProcessSetup, if_neg hin]
  apply mem_epCalls_orElse hrest
  change c ∈ (Handler.when _ (udcReqstd hw) (prepare u)).2.epCalls
  rw [hstd]
  exact hc

end Calls

end TempHumid.Th2
