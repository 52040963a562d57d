import TempHumid.Library.Packets
import TempHumid.Library.Simulation
import TempHumid.Th2.PayloadBounds
import TempHumid.Th2.ReplyLength

/-!
# Whole IN transfers of the th2 control endpoint

A host reads IN packets until one is shorter than eight bytes or it has as many
bytes as it asked for. Then it sends the empty packet of the status stage. The
device counts on its own side; both ends must stop at the same packet.

## Implementation notes

`b_shortpacket` is a `static` variable that no request resets. An accepted IN
request has a payload that is not empty, so the flag is written before it is
read, and its old value has no influence on any run.
-/

namespace TempHumid.Th2

open Machine Packets

/-! ## Accepted IN requests have data -/

/-- An IN request that the handler accepts leaves a payload that is not empty. -/
def Supplies (h : Handler) : Prop :=
  ∀ u, u.req.isIn → u.req.wLength ≠ 0 → (h u).1 = true → 0 < (h u).2.payloadSize.toNat

section Supplies

variable {f g : Handler}

theorem supplies_unsupported : Supplies unsupported := fun _ _ _ h => absurd h Bool.false_ne_true

theorem supplies_reply {p : Payload} {size : Half} (h : 0 < size.toNat) :
    Supplies (reply p size) :=
  fun _ _ _ _ => h

theorem Supplies.ite {cond : Usb → Prop} [DecidablePred cond] (hf : Supplies f)
    (hg : Supplies g) : Supplies fun u => if cond u then f u else g u := by
  intro u
  by_cases h : cond u
  · simpa only [if_pos h] using hf u
  · simpa only [if_neg h] using hg u

theorem Supplies.orElse (hkeep : KeepsReq f) (hf : Supplies f) (hg : Supplies g) :
    Supplies (f.orElse g) := by
  intro u hin hlen
  rw [Handler.orElse]
  split
  · exact hf u hin hlen
  · apply hg
    · rwa [hkeep u]
    · rwa [hkeep u]

theorem Supplies.when {cond : Usb → Prop} [DecidablePred cond] (hf : Supplies f) :
    Supplies (Handler.when cond f) :=
  hf.ite supplies_unsupported

/-- A part of `wLength` bytes of something is not empty. -/
theorem minSize_pos {a b : Half} (ha : a ≠ 0) (hb : 0 < b.toNat) : 0 < (minSize a b).toNat := by
  rw [minSize]
  split
  · exact BitVec.toNat_pos_of_ne_zero ha
  · exact hb

theorem supplies_parseUsbRequest : Supplies parseUsbRequest :=
  ((supplies_reply (by decide)).ite ((supplies_reply (by decide)).ite
    (supplies_reply (by decide)))).ite supplies_unsupported

theorem supplies_setreport : Supplies udiHidGenericSetreport := by
  have hfeature : Supplies udiHidGenericSetreportFeature := by
    intro u _ _
    rw [udiHidGenericSetreportFeature]
    split
    · exact fun _ => by change 0 < 4; decide
    · exact fun h => absurd h Bool.false_ne_true
  exact (Supplies.orElse keepsReq_parseUsbRequest supplies_parseUsbRequest hfeature).ite hfeature

theorem supplies_hidDescriptor : Supplies udiHidReqstdifacegetDescriptor := by
  intro u _ hlen
  rw [udiHidReqstdifacegetDescriptor]
  split_ifs
  · exact fun _ => minSize_pos hlen (by decide)
  · exact fun _ => minSize_pos hlen (by decide)
  · exact fun h => absurd h Bool.false_ne_true

theorem supplies_udiHidSetup : Supplies udiHidSetup := by
  intro u hin hlen
  rw [udiHidSetup, if_pos hin]
  split_ifs
  · exact supplies_hidDescriptor u hin hlen
  · exact supplies_setreport u hin hlen
  · exact fun _ => by change 0 < 1; decide
  · exact fun _ => by change 0 < 1; decide
  · exact fun h => absurd h Bool.false_ne_true
  · exact fun h => absurd h Bool.false_ne_true

theorem supplies_getDescriptor : Supplies udcReqStdDevGetDescriptor := by
  have hstr : Supplies udcReqStdDevGetStrDesc :=
    (supplies_reply (by decide)).ite ((supplies_reply (by decide)).ite supplies_unsupported)
  have hfind : Supplies findDescriptor :=
    (supplies_reply (by decide)).ite ((supplies_unsupported.ite (supplies_reply (by decide))).ite
      (hstr.ite supplies_unsupported))
  intro u hin hlen
  have h := hfind u hin hlen
  rw [getDescriptor_eq, cutReply]
  split
  · next hok => exact fun _ => minSize_pos hlen (h hok)
  · exact h

theorem supplies_udcReqstd (hw : Hw) : Supplies (udcReqstd hw) := by
  have hexact : ∀ {p : Payload} {size : Half}, 0 < size.toNat → Supplies fun u =>
      if u.req.wLength ≠ size then unsupported u else reply p size u :=
    fun h => supplies_unsupported.ite (supplies_reply h)
  have hsetting : Supplies udcReqStdIfaceGetSetting :=
    supplies_unsupported.ite (supplies_unsupported.ite
      ((supplies_reply (by decide)).ite supplies_unsupported))
  intro u hin hlen
  rw [udcReqstd, if_pos hin]
  split_ifs
  · exact fun h => absurd h Bool.false_ne_true
  · exact hexact (by decide) u hin hlen
  · exact supplies_getDescriptor u hin hlen
  · exact hexact (by decide) u hin hlen
  · exact fun h => absurd h Bool.false_ne_true
  · exact hsetting u hin hlen
  · exact hexact (by decide) u hin hlen
  · exact fun h => absurd h Bool.false_ne_true

/-- An accepted IN request has at least one byte of data. -/
theorem supplies_udcProcessSetup (hw : Hw) {u : Usb} (hin : u.req.isIn)
    (hok : (udcProcessSetup hw u).1 = true) : 0 < (udcProcessSetup hw u).2.payloadSize.toNat := by
  have hiface : Supplies udcReqIface := supplies_udiHidSetup.ite supplies_unsupported
  have hep : Supplies udcReqEp := supplies_udiHidSetup.ite supplies_unsupported
  simp only [udcProcessSetup] at hok ⊢
  split at hok
  · exact absurd hok Bool.false_ne_true
  · next hlen =>
      rw [if_neg hlen]
      exact Supplies.orElse (keepsReq_standard hw) (supplies_udcReqstd hw).when
        (Supplies.orElse keepsReq_iface hiface.when
          (Supplies.orElse keepsReq_ep hep.when supplies_parseUsbRequest))
        (prepare u) hin (fun h => hlen ⟨hin, h⟩) hok

end Supplies

/-! ## The transfer seen from the host -/

/-- The data stage of a host: the packets that it has read when it stops, and the
device. `armed` holds the jobs of the device since the transaction before. -/
def hostData (mem : Payload → List Byte) (wLength : ℕ) :
    ℕ → List (List Byte) → List UsbAct → Usb → Option (List (List Byte) × Usb)
  | 0, _, _, _ => none
  | fuel + 1, got, armed, u =>
      let packet := armed.flatMap (sentBytes mem)
      let r := usbStep u (.transferOk [])
      if packet.length < 8 ∨ wLength ≤ (got ++ [packet]).flatten.length then
        some (got ++ [packet], r.1)
      else hostData mem wLength fuel (got ++ [packet]) r.2 r.1

/-- An IN transfer: the SETUP packet, the data stage and the status stage.
`none` is a stalled request. -/
def controlIn (mem : Payload → List Byte) (hw : Hw) (packet : List Byte) (u : Usb) :
    Option (List (List Byte) × Usb) :=
  let r := usbStep u (.setup hw packet)
  let wLength := (fetchRam packet).wLength.toNat
  if r.1.epControlState = .stallReq then none
  else (hostData mem wLength (wLength + 1) [] r.2 r.1).map fun d =>
    (d.1, (usbStep d.2 (.transferOk [])).1)

/-- The packets of a transfer of `data` to a host that asks for `wLength` bytes: an
empty one follows if the host could not tell the end otherwise. -/
def hostPackets (wLength : ℕ) (data : List Byte) : List (List Byte) :=
  cut 8 data ++ if 8 ∣ data.length ∧ data.length < wLength then [[]] else []

/-- The device has armed a packet of `k` bytes behind the `got` bytes that the
host has read. -/
structure Sending (mem : Payload → List Byte) (u : Usb) (armed : List UsbAct) (got k : ℕ) :
    Prop where
  state : u.epControlState = .dataIn
  packet : armed.flatMap (sentBytes mem) = ((mem u.payload).drop got).take k
  trans : u.ctrlPayloadNbTrans.toNat = got + k
  part : k = min 8 (u.payloadSize.toNat - got)
  got_le : got ≤ u.payloadSize.toNat
  aligned : 8 ∣ got
  flag : u.shortpacket = decide (k < 8)
  prev : k = 8 → u.ctrlPrevPayloadNbTrans = 0

section Sending

variable {mem : Payload → List Byte} {u : Usb} {armed : List UsbAct} {got k : ℕ}

theorem Sending.packet_length (h : Sending mem u armed got k)
    (hmem : u.payloadSize.toNat ≤ (mem u.payload).length) :
    (armed.flatMap (sentBytes mem)).length = k := by
  have hpart := h.part
  rw [h.packet, List.length_take, List.length_drop]
  omega

/-- The part of `udd_ctrl_in_sent` that arms the next packet. -/
theorem sending_inContinue (mem : Payload → List Byte) (remain : Half) (hstate : u.epControlState = .dataIn)
    (hremain : u.ctrlPayloadNbTrans.toNat + remain.toNat = u.payloadSize.toNat)
    (haligned : 8 ∣ u.ctrlPayloadNbTrans.toNat)
    (hprev : remain ≠ 0 → u.ctrlPrevPayloadNbTrans = 0) :
    Sending mem (ctrlInContinue remain u).1 (ctrlInContinue remain u).2
      u.ctrlPayloadNbTrans.toNat (min 8 remain.toNat) := by
  have hsize := u.payloadSize.isLt
  have hk : (if deviceEpCtrlSize ≤ remain then deviceEpCtrlSize else remain).toNat =
      min 8 remain.toNat := by
    split
    · next h => exact (Nat.min_eq_left (BitVec.le_def.mp h)).symm
    · next h =>
        rw [BitVec.le_def, not_le] at h
        exact (Nat.min_eq_right h.le).symm
  constructor
  · exact hstate
  · simp [ctrlInContinue, sentBytes, hk]
  · simp only [ctrlInContinue]
    rw [BitVec.toNat_add, hk, Nat.mod_eq_of_lt (by omega)]
  · change min 8 remain.toNat = min 8 (u.payloadSize.toNat - u.ctrlPayloadNbTrans.toNat)
    omega
  · change u.ctrlPayloadNbTrans.toNat ≤ u.payloadSize.toNat
    omega
  · exact haligned
  · have hiff : deviceEpCtrlSize ≤ remain ↔ 8 ≤ remain.toNat := BitVec.le_def
    simp only [ctrlInContinue, hiff, ← decide_not]
    congr 1
    apply propext
    omega
  · intro h8
    apply hprev
    rintro rfl
    change min 8 0 = 8 at h8
    omega

theorem Sending.remain (h : Sending mem u armed got k) :
    (u.payloadSize - u.ctrlPayloadNbTrans).toNat = u.payloadSize.toNat - (got + k) := by
  have hpart := h.part
  have hle := h.got_le
  have htrans := h.trans
  rw [BitVec.toNat_sub_of_le, htrans]
  rw [BitVec.le_def]
  omega

/-- Before the end of the payload the counter of earlier payloads is zero. -/
theorem Sending.total (h : Sending mem u armed got 8) :
    u.ctrlPrevPayloadNbTrans + u.ctrlPayloadNbTrans = u.ctrlPayloadNbTrans := by
  rw [h.prev rfl]
  exact BitVec.zero_add _

/-- After a full packet, with the host not yet satisfied, the next one is armed. -/
theorem Sending.next (h : Sending mem u armed got 8) (hmore : got + 8 < u.req.wLength.toNat) :
    Sending mem (ctrlInSent u).1 (ctrlInSent u).2 (got + 8)
      (min 8 (u.payloadSize.toNat - (got + 8))) := by
  have hremain := h.remain
  have htrans := h.trans
  have haligned : 8 ∣ u.ctrlPayloadNbTrans.toNat := by
    rw [htrans]
    exact (Nat.dvd_add_left (dvd_refl 8)).mpr h.aligned
  have hpart := h.part
  simp only [ctrlInSent]
  split_ifs with hzero hend
  · exfalso
    rcases hend with hlen | hshort
    · rw [h.total] at hlen
      rw [hlen, htrans] at hmore
      exact lt_irrefl _ hmore
    · exact Bool.false_ne_true (h.flag.symm.trans hshort)
  · rw [hzero] at hremain
    change 0 = _ at hremain
    rw [← hremain, ← htrans]
    exact sending_inContinue mem 0 (u := { u with ctrlPrevPayloadNbTrans :=
      u.ctrlPrevPayloadNbTrans + u.ctrlPayloadNbTrans }) h.state
      (by change u.ctrlPayloadNbTrans.toNat + 0 = u.payloadSize.toNat; omega) haligned
      (fun hne => absurd rfl hne)
  · rw [← hremain, ← htrans]
    exact sending_inContinue mem _ h.state (by omega) haligned fun _ => h.prev rfl

/-- The last packet that the host reads. The device stops with it after a short
packet, and after a full one that completes both the payload and the request. -/
theorem Sending.last (h : Sending mem u armed got k) (hmore : got < u.req.wLength.toNat)
    (hstop : k < 8 ∨ u.req.wLength.toNat ≤ got + k) :
    ((ctrlInSent u).1.epControlState = .handshakeWaitOutZlp ↔
        u.payloadSize.toNat ≤ u.req.wLength.toNat ∨ ¬8 ∣ got + k) ∧
      ((ctrlInSent u).1.epControlState = .handshakeWaitOutZlp ∨
        (ctrlInSent u).1.epControlState = .dataIn) := by
  have hremain := h.remain
  have htrans := h.trans
  have hpart := h.part
  have hgot := h.got_le
  have haligned := h.aligned
  have hflag := h.flag
  rcases Nat.lt_or_ge k 8 with hk | hk
  · have hzero : u.payloadSize - u.ctrlPayloadNbTrans = 0 := by
      apply BitVec.eq_of_toNat_eq
      rw [hremain]
      change u.payloadSize.toNat - (got + k) = 0
      omega
    have hend : (ctrlInSent u).1.epControlState = .handshakeWaitOutZlp := by
      rw [decide_eq_true hk] at hflag
      simp only [ctrlInSent, if_pos hzero, hflag, or_true, if_true]
    refine ⟨iff_of_true hend ?_, .inl hend⟩
    omega
  · have hk8 : k = 8 := by omega
    subst hk8
    have hdvd : 8 ∣ got + 8 := (Nat.dvd_add_left (dvd_refl 8)).mpr haligned
    have hwlen : u.req.wLength.toNat ≤ got + 8 := hstop.resolve_left (lt_irrefl 8)
    simp only [ctrlInSent]
    split_ifs with hzero hend
    · refine ⟨iff_of_true rfl (.inl ?_), .inl rfl⟩
      rcases hend with hlen | hshort
      · rw [h.total] at hlen
        rw [hzero] at hremain
        change 0 = _ at hremain
        rw [hlen, htrans]
        omega
      · exact absurd (hflag.symm.trans hshort) Bool.false_ne_true
    · have hstate : (ctrlInContinue 0 { u with ctrlPrevPayloadNbTrans :=
          u.ctrlPrevPayloadNbTrans + u.ctrlPayloadNbTrans }).1.epControlState = .dataIn := h.state
      rw [hzero] at hremain
      change 0 = _ at hremain
      refine ⟨?_, .inr hstate⟩
      rw [hstate]
      refine iff_of_false (by decide) ?_
      rintro (hle | hno)
      · refine hend (.inl (BitVec.eq_of_toNat_eq ?_))
        rw [h.total, htrans]
        omega
      · exact hno hdvd
    · have hstate : (ctrlInContinue (u.payloadSize - u.ctrlPayloadNbTrans)
          u).1.epControlState = .dataIn := h.state
      refine ⟨?_, .inr hstate⟩
      rw [hstate]
      refine iff_of_false (by decide) ?_
      rintro (hle | hno)
      · refine ‹¬u.payloadSize - u.ctrlPayloadNbTrans = 0› (BitVec.eq_of_toNat_eq ?_)
        rw [hremain]
        change _ = 0
        omega
      · exact hno hdvd

theorem ctrlInSent_frame (u : Usb) :
    (ctrlInSent u).1.req = u.req ∧ (ctrlInSent u).1.payload = u.payload ∧
      (ctrlInSent u).1.payloadSize = u.payloadSize := by
  simp only [ctrlInSent]
  split_ifs <;> exact ⟨rfl, rfl, rfl⟩

theorem usbStep_inSent (h : u.epControlState = .dataIn) :
    usbStep u (.transferOk []) = ctrlInSent u := by
  simp only [usbStep, ep0OnTransferOk, h]

/-- How a data stage ends: the `m` bytes that the host has read, and whether the
device waits for the status stage. -/
structure StageEnd (u u' : Usb) (m : ℕ) : Prop where
  le : m ≤ u.payloadSize.toNat
  whole : u.payloadSize.toNat ≤ u.req.wLength.toNat → m = u.payloadSize.toNat
  status : u'.epControlState = .handshakeWaitOutZlp ↔
    u.payloadSize.toNat ≤ u.req.wLength.toNat ∨ ¬8 ∣ m
  state : u'.epControlState = .handshakeWaitOutZlp ∨ u'.epControlState = .dataIn

theorem Sending.stageEnd (h : Sending mem u armed got k) (hmore : got < u.req.wLength.toNat)
    (hstop : k < 8 ∨ u.req.wLength.toNat ≤ got + k) :
    StageEnd u (ctrlInSent u).1 (got + k) := by
  have hpart := h.part
  have hgot := h.got_le
  have hlast := h.last hmore hstop
  constructor
  · omega
  · omega
  · exact hlast.1
  · exact hlast.2

/-- One more packet of a transfer whose packets so far were full. -/
theorem cut_take_add {data : List Byte} {i n : ℕ} (hi : 8 ∣ i) (hn : 0 < n) (hn8 : n ≤ 8)
    (hle : i + n ≤ data.length) :
    cut 8 (data.take (i + n)) = cut 8 (data.take i) ++ [(data.drop i).take n] := by
  obtain ⟨j, rfl⟩ := hi
  have hpart : ((data.drop (8 * j)).take n).length = n := by
    rw [List.length_take, List.length_drop]
    omega
  have hlast : cut 8 ((data.drop (8 * j)).take n) = [(data.drop (8 * j)).take n] :=
    cut_of_length_le (by decide) (List.ne_nil_of_length_pos (by omega)) (by omega)
  rw [List.take_add, cut_append (by decide) j _ (List.length_take_of_le (by omega)), hlast]

theorem flatten_cut {i : ℕ} {data : List Byte} (hi : 8 ∣ i) (hle : i ≤ data.length) :
    (cut 8 (data.take i)).flatten = data.take i := by
  obtain ⟨j, rfl⟩ := hi
  induction j with
  | zero => simp
  | succ j ih =>
      rw [Nat.mul_succ, cut_take_add (Dvd.intro j rfl) (by decide) le_rfl hle,
        List.flatten_append, ih (by omega), List.flatten_singleton, ← List.take_add]

/-- The packets that the host has when it stops. -/
theorem hostPackets_last {data : List Byte} {wLength i n : ℕ} (hi : 8 ∣ i) (hmore : i < wLength)
    (hn8 : n ≤ 8) (hle : i + n ≤ data.length) (hstop : n < 8 ∨ wLength ≤ i + n) :
    hostPackets wLength (data.take (i + n)) = cut 8 (data.take i) ++ [(data.drop i).take n] := by
  rw [hostPackets, List.length_take_of_le hle]
  rcases Nat.eq_zero_or_pos n with rfl | hpos
  · rw [Nat.add_zero, if_pos ⟨hi, hmore⟩, List.take_zero]
  · rw [cut_take_add hi hpos hn8 hle, if_neg, List.append_nil]
    rintro ⟨hdvd, hlt⟩
    have h8 : 8 ∣ n := (Nat.dvd_add_right hi).mp hdvd
    have hfull := Nat.le_of_dvd hpos h8
    omega

/-- The host reads a part of the payload from its start, and stops in time. -/
theorem hostData_eq (fuel : ℕ) : ∀ {u : Usb} {armed : List UsbAct} {got k : ℕ},
    Sending mem u armed got k → got < u.req.wLength.toNat →
    u.req.wLength.toNat < got + fuel → u.payloadSize.toNat ≤ (mem u.payload).length →
    ∃ m u', hostData mem u.req.wLength.toNat fuel (cut 8 ((mem u.payload).take got)) armed u =
      some (hostPackets u.req.wLength.toNat ((mem u.payload).take m), u') ∧
        got + k ≤ m ∧ StageEnd u u' m := by
  induction fuel with
  | zero => intro u armed got k _ hmore hfuel; omega
  | succ fuel ih =>
      intro u armed got k h hmore hfuel hmem
      have hpart := h.part
      have hgot := h.got_le
      have hk8 : k ≤ 8 := by omega
      have hinside : got + k ≤ (mem u.payload).length := by omega
      have hlength := h.packet_length hmem
      have htotal : (cut 8 ((mem u.payload).take got) ++
          [armed.flatMap (sentBytes mem)]).flatten.length = got + k := by
        rw [List.flatten_append, flatten_cut h.aligned (by omega), List.flatten_singleton,
          List.length_append, hlength, List.length_take_of_le (by omega)]
      rw [hostData]
      simp only [hlength, htotal, usbStep_inSent h.state]
      split_ifs with hstop
      · refine ⟨got + k, _, ?_, le_rfl, h.stageEnd hmore hstop⟩
        rw [hostPackets_last h.aligned hmore hk8 hinside hstop, h.packet]
      · obtain rfl : k = 8 := by omega
        obtain ⟨hreq, hpayload, hsize⟩ := ctrlInSent_frame u
        have hnext := h.next (by omega)
        have hrest := ih hnext (by rw [hreq]; omega) (by rw [hreq]; omega)
          (by rwa [hpayload, hsize])
        rw [hreq, hpayload, cut_take_add h.aligned (by decide) le_rfl hinside, ← h.packet] at hrest
        obtain ⟨m, u', heq, hm, hend⟩ := hrest
        refine ⟨m, u', heq, by omega, ?_⟩
        constructor
        · exact hsize ▸ hend.le
        · have hwhole := hend.whole
          rwa [hreq, hsize] at hwhole
        · have hstatus := hend.status
          rwa [hreq, hsize] at hstatus
        · exact hend.state

end Sending

/-! ## A whole transfer -/

section Transfer

variable {mem : Payload → List Byte} {hw : Hw} {packet : List Byte} {u r : Usb}

/-- An IN request without data is refused. -/
theorem processSetup_length (hin : u.req.isIn) (hok : (udcProcessSetup hw u).1 = true) :
    u.req.wLength ≠ 0 := by
  intro hzero
  have hreject : udcProcessSetup hw u = unsupported (prepare u) := if_pos ⟨hin, hzero⟩
  rw [hreject] at hok
  exact Bool.false_ne_true hok

/-- A payload longer than the request is a part of `usb_val`. -/
theorem processSetup_size (hin : u.req.isIn) (hok : (udcProcessSetup hw u).1 = true) :
    (udcProcessSetup hw u).2.payloadSize.toNat ≤ u.req.wLength.toNat ∨
      (udcProcessSetup hw u).2.payloadSize = 4 ∨ (udcProcessSetup hw u).2.payloadSize = 8 := by
  rcases udcProcessSetup_in hw hin (processSetup_length hin hok) with hparse | hother
  · right
    rw [hparse] at hok ⊢
    by_cases hreport : (prepare u).req.wValue >>> 8 = 1
    · obtain ⟨-, i, -, hfour | ⟨-, height⟩⟩ := parseUsbRequest_input hreport
      · exact .inl hfour
      · exact .inr height
    · rw [parseUsbRequest_other hreport] at hok
      exact absurd hok Bool.false_ne_true
  · left
    have hsize := BitVec.le_def.mp hother.size
    rwa [keepsReq_udcProcessSetup] at hsize

/-- What is known of the variables after an accepted IN request. -/
structure AcceptedIn (req : SetupReq) (r : Usb) : Prop where
  keeps : r.req = req
  wLength : req.wLength ≠ 0
  pos : 0 < r.payloadSize.toNat
  fits : Fits r
  size : r.payloadSize.toNat ≤ req.wLength.toNat ∨ r.payloadSize = 4 ∨ r.payloadSize = 8

theorem acceptedIn (hin : u.req.isIn) (hr : udcProcessSetup hw u = (true, r)) :
    AcceptedIn u.req r := by
  have hok : (udcProcessSetup hw u).1 = true := by rw [hr]
  have hkeep := keepsReq_udcProcessSetup hw u
  have hpos := supplies_udcProcessSetup hw hin hok
  have hfits := fits_udcProcessSetup hw u
  have hsize := processSetup_size hin hok
  rw [hr] at hkeep hpos hfits hsize
  exact ⟨hkeep, processSetup_length hin hok, hpos, hfits, hsize⟩

/-- The first packet of a payload that is not empty. -/
theorem sending_startData (mem : Payload → List Byte) (hpos : 0 < r.payloadSize.toNat) :
    Sending mem (ctrlInSent (startData .dataIn r)).1
      (.receive deviceEpCtrlSize :: (ctrlInSent (startData .dataIn r)).2) 0
      (min 8 r.payloadSize.toNat) := by
  have hremain : r.payloadSize - 0 = r.payloadSize := BitVec.sub_zero _
  have hne : r.payloadSize - 0 ≠ 0 := by
    rw [hremain]
    rintro h
    rw [h] at hpos
    exact lt_irrefl _ hpos
  have hsent : ctrlInSent (startData .dataIn r) =
      ctrlInContinue (r.payloadSize - 0) (startData .dataIn r) := if_neg hne
  have hfirst := sending_inContinue mem r.payloadSize (u := startData .dataIn r) rfl
    (Nat.zero_add _) (dvd_zero 8) fun _ => rfl
  rw [hsent, hremain]
  constructor
  · exact hfirst.state
  · exact hfirst.packet
  · exact hfirst.trans
  · exact hfirst.part
  · exact hfirst.got_le
  · exact hfirst.aligned
  · exact hfirst.flag
  · exact hfirst.prev

/-- What `udc_process_setup` makes of a SETUP packet. -/
def processed (hw : Hw) (packet : List Byte) (u : Usb) : Bool × Usb :=
  udcProcessSetup hw { beginSetup u with req := fetchRam packet }

theorem usbStep_setup (hlen : packet.length = 8) :
    usbStep u (.setup hw packet) = dispatchSetup hw { beginSetup u with req := fetchRam packet } := by
  simp only [usbStep, ep0OnSetup, hlen, ne_eq, not_true_eq_false, if_false]

theorem usbStep_setup_in (hlen : packet.length = 8) (hin : (fetchRam packet).isIn)
    (hr : processed hw packet u = (true, r)) :
    usbStep u (.setup hw packet) = ((ctrlInSent (startData .dataIn r)).1,
      .receive deviceEpCtrlSize :: (ctrlInSent (startData .dataIn r)).2) := by
  have hreq : r.req = fetchRam packet := by
    have h := keepsReq_udcProcessSetup hw { beginSetup u with req := fetchRam packet }
    rw [processed] at hr
    rwa [hr] at h
  rw [processed] at hr
  rw [usbStep_setup hlen, dispatchSetup_of_not hw fun h => h.isOut hin, hr]
  simp only [answerSetup, hreq, hin, if_true, Bool.true_eq_false, if_false]

theorem usbStep_setup_refused (hlen : packet.length = 8) (hr : (processed hw packet u).1 = false) :
    (usbStep u (.setup hw packet)).1.epControlState = .stallReq := by
  rw [processed] at hr
  simp only [usbStep_setup hlen, dispatchSetup, answerSetup, hr, if_true]
  rfl

/-- Only a device that waits for the status stage is idle after it. -/
theorem status_iff (h : u.epControlState = .handshakeWaitOutZlp ∨ u.epControlState = .dataIn) :
    (usbStep u (.transferOk [])).1.epControlState = .setup ↔
      u.epControlState = .handshakeWaitOutZlp := by
  rcases h with h | h
  · refine iff_of_true ?_ h
    simp only [usbStep, ep0OnTransferOk, h]
  · rw [usbStep_inSent h, h]
    refine iff_of_false ?_ (by decide)
    have hstate : (ctrlInSent u).1.epControlState = .handshakeWaitOutZlp ∨
        (ctrlInSent u).1.epControlState = .dataIn := by
      simp only [ctrlInSent]
      split_ifs
      · exact .inl rfl
      · exact .inr h
      · exact .inr h
    rcases hstate with hs | hs <;> rw [hs] <;> decide

/-- The data stage of an accepted request ends with the whole payload read. -/
theorem hostData_startData (hmem : r.payloadSize.toNat ≤ (mem r.payload).length)
    (hlen : r.req.wLength ≠ 0) (hpos : 0 < r.payloadSize.toNat)
    (hsize : r.payloadSize.toNat ≤ r.req.wLength.toNat ∨ r.payloadSize = 4 ∨ r.payloadSize = 8) :
    ∃ u', hostData mem r.req.wLength.toNat (r.req.wLength.toNat + 1) []
        (.receive deviceEpCtrlSize :: (ctrlInSent (startData .dataIn r)).2)
        (ctrlInSent (startData .dataIn r)).1 =
          some (hostPackets r.req.wLength.toNat ((mem r.payload).take r.payloadSize.toNat), u') ∧
      (u'.epControlState = .handshakeWaitOutZlp ∨ u'.epControlState = .dataIn) ∧
      (u'.epControlState = .handshakeWaitOutZlp ↔
        r.payloadSize ≤ r.req.wLength ∨ r.payloadSize ≠ 8) := by
  obtain ⟨hreq, hpayload, hkeep⟩ := ctrlInSent_frame (startData .dataIn r)
  change _ = r.req at hreq
  change _ = r.payload at hpayload
  change _ = r.payloadSize at hkeep
  have hrest := hostData_eq (r.req.wLength.toNat + 1) (sending_startData mem hpos)
    (by rw [hreq]; exact BitVec.toNat_pos_of_ne_zero hlen) (by rw [hreq]; omega)
    (by rwa [hpayload, hkeep])
  obtain ⟨m, u', heq, hm, hend⟩ := hrest
  have hle := hend.le
  have hwhole := hend.whole
  have hstatus := hend.status
  rw [hreq, hkeep] at hstatus hwhole
  rw [hkeep] at hle
  rw [hreq, hpayload, List.take_zero, cut_nil] at heq
  have hall : m = r.payloadSize.toNat := by
    rcases hsize with h | h | h
    · exact hwhole h
    · rw [h] at hm hle ⊢
      exact le_antisymm hle (by simpa using hm)
    · rw [h] at hm hle ⊢
      exact le_antisymm hle (by simpa using hm)
  subst hall
  refine ⟨u', heq, hend.state, hstatus.trans ?_⟩
  rw [BitVec.le_def]
  apply or_congr_right'
  intro hlong
  rcases hsize with h | h | h
  · exact absurd h hlong
  · rw [h]
    decide
  · rw [h]
    decide

/-- The host's side of an accepted request. -/
theorem controlIn_accepted (hmem : ∀ p, p.room ≤ (mem p).length) (hlen : packet.length = 8)
    (hin : (fetchRam packet).isIn) (hr : processed hw packet u = (true, r)) :
    ∃ u', controlIn mem hw packet u = some (hostPackets (fetchRam packet).wLength.toNat
        ((mem r.payload).take r.payloadSize.toNat), u') ∧
      (u'.epControlState = .setup ↔
        r.payloadSize ≤ (fetchRam packet).wLength ∨ r.payloadSize ≠ 8) := by
  have haccepted := acceptedIn hin hr
  have hkeep : r.req = fetchRam packet := haccepted.keeps
  obtain ⟨u', heq, hstate, hstatus⟩ := hostData_startData
    (le_trans haccepted.fits (hmem r.payload)) (hkeep ▸ haccepted.wLength) haccepted.pos
    (hkeep ▸ haccepted.size)
  have hdata : (ctrlInSent (startData .dataIn r)).1.epControlState ≠ .stallReq :=
    ctrlInSent_ne_stall rfl
  rw [hkeep] at heq hstatus
  refine ⟨(usbStep u' (.transferOk [])).1, ?_, (status_iff hstate).trans hstatus⟩
  simp only [controlIn, usbStep_setup_in hlen hin hr, if_neg hdata, heq, Option.map_some]

/-- From any state, a host that sends an accepted IN request reads the whole payload
that the handler has set up, in packets of eight bytes, also where the request asks
for less. An empty packet ends a payload of whole packets that is shorter than the
request. The endpoint is idle afterwards, unless the host asked for less than the
eight bytes of `usb_val`. A refused request is stalled, without data. -/
theorem controlIn_eq (hmem : ∀ p, p.room ≤ (mem p).length) (hw : Hw) (u : Usb)
    (hlen : packet.length = 8) (hin : (fetchRam packet).isIn) :
    ((processed hw packet u).1 = false → controlIn mem hw packet u = none) ∧
      ((processed hw packet u).1 = true → ∃ u',
        controlIn mem hw packet u = some
          (hostPackets (fetchRam packet).wLength.toNat
            ((mem (processed hw packet u).2.payload).take
              (processed hw packet u).2.payloadSize.toNat), u') ∧
        (u'.epControlState = .setup ↔
          (processed hw packet u).2.payloadSize ≤ (fetchRam packet).wLength ∨
            (processed hw packet u).2.payloadSize ≠ 8)) := by
  constructor
  · intro hr
    exact if_pos (usbStep_setup_refused hlen hr)
  · intro hok
    exact controlIn_accepted hmem hlen hin (Prod.ext hok rfl)

/-- The first 64 bytes of the device descriptor, asked for in the initial state. -/
theorem controlIn_eq_deviceDesc : ∃ u',
    controlIn (fun p => List.replicate p.room 0x55) ⟨true, true⟩
      [0x80, 0x06, 0x00, 0x01, 0x00, 0x00, 0x40, 0x00] Usb.init =
        some ([List.replicate 8 0x55, List.replicate 8 0x55, [0x55, 0x55]], u') ∧
      u'.epControlState = .setup := by
  have hin : (fetchRam [0x80, 0x06, 0x00, 0x01, 0x00, 0x00, 0x40, 0x00]).isIn := by decide
  have hroom : ∀ p : Payload, p.room ≤ (List.replicate p.room (0x55 : Byte)).length :=
    fun p => (List.length_replicate ..).ge
  have hcut : hostPackets 64 (List.replicate 18 (0x55 : Byte)) =
      [List.replicate 8 0x55, List.replicate 8 0x55, [0x55, 0x55]] := by
    simp [hostPackets, cut_cons, List.replicate_succ]
  obtain ⟨u', heq, hiff⟩ := (controlIn_eq hroom ⟨true, true⟩ Usb.init rfl hin).2 (by decide)
  refine ⟨u', ?_, hiff.mpr (by decide)⟩
  rw [← hcut]
  exact heq

end Transfer

/-! ## The stale flag -/

/-- The same variables with another `b_shortpacket`. -/
def Usb.withFlag (u : Usb) (b : Bool) : Usb := { u with shortpacket := b }

@[simp] theorem Usb.withFlag_req (u : Usb) (b : Bool) : (u.withFlag b).req = u.req := rfl

@[simp] theorem Usb.withFlag_payload (u : Usb) (b : Bool) :
    (u.withFlag b).payload = u.payload := rfl

@[simp] theorem Usb.withFlag_payloadSize (u : Usb) (b : Bool) :
    (u.withFlag b).payloadSize = u.payloadSize := rfl

@[simp] theorem Usb.withFlag_epControlState (u : Usb) (b : Bool) :
    (u.withFlag b).epControlState = u.epControlState := rfl

@[simp] theorem Usb.withFlag_ctrlPrevPayloadNbTrans (u : Usb) (b : Bool) :
    (u.withFlag b).ctrlPrevPayloadNbTrans = u.ctrlPrevPayloadNbTrans := rfl

@[simp] theorem Usb.withFlag_ctrlPayloadNbTrans (u : Usb) (b : Bool) :
    (u.withFlag b).ctrlPayloadNbTrans = u.ctrlPayloadNbTrans := rfl

/-- The handler neither reads nor writes the flag. -/
def Blind (h : Handler) : Prop := ∀ u b, h (u.withFlag b) = ((h u).1, (h u).2.withFlag b)

section Blind

variable {f g : Handler}

theorem blind_unsupported : Blind unsupported := fun _ _ => rfl

theorem blind_reply (p : Payload) (size : Half) : Blind (reply p size) := fun _ _ => rfl

/-- The condition of a branch does not read the flag. -/
theorem Blind.ite {cond : Usb → Prop} [DecidablePred cond]
    (hcond : ∀ u b, cond (u.withFlag b) ↔ cond u) (hf : Blind f) (hg : Blind g) :
    Blind fun u => if cond u then f u else g u := by
  intro u b
  by_cases h : cond u
  · simpa only [if_pos h, if_pos ((hcond u b).mpr h)] using hf u b
  · simpa only [if_neg h, if_neg ((hcond u b).not.mpr h)] using hg u b

theorem Blind.orElse (hf : Blind f) (hg : Blind g) : Blind (f.orElse g) := by
  intro u b
  simp only [Handler.orElse, hf u b]
  split
  · rfl
  · exact hg _ b

theorem Blind.when {cond : Usb → Prop} [DecidablePred cond]
    (hcond : ∀ u b, cond (u.withFlag b) ↔ cond u) (hf : Blind f) : Blind (Handler.when cond f) :=
  hf.ite hcond blind_unsupported

theorem blind_parseUsbRequest : Blind parseUsbRequest :=
  Blind.ite (fun _ _ => Iff.rfl) (Blind.ite (fun _ _ => Iff.rfl) (blind_reply _ _)
    (Blind.ite (fun _ _ => Iff.rfl) (blind_reply _ _) (blind_reply _ _))) blind_unsupported

theorem blind_setreport : Blind udiHidGenericSetreport := by
  have hfeature : Blind udiHidGenericSetreportFeature :=
    Blind.ite (fun _ _ => Iff.rfl) (fun _ _ => rfl) blind_unsupported
  exact Blind.ite (fun _ _ => Iff.rfl) (blind_parseUsbRequest.orElse hfeature) hfeature

theorem blind_udiHidSetup : Blind udiHidSetup := by
  have hdesc : Blind udiHidReqstdifacegetDescriptor :=
    Blind.ite (fun _ _ => Iff.rfl) (fun _ _ => rfl)
      (Blind.ite (fun _ _ => Iff.rfl) (fun _ _ => rfl) blind_unsupported)
  have hclassIn : Blind fun u =>
      if u.req.bRequest = 0x01 then udiHidGenericSetreport u
      else if u.req.bRequest = 0x02 then reply .rate 1 u
      else if u.req.bRequest = 0x03 then reply .protocol 1 u
      else unsupported u :=
    Blind.ite (fun _ _ => Iff.rfl) blind_setreport
      (Blind.ite (fun _ _ => Iff.rfl) (blind_reply _ _)
        (Blind.ite (fun _ _ => Iff.rfl) (blind_reply _ _) blind_unsupported))
  have hclassOut : Blind fun u =>
      if u.req.bRequest = 0x09 then udiHidGenericSetreport u
      else if u.req.bRequest = 0x0a then
        (true, { u with rate := (u.req.wValue >>> 8).setWidth 8 })
      else if u.req.bRequest = 0x0b then
        if u.req.wLength ≠ 0 then unsupported u
        else (true, { u with protocol := u.req.wValue.setWidth 8 })
      else unsupported u :=
    Blind.ite (fun _ _ => Iff.rfl) blind_setreport
      (Blind.ite (fun _ _ => Iff.rfl) (fun _ _ => rfl)
        (Blind.ite (fun _ _ => Iff.rfl)
          (Blind.ite (fun _ _ => Iff.rfl) blind_unsupported fun _ _ => rfl) blind_unsupported))
  exact Blind.ite (fun _ _ => Iff.rfl)
    (Blind.ite (fun _ _ => Iff.rfl) hdesc
      (Blind.ite (fun _ _ => Iff.rfl) hclassIn blind_unsupported))
    (Blind.ite (fun _ _ => Iff.rfl) hclassOut blind_unsupported)

theorem blind_udcIfaceEnable (hw : Hw) (iface setting : Byte) :
    Blind (udcIfaceEnable hw iface setting) :=
  Blind.ite (fun _ _ => Iff.rfl) (fun _ _ => rfl) blind_unsupported

theorem blind_getDescriptor : Blind udcReqStdDevGetDescriptor := by
  have hstr : Blind udcReqStdDevGetStrDesc :=
    Blind.ite (fun _ _ => Iff.rfl) (blind_reply _ _)
      (Blind.ite (fun _ _ => Iff.rfl) (blind_reply _ _) blind_unsupported)
  have hfind : Blind findDescriptor :=
    Blind.ite (fun _ _ => Iff.rfl) (blind_reply _ _)
      (Blind.ite (fun _ _ => Iff.rfl)
        (Blind.ite (fun _ _ => Iff.rfl) blind_unsupported (blind_reply _ _))
        (Blind.ite (fun _ _ => Iff.rfl) hstr blind_unsupported))
  intro u b
  rw [getDescriptor_eq, getDescriptor_eq, hfind u b, cutReply, cutReply]
  split <;> rfl

theorem blind_setConfiguration (hw : Hw) : Blind (udcReqStdDevSetConfiguration hw) := by
  have henable : Blind fun u =>
      udcIfaceEnable hw 0 0 { udcReset u with numConfiguration := u.req.valueLow } :=
    fun u => blind_udcIfaceEnable hw 0 0 { udcReset u with numConfiguration := u.req.valueLow }
  have hset : Blind fun u =>
      if u.req.valueLow = 0 then (true, { udcReset u with numConfiguration := u.req.valueLow })
      else udcIfaceEnable hw 0 0 { udcReset u with numConfiguration := u.req.valueLow } :=
    Blind.ite (fun _ _ => Iff.rfl) (fun _ _ => rfl) henable
  exact Blind.ite (fun _ _ => Iff.rfl) blind_unsupported
    (Blind.ite (fun _ _ => Iff.rfl) blind_unsupported
      (Blind.ite (fun _ _ => Iff.rfl) blind_unsupported hset))

theorem blind_setSetting (hw : Hw) : Blind (udcReqStdIfaceSetSetting hw) := by
  have henable : Blind fun u => udcIfaceEnable hw u.req.indexLow u.req.valueLow u :=
    fun u => blind_udcIfaceEnable hw u.req.indexLow u.req.valueLow u
  exact Blind.ite (fun _ _ => Iff.rfl) blind_unsupported
    (Blind.ite (fun _ _ => Iff.rfl) blind_unsupported
      (Blind.ite (fun _ _ => Iff.rfl) henable blind_unsupported))

theorem blind_udcReqstd (hw : Hw) : Blind (udcReqstd hw) := by
  have hexact : ∀ (size : Half) {f : Handler}, Blind f →
      Blind fun u => if u.req.wLength ≠ size then unsupported u else f u :=
    fun _ _ hf => Blind.ite (fun _ _ => Iff.rfl) blind_unsupported hf
  have hsetting : Blind udcReqStdIfaceGetSetting :=
    hexact 1 (Blind.ite (fun _ _ => Iff.rfl) blind_unsupported
      (Blind.ite (fun _ _ => Iff.rfl) (blind_reply _ _) blind_unsupported))
  have hclear : Blind udcReqStdDevClearFeature := hexact 0 fun _ _ => rfl
  have haddr : Blind udcReqStdDevSetAddress := hexact 0 fun _ _ => rfl
  have hepClear : Blind udcReqStdEpClearFeature :=
    hexact 0 (Blind.ite (fun _ _ => Iff.rfl) (fun _ _ => rfl) blind_unsupported)
  have hepSet : Blind udcReqStdEpSetFeature :=
    hexact 0 (Blind.ite (fun _ _ => Iff.rfl) (fun _ _ => rfl) blind_unsupported)
  exact Blind.ite (fun _ _ => Iff.rfl)
    -- IN requests: by length, then recipient, then number.
    (Blind.ite (fun _ _ => Iff.rfl) blind_unsupported
      (Blind.ite (fun _ _ => Iff.rfl)
        (Blind.ite (fun _ _ => Iff.rfl) (hexact 2 (blind_reply _ _))
          (Blind.ite (fun _ _ => Iff.rfl) blind_getDescriptor
            (Blind.ite (fun _ _ => Iff.rfl) (hexact 1 (blind_reply _ _)) blind_unsupported)))
        (Blind.ite (fun _ _ => Iff.rfl) hsetting
          (Blind.ite (fun _ _ => Iff.rfl) (hexact 2 (blind_reply _ _)) blind_unsupported))))
    -- OUT requests: by recipient, then number.
    (Blind.ite (fun _ _ => Iff.rfl)
      (Blind.ite (fun _ _ => Iff.rfl) haddr
        (Blind.ite (fun _ _ => Iff.rfl) hclear
          (Blind.ite (fun _ _ => Iff.rfl) blind_unsupported
            (Blind.ite (fun _ _ => Iff.rfl) (blind_setConfiguration hw) blind_unsupported))))
      (Blind.ite (fun _ _ => Iff.rfl) (blind_setSetting hw)
        (Blind.ite (fun _ _ => Iff.rfl) hepClear
          (Blind.ite (fun _ _ => Iff.rfl) hepSet blind_unsupported))))

theorem blind_udcProcessSetup (hw : Hw) : Blind (udcProcessSetup hw) := by
  have hiface : Blind udcReqIface :=
    Blind.ite (fun _ _ => Iff.rfl) blind_udiHidSetup blind_unsupported
  have hep : Blind udcReqEp :=
    Blind.ite (fun _ _ => Iff.rfl) blind_udiHidSetup blind_unsupported
  have hstd : Blind (Handler.when (fun u => u.req.type = typeStandard) (udcReqstd hw)) :=
    (blind_udcReqstd hw).when fun _ _ => Iff.rfl
  have hwhenIface : Blind (Handler.when (fun u => u.req.recipient = recipInterface) udcReqIface) :=
    hiface.when fun _ _ => Iff.rfl
  have hwhenEp : Blind (Handler.when (fun u => u.req.recipient = recipEndpoint) udcReqEp) :=
    hep.when fun _ _ => Iff.rfl
  have hchain := hstd.orElse (hwhenIface.orElse (hwhenEp.orElse blind_parseUsbRequest))
  have htail : Blind fun u =>
      ((Handler.when (fun u => u.req.type = typeStandard) (udcReqstd hw)).orElse
        ((Handler.when (fun u => u.req.recipient = recipInterface) udcReqIface).orElse
          ((Handler.when (fun u => u.req.recipient = recipEndpoint) udcReqEp).orElse
            parseUsbRequest))) (prepare u) :=
    fun u => hchain (prepare u)
  exact Blind.ite (fun _ _ => Iff.rfl) (fun _ _ => rfl) htail

end Blind

/-- Two states that differ at most in the flag, and not even in it during an IN
data stage. -/
def SameButFlag (u v : Usb) : Prop :=
  ∃ b, v = u.withFlag b ∧ (u.epControlState = .dataIn → v = u)

section SameButFlag

variable {u v : Usb}

theorem SameButFlag.refl (u : Usb) : SameButFlag u u := ⟨u.shortpacket, rfl, fun _ => rfl⟩

/-- A step outside an IN data stage does not depend on the flag. -/
theorem sameButFlag_withFlag (b : Bool) (h : u.epControlState ≠ .dataIn) :
    SameButFlag u (u.withFlag b) :=
  ⟨b, rfl, fun hin => absurd hin h⟩

theorem runCallback_withFlag (u : Usb) (b : Bool) :
    runCallback (u.withFlag b) = (runCallback u).withFlag b := by
  simp only [runCallback, Usb.withFlag]
  split <;> rfl

theorem beginSetup_withFlag (u : Usb) (b : Bool) :
    beginSetup (u.withFlag b) = (beginSetup u).withFlag b := by
  have hcallback := runCallback_withFlag u b
  by_cases h : u.epControlState ≠ .setup
  · have h' : (u.withFlag b).epControlState ≠ .setup := h
    rw [beginSetup, beginSetup, if_pos h, if_pos h', hcallback]
    rfl
  · have h' : ¬(u.withFlag b).epControlState ≠ .setup := h
    rw [beginSetup, beginSetup, if_neg h, if_neg h']

/-- The first step of a data stage writes the flag. -/
theorem inSent_withFlag {r : Usb} (hpos : 0 < r.payloadSize.toNat) (b : Bool) :
    ctrlInSent (startData .dataIn (r.withFlag b)) = ctrlInSent (startData .dataIn r) := by
  have hne : r.payloadSize - 0 ≠ 0 := by
    intro h
    rw [show r.payloadSize - 0 = r.payloadSize from BitVec.sub_zero _] at h
    rw [h] at hpos
    exact lt_irrefl _ hpos
  have hsent : ∀ v : Usb, v.payloadSize = r.payloadSize → ctrlInSent (startData .dataIn v) =
      ctrlInContinue (r.payloadSize - 0) (startData .dataIn v) := by
    intro v hv
    rw [← hv] at hne ⊢
    exact if_neg hne
  rw [hsent r rfl, hsent (r.withFlag b) rfl]
  rfl

/-- The answer to a request. An accepted IN request has data. -/
theorem answerSetup_withFlag (ok : Bool) {r : Usb} (b : Bool)
    (hpos : r.req.isIn → ok = true → 0 < r.payloadSize.toNat) :
    SameButFlag (answerSetup (ok, r)).1 (answerSetup (ok, r.withFlag b)).1 ∧
      (answerSetup (ok, r)).2 = (answerSetup (ok, r.withFlag b)).2 := by
  cases ok with
  | false =>
      simp only [answerSetup, if_true]
      exact ⟨sameButFlag_withFlag b (by simp [ctrlStallData]), rfl⟩
  | true =>
      have hanswer : ∀ v : Usb, answerSetup (true, v) =
          if v.req.isIn then ((ctrlInSent (startData .dataIn v)).1,
            .receive deviceEpCtrlSize :: (ctrlInSent (startData .dataIn v)).2)
          else if v.req.wLength = 0 then ctrlSendZlpIn v
          else (startData .dataOut v, [.receive deviceEpCtrlSize]) := fun _ => rfl
      by_cases hin : r.req.isIn
      · have hin' : (r.withFlag b).req.isIn := hin
        rw [hanswer, hanswer, if_pos hin, if_pos hin', inSent_withFlag (hpos hin rfl) b]
        exact ⟨SameButFlag.refl _, rfl⟩
      · have hin' : ¬(r.withFlag b).req.isIn := hin
        rw [hanswer, hanswer, if_neg hin, if_neg hin']
        by_cases hlen : r.req.wLength = 0
        · have hlen' : (r.withFlag b).req.wLength = 0 := hlen
          rw [if_pos hlen, if_pos hlen']
          exact ⟨sameButFlag_withFlag b (by simp [ctrlSendZlpIn]), rfl⟩
        · have hlen' : ¬(r.withFlag b).req.wLength = 0 := hlen
          rw [if_neg hlen, if_neg hlen']
          exact ⟨sameButFlag_withFlag b (by simp [startData]), rfl⟩

theorem dispatchSetup_withFlag (hw : Hw) (u : Usb) (b : Bool) :
    SameButFlag (dispatchSetup hw u).1 (dispatchSetup hw (u.withFlag b)).1 ∧
      (dispatchSetup hw u).2 = (dispatchSetup hw (u.withFlag b)).2 := by
  have hkeep := keepsReq_udcProcessSetup hw u
  have hanswer := answerSetup_withFlag (udcProcessSetup hw u).1 b
    (fun hin hok => supplies_udcProcessSetup hw (hkeep ▸ hin) hok)
  rw [dispatchSetup, dispatchSetup, blind_udcProcessSetup hw u b]
  refine ⟨hanswer.1, ?_⟩
  change (udcProcessSetup hw u).2.epCalls.map UsbAct.endpoint ++ _ =
    (udcProcessSetup hw u).2.epCalls.map UsbAct.endpoint ++ _
  rw [hanswer.2]

theorem copyPayload_withFlag (packet : List Byte) (u : Usb) (b : Bool) :
    copyPayload packet (u.withFlag b) =
      ((copyPayload packet u).1.withFlag b, (copyPayload packet u).2) := by
  have hsize : outSize packet (u.withFlag b) = outSize packet u := rfl
  simp only [copyPayload, hsize, Usb.withFlag_payload]
  by_cases h : u.payload = .reportFeature
  · simp only [if_pos h]
    rfl
  · simp only [if_neg h]
    rfl

theorem outReceived_withFlag (packet : List Byte) {u : Usb} (h : u.epControlState = .dataOut)
    (b : Bool) :
    SameButFlag (ctrlOutReceived packet u).1 (ctrlOutReceived packet (u.withFlag b)).1 ∧
      (ctrlOutReceived packet u).2 = (ctrlOutReceived packet (u.withFlag b)).2 := by
  have hsize : outSize packet (u.withFlag b) = outSize packet u := rfl
  have hstate : (copyPayload packet u).1.epControlState ≠ .dataIn := by
    simp only [copyPayload]
    split <;> simp [h]
  simp only [ctrlOutReceived, copyPayload_withFlag, hsize, Usb.withFlag_req,
    Usb.withFlag_payloadSize, Usb.withFlag_ctrlPrevPayloadNbTrans, Usb.withFlag_ctrlPayloadNbTrans]
  split_ifs
  · exact ⟨sameButFlag_withFlag b (by simp [ctrlSendZlpIn]), rfl⟩
  · exact ⟨sameButFlag_withFlag b (by simp), rfl⟩
  · exact ⟨sameButFlag_withFlag b hstate, rfl⟩

/-- One event: the flag has no influence on the jobs, and afterwards the states
differ at most in a flag that no data stage uses. -/
theorem usbStep_withFlag {u : Usb} (h : u.epControlState ≠ .dataIn) (b : Bool) (e : UsbEvent) :
    SameButFlag (usbStep u e).1 (usbStep (u.withFlag b) e).1 ∧
      (usbStep u e).2 = (usbStep (u.withFlag b) e).2 := by
  cases e with
  | setup hw packet =>
      simp only [usbStep, ep0OnSetup, beginSetup_withFlag]
      split_ifs
      · exact ⟨sameButFlag_withFlag b (by simp [ctrlStallData]), rfl⟩
      · exact dispatchSetup_withFlag hw { beginSetup u with req := fetchRam packet } b
  | transferOk packet =>
      simp only [usbStep, ep0OnTransferOk, Usb.withFlag_epControlState, runCallback_withFlag]
      cases hs : u.epControlState with
      | dataIn => exact absurd hs h
      | dataOut => exact outReceived_withFlag packet hs b
      | _ => exact ⟨sameButFlag_withFlag b (by simp), rfl⟩
  | transferFail dirIn =>
      cases dirIn with
      | true =>
          simp only [usbStep, ctrlUnderflow, Usb.withFlag_epControlState, if_true]
          cases hs : u.epControlState with
          | dataIn => exact absurd hs h
          | dataOut => exact ⟨sameButFlag_withFlag b (by simp [ctrlSendZlpIn]), rfl⟩
          | _ => exact ⟨sameButFlag_withFlag b h, rfl⟩
      | false =>
          simp only [usbStep, ctrlOverflow, Usb.withFlag_epControlState]
          cases hs : u.epControlState with
          | dataIn => exact absurd hs h
          | _ => exact ⟨sameButFlag_withFlag b h, rfl⟩
  | busReset => exact ⟨sameButFlag_withFlag b (by simp [usbStep, onBusReset]), rfl⟩

end SameButFlag

theorem lockstep_sameButFlag :
    Lockstep usbStep usbStep (fun _ _ => True) SameButFlag := by
  have hstep : ∀ u v e, SameButFlag u v →
      SameButFlag (usbStep u e).1 (usbStep v e).1 ∧ (usbStep u e).2 = (usbStep v e).2 := by
    rintro u v e ⟨b, rfl, hin⟩
    by_cases h : u.epControlState = .dataIn
    · rw [hin h]
      exact ⟨SameButFlag.refl _, rfl⟩
    · exact usbStep_withFlag h b e
  exact ⟨fun u v e h _ => (hstep u v e h).1, fun u v e h _ => (hstep u v e h).2⟩

/-- Whatever an earlier transfer has left in `b_shortpacket`, every run from a
state outside an IN data stage gives the same jobs to the endpoint. -/
theorem shortpacket_irrelevant (u : Usb) (h : u.epControlState ≠ .dataIn) (b : Bool)
    (evs : List UsbEvent) :
    (trace usbStep (u.withFlag b) evs).map Entry.outputs =
      (trace usbStep u evs).map Entry.outputs :=
  (lockstep_sameButFlag.trace_outputs (sameButFlag_withFlag b h) allSteps_true).symm

/-- A request for the address and for eight bytes of the device descriptor, with the flag
left by a short packet. -/
theorem shortpacket_irrelevant_request :
    (trace usbStep (Usb.init.withFlag true)
        [.setup ⟨true, true⟩ [0x00, 0x05, 0x05, 0x00, 0x00, 0x00, 0x00, 0x00], .transferOk [],
          .setup ⟨true, true⟩ [0x80, 0x06, 0x00, 0x01, 0x00, 0x00, 0x08, 0x00],
          .transferOk []]).map Entry.outputs =
      (trace usbStep Usb.init
        [.setup ⟨true, true⟩ [0x00, 0x05, 0x05, 0x00, 0x00, 0x00, 0x00, 0x00], .transferOk [],
          .setup ⟨true, true⟩ [0x80, 0x06, 0x00, 0x01, 0x00, 0x00, 0x08, 0x00],
          .transferOk []]).map Entry.outputs :=
  shortpacket_irrelevant Usb.init (by decide) true _

end TempHumid.Th2
