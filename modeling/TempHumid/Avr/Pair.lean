import TempHumid.Avr.Outputs
import TempHumid.Avr.Usb

/-!
# The pairs that the AVR firmware returns

The main loop and the USB driver share the controller: a request is served in
whichever call of `usbPoll` comes next. Between the two stores of a fresh frame
lies such a call, and a request served there gets a mixed pair.

## Implementation notes

The calls of an iteration take the messages of its list in order, and find none
when the list is used up. A reply of eight bytes is complete in its first block.
-/

namespace TempHumid.Avr

open Machine

/-! ## The device -/

/-- What a call of `usbPoll` finds: whether the pending block has been sent, a
message, and the line state. -/
structure Arrival where
  sent : Bool
  rx : Option (Byte × List Byte)
  reset : Bool
  deriving DecidableEq

def Arrival.quiet : Arrival := ⟨false, none, false⟩

/-- The main loop and the driver. -/
structure Device where
  loop : MainLoop
  driver : Driver
  deriving DecidableEq

def Device.init : Device := ⟨MainLoop.init, Driver.init⟩

/-- One iteration, with what its calls of `usbPoll` find. -/
structure DeviceInput where
  it : Iteration
  arrivals : List Arrival

/-- The block built for a SETUP packet. -/
structure Reply where
  packet : List Byte
  data : List Byte
  deriving DecidableEq

/-- The values of `usb_val` at the calls of `usbPoll`. -/
def polls (acts : List LoopAct) : List UsbVal :=
  acts.filterMap fun
    | .bus (.poll v) => some v
    | _ => none

section Device

variable (rom : Source → List Byte)

/-- The driver after one call. -/
def pollDriver (v : UsbVal) (a : Arrival) (d : Driver) : Driver :=
  usbPoll rom v a.rx a.reset (if a.sent then taken d else d)

/-- The reply to a SETUP packet that a call has served. -/
def replyOf (a : Arrival) (d : Driver) : List Reply :=
  match a.rx with
  | some (token, packet) =>
      if token = usbpidSetup ∧ packet.length = 8 then [⟨packet, d.usbTxData⟩] else []
  | none => []

/-- The calls of one iteration. -/
def serve : List UsbVal → List Arrival → Driver → Driver × List Reply
  | [], _, d => (d, [])
  | v :: vs, as, d =>
      let d := pollDriver rom v (as.headD .quiet) d
      let r := serve vs as.tail d
      (r.1, replyOf (as.headD .quiet) d ++ r.2)

def deviceStep : Step Device DeviceInput Reply := fun s e =>
  let r := loopStep s.loop e.it
  let u := serve rom (polls r.2) e.arrivals s.driver
  (⟨r.1, u.1⟩, u.2)

end Device

/-! ## Replies to the vendor request -/

/-- The vendor request for both values. -/
structure IsPairRequest (packet : List Byte) : Prop where
  length : packet.length = 8
  type : (UsbRequest.ofData packet).bmRequestType &&& typeMask = typeVendor
  bRequest : (UsbRequest.ofData packet).bRequest = 1

section Serve

variable (rom : Source → List Byte)

/-- The block for the vendor request holds the words that the call sees. -/
theorem usbTxData_pair {packet : List Byte} (h : IsPairRequest packet) (v : UsbVal) (reset : Bool) (d : Driver) :
    (usbPoll rom v (some (usbpidSetup, packet)) reset d).usbTxData =
      v.bytes.take (limitLength (UsbRequest.ofData packet) 8).toNat := by
  have hlimit : (limitLength (UsbRequest.ofData packet) 8).toNat ≤ 8 :=
    BitVec.le_def.mp (limitLength_le (UsbRequest.ofData packet) 8)
  have hmsg := limitLength_ne_noMsg (UsbRequest.ofData packet) (by decide : (8 : Byte) < usbNoMsg)
  have htype : (UsbRequest.ofData packet).bmRequestType &&& typeMask ≠ typeStandard := by
    rw [h.type]
    decide
  have hsetup : usbFunctionSetup (UsbRequest.ofData packet) (abortPending d) =
      ({ abortPending d with usbMsgPtr := ⟨.usbVal, 0⟩ }, 8) := by
    rw [usbFunctionSetup, if_pos h.type, if_pos h.bRequest]
  rw [usbTxData_of_setup h.length htype hsetup hmsg, Nat.min_eq_right hlimit]
  rfl

variable {rom}

theorem serve_append (vs ws : List UsbVal) (as : List Arrival) (d : Driver) :
    serve rom (vs ++ ws) as d =
      ((serve rom ws (as.drop vs.length) (serve rom vs as d).1).1,
        (serve rom vs as d).2 ++
          (serve rom ws (as.drop vs.length) (serve rom vs as d).1).2) := by
  induction vs generalizing as d with
  | nil => simp [serve]
  | cons v vs ih => simp [serve, ih]

/-- A vendor request for all eight bytes. -/
structure AsksPair (a : Arrival) (packet : List Byte) : Prop where
  rx : a.rx = some (usbpidSetup, packet)
  request : IsPairRequest packet
  limit : limitLength (UsbRequest.ofData packet) 8 = 8

/-- A reply of eight bytes to the vendor request. -/
structure Reply.IsPair (p : Reply) : Prop where
  request : IsPairRequest p.packet
  full : p.data.length = 8

/-- Such a reply holds the words that its call sees. -/
theorem replyOf_pair {p : Reply} {v : UsbVal} {a : Arrival} {d : Driver}
    (hp : p ∈ replyOf a (pollDriver rom v a d)) (hpair : p.IsPair) :
    AsksPair a p.packet ∧ p.data = v.bytes := by
  cases hrx : a.rx with
  | none => simp [replyOf, hrx] at hp
  | some message =>
      obtain ⟨token, packet⟩ := message
      simp only [replyOf, hrx, List.mem_ite_nil_right, List.mem_singleton] at hp
      obtain ⟨⟨rfl, -⟩, rfl⟩ := hp
      have hrequest : IsPairRequest packet := hpair.request
      have hdata := usbTxData_pair rom hrequest v a.reset (if a.sent then taken d else d)
      have hfull := hpair.full
      simp only [pollDriver, hrx] at hfull ⊢
      rw [hdata, List.length_take, UsbVal.bytes_length] at hfull
      have hle : (limitLength (UsbRequest.ofData packet) 8).toNat ≤ 8 :=
        BitVec.le_def.mp (limitLength_le (UsbRequest.ofData packet) 8)
      have hlimit : limitLength (UsbRequest.ofData packet) 8 = 8 := by
        apply BitVec.eq_of_toNat_eq
        change _ = 8
        omega
      constructor
      · exact ⟨hrx, hrequest, hlimit⟩
      · rw [hdata, hlimit]
        exact List.take_of_length_le (by rw [UsbVal.bytes_length]; decide)

theorem serve_pair {p : Reply} {vs : List UsbVal} {as : List Arrival} {d : Driver}
    (hp : p ∈ (serve rom vs as d).2) (hpair : p.IsPair) : ∃ v ∈ vs, p.data = v.bytes := by
  induction vs generalizing as d with
  | nil => cases hp
  | cons v vs ih =>
      rcases List.mem_append.mp hp with hp | hp
      · exact ⟨v, List.mem_cons_self, (replyOf_pair hp hpair).2⟩
      · obtain ⟨w, hw, hdata⟩ := ih hp
        exact ⟨w, List.mem_cons_of_mem _ hw, hdata⟩

end Serve

/-! ## The calls of an iteration -/

/-- The iteration publishes a fresh frame. -/
structure Publishes (s : MainLoop) (it : Iteration) : Prop where
  zero : s.cnt = 0
  state : s.state = .preRead
  accepted : it.read.Accepted
  fresh : it.read.frame.Fresh

theorem mem_polls {v : UsbVal} {acts : List LoopAct} : v ∈ polls acts ↔ .bus (.poll v) ∈ acts := by
  constructor
  · intro hv
    obtain ⟨act, hact, hsome⟩ := List.mem_filterMap.mp hv
    match act, hsome with
    | .bus (.poll _), hsome => exact Option.some.inj hsome ▸ hact
  · intro hv
    exact List.mem_filterMap.mpr ⟨_, hv, rfl⟩

section Polls

variable {s : MainLoop} {it : Iteration}

/-- Without a fresh frame every call of an iteration sees the published words. -/
theorem polls_loopStep (h : ¬Publishes s it) :
    ∀ v ∈ polls (loopStep s it).2, v = s.globals.usbVal := by
  intro v hv
  rw [mem_polls] at hv
  rcases List.mem_cons.mp hv with hv | hv
  · simpa using hv
  · by_cases hzero : s.cnt = 0
    · cases hs : s.state with
      | preMeasure =>
          rw [countDown_request s it hzero hs] at hv
          exact poll_requestMeasurement (by simpa using hv)
      | preRead =>
          rw [countDown_read s it hzero hs] at hv
          refine (poll_readResult (by simpa using hv)).resolve_right ?_
          exact fun htorn => h ⟨hzero, hs, htorn.1.1, htorn.1.2⟩
    · rw [countDown_run s it hzero] at hv
      cases hv

/-- The ninth call of an iteration that publishes lies between the two stores. -/
theorem polls_publishes (h : Publishes s it) :
    polls (loopStep s it).2 = List.replicate 8 s.globals.usbVal ++
      [⟨tempHundredths it.read.frame, s.globals.usbVal.w1⟩] := by
  have hacts : (loopStep s it).2 = .bus (.poll s.globals.usbVal) :: (countDown it s).2 := rfl
  rw [hacts, countDown_read s it h.zero h.state, readResult_accepted s.globals h.accepted,
    decodeResult_fresh h.fresh]
  rfl

end Polls

/-! ## One pair -/

/-- The reply is the pair of one reading. -/
def Reply.IsReading (p : Reply) (fs : List Frame) : Prop :=
  p.data = Reading.zero.words.bytes ∨ ∃ f ∈ fs, f.Fresh ∧ p.data = f.reading.words.bytes

/-- A fresh frame changes both words, and the call between its two stores
serves a request for both. -/
structure Tears (s : MainLoop) (e : DeviceInput) : Prop where
  publishes : Publishes s e.it
  temp : tempHundredths e.it.read.frame ≠ s.globals.usbVal.w0
  humid : humidHundredths e.it.read.frame ≠ s.globals.usbVal.w1
  asked : ∃ packet, AsksPair ((e.arrivals.drop 8).headD .quiet) packet

def observeFrames (fs : List Frame) (en : Entry Device DeviceInput Reply) : List Frame :=
  fs ++ (frameRead en.before.loop en.input.it).toList

/-- Every pair that an iteration returns is that of one fresh frame read so far,
or the initial one. -/
def PairsConsistent (rom : Source → List Byte) (p : Device × List Frame) (e : DeviceInput) :
    Prop :=
  ∀ reply ∈ (deviceStep rom p.1 e).2, reply.IsPair →
    reply.IsReading (p.2 ++ (frameRead p.1.loop e.it).toList)

section Consistent

variable {rom : Source → List Byte} {s : Device} {e : DeviceInput} {fs : List Frame}

/-- Without tearing, a pair is the published one or that of the new frame. -/
theorem reply_of_not_tears (h : ¬Tears s.loop e) {p : Reply} (hp : p ∈ (deviceStep rom s e).2)
    (hpair : p.IsPair) : p.data = s.loop.globals.usbVal.bytes ∨
      ∃ f, frameRead s.loop e.it = some f ∧ f.Fresh ∧ p.data = f.reading.words.bytes := by
  by_cases hpub : Publishes s.loop e.it
  · have hserve : (deviceStep rom s e).2 =
        (serve rom (polls (loopStep s.loop e.it).2) e.arrivals s.driver).2 := rfl
    rw [hserve, polls_publishes hpub, serve_append] at hp
    rcases List.mem_append.mp hp with hp | hp
    · obtain ⟨v, hv, hdata⟩ := serve_pair hp hpair
      exact .inl ((List.mem_replicate.mp hv).2 ▸ hdata)
    · simp only [List.length_replicate, serve, List.append_nil] at hp
      obtain ⟨hasked, hdata⟩ := replyOf_pair hp hpair
      by_cases htemp : tempHundredths e.it.read.frame = s.loop.globals.usbVal.w0
      · rw [htemp] at hdata
        exact .inl hdata
      · have hhumid : humidHundredths e.it.read.frame = s.loop.globals.usbVal.w1 :=
          not_not.mp fun hne => h ⟨hpub, htemp, hne, p.packet, hasked⟩
        rw [← hhumid, hundredths_eq_words] at hdata
        exact .inr ⟨_, frameRead_some hpub.zero hpub.state hpub.accepted, hpub.fresh, hdata⟩
  · obtain ⟨v, hv, hdata⟩ := serve_pair hp hpair
    exact .inl (polls_loopStep hpub v hv ▸ hdata)

/-- A tearing iteration returns the new temperature beside the old humidity. -/
theorem mixed_reply (h : Tears s.loop e) : ∃ p ∈ (deviceStep rom s e).2, p.IsPair ∧
    p.data = (UsbVal.mk (tempHundredths e.it.read.frame) s.loop.globals.usbVal.w1).bytes := by
  obtain ⟨hpub, -, -, packet, hasked⟩ := h
  have hserve : (deviceStep rom s e).2 =
      (serve rom (polls (loopStep s.loop e.it).2) e.arrivals s.driver).2 := rfl
  rw [hserve, polls_publishes hpub, serve_append, List.length_replicate]
  generalize (serve rom (List.replicate 8 s.loop.globals.usbVal) e.arrivals s.driver).1 = d
  generalize UsbVal.mk (tempHundredths e.it.read.frame) s.loop.globals.usbVal.w1 = v
  have hdata : (pollDriver rom v ((e.arrivals.drop 8).headD .quiet) d).usbTxData = v.bytes := by
    rw [pollDriver, hasked.rx, usbTxData_pair rom hasked.request, hasked.limit]
    exact List.take_of_length_le (by rw [UsbVal.bytes_length]; decide)
  refine ⟨⟨packet, v.bytes⟩, List.mem_append_right _ ?_, ⟨hasked.request, v.bytes_length⟩, rfl⟩
  simp only [serve, List.append_nil, replyOf, hasked.rx, hasked.request.length, hdata, and_self,
    if_true, List.mem_singleton]

/-- The first eight calls of an iteration see the published words. -/
theorem not_tears_of_length_le (hlen : e.arrivals.length ≤ 8) (l : MainLoop) : ¬Tears l e := by
  rintro ⟨-, -, -, packet, hasked⟩
  have hrx := hasked.rx
  rw [List.drop_eq_nil_of_le hlen] at hrx
  cases hrx

/-- Before each iteration the published words are those of the frames read so far. -/
def Publishing (p : Device × List Frame) : Prop :=
  p.1.loop.globals = globalsOf (published p.2)

theorem publishing_init : Publishing (Device.init, []) := by
  change Device.init.loop.globals = globalsOf Reading.zero
  decide

theorem publishing_step (h : Publishing (s, fs)) :
    Publishing (paired (deviceStep rom) observeFrames (s, fs) e).1 := by
  exact published_loopStep h e.it

theorem pairsConsistent_of_not_tears (hpub : Publishing (s, fs)) (h : ¬Tears s.loop e) :
    PairsConsistent rom (s, fs) e := by
  intro p hp hpair
  rcases reply_of_not_tears h hp hpair with hdata | ⟨f, hread, hfresh, hdata⟩
  · have hval : s.loop.globals.usbVal = (published fs).words := congrArg Globals.usbVal hpub
    rcases published_eq_zero_or fs with hzero | ⟨f, hf, hfresh, hreading⟩
    · left
      rw [hdata, hval, hzero]
    · right
      refine ⟨f, List.mem_append_left _ hf, hfresh, ?_⟩
      rw [hdata, hval, hreading]
  · right
    refine ⟨f, List.mem_append_right _ ?_, hfresh, hdata⟩
    change f ∈ (frameRead s.loop e.it).toList
    rw [hread]
    exact List.mem_singleton_self f

end Consistent

/-- In a run whose iterations do not tear, every pair is that of one fresh frame
read so far, or the initial one. -/
theorem pairs_consistent (rom : Source → List Byte) (es : List DeviceInput)
    (h : AllSteps (deviceStep rom) (fun s e => ¬Tears s.loop e) Device.init es) :
    AllSteps (paired (deviceStep rom) observeFrames) (PairsConsistent rom) (Device.init, []) es :=
  (allSteps_paired_iff.mpr h).of_invariant (I := Publishing) publishing_init
    (fun _ _ hpub _ => publishing_step hpub)
    fun _ _ hpub hkeep => pairsConsistent_of_not_tears hpub hkeep

/-! ## Two runs with one measurement -/

/-- Every answer as expected, and a frame of 25.00 degrees and 50.00 percent. -/
def measurement (arrivals : List Arrival) : DeviceInput where
  it :=
    { request := ⟨0x08, 0x18⟩
      read := ⟨0x08, 0x40, ⟨0x50, 0x1f⟩, ⟨0x50, 0xff⟩, ⟨0x50, 0x64⟩, ⟨0x58, 0xd8⟩⟩
      released := true }
  arrivals := arrivals

/-- The vendor request for eight bytes. -/
def pairRequest : Arrival :=
  ⟨false, some (usbpidSetup, [0xc0, 0x01, 0x00, 0x00, 0x00, 0x00, 0x08, 0x00]), false⟩

/-- The iteration after the read serves the request in its first call. -/
theorem pairs_consistent_served :
    AllSteps (paired (deviceStep fun _ => []) observeFrames) (PairsConsistent fun _ => [])
      (Device.init, []) (List.replicate 202 (measurement []) ++ [measurement [pairRequest]]) := by
  apply pairs_consistent
  apply allSteps_of_forall_mem
  intro e he s
  apply not_tears_of_length_le
  rcases List.mem_append.mp he with he | he
  · rw [(List.mem_replicate.mp he).2]
    decide
  · rw [List.mem_singleton.mp he]
    decide

/-- The state before the read. -/
def armed : Device := ⟨⟨init, .preRead, 0, 201, 0, 0⟩, Driver.init⟩

theorem armed_reached :
    finish (paired (deviceStep fun _ => []) observeFrames) (Device.init, [])
      (List.replicate 201 (measurement [])) = (armed, []) := by
  decide +kernel

/-- The read serves the request between its two stores: 25.00 degrees beside the
humidity 0. -/
theorem pair_torn :
    (deviceStep (fun _ => []) armed (measurement (List.replicate 8 .quiet ++ [pairRequest]))).2 =
        [⟨[0xc0, 0x01, 0x00, 0x00, 0x00, 0x00, 0x08, 0x00],
          [0xc4, 0x09, 0x00, 0x00, 0x00, 0x00, 0x00, 0x00]⟩] ∧
      ¬AllSteps (paired (deviceStep fun _ => []) observeFrames) (PairsConsistent fun _ => [])
        (Device.init, []) (List.replicate 201 (measurement []) ++
          [measurement (List.replicate 8 .quiet ++ [pairRequest])]) := by
  have hreply : (deviceStep (fun _ => []) armed
      (measurement (List.replicate 8 .quiet ++ [pairRequest]))).2 =
        [⟨[0xc0, 0x01, 0x00, 0x00, 0x00, 0x00, 0x08, 0x00],
          [0xc4, 0x09, 0x00, 0x00, 0x00, 0x00, 0x00, 0x00]⟩] := by
    decide +kernel
  refine ⟨hreply, fun h => ?_⟩
  rw [allSteps_concat, armed_reached] at h
  have hmem := hreply ▸ List.mem_singleton_self _
  have hpair : Reply.IsPair ⟨[0xc0, 0x01, 0x00, 0x00, 0x00, 0x00, 0x08, 0x00],
      [0xc4, 0x09, 0x00, 0x00, 0x00, 0x00, 0x00, 0x00]⟩ :=
    ⟨⟨rfl, by decide, rfl⟩, rfl⟩
  have hread : frameRead armed.loop (measurement []).it = some ⟨0x1f, 0xff, 0x64, 0xd8⟩ := by
    decide
  rcases h.2 _ hmem hpair with hzero | ⟨f, hf, -, hdata⟩
  · exact absurd hzero (by decide)
  · have hframe : f = ⟨0x1f, 0xff, 0x64, 0xd8⟩ := by
      change f ∈ (frameRead armed.loop (measurement []).it).toList at hf
      rw [hread] at hf
      exact List.mem_singleton.mp hf
    rw [hframe] at hdata
    exact absurd hdata (by decide)

end TempHumid.Avr
