import TempHumid.Avr.Firmware

/-!
# The bus transactions of the AVR firmware

Both sensor functions test the status after the START and after the address.
Neither gives the bus back when the address is refused, and `read_result` does
not look at the status of the data bytes.

## Implementation notes

Three lemmas for each function say what it does when the START is refused, when
the address is refused, and when both are answered. Later proofs use these and
do not unfold the functions.
-/

namespace TempHumid.Avr

/-- The status bits of `TWSR`, without its prescaler bits. -/
def twStatus (twsr : Byte) : Byte := twsr &&& 0xf8

/-! ## The three ways through a transaction -/

section Request

variable {env : RequestEnv} (g : Globals)

theorem requestMeasurement_refused (h : startRefused env.start = true) :
    requestMeasurement env g = ([.twcr .start, .twcr .run], -1) := if_pos h

theorem requestMeasurement_unanswered (h : startRefused env.start = false)
    (haddr : twStatus env.address ≠ 0x18) :
    requestMeasurement env g =
      ([.twcr .start, .poll g.usbVal, .twdr sla, .twcr .run, .twcr .run], -2) := by
  rw [requestMeasurement, h]
  exact if_pos haddr

theorem requestMeasurement_accepted (h : startRefused env.start = false)
    (haddr : twStatus env.address = 0x18) :
    requestMeasurement env g =
      ([.twcr .start, .poll g.usbVal, .twdr sla, .twcr .run, .poll g.usbVal, .twcr .stop], 0) := by
  rw [requestMeasurement, h]
  exact if_neg (not_not.mpr haddr)

end Request

/-- The START and the address of a read are answered. -/
structure ReadEnv.Accepted (env : ReadEnv) : Prop where
  start : startRefused env.start = false
  address : twStatus env.address = 0x40

instance (env : ReadEnv) : Decidable env.Accepted :=
  decidable_of_iff (startRefused env.start = false ∧ twStatus env.address = 0x40)
    ⟨fun h => ⟨h.1, h.2⟩, fun h => ⟨h.start, h.address⟩⟩

/-- The variables after a fresh frame. -/
def decoded (f : Frame) : Globals where
  usbVal := ⟨tempHundredths f, humidHundredths f⟩
  tempVal := scaleTemp (tempHundredths f)
  humidVal := scaleHumid (humidHundredths f)

/-- The poll between the two stores of a fresh frame. -/
def tornPoll (f : Frame) (g : Globals) : Act := .poll ⟨tempHundredths f, g.usbVal.w1⟩

theorem decodeResult_fresh {f : Frame} (h : f.Fresh) (g : Globals) :
    decodeResult f g = (decoded f, [tornPoll f g], 0) := if_pos h

theorem decodeResult_of_not_fresh {f : Frame} (h : ¬f.Fresh) (g : Globals) :
    (decodeResult f g).1 = g ∧ (decodeResult f g).2.1 = [] := by
  have hstatus : ¬f.status = 0 := h
  rw [decodeResult, if_neg hstatus]
  split
  · exact ⟨rfl, rfl⟩
  · exact ⟨rfl, rfl⟩

section Read

variable {env : ReadEnv} (g : Globals)

theorem readResult_refused (h : startRefused env.start = true) :
    readResult env g = (g, [.twcr .start, .twcr .run], -1) := if_pos h

theorem readResult_unanswered (h : startRefused env.start = false)
    (haddr : twStatus env.address ≠ 0x40) :
    readResult env g =
      (g, [.twcr .start, .poll g.usbVal, .twdr slaR, .twcr .run, .twcr .run], -2) := by
  rw [readResult, h]
  exact if_pos haddr

/-- The accesses of a read up to the poll after its STOP. -/
def readActs (v : UsbVal) : List Act :=
  [.twcr .start, .poll v, .twdr slaR, .twcr .run, .poll v] ++ receiveActs v

theorem readResult_accepted (h : env.Accepted) :
    readResult env g = ((decodeResult env.frame g).1,
      readActs g.usbVal ++ (decodeResult env.frame g).2.1, (decodeResult env.frame g).2.2) := by
  rw [readResult, h.start]
  exact if_neg (not_not.mpr h.address)

/-- A read publishes a fresh frame, and leaves the variables alone otherwise. -/
theorem readResult_globals (env : ReadEnv) : (readResult env g).1 =
    if env.Accepted ∧ env.frame.Fresh then decoded env.frame else g := by
  cases hstart : startRefused env.start with
  | true =>
      have hrefused : ¬(env.Accepted ∧ env.frame.Fresh) := by
        rintro ⟨hacc, -⟩
        rw [hacc.start] at hstart
        cases hstart
      rw [readResult_refused g hstart, if_neg hrefused]
  | false =>
      by_cases haddr : twStatus env.address = 0x40
      · have hacc : env.Accepted := ⟨hstart, haddr⟩
        rw [readResult_accepted g hacc]
        by_cases hfresh : env.frame.Fresh
        · rw [if_pos ⟨hacc, hfresh⟩, decodeResult_fresh hfresh]
        · rw [if_neg (fun h => hfresh h.2)]
          exact (decodeResult_of_not_fresh hfresh g).1
      · rw [readResult_unanswered g hstart haddr, if_neg (fun h => haddr h.1.address)]

end Read

/-! ## What the polls see -/

section Polls

variable {g : Globals} {v : UsbVal}

/-- The polls of a request see the published words. -/
theorem poll_requestMeasurement {env : RequestEnv} (hv : .poll v ∈ (requestMeasurement env g).1) :
    v = g.usbVal := by
  cases hstart : startRefused env.start with
  | true =>
      rw [requestMeasurement_refused g hstart] at hv
      simp at hv
  | false =>
      by_cases haddr : twStatus env.address = 0x18
      · rw [requestMeasurement_accepted g hstart haddr] at hv
        simpa using hv
      · rw [requestMeasurement_unanswered g hstart haddr] at hv
        simpa using hv

/-- So do those of a read, but for the one between the two stores. -/
theorem poll_readResult {env : ReadEnv} (hv : .poll v ∈ (readResult env g).2.1) :
    v = g.usbVal ∨ (env.Accepted ∧ env.frame.Fresh) ∧ .poll v = tornPoll env.frame g := by
  cases hstart : startRefused env.start with
  | true =>
      rw [readResult_refused g hstart] at hv
      simp at hv
  | false =>
      by_cases haddr : twStatus env.address = 0x40
      · have hacc : env.Accepted := ⟨hstart, haddr⟩
        rw [readResult_accepted g hacc] at hv
        rcases List.mem_append.mp hv with hv | hv
        · left
          simpa [readActs, receiveActs] using hv
        · by_cases hfresh : env.frame.Fresh
          · right
            rw [decodeResult_fresh hfresh] at hv
            exact ⟨⟨hacc, hfresh⟩, List.mem_singleton.mp hv⟩
          · rw [(decodeResult_of_not_fresh hfresh g).2] at hv
            cases hv
      · rw [readResult_unanswered g hstart haddr] at hv
        left
        simpa using hv

end Polls

/-! ## Cleanly received frames -/

/-- Three data bytes answered with ACK and the fourth with NACK. -/
structure ReadEnv.DataReceived (env : ReadEnv) : Prop where
  d0 : twStatus env.d0.status = 0x50
  d1 : twStatus env.d1.status = 0x50
  d2 : twStatus env.d2.status = 0x50
  d3 : twStatus env.d3.status = 0x58

/-- A fresh frame, with the expected status at each of the six steps. -/
structure ReadEnv.CleanlyReceived (env : ReadEnv) : Prop where
  start : twStatus env.start = 0x08 ∨ twStatus env.start = 0x10
  address : twStatus env.address = 0x40
  data : env.DataReceived
  fresh : env.frame.Fresh

theorem startRefused_eq_false_iff (b : Byte) :
    startRefused b = false ↔ twStatus b = 0x08 ∨ twStatus b = 0x10 := by
  rw [startRefused, Bool.and_eq_false_iff, decide_eq_false_iff_not, decide_eq_false_iff_not,
    not_not, not_not]
  exact Iff.rfl

/-- A fresh frame changes the variables, from some value of theirs. -/
theorem exists_readResult_ne {env : ReadEnv} (hacc : env.Accepted) (hfresh : env.frame.Fresh) :
    ∃ g, (readResult env g).1 ≠ g := by
  refine ⟨⟨⟨0, 0⟩, scaleTemp (tempHundredths env.frame) + 1, 0⟩, fun h => ?_⟩
  rw [readResult_globals, if_pos ⟨hacc, hfresh⟩] at h
  have htemp := congrArg Globals.tempVal h
  simp [decoded] at htemp

/-- A read publishes only cleanly received frames, whatever the variables hold
before it, if and only if it is refused, or its frame is not fresh, or the data
bytes report what the function does not test. -/
theorem publishes_clean_iff (env : ReadEnv) :
    (∀ g, (readResult env g).1 ≠ g → env.CleanlyReceived) ↔
      startRefused env.start = true ∨ twStatus env.address ≠ 0x40 ∨ ¬env.frame.Fresh ∨
        env.DataReceived := by
  constructor
  · intro hclean
    by_cases hacc : env.Accepted
    · by_cases hfresh : env.frame.Fresh
      · obtain ⟨g, hg⟩ := exists_readResult_ne hacc hfresh
        exact .inr (.inr (.inr (hclean g hg).data))
      · exact .inr (.inr (.inl hfresh))
    · cases hstart : startRefused env.start with
      | true => exact .inl rfl
      | false => exact .inr (.inl fun haddr => hacc ⟨hstart, haddr⟩)
  · intro hcond g hg
    have hpublished : env.Accepted ∧ env.frame.Fresh := by
      by_contra hnot
      rw [readResult_globals, if_neg hnot] at hg
      exact hg rfl
    obtain ⟨hacc, hfresh⟩ := hpublished
    rcases hcond with hstart | haddr | hstale | hdata
    · rw [hacc.start] at hstart
      cases hstart
    · exact absurd hacc.address haddr
    · exact absurd hfresh hstale
    · exact ⟨(startRefused_eq_false_iff env.start).mp hacc.start, hacc.address, hdata, hfresh⟩

/-- Arbitration is lost in the NACK bit of the fourth byte. -/
def arbitrationLost : ReadEnv :=
  ⟨0x08, 0x40, ⟨0x50, 0x00⟩, ⟨0x50, 0x00⟩, ⟨0x50, 0x64⟩, ⟨0x38, 0xd8⟩⟩

/-- That frame is published as 25.00 degrees. -/
theorem arbitrationLost_published :
    (readResult arbitrationLost init).1 ≠ init ∧
      (readResult arbitrationLost init).1.usbVal = ⟨2500, 0⟩ ∧
      ¬arbitrationLost.CleanlyReceived := by
  refine ⟨by decide, by decide, fun h => ?_⟩
  exact absurd h.data.d3 (by decide)

/-! ## The bus is given back -/

/-- A write to `TWCR` that lets the unit transfer a byte. -/
def Act.clocks : Act → Bool
  | .twcr .run | .twcr .ack => true
  | _ => false

/-- After an accepted START there is a STOP, and after a refused address no
byte is transferred: the address is the only one. -/
structure BusReleased (answered : Prop) (acts : List Act) : Prop where
  stop : List.Sublist [.twcr .start, .twcr .stop] acts
  quiet : ¬answered → (acts.filter Act.clocks).length ≤ 1

/-- Without a STOP the bus is kept. -/
theorem not_busReleased {answered : Prop} {acts : List Act} (h : .twcr .stop ∉ acts) :
    ¬BusReleased answered acts := fun hreleased =>
  h (hreleased.stop.subset (List.mem_cons_of_mem _ (List.mem_singleton_self _)))

/-- A function that stops when the address is answered, and writes no STOP
otherwise, gives the bus back exactly when it is not refused the address. -/
theorem busReleased_iff {start : Byte} {answered : Prop} {acts : List Act}
    (hanswered : startRefused start = false → answered → BusReleased answered acts)
    (hunanswered : startRefused start = false → ¬answered → .twcr .stop ∉ acts) :
    (startRefused start = false → BusReleased answered acts) ↔
      (startRefused start = true ∨ answered) := by
  constructor
  · intro hreleased
    by_contra hnot
    obtain ⟨hstart, hno⟩ := not_or.mp hnot
    have haccepted : startRefused start = false := eq_false_of_ne_true hstart
    exact not_busReleased (hunanswered haccepted hno) (hreleased haccepted)
  · rintro (hstart | hyes) haccepted
    · rw [haccepted] at hstart
      cases hstart
    · exact hanswered haccepted hyes

/-- Both functions give the bus back, after an accepted START, if and only if
the address is answered. -/
theorem bus_released_iff (env : RequestEnv) (env' : ReadEnv) (g : Globals) :
    ((startRefused env.start = false →
          BusReleased (twStatus env.address = 0x18) (requestMeasurement env g).1) ↔
        (startRefused env.start = true ∨ twStatus env.address = 0x18)) ∧
      ((startRefused env'.start = false →
          BusReleased (twStatus env'.address = 0x40) (readResult env' g).2.1) ↔
        (startRefused env'.start = true ∨ twStatus env'.address = 0x40)) := by
  constructor
  · apply busReleased_iff
    · intro hstart haddr
      rw [requestMeasurement_accepted g hstart haddr]
      exact ⟨by simp, fun h => absurd haddr h⟩
    · intro hstart haddr
      rw [requestMeasurement_unanswered g hstart haddr]
      simp
  · apply busReleased_iff
    · intro hstart haddr
      rw [readResult_accepted g ⟨hstart, haddr⟩]
      constructor
      · have hstop : List.Sublist [.twcr .start, .twcr .stop] (readActs g.usbVal) := by
          simp [readActs, receiveActs]
        exact hstop.trans (List.sublist_append_left _ _)
      · exact fun h => absurd haddr h
    · intro hstart haddr
      rw [readResult_unanswered g hstart haddr]
      simp

/-- A sensor that does not answer its address keeps both functions on the bus:
the unit is told to go on after the refusal, and there is no STOP. -/
theorem unanswered_keeps_bus :
    ((requestMeasurement ⟨0x08, 0x20⟩ init).1 =
        [.twcr .start, .poll ⟨0, 0⟩, .twdr sla, .twcr .run, .twcr .run] ∧
      ¬BusReleased (twStatus 0x20 = 0x18) (requestMeasurement ⟨0x08, 0x20⟩ init).1) ∧
      ∀ d : TwiByte, ¬BusReleased (twStatus 0x48 = 0x40)
        (readResult ⟨0x08, 0x48, d, d, d, d⟩ init).2.1 := by
  have hstart : startRefused 0x08 = false := by decide
  have haddr : twStatus 0x48 ≠ 0x40 := by decide
  refine ⟨⟨by decide, not_busReleased (by decide)⟩, fun d => ?_⟩
  rw [@readResult_unanswered ⟨0x08, 0x48, d, d, d, d⟩ init hstart haddr]
  exact not_busReleased (by decide)

end TempHumid.Avr
