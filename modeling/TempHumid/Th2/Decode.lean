import TempHumid.Th2.FrameIntegrity

/-!
# Decoding a frame

The wrapping unsigned arithmetic of the handler computes the reading that the
frame carries, and `usb_val` holds the published reading of the frames
completed so far.

## Implementation notes

`completed` names the frame that an activation completes. Every other
activation leaves `usb_val` alone, and only ticks write the DAC codes besides.
-/

namespace TempHumid.Th2

open Machine

/-! ## The arithmetic of one frame -/

section Arithmetic

variable (f : Frame)

theorem toNat_tempBits : (tempBits f).toNat = f.rawT := by
  have h2 := f.b2.isLt
  have h3 := f.b3.isLt
  simp only [tempBits, Frame.rawT, BitVec.toNat_add, BitVec.toNat_ushiftRight,
    BitVec.toNat_shiftLeft, BitVec.toNat_setWidth, Nat.shiftRight_eq_div_pow, Nat.shiftLeft_eq]
  omega

theorem toNat_and_mask (w : Word) : (w &&& 0x3f).toNat = w.toNat % 64 :=
  (BitVec.toNat_and w 0x3f).trans (Nat.and_two_pow_sub_one_eq_mod w.toNat 6)

theorem toNat_humidBits : (humidBits f).toNat = f.rawH := by
  have h0 := f.b0.isLt
  have h1 := f.b1.isLt
  simp only [humidBits, Frame.rawH, BitVec.toNat_add, BitVec.toNat_shiftLeft, toNat_and_mask,
    BitVec.toNat_setWidth, Nat.shiftLeft_eq]
  omega

/-- The product of the temperature field keeps its high bits. -/
theorem tempBits_mul_lt : (tempBits f).toNat * 16500 < 2 ^ 32 := by
  have := f.rawT_lt
  rw [toNat_tempBits]
  omega

/-- The product of the humidity field keeps its high bits. -/
theorem humidBits_mul_lt : (humidBits f).toNat * 10000 < 2 ^ 32 := by
  have := f.rawH_lt
  rw [toNat_humidBits]
  omega

/-- The temperature word before the offset is subtracted. -/
theorem toNat_tempQuotient :
    (tempBits f * 16500 / (16384 - 2)).toNat = f.rawT * 16500 / 16382 := by
  have hmul : (tempBits f * 16500).toNat = f.rawT * 16500 := by
    rw [← toNat_tempBits]
    exact BitVec.toNat_mul_of_lt (tempBits_mul_lt f)
  rw [BitVec.toNat_udiv, hmul]
  rfl

theorem toNat_humidWord : (humidWord f).toNat = f.rawH * 10000 / 16382 := by
  have hmul : (humidBits f * 10000).toNat = f.rawH * 10000 := by
    rw [← toNat_humidBits]
    exact BitVec.toNat_mul_of_lt (humidBits_mul_lt f)
  rw [humidWord, BitVec.toNat_udiv, hmul]
  rfl

/-- The subtraction of the offset wraps for negative temperatures. -/
theorem toNat_tempWord :
    (tempWord f).toNat = (f.rawT * 16500 / 16382 + (2 ^ 32 - 4000)) % 2 ^ 32 := by
  rw [tempWord, BitVec.toNat_sub, toNat_tempQuotient, Nat.add_comm]
  rfl

theorem toInt_tempWord : (tempWord f).toInt = f.reading.temp := by
  have hraw := f.rawT_lt
  rw [BitVec.toInt_eq_toNat_cond, toNat_tempWord]
  simp only [Frame.reading]
  split <;> omega

theorem toInt_humidWord : (humidWord f).toInt = f.reading.humid := by
  have hraw := f.rawH_lt
  rw [BitVec.toInt_eq_toNat_cond, toNat_humidWord]
  simp only [Frame.reading]
  split <;> omega

/-- The handler computes the words of the reading. -/
theorem words_eq : (⟨tempWord f, humidWord f⟩ : UsbVal) = f.reading.words := by
  apply UsbVal.ext
  · apply BitVec.eq_of_toInt_eq
    rw [toInt_tempWord, Reading.toInt_w0]
  · apply BitVec.eq_of_toInt_eq
    rw [toInt_humidWord, Reading.toInt_w1]

end Arithmetic

/-! ## Completed frames -/

/-- The frame that an activation completes, if it stores a fourth byte. -/
def completed (s : Firmware) : Event → Option Frame
  | .sb b _ =>
      if s.state = .hihReceive ∧ s.bytesRead = 3 then some (s.hihVal.set 3 b) else none
  | .tick _ | .mb => none

section Completed

variable {s : Firmware} {e : Event}

theorem completed_sb {b : Byte} {released : Bool} (h : s.state = .hihReceive)
    (h3 : s.bytesRead = 3) : completed s (.sb b released) = some (s.hihVal.set 3 b) :=
  if_pos ⟨h, h3⟩

theorem completed_sb_eq_none {b : Byte} {released : Bool}
    (h : ¬(s.state = .hihReceive ∧ s.bytesRead = 3)) :
    completed s (.sb b released) = none :=
  if_neg h

/-- What the activation that completes a frame is and does. -/
theorem step_of_completed {f : Frame} (h : completed s e = some f) :
    ∃ b released, e = .sb b released ∧ s.state = .hihReceive ∧
      step s e = (afterFrame released f s,
        [.ackAct true, .read b true, .store 3 b, .stop, .decode f, .outSet statusG,
          .addr i2cAddrTdac]) := by
  cases e with
  | tick released => cases h
  | mb => cases h
  | sb b released =>
      by_cases hs : s.state = .hihReceive ∧ s.bytesRead = 3
      · rw [completed_sb hs.1 hs.2, Option.some_inj] at h
        subst h
        exact ⟨b, released, rfl, hs.1, sb_last b released hs.1 hs.2⟩
      · rw [completed_sb_eq_none hs] at h
        cases h

/-- An `SB` iteration that completes no frame keeps the readings and the codes. -/
theorem sb_of_not_completed {b : Byte} {released : Bool} (hb : s.bytesRead ≤ 3)
    (h : completed s (.sb b released) = none) :
    (step s (.sb b released)).1.usbVal = s.usbVal ∧
      (step s (.sb b released)).1.tdacVal = s.tdacVal ∧
      (step s (.sb b released)).1.hdacVal = s.hdacVal := by
  simp only [step]
  rcases sb_cases s hb with hs | ⟨hs, h2⟩ | ⟨hs, h3⟩
  · rw [sb_unexpected b released hs]
    exact ⟨rfl, rfl, rfl⟩
  · rw [sb_early b released hs h2]
    exact ⟨rfl, rfl, rfl⟩
  · rw [completed_sb hs h3] at h
    cases h

/-- The `MB` loop keeps the readings and the codes. -/
theorem mb_keeps (s : Firmware) : (step s .mb).1.usbVal = s.usbVal ∧
    (step s .mb).1.tdacVal = s.tdacVal ∧ (step s .mb).1.hdacVal = s.hdacVal := by
  obtain ⟨state, deadline, ack, hframe⟩ := mb_frame s
  rw [hframe]
  exact ⟨rfl, rfl, rfl⟩

/-- A tick keeps the readings and writes the codes as `tickCode` says. -/
theorem tick_codes (s : Firmware) (released : Bool) :
    (step s (.tick released)).1.usbVal = s.usbVal ∧
    (step s (.tick released)).1.tdacVal = tickCode released s s.tdacVal ∧
    (step s (.tick released)).1.hdacVal = tickCode released s s.hdacVal := by
  simp only [step, tc1Handler_eq, and_self]

/-- Only the completion of a fresh frame changes `usb_val`. -/
theorem usbVal_step (hb : s.bytesRead ≤ 3) : (step s e).1.usbVal =
    match completed s e with
    | some f => if f.Fresh then f.reading.words else s.usbVal
    | none => s.usbVal := by
  cases hc : completed s e with
  | some f =>
      obtain ⟨b, released, rfl, -, hstep⟩ := step_of_completed hc
      rw [hstep]
      simp only [afterFrame, words_eq]
  | none =>
      cases e with
      | tick released => exact (tick_codes s released).1
      | mb => exact (mb_keeps s).1
      | sb b released => exact (sb_of_not_completed hb hc).1

end Completed

/-! ## The history of completed frames -/

def decodedFrame : Act → Option Frame
  | .decode f => some f
  | _ => none

def framesStep (fs : List Frame) (en : Entry Firmware Event Act) : List Frame :=
  fs ++ en.outputs.filterMap decodedFrame

/-- The frames completed by a list of activations, oldest first. -/
def frames (evs : List Event) : List Frame := watch framesStep [] (trace step init evs)

/-- The decoding block is entered exactly for completed frames. -/
theorem decodedFrame_step {s : Firmware} (hb : s.bytesRead ≤ 3) (e : Event) :
    (step s e).2.filterMap decodedFrame = (completed s e).toList := by
  cases hc : completed s e with
  | some f =>
      obtain ⟨b, released, rfl, -, hstep⟩ := step_of_completed hc
      rw [hstep]
      rfl
  | none =>
      rw [Option.toList_none, List.filterMap_eq_nil_iff]
      intro a ha
      cases a with
      | decode f =>
          obtain ⟨hs, h3, -, b, released, rfl, -⟩ := decode_step hb ha
          rw [completed_sb hs h3] at hc
          cases hc
      | _ => rfl

theorem framesStep_entry {s : Firmware} (hb : s.bytesRead ≤ 3) (fs : List Frame) (e : Event) :
    framesStep fs (entry step s e) = fs ++ (completed s e).toList := by
  simp only [framesStep, entry, decodedFrame_step hb]

/-- `usb_val` represents the published reading of the completed frames. -/
theorem usbVal_run (evs : List Event) : (run evs).usbVal = (published (frames evs)).words := by
  refine (watch_invariant step framesStep
    (I := fun s fs => s.bytesRead ≤ 3 ∧ s.usbVal = (published fs).words)
    ⟨Nat.zero_le 3, rfl⟩ ?_ evs).2
  rintro s fs e ⟨hb, husb⟩
  refine ⟨bytesRead_step hb e, ?_⟩
  rw [framesStep_entry hb, usbVal_step hb]
  cases completed s e with
  | some f =>
      rw [Option.toList_some, published_concat, husb]
      by_cases hf : f.Fresh
      · simp only [if_pos hf]
      · simp only [if_neg hf]
  | none => rw [Option.toList_none, List.append_nil, husb]

end TempHumid.Th2
