import TempHumid.Th2.Decode

/-!
# The analog output

The DAC codes stay in the 12-bit space of the DACs exactly as long as the
switch-released fresh frames carry a temperature between 0 and 50.01 degrees.
The handler scales the published word without clamping it, and a negative
temperature is a word close to `2^32`.
-/

namespace TempHumid.Th2

open Machine

/-! ## Scaling a frame -/

/-- The temperature fields whose scaled code fits the 12-bit space. -/
def TempInSpace (f : Frame) : Prop := 3972 ≤ f.rawT ∧ f.rawT ≤ 8937

instance (f : Frame) : Decidable (TempInSpace f) :=
  inferInstanceAs (Decidable (3972 ≤ f.rawT ∧ f.rawT ≤ 8937))

section Scale

variable (f : Frame)

theorem toNat_scaleTemp :
    (scaleTemp (tempWord f)).toNat = (tempWord f).toNat * 0xfff % 2 ^ 32 / 5000 := by
  rw [scaleTemp, BitVec.toNat_udiv, BitVec.toNat_mul]
  rfl

theorem toNat_scaleHumid :
    (scaleHumid (humidWord f)).toNat = f.rawH * 10000 / 16382 * 0xfff / 10000 := by
  have hraw := f.rawH_lt
  have hmul : (humidWord f * 0xfff).toNat = f.rawH * 10000 / 16382 * 0xfff := by
    rw [← toNat_humidWord]
    apply BitVec.toNat_mul_of_lt
    rw [toNat_humidWord]
    simp only [BitVec.reduceToNat]
    omega
  rw [scaleHumid, BitVec.toNat_udiv, hmul]
  rfl

theorem scaleHumid_le : (scaleHumid (humidWord f)).toNat ≤ 0xfff := by
  have hraw := f.rawH_lt
  rw [toNat_scaleHumid]
  omega

theorem tempInSpace_iff : TempInSpace f ↔ 0 ≤ f.reading.temp ∧ f.reading.temp ≤ 5001 := by
  simp only [TempInSpace, Frame.reading]
  omega

/-- From 0 degrees on nothing wraps. -/
theorem scaleTemp_of_nonneg (h : 0 ≤ f.reading.temp) :
    ((scaleTemp (tempWord f)).toNat : ℤ) = f.reading.temp * 0xfff / 5000 := by
  have hle := f.reading_temp_le
  have hword : ((tempWord f).toNat : ℤ) = f.reading.temp := by
    rw [← toInt_tempWord, BitVec.toInt_eq_toNat_cond] at h ⊢
    split at h <;> omega
  rw [toNat_scaleTemp]
  omega

/-- Below 0 degrees the product wraps to a code far above the space. -/
theorem scaleTemp_of_neg (h : f.reading.temp < 0) :
    0xfff < (scaleTemp (tempWord f)).toNat := by
  have hge := f.reading.temp_ge
  obtain ⟨k, hk, hword⟩ : ∃ k, (0 < k ∧ k ≤ 4000) ∧ (tempWord f).toNat = 2 ^ 32 - k := by
    refine ⟨(-f.reading.temp).toNat, by omega, ?_⟩
    rw [← toInt_tempWord, BitVec.toInt_eq_toNat_cond] at h ⊢
    split at h <;> omega
  have hproduct : (tempWord f).toNat * 0xfff = (2 ^ 32 - k * 0xfff) + 0xffe * 2 ^ 32 := by
    rw [hword]
    omega
  rw [toNat_scaleTemp, hproduct, Nat.add_mul_mod_self_right, Nat.mod_eq_of_lt (by omega)]
  omega

theorem scaleTemp_le_iff : (scaleTemp (tempWord f)).toNat ≤ 0xfff ↔ TempInSpace f := by
  rw [tempInSpace_iff]
  rcases lt_or_ge f.reading.temp 0 with hneg | hnonneg
  · have hcode := scaleTemp_of_neg f hneg
    omega
  · have hcode := scaleTemp_of_nonneg f hnonneg
    omega

/-- Inside the space the code is the scaled, clamped temperature. -/
theorem scaleTemp_eq (h : TempInSpace f) :
    ((scaleTemp (tempWord f)).toNat : ℤ) = max 0 (min f.reading.temp 5000) * 0xfff / 5000 := by
  obtain ⟨hnonneg, hle⟩ := (tempInSpace_iff f).mp h
  rw [scaleTemp_of_nonneg f hnonneg]
  omega

theorem scaleHumid_eq :
    ((scaleHumid (humidWord f)).toNat : ℤ) = f.reading.humid * 0xfff / 10000 := by
  rw [toNat_scaleHumid]
  simp only [Frame.reading]
  omega

end Scale

/-! ## Runs -/

/-- What an activation has to do: keep both codes in the 12-bit space, send a
first data byte with a zero upper nibble, and scale the published values of a
fresh frame that it decodes with the switch released. -/
structure AnalogOk (s : Firmware) (e : Event) : Prop where
  tdac : (step s e).1.tdacVal.toNat ≤ 0xfff
  hdac : (step s e).1.hdacVal.toNat ≤ 0xfff
  firstByte : s.state = .dac0Write ∨ s.state = .dac1Write →
    ∀ b : Byte, .write b ∈ (step s e).2 → b >>> 4 = 0
  scaled : ∀ b f, e = .sb b true → .decode f ∈ (step s e).2 → f.Fresh →
    ((step s e).1.tdacVal.toNat : ℤ) =
        max 0 (min (step s e).1.usbVal.w0.toInt 5000) * 0xfff / 5000 ∧
      ((step s e).1.hdacVal.toNat : ℤ) = (step s e).1.usbVal.w1.toInt * 0xfff / 10000

/-- The condition on an activation: a fresh frame completed with the switch
released carries a temperature field in the space. -/
def FrameInSpace (s : Firmware) (e : Event) : Prop :=
  ∀ b f, e = .sb b true → completed s e = some f → f.Fresh → TempInSpace f

/-- Both codes are in the 12-bit space, and `bytes_read` is an index. -/
structure CodesInv (s : Firmware) : Prop where
  index : s.bytesRead ≤ 3
  tdac : s.tdacVal.toNat ≤ 0xfff
  hdac : s.hdacVal.toNat ≤ 0xfff

theorem codesInv_init : CodesInv init where
  index := Nat.zero_le 3
  tdac := Nat.zero_le 0xfff
  hdac := Nat.zero_le 0xfff

section Step

variable {s : Firmware} {e : Event}

theorem calibLevel_le (tick : Word) : (calibLevel tick).toNat ≤ 0xfff := by
  unfold calibLevel
  split <;> decide

theorem tickCode_le {released : Bool} {code : Word} (h : code.toNat ≤ 0xfff) :
    (tickCode released s code).toNat ≤ 0xfff := by
  cases released with
  | true => exact h
  | false => exact calibLevel_le _

/-- The three writers of the codes keep them in the space. -/
theorem codesInv_step (h : CodesInv s) (hcond : FrameInSpace s e) : CodesInv (step s e).1 := by
  have hindex := bytesRead_step h.index e
  cases hc : completed s e with
  | some f =>
      obtain ⟨b, released, rfl, -, hstep⟩ := step_of_completed hc
      rw [hstep] at hindex ⊢
      refine ⟨hindex, ?_, ?_⟩
      · by_cases hw : f.Fresh ∧ released = true
        · obtain ⟨hfresh, rfl⟩ := hw
          have hspace := hcond b f rfl hc hfresh
          simpa [afterFrame, hfresh] using (scaleTemp_le_iff f).mpr hspace
        · simpa only [afterFrame, if_neg hw] using h.tdac
      · by_cases hw : f.Fresh ∧ released = true
        · simpa only [afterFrame, if_pos hw] using scaleHumid_le f
        · simpa only [afterFrame, if_neg hw] using h.hdac
  | none =>
      cases e with
      | tick released =>
          obtain ⟨-, ht, hh⟩ := tick_codes s released
          exact ⟨hindex, ht ▸ tickCode_le h.tdac, hh ▸ tickCode_le h.hdac⟩
      | mb =>
          obtain ⟨-, ht, hh⟩ := mb_keeps s
          exact ⟨hindex, ht ▸ h.tdac, hh ▸ h.hdac⟩
      | sb b released =>
          obtain ⟨-, ht, hh⟩ := sb_of_not_completed h.index hc
          exact ⟨hindex, ht ▸ h.tdac, hh ▸ h.hdac⟩

/-- The high byte of a code in the space has a zero upper nibble. -/
theorem toByte_high {code : Word} (h : code.toNat ≤ 0xfff) : toByte (code >>> 8) >>> 4 = 0 := by
  apply BitVec.eq_of_toNat_eq
  simp only [toByte, BitVec.toNat_ushiftRight, BitVec.toNat_setWidth, Nat.shiftRight_eq_div_pow]
  change _ = 0
  omega

theorem firstByte_of_codesInv (h : CodesInv s)
    (hs : s.state = .dac0Write ∨ s.state = .dac1Write) {b : Byte}
    (hb : .write b ∈ (step s e).2) : b >>> 4 = 0 := by
  cases e with
  | tick released =>
      have hwrite := mem_tick hb
      simp at hwrite
  | mb =>
      simp only [step] at hb
      rcases hs with hs | hs
      · rw [mb_dac0Write hs] at hb
        obtain rfl : b = toByte (s.tdacVal >>> 8) := by simpa using hb
        exact toByte_high h.tdac
      · rw [mb_dac1Write hs] at hb
        obtain rfl : b = toByte (s.hdacVal >>> 8) := by simpa using hb
        exact toByte_high h.hdac
  | sb c released =>
      have hne : s.state ≠ .hihReceive := by
        rcases hs with hs | hs <;> rw [hs] <;> decide
      simp only [step] at hb
      rw [sb_unexpected c released hne] at hb
      simp at hb

/-- The codes and the readings that a fresh frame leaves with the switch released. -/
theorem scaled_of_completed {b : Byte} {f : Frame} (hc : completed s (.sb b true) = some f)
    (hfresh : f.Fresh) :
    (step s (.sb b true)).1.tdacVal = scaleTemp (tempWord f) ∧
      (step s (.sb b true)).1.hdacVal = scaleHumid (humidWord f) ∧
      (step s (.sb b true)).1.usbVal = f.reading.words := by
  obtain ⟨b', released, he, -, hstep⟩ := step_of_completed hc
  cases he
  rw [hstep]
  simp only [afterFrame, hfresh, and_self, if_true, words_eq]

theorem completed_of_decode (hb : s.bytesRead ≤ 3) {f : Frame} (h : .decode f ∈ (step s e).2) :
    completed s e = some f := by
  obtain ⟨hs, h3, -, b, released, rfl, rfl⟩ := decode_step hb h
  exact completed_sb hs h3

theorem analogOk_of_codesInv (h : CodesInv s) (hcond : FrameInSpace s e) : AnalogOk s e where
  tdac := (codesInv_step h hcond).tdac
  hdac := (codesInv_step h hcond).hdac
  firstByte hs _ hb := firstByte_of_codesInv h hs hb
  scaled := by
    rintro b f rfl hdec hfresh
    have hc := completed_of_decode h.index hdec
    obtain ⟨ht, hh, hu⟩ := scaled_of_completed hc hfresh
    rw [ht, hh, hu, Reading.toInt_w0, Reading.toInt_w1]
    exact ⟨scaleTemp_eq f (hcond b f rfl hc hfresh), scaleHumid_eq f⟩

/-- A code in the space betrays that the frame was in it. -/
theorem frameInSpace_of_analogOk (h : AnalogOk s e) : FrameInSpace s e := by
  rintro b f rfl hc hfresh
  apply (scaleTemp_le_iff f).mp
  rw [← (scaled_of_completed hc hfresh).1]
  exact h.tdac

end Step

/-- In a run, the analog output is right at every step if and only if every
fresh frame completed with the switch released is in the space. -/
theorem analog_iff (evs : List Event) :
    AllSteps step AnalogOk init evs ↔ AllSteps step FrameInSpace init evs := by
  constructor
  · exact AllSteps.mono fun _ _ => frameInSpace_of_analogOk
  · intro h
    exact h.of_invariant codesInv_init (fun _ _ => codesInv_step) fun _ _ => analogOk_of_codesInv

/-- A frame that carries 60.00 degrees and a humidity of 0. -/
def hotFrame : Frame := ⟨0, 0, 155, 36⟩

/-- At 60.00 degrees the code is 4914, and the byte `0x13` follows the address. -/
theorem hot_not_analogOk : ¬AllSteps step AnalogOk init (firstRead hotFrame true ++ [.mb]) := by
  intro h
  have hcode : (run (firstRead hotFrame true)).tdacVal.toNat = 4914 := by decide +kernel
  have hstate : (run (firstRead hotFrame true)).state = .dac0Write := by decide +kernel
  have hbyte := (allSteps_concat.mp h).2.firstByte (.inl hstate) 0x13 (by decide +kernel)
  exact absurd hbyte (by decide)

end TempHumid.Th2
