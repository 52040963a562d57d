import TempHumid.Library.Words
import TempHumid.Avr.Bus
import TempHumid.Th2.Decode

/-!
# The two firmwares decode alike

`read_result` of the AVR firmware computes with signed words, the handler of
the th2 firmware with unsigned ones. Both publish the reading of the latest
fresh frame, and no product on the way leaves 32 bits.
-/

namespace TempHumid

open Machine Words

namespace Avr

/-! ## The arithmetic of `read_result` -/

section Arithmetic

variable (f : Frame)

theorem tempRaw_eq : tempRaw f = Th2.tempBits f := by
  have hmsb : (f.b3.setWidth 32).msb = false := by
    apply msb_of_lt (n := 31)
    have := f.b3.isLt
    rw [BitVec.toNat_setWidth]
    omega
  rw [tempRaw, Th2.tempBits, BitVec.sshiftRight_eq_of_msb_false hmsb, BitVec.add_comm]

theorem humidRaw_eq : humidRaw f = Th2.humidBits f := by
  have hmask : (f.b0 &&& 0x3f).setWidth 32 = f.b0.setWidth 32 &&& 0x3f := BitVec.setWidth_and
  rw [humidRaw, Th2.humidBits, hmask]

theorem tempProduct_lt : (tempRaw f).toNat * 16500 < 2 ^ 31 := by
  have := f.rawT_lt
  rw [tempRaw_eq, Th2.toNat_tempBits]
  omega

theorem humidProduct_lt : (humidRaw f).toNat * 10000 < 2 ^ 31 := by
  have := f.rawH_lt
  rw [humidRaw_eq, Th2.toNat_humidBits]
  omega

/-- Below `2^31` the signed division is the unsigned one. -/
theorem tempHundredths_eq : tempHundredths f = Th2.tempWord f := by
  have hdiv := sdiv_mul_of_lt (n := 31) (x := tempRaw f) (y := 16500) (d := 16384 - 2)
    (tempProduct_lt f) (by decide)
  rw [tempHundredths, hdiv, tempRaw_eq]
  rfl

theorem humidHundredths_eq : humidHundredths f = Th2.humidWord f := by
  have hdiv := sdiv_mul_of_lt (n := 31) (x := humidRaw f) (y := 10000) (d := 16384 - 2)
    (humidProduct_lt f) (by decide)
  rw [humidHundredths, hdiv, humidRaw_eq]
  rfl

/-- The published words are those of the reading. -/
theorem hundredths_eq_words :
    (⟨tempHundredths f, humidHundredths f⟩ : UsbVal) = f.reading.words := by
  rw [tempHundredths_eq, humidHundredths_eq, Th2.words_eq]

/-- The clamp leaves a word between 0 and 5000. -/
theorem clampTemp_le (t : Word) : (clampTemp t).toNat ≤ 5000 := by
  have hzero : (0 : Word).toInt = 0 := rfl
  have hmax : (5000 : Word).toInt = 5000 := rfl
  simp only [clampTemp, BitVec.slt, decide_eq_true_eq, hzero, hmax]
  by_cases hneg : t.toInt < 0
  · rw [if_pos hneg]
    decide
  · rw [if_neg hneg]
    by_cases hbig : 5000 < t.toInt
    · rw [if_pos hbig]
      decide
    · rw [if_neg hbig]
      rw [BitVec.toInt_eq_toNat_cond] at hneg hbig
      split at hbig <;> omega

end Arithmetic

/-! ## Sequences of reads -/

/-- The answers to one read with every status as expected. -/
structure CleanRead extends ReadEnv where
  start_ok : start &&& 0xf8 = 0x08 ∨ start &&& 0xf8 = 0x10
  address_ok : address &&& 0xf8 = 0x40

/-- The globals after a sequence of reads. -/
def feedAll (reads : List CleanRead) : Globals :=
  reads.foldl (fun g r => (readResult r.toReadEnv g).1) init

theorem CleanRead.accepted (r : CleanRead) : r.Accepted where
  start := (startRefused_eq_false_iff r.start).mpr r.start_ok
  address := r.address_ok

/-- A clean read publishes a fresh frame and leaves `usb_val` alone otherwise. -/
theorem usbVal_readResult (r : CleanRead) (g : Globals) :
    (readResult r.toReadEnv g).1.usbVal =
      if r.frame.Fresh then r.frame.reading.words else g.usbVal := by
  rw [readResult_globals]
  by_cases hfresh : r.frame.Fresh
  · rw [if_pos ⟨r.accepted, hfresh⟩, if_pos hfresh]
    exact hundredths_eq_words r.frame
  · rw [if_neg (fun h => hfresh h.2), if_neg hfresh]

theorem usbVal_feedAll (reads : List CleanRead) :
    (feedAll reads).usbVal = (published (reads.map fun r => r.frame)).words :=
  foldl_published (fun g r => usbVal_readResult r g) rfl reads

end Avr

namespace Th2

/-- One read of the sensor: the start of the read, and its four bytes. -/
def feed (s : Firmware) (r : Frame × Bool) : Firmware :=
  finish step (startRead s).1 (r.1.toList.map fun b => .sb b r.2)

def feedAll (reads : List (Frame × Bool)) : Firmware := reads.foldl feed init

/-- The four bytes of a read fill `hih_val` and are decoded. -/
theorem usbVal_feed (s : Firmware) (f : Frame) (released : Bool) :
    (feed s (f, released)).usbVal = if f.Fresh then f.reading.words else s.usbVal := by
  simp only [feed, Frame.toList, List.map_cons, List.map_nil, finish_cons, finish_nil, step]
  rw [sb_early f.b0 released (s := (startRead s).1) rfl (Nat.zero_le 2),
    sb_early f.b1 released rfl (show 1 ≤ 2 by decide),
    sb_early f.b2 released rfl (show 2 ≤ 2 by decide), sb_last f.b3 released rfl rfl]
  simp only [afterFrame, words_eq]
  rfl

theorem usbVal_feedAll (reads : List (Frame × Bool)) :
    (feedAll reads).usbVal = (published (reads.map Prod.fst)).words :=
  have hfeed (s : Firmware) (r : Frame × Bool) :
      (feed s r).usbVal = if r.1.Fresh then r.1.reading.words else s.usbVal :=
    usbVal_feed s r.1 r.2
  foldl_published hfeed rfl reads

end Th2

/-! ## The declared ranges -/

/-- The logical ranges in force at each `INPUT` item of a report descriptor. An
item has its size in the two low bits of its first byte. -/
def declaredRanges : ℕ → ℤ → ℤ → List Byte → List (ℤ × ℤ)
  | 0, _, _, _ => []
  | _ + 1, _, _, [] => []
  | fuel + 1, low, high, b :: bs =>
      let size := if b &&& 0x03 = 3 then 4 else (b &&& 0x03).toNat
      let arg := signed (bs.take size)
      let rest := bs.drop size
      if b &&& 0xfc = 0x14 then declaredRanges fuel arg high rest
      else if b &&& 0xfc = 0x24 then declaredRanges fuel low arg rest
      else if b &&& 0xfc = 0x80 then (low, high) :: declaredRanges fuel low high rest
      else declaredRanges fuel low high rest

/-- The descriptor declares the ranges that a `Reading` carries. -/
theorem declaredRanges_descriptor :
    declaredRanges Avr.usbDescriptorHidReport.length 0 0 Avr.usbDescriptorHidReport =
      [(-4000, 16500), (0, 10000)] := by
  decide +kernel

/-- Both values, read as signed words, lie in the ranges that the descriptor declares. -/
def InDeclaredRanges (v : UsbVal) : Prop :=
  List.Forall₂ (fun x r => r.1 ≤ x ∧ x ≤ r.2) [v.w0.toInt, v.w1.toInt]
    (declaredRanges Avr.usbDescriptorHidReport.length 0 0 Avr.usbDescriptorHidReport)

theorem inDeclaredRanges_iff (v : UsbVal) : InDeclaredRanges v ↔
    (-4000 ≤ v.w0.toInt ∧ v.w0.toInt ≤ 16500) ∧ (0 ≤ v.w1.toInt ∧ v.w1.toInt ≤ 10000) := by
  rw [InDeclaredRanges, declaredRanges_descriptor]
  simp

theorem inDeclaredRanges_words (r : Reading) : InDeclaredRanges r.words := by
  rw [inDeclaredRanges_iff, Reading.toInt_w0, Reading.toInt_w1]
  exact ⟨⟨r.temp_ge, r.temp_le⟩, r.humid_nonneg, r.humid_le⟩

namespace Avr

/-- The globals after a sequence of reads with arbitrary answers. -/
def readAll (envs : List ReadEnv) : Globals := envs.foldl (fun g env => (readResult env g).1) init

/-- What a read leaves in `usb_val`, and what the polls within it can see, are
the words before it, those of its frame, or one of each. -/
theorem readResult_ranges (env : ReadEnv) {g : Globals} (h : InDeclaredRanges g.usbVal) :
    InDeclaredRanges (readResult env g).1.usbVal ∧
      ∀ v, .poll v ∈ (readResult env g).2.1 → InDeclaredRanges v := by
  have hnew : InDeclaredRanges ⟨tempHundredths env.frame, humidHundredths env.frame⟩ := by
    rw [hundredths_eq_words]
    exact inDeclaredRanges_words _
  constructor
  · rw [readResult_globals]
    split
    · exact hnew
    · exact h
  · intro v hv
    rcases poll_readResult hv with hold | ⟨-, htorn⟩
    · exact hold ▸ h
    · obtain rfl : v = ⟨tempHundredths env.frame, g.usbVal.w1⟩ := Act.poll.inj htorn
      rw [inDeclaredRanges_iff] at h hnew ⊢
      exact ⟨hnew.1, h.2⟩

theorem readAll_ranges (envs : List ReadEnv) : InDeclaredRanges (readAll envs).usbVal := by
  induction envs using List.reverseRecOn with
  | nil => exact inDeclaredRanges_words .zero
  | append_singleton envs env ih =>
      rw [readAll, List.foldl_append, List.foldl_cons, List.foldl_nil]
      exact (readResult_ranges env ih).1

end Avr

/-- No product of `read_result` overflows `int32_t`. -/
def Avr.NoOverflow (f : Frame) : Prop :=
  (tempRaw f).smulOverflow 16500 = false ∧ (humidRaw f).smulOverflow 10000 = false ∧
    (clampTemp (tempHundredths f)).smulOverflow 0x3ff = false ∧
    (humidHundredths f).smulOverflow 0x3ff = false

/-- No product on the way to `usb_val` loses high bits of `uint32_t`. -/
def Th2.NoOverflow (f : Frame) : Prop :=
  (tempBits f).umulOverflow 16500 = false ∧ (humidBits f).umulOverflow 10000 = false

theorem Avr.noOverflow (f : Frame) : Avr.NoOverflow f := by
  have htemp := tempProduct_lt f
  have hhumid := humidProduct_lt f
  have hclamp := clampTemp_le (tempHundredths f)
  have hrawT := f.rawT_lt
  have hrawH := f.rawH_lt
  have hpercent : (humidHundredths f).toNat ≤ 10000 := by
    rw [humidHundredths_eq, Th2.toNat_humidWord]
    omega
  have hclamped : (clampTemp (tempHundredths f)).toNat * 0x3ff < 2 ^ 31 :=
    Nat.lt_of_le_of_lt (Nat.mul_le_mul_right _ hclamp) (by decide)
  have hscaled : (humidHundredths f).toNat * 0x3ff < 2 ^ 31 :=
    Nat.lt_of_le_of_lt (Nat.mul_le_mul_right _ hpercent) (by decide)
  refine ⟨?_, ?_, ?_, ?_⟩
  · exact smulOverflow_of_lt (n := 31) (by omega) (by decide) htemp
  · exact smulOverflow_of_lt (n := 31) (by omega) (by decide) hhumid
  · exact smulOverflow_of_lt (n := 31) (by omega) (by decide) hclamped
  · exact smulOverflow_of_lt (n := 31) (by omega) (by decide) hscaled

theorem Th2.noOverflow (f : Frame) : Th2.NoOverflow f := by
  constructor
  · exact decide_eq_false (Nat.not_le.mpr (tempBits_mul_lt f))
  · exact decide_eq_false (Nat.not_le.mpr (humidBits_mul_lt f))

/-- The two firmwares agree after every sequence of frames: on the zeros before
the first frame, and after each further frame on the floors of the exact
quotients if the frame is fresh and on the old words otherwise. In every state
of either firmware, also within a read, the values lie in the declared ranges. No
product overflows. `Avr.NoOverflow` speaks of all signed products of `read_result`,
those of the analog outputs included; `Th2.NoOverflow` of the two unsigned products
on the way to `usb_val`, and not of the scaling for the DAC, which may wrap. -/
theorem decode_agreement (reads : List (Avr.CleanRead × Bool)) :
    let th2 := fun rs : List (Avr.CleanRead × Bool) =>
      (Th2.feedAll (rs.map fun r => (r.1.frame, r.2))).usbVal
    let avr := fun rs : List (Avr.CleanRead × Bool) => (Avr.feedAll (rs.map Prod.fst)).usbVal
    (avr reads = th2 reads ∧
      ∀ r, (r.1.frame.status ≠ 0 → avr (reads ++ [r]) = avr reads) ∧
        (r.1.frame.status = 0 →
          (avr (reads ++ [r])).w0.toInt = (r.1.frame.rawT * 16500 / 16382 : ℕ) - 4000 ∧
          (avr (reads ++ [r])).w1.toInt = (r.1.frame.rawH * 10000 / 16382 : ℕ))) ∧
      (∀ f, Avr.NoOverflow f ∧ Th2.NoOverflow f) ∧
      (∀ evs, InDeclaredRanges (Th2.run evs).usbVal) ∧
      ∀ envs env, InDeclaredRanges (Avr.readAll envs).usbVal ∧
        ∀ v, .poll v ∈ (Avr.readResult env (Avr.readAll envs)).2.1 → InDeclaredRanges v := by
  intro th2 avr
  have havr (rs : List (Avr.CleanRead × Bool)) :
      avr rs = (published (rs.map fun r => r.1.frame)).words := by
    simp only [avr, Avr.usbVal_feedAll, List.map_map, Function.comp_def]
  have hth2 (rs : List (Avr.CleanRead × Bool)) :
      th2 rs = (published (rs.map fun r => r.1.frame)).words := by
    simp only [th2, Th2.usbVal_feedAll, List.map_map, Function.comp_def]
  refine ⟨⟨(havr reads).trans (hth2 reads).symm, fun r => ⟨fun hstale => ?_, fun hfresh => ?_⟩⟩,
    fun f => ⟨Avr.noOverflow f, Th2.noOverflow f⟩, fun evs => ?_, fun envs env => ?_⟩
  · have hf : ¬r.1.frame.Fresh := hstale
    rw [havr, havr, List.map_append, List.map_singleton, published_concat, if_neg hf]
  · have hf : r.1.frame.Fresh := hfresh
    rw [havr, List.map_append, List.map_singleton, published_concat, if_pos hf,
      Reading.toInt_w0, Reading.toInt_w1]
    exact ⟨rfl, rfl⟩
  · rw [Th2.usbVal_run]
    exact inDeclaredRanges_words _
  · exact ⟨Avr.readAll_ranges envs, (Avr.readResult_ranges env (Avr.readAll_ranges envs)).2⟩

end TempHumid
