import Mathlib.Data.Nat.Bitwise
import TempHumid.Agreement
import TempHumid.Avr.Bus
import TempHumid.Avr.MainLoop

/-!
# The analog outputs of the AVR firmware

With the switch released the compare registers follow the latest fresh frame;
with the switch pressed they carry a square wave. The sensor codes have
variables of their own, so a press leaves nothing behind.

## Implementation notes

A frame counts as read once its START and its address have been answered.
-/

namespace TempHumid.Avr

open Machine Words

/-! ## The codes of a reading -/

/-- The 10-bit code of a temperature, clamped to 0 and 50 degrees. -/
def analogTemp (r : Reading) : ℤ := max 0 (min r.temp 5000) * 0x3ff / 5000

/-- The 10-bit code of a humidity. -/
def analogHumid (r : Reading) : ℤ := r.humid * 0x3ff / 10000

theorem analogTemp_mem (r : Reading) : 0 ≤ analogTemp r ∧ analogTemp r ≤ 0x3ff := by
  unfold analogTemp
  omega

theorem analogHumid_mem (r : Reading) : 0 ≤ analogHumid r ∧ analogHumid r ≤ 0x3ff := by
  have hlow := r.humid_nonneg
  have hhigh := r.humid_le
  unfold analogHumid
  omega

/-- The variables that publish a reading. -/
def globalsOf (r : Reading) : Globals :=
  ⟨r.words, BitVec.ofInt 32 (analogTemp r), BitVec.ofInt 32 (analogHumid r)⟩

section Decode

variable (f : Frame)

theorem toInt_tempHundredths : (tempHundredths f).toInt = f.reading.temp := by
  rw [tempHundredths_eq, Th2.toInt_tempWord]

theorem toInt_humidHundredths : (humidHundredths f).toInt = f.reading.humid := by
  rw [humidHundredths_eq, Th2.toInt_humidWord]

theorem toInt_clampTemp (t : Word) : (clampTemp t).toInt = max 0 (min t.toInt 5000) := by
  have hzero : (0 : Word).toInt = 0 := rfl
  have hmax : (5000 : Word).toInt = 5000 := rfl
  simp only [clampTemp, BitVec.slt, decide_eq_true_eq, hzero, hmax]
  split_ifs <;> simp only [hzero, hmax] at * <;> omega

/-- The products before the last divisions stay below `2^31`. -/
theorem clampProduct_lt (t : Word) : (clampTemp t).toNat * 0x3ff < 2 ^ 31 := by
  have hclamp := clampTemp_le t
  omega

theorem humidScaleProduct_lt : (humidHundredths f).toNat * 0x3ff < 2 ^ 31 := by
  have hraw := f.rawH_lt
  rw [humidHundredths_eq, Th2.toNat_humidWord]
  omega

theorem toNat_humidHundredths : ((humidHundredths f).toNat : ℤ) = f.reading.humid := by
  rw [humidHundredths_eq, Th2.toNat_humidWord]
  rfl

theorem toNat_scaleTemp (t : Word) :
    (scaleTemp t).toNat = (clampTemp t).toNat * 0x3ff / 5000 := by
  have hdiv := sdiv_mul_of_lt (n := 31) (x := clampTemp t) (y := 0x3ff) (d := 5000)
    (clampProduct_lt t) (by decide)
  rw [scaleTemp, hdiv, BitVec.toNat_udiv, toNat_mul_of_lt (n := 31) (clampProduct_lt t)]
  rfl

theorem toNat_scaleHumid : (scaleHumid (humidHundredths f)).toNat =
    (humidHundredths f).toNat * 0x3ff / 10000 := by
  have hdiv := sdiv_mul_of_lt (n := 31) (x := humidHundredths f) (y := 0x3ff) (d := 10000)
    (humidScaleProduct_lt f) (by decide)
  rw [scaleHumid, hdiv, BitVec.toNat_udiv, toNat_mul_of_lt (n := 31) (humidScaleProduct_lt f)]
  rfl

/-- A word with a small number is the word of that number. -/
theorem eq_ofInt {w : Word} {x : ℤ} (h : (w.toNat : ℤ) = x) : w = BitVec.ofInt 32 x := by
  rw [← h, BitVec.ofInt_natCast, BitVec.ofNat_toNat, BitVec.setWidth_eq]

theorem scaleTemp_eq_code :
    scaleTemp (tempHundredths f) = BitVec.ofInt 32 (analogTemp f.reading) := by
  apply eq_ofInt
  have hclamp := clampTemp_le (tempHundredths f)
  have hint : ((clampTemp (tempHundredths f)).toNat : ℤ) = max 0 (min f.reading.temp 5000) := by
    rw [← toInt_tempHundredths, ← toInt_clampTemp, BitVec.toInt_eq_toNat_of_lt (by omega)]
  rw [toNat_scaleTemp, analogTemp, ← hint]
  rfl

theorem scaleHumid_eq_code :
    scaleHumid (humidHundredths f) = BitVec.ofInt 32 (analogHumid f.reading) := by
  apply eq_ofInt
  rw [toNat_scaleHumid, analogHumid, ← toNat_humidHundredths]
  rfl

/-- A fresh frame is decoded to the variables of its reading. -/
theorem decoded_eq_globalsOf : decoded f = globalsOf f.reading := by
  rw [decoded, hundredths_eq_words, scaleTemp_eq_code, scaleHumid_eq_code, globalsOf]

end Decode

/-! ## Reads -/

/-- The frame that an iteration reads, if it reads one. -/
def frameRead (s : MainLoop) (it : Iteration) : Option Frame :=
  if s.cnt = 0 ∧ s.state = .preRead ∧ it.read.Accepted then some it.read.frame else none

def readStep (fs : List Frame) (en : Entry MainLoop Iteration LoopAct) : List Frame :=
  fs ++ (frameRead en.before en.input).toList

/-- The frames read in a list of iterations, oldest first. -/
def framesRead (its : List Iteration) : List Frame :=
  watch readStep [] (trace loopStep MainLoop.init its)

theorem framesRead_concat (its : List Iteration) (it : Iteration) :
    framesRead (its ++ [it]) = framesRead its ++ (frameRead (loopRun its) it).toList :=
  watch_concat MainLoop.init [] its it

theorem frameRead_some {s : MainLoop} {it : Iteration} (hzero : s.cnt = 0)
    (hs : s.state = .preRead) (hacc : it.read.Accepted) :
    frameRead s it = some it.read.frame := if_pos ⟨hzero, hs, hacc⟩

theorem frameRead_none {s : MainLoop} {it : Iteration}
    (h : ¬(s.cnt = 0 ∧ s.state = .preRead ∧ it.read.Accepted)) : frameRead s it = none := if_neg h

/-- An iteration publishes the fresh frame that it reads, and nothing else. -/
theorem globals_loopStep (s : MainLoop) (it : Iteration) :
    (loopStep s it).1.globals = (frameRead s it).elim s.globals fun f =>
      if f.Fresh then globalsOf f.reading else s.globals := by
  rw [loopStep, updatePwm_globals]
  by_cases hzero : s.cnt = 0
  · cases hs : s.state with
    | preMeasure =>
        have hnone : frameRead s it = none := frameRead_none (by simp [hs])
        rw [countDown_request s it hzero hs, hnone, Option.elim_none]
    | preRead =>
        rw [countDown_read s it hzero hs]
        by_cases hacc : it.read.Accepted
        · rw [frameRead_some hzero hs hacc, Option.elim_some, ← decoded_eq_globalsOf]
          simp only [readResult_globals, hacc, true_and]
        · rw [frameRead_none (fun h => hacc h.2.2), Option.elim_none]
          simp only [readResult_globals, hacc, false_and, if_false]
  · rw [countDown_run s it hzero, frameRead_none (fun h => hzero h.1), Option.elim_none]

/-- The step of the publication: the frame that an iteration reads joins the others. -/
theorem published_loopStep {s : MainLoop} {fs : List Frame}
    (h : s.globals = globalsOf (published fs)) (it : Iteration) :
    (loopStep s it).1.globals = globalsOf (published (fs ++ (frameRead s it).toList)) := by
  rw [globals_loopStep]
  cases frameRead s it with
  | none =>
      rw [Option.toList_none, List.append_nil, Option.elim_none]
      exact h
  | some f =>
      rw [Option.toList_some, published_concat, Option.elim_some, h]
      split <;> rfl

/-- After any run the variables publish the latest fresh frame. -/
theorem globals_loopRun (its : List Iteration) :
    (loopRun its).globals = globalsOf (published (framesRead its)) := by
  induction its using List.reverseRecOn with
  | nil => decide
  | append_singleton its it ih =>
      rw [loopRun_concat, framesRead_concat]
      exact published_loopStep ih it

/-! ## The compare registers -/

theorem countDown_cnt2 (it : Iteration) (s : MainLoop) : (countDown it s).1.cnt2 = s.cnt2 := by
  by_cases hzero : s.cnt = 0
  · cases hs : s.state with
    | preMeasure => rw [countDown_request s it hzero hs]
    | preRead => rw [countDown_read s it hzero hs]
  · rw [countDown_run s it hzero]

/-- The counter of the outputs is the number of updates so far. -/
theorem cnt2_loopRun (its : List Iteration) :
    (loopRun its).cnt2 = BitVec.ofNat 16 its.length := by
  induction its using List.reverseRecOn with
  | nil => rfl
  | append_singleton its it ih =>
      calc (loopRun (its ++ [it])).cnt2
          = (updatePwm it.released (countDown it (loopRun its)).1).cnt2 := by rw [loopRun_succ]
        _ = BitVec.ofNat 16 its.length + 1 := by rw [updatePwm_cnt2, countDown_cnt2, ih]
        _ = BitVec.ofNat 16 (its ++ [it]).length := by
            rw [List.length_append]
            exact (BitVec.ofNat_add its.length 1).symm

theorem countDown_cnt2_loopRun (its : List Iteration) (it : Iteration) :
    (countDown it (loopRun its)).1.cnt2 = BitVec.ofNat 16 its.length := by
  rw [countDown_cnt2, cnt2_loopRun]

/-- Bit 8 of the counter changes every 256 updates, also across its wraps. -/
theorem squareWave_iff (n : ℕ) : BitVec.ofNat 16 n &&& (0x100 : CInt) ≠ 0 ↔ n / 256 % 2 = 1 := by
  have hand : (BitVec.ofNat 16 n &&& (0x100 : CInt)).toNat = (n.testBit 8).toNat * 2 ^ 8 := by
    rw [BitVec.toNat_and, BitVec.toNat_ofNat]
    change n % 2 ^ 16 &&& 2 ^ 8 = _
    rw [Nat.and_two_pow, Nat.testBit_mod_two_pow]
    rfl
  rw [Ne, ← BitVec.toNat_inj, hand, Nat.testBit_eq_decide_div_mod_eq]
  rcases Nat.mod_two_eq_zero_or_one (n / 256) with heven | hodd
  · simp [heven]
  · simp [hodd]

/-- The mask keeps a 10-bit code. -/
theorem mask_code {x : ℤ} (h : 0 ≤ x ∧ x ≤ 0x3ff) :
    BitVec.ofInt 32 x &&& 0x3ff = BitVec.ofInt 32 x ∧
      (((BitVec.ofInt 32 x &&& 0x3ff).setWidth 16).toNat : ℤ) = x := by
  obtain ⟨n, rfl⟩ := Int.eq_ofNat_of_zero_le h.1
  have hn : n < 2 ^ 10 := by omega
  have hnat : (BitVec.ofInt 32 (n : ℤ)).toNat = n := by
    rw [BitVec.ofInt_natCast, BitVec.toNat_ofNat, Nat.mod_eq_of_lt (by omega)]
  have hmask : BitVec.ofInt 32 (n : ℤ) &&& 0x3ff = BitVec.ofInt 32 (n : ℤ) := by
    apply BitVec.eq_of_toNat_eq
    rw [BitVec.toNat_and, hnat]
    exact Nat.and_two_pow_sub_one_of_lt_two_pow hn
  constructor
  · exact hmask
  · rw [hmask, BitVec.toNat_setWidth, hnat, Nat.mod_eq_of_lt (by omega)]

/-- The update with the switch released. -/
theorem updatePwm_released {s : MainLoop} {r : Reading} (h : s.globals = globalsOf r) :
    ((updatePwm true s).ocr1a.toNat : ℤ) = analogTemp r ∧
      ((updatePwm true s).ocr1b.toNat : ℤ) = analogHumid r := by
  simp only [updatePwm, if_true, h, globalsOf]
  exact ⟨(mask_code (analogTemp_mem r)).2, (mask_code (analogHumid_mem r)).2⟩

/-- The update with the switch pressed. -/
theorem updatePwm_pressed {s : MainLoop} {n : ℕ} (h : s.cnt2 = BitVec.ofNat 16 n) :
    (updatePwm false s).ocr1a = (if n / 256 % 2 = 0 then 0x3ff else 0) ∧
      (updatePwm false s).ocr1b = (if n / 256 % 2 = 0 then 0x3ff else 0) := by
  have hwave := squareWave_iff n
  rw [← h] at hwave
  simp only [updatePwm, Bool.false_eq_true, if_false, hwave]
  rcases Nat.mod_two_eq_zero_or_one (n / 256) with heven | hodd
  · simp [heven]
  · simp [hodd]

/-- Both registers stay within 10 bits. -/
theorem registers_le (its : List Iteration) :
    (loopRun its).ocr1a.toNat ≤ 0x3ff ∧ (loopRun its).ocr1b.toNat ≤ 0x3ff := by
  rcases List.eq_nil_or_concat' its with rfl | ⟨its, it, rfl⟩
  · decide
  · have hglobals := globals_loopRun (its ++ [it])
    rw [loopRun_succ] at hglobals ⊢
    cases hlevel : it.released with
    | true =>
        rw [hlevel, updatePwm_globals] at hglobals
        obtain ⟨hocr1a, hocr1b⟩ := updatePwm_released hglobals
        have htemp := (analogTemp_mem (published (framesRead (its ++ [it])))).2
        have hhumid := (analogHumid_mem (published (framesRead (its ++ [it])))).2
        constructor <;> omega
    | false =>
        obtain ⟨hocr1a, hocr1b⟩ := updatePwm_pressed (countDown_cnt2_loopRun its it)
        rw [hocr1a, hocr1b]
        split_ifs <;> decide

/-! ## No intermediate overflow -/

/-- Every intermediate word of the decoding is the exact integer. -/
structure ExactSteps (f : Frame) : Prop where
  shiftT : (f.b2.setWidth 32 <<< 6).toInt = f.b2.toNat * 64
  rawT : (tempRaw f).toInt = f.rawT
  productT : (tempRaw f * 16500).toInt = f.rawT * 16500
  quotientT : ((tempRaw f * 16500).sdiv (16384 - 2)).toInt = f.rawT * 16500 / 16382
  temp : (tempHundredths f).toInt = f.rawT * 16500 / 16382 - 4000
  clampT : (clampTemp (tempHundredths f)).toInt = max 0 (min f.reading.temp 5000)
  scaledT : (clampTemp (tempHundredths f) * 0x3ff).toInt =
    max 0 (min f.reading.temp 5000) * 0x3ff
  shiftH : ((f.b0 &&& 0x3f).setWidth 32 <<< 8).toInt = f.b0.toNat % 64 * 256
  rawH : (humidRaw f).toInt = f.rawH
  productH : (humidRaw f * 10000).toInt = f.rawH * 10000
  humid : (humidHundredths f).toInt = f.rawH * 10000 / 16382
  scaledH : (humidHundredths f * 0x3ff).toInt = f.reading.humid * 0x3ff

section Exact

variable (f : Frame)

theorem toNat_tempRaw : (tempRaw f).toNat = f.rawT := by rw [tempRaw_eq, Th2.toNat_tempBits]

theorem toNat_humidRaw : (humidRaw f).toNat = f.rawH := by rw [humidRaw_eq, Th2.toNat_humidBits]

theorem toNat_tempProduct : (tempRaw f * 16500).toNat = f.rawT * 16500 := by
  rw [← toNat_tempRaw]
  exact toNat_mul_of_lt (n := 31) (tempProduct_lt f)

theorem toNat_humidProduct : (humidRaw f * 10000).toNat = f.rawH * 10000 := by
  rw [← toNat_humidRaw]
  exact toNat_mul_of_lt (n := 31) (humidProduct_lt f)

theorem toNat_tempQuotient :
    ((tempRaw f * 16500).sdiv (16384 - 2)).toNat = f.rawT * 16500 / 16382 := by
  rw [sdiv_mul_of_lt (n := 31) (tempProduct_lt f) (by decide), BitVec.toNat_udiv,
    toNat_tempProduct]
  rfl

theorem toNat_tempShift : (f.b2.setWidth 32 <<< 6).toNat = f.b2.toNat * 64 := by
  have hb2 := f.b2.isLt
  simp only [BitVec.toNat_shiftLeft, BitVec.toNat_setWidth, Nat.shiftLeft_eq]
  omega

theorem toNat_humidShift :
    ((f.b0 &&& 0x3f).setWidth 32 <<< 8).toNat = f.b0.toNat % 64 * 256 := by
  have hmask : (f.b0 &&& 0x3f).setWidth 32 = f.b0.setWidth 32 &&& 0x3f := BitVec.setWidth_and
  rw [hmask, BitVec.toNat_shiftLeft, Th2.toNat_and_mask, BitVec.toNat_setWidth, Nat.shiftLeft_eq]
  omega

theorem exactSteps : ExactSteps f := by
  have hrawT := f.rawT_lt
  have hrawH := f.rawH_lt
  have hb0 : f.b0.toNat % 64 < 64 := Nat.mod_lt _ (by decide)
  have hb2 := f.b2.isLt
  have hclamp : (clampTemp (tempHundredths f)).toInt = max 0 (min f.reading.temp 5000) := by
    rw [toInt_clampTemp, toInt_tempHundredths]
  have hscaledT : (clampTemp (tempHundredths f) * 0x3ff).toNat =
      (clampTemp (tempHundredths f)).toNat * 0x3ff :=
    toNat_mul_of_lt (n := 31) (clampProduct_lt (tempHundredths f))
  have hscaledH : (humidHundredths f * 0x3ff).toNat = (humidHundredths f).toNat * 0x3ff :=
    toNat_mul_of_lt (n := 31) (humidScaleProduct_lt f)
  constructor
  case shiftT => exact_mod_cast toInt_of_toNat_eq (n := 31) (toNat_tempShift f) (by omega)
  case rawT => exact toInt_of_toNat_eq (n := 31) (toNat_tempRaw f) (by omega)
  case productT => exact_mod_cast toInt_of_toNat_eq (n := 31) (toNat_tempProduct f) (by omega)
  case quotientT => exact_mod_cast toInt_of_toNat_eq (n := 31) (toNat_tempQuotient f) (by omega)
  case temp => exact toInt_tempHundredths f
  case clampT => exact hclamp
  case scaledT =>
    have hle := clampTemp_le (tempHundredths f)
    rw [← hclamp, toInt_of_lt (n := 31) (x := clampTemp (tempHundredths f)) (by omega)]
    exact_mod_cast toInt_of_toNat_eq (n := 31) hscaledT (clampProduct_lt (tempHundredths f))
  case shiftH => exact_mod_cast toInt_of_toNat_eq (n := 31) (toNat_humidShift f) (by omega)
  case rawH => exact toInt_of_toNat_eq (n := 31) (toNat_humidRaw f) (by omega)
  case productH => exact_mod_cast toInt_of_toNat_eq (n := 31) (toNat_humidProduct f) (by omega)
  case humid => exact toInt_humidHundredths f
  case scaledH =>
    rw [← toNat_humidHundredths]
    exact_mod_cast toInt_of_toNat_eq (n := 31) hscaledH (humidScaleProduct_lt f)

end Exact

/-! ## The outputs of a run -/

/-- The analog outputs after any run: a released switch gives the codes of the
latest fresh frame, a pressed one a square wave of the number of the update. The
registers stay in range, the masks and the arithmetic are exact, and an iteration
that reads no fresh frame leaves the three variables alone. -/
theorem analog_output (its : List Iteration) (it : Iteration) :
    let s := loopRun (its ++ [it])
    let r := published (framesRead (its ++ [it]))
    (it.released = true →
        (s.ocr1a.toNat : ℤ) = analogTemp r ∧ (s.ocr1b.toNat : ℤ) = analogHumid r) ∧
      (it.released = false →
        s.ocr1a = (if its.length / 256 % 2 = 0 then 0x3ff else 0) ∧
          s.ocr1b = (if its.length / 256 % 2 = 0 then 0x3ff else 0)) ∧
      ((loopRun its).ocr1a.toNat ≤ 0x3ff ∧ (loopRun its).ocr1b.toNat ≤ 0x3ff) ∧
      (s.globals.tempVal &&& 0x3ff = s.globals.tempVal ∧
        s.globals.humidVal &&& 0x3ff = s.globals.humidVal) ∧
      (∀ f, ExactSteps f) ∧
      ((∀ f, frameRead (loopRun its) it = some f → ¬f.Fresh) →
        s.globals = (loopRun its).globals) := by
  intro s r
  have hstep : s = updatePwm it.released (countDown it (loopRun its)).1 := loopRun_succ its it
  have hglobals : s.globals = globalsOf r := globals_loopRun (its ++ [it])
  refine ⟨fun hreleased => ?_, fun hpressed => ?_, registers_le its, ⟨?_, ?_⟩, exactSteps,
    fun hstale => ?_⟩
  · rw [hreleased] at hstep
    rw [hstep, updatePwm_globals] at hglobals
    rw [hstep]
    exact updatePwm_released hglobals
  · rw [hpressed] at hstep
    rw [hstep]
    exact updatePwm_pressed (countDown_cnt2_loopRun its it)
  · rw [hglobals]
    exact (mask_code (analogTemp_mem r)).1
  · rw [hglobals]
    exact (mask_code (analogHumid_mem r)).1
  · have hnext : s = (loopStep (loopRun its) it).1 := loopRun_concat its it
    rw [hnext, globals_loopStep]
    cases hread : frameRead (loopRun its) it with
    | none => rfl
    | some f => exact if_neg (hstale f hread)

end TempHumid.Avr
