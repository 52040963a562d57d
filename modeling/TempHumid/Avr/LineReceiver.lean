import TempHumid.Library.AvrCore
import TempHumid.Library.Crc
import TempHumid.Library.LineCode
import Mathlib.Data.List.GetD

/-!
# The software receiver of the AVR firmware

The receiver loop of `usbdrvasm16.inc`, from the two bits `K` at the end of the sync
pattern to `se0` or `overflow`. One step takes one sample of the port and runs up to
the next one. Its output is the number of clock cycles between the two.

## Implementation notes

A state stands before its sample, under the label that the sample belongs to. The
labels are the ones of the source, except that `didUnstuff6` and `rxByteLoop` stand
for the samples of bit 7 and bit 6 beside them. `leap` is the register `x4`. Every
function counts the cycles since the last sample in `t`. The bytes stored through
`Y` are kept in a list, and a sample has all pins of the port.
-/

namespace TempHumid.Avr.Line

open AvrCore (Byte rorByte)
open Machine (Step finish outputs)

/-- The pins `D-` and `D+` of the port. -/
def usbMask : Byte := 0x0c

def usbMinus : ℕ := 3

def usbBufSize : Byte := 11

inductive Label
  | haveTwoBitsK | rxBitLoop | unstuffEven | rxbit1 | unstuffOdd
  | rxByteLoop | didUnstuff6 | unstuff7 | se0 | overflow
  deriving DecidableEq

structure Rx where
  label : Label
  x1 : Byte
  x2 : Byte
  x3 : Byte
  shift : Byte
  bitcnt : Byte
  leap : Byte
  cnt : Byte
  carry : Bool
  y : List Byte

/-- The receiver at `haveTwoBitsK`. Four of the registers are not set yet. -/
def Rx.start (x1 x2 leap cnt : Byte) : Rx :=
  { label := .haveTwoBitsK, x1 := x1, x2 := x2, x3 := 0x10, shift := 0, bitcnt := 0x55,
    leap := leap, cnt := cnt, carry := false, y := [] }

/-- `subi x, 1` and `ror shift`: the bit is one if two samples are equal. -/
def shiftIn (x shift : Byte) : Byte := rorByte (decide (x < 1)) shift

/-- The shift register after `andi shift, ~0x80`. -/
def dropBit (shift : Byte) : Byte := shift &&& 0x7f

def didUnstuffE (t : ℕ) (r : Rx) : Rx × List ℕ :=
  ({ r with x3 := r.x3 >>> 1 >>> 1, label := .rxbit1 }, [t + 2])

def didUnstuffO (t : ℕ) (r : Rx) : Rx × List ℕ :=
  if r.bitcnt < 0xab then
    ({ r with bitcnt := r.bitcnt - 0xab, label := .rxBitLoop }, [t + 3])
  else
    ({ r with
        bitcnt := r.bitcnt - 0xab, carry := decide (r.cnt < 1), cnt := r.cnt - 1,
        label := .rxByteLoop },
      [t + 3])

def didUnstuff6 (t : ℕ) (r : Rx) : Rx × List ℕ :=
  ({ r with carry := decide (r.shift < 0xfc), label := .didUnstuff6 }, [t + 1])

def didUnstuff7 (t : ℕ) (r : Rx) : Rx × List ℕ :=
  if r.shift < 0xfc then
    ({ r with x3 := r.x3 ^^^ r.shift, y := r.y ++ [r.x3 ^^^ r.shift], label := .rxBitLoop },
      [t + 5])
  else ({ r with x3 := r.x3 ||| 0x80, label := .unstuff7 }, [t + 4])

/-- The first sample gives the level itself, which is the inverse of bit 0. -/
def haveTwoBitsK (r : Rx) (usbIn : Byte) : Rx × List ℕ :=
  let x1 := usbIn &&& usbMask
  let shift := if x1.getLsbD usbMinus then r.shift ||| 0x80 else dropBit r.shift
  ({ r with x1 := x1, shift := shift, leap := 0, cnt := usbBufSize, label := .rxbit1 }, [10])

def rxBitLoop (r : Rx) (usbIn : Byte) : Rx × List ℕ :=
  let x1 := usbIn &&& usbMask
  let x2 := r.x2 ^^^ x1
  let x3 := r.x3 &&& 0x3f
  let shift := shiftIn x2 r.shift
  let r := { r with x1 := x1, x2 := x2 - 1, x3 := x3, shift := shift }
  if shift < 0xfc then didUnstuffE 8 r
  else ({ r with x3 := x3 ||| 0x40, label := .unstuffEven }, [10])

def unstuffEven (r : Rx) (usbIn : Byte) : Rx × List ℕ :=
  let x1 := usbIn &&& usbMask
  let r := { r with x1 := x1, shift := dropBit r.shift }
  if x1 = 0 then ({ r with label := .se0 }, [])
  else didUnstuffE 9 { r with leap := r.leap + 1 }

def rxbit1 (r : Rx) (usbIn : Byte) : Rx × List ℕ :=
  let x2 := usbIn &&& usbMask
  if x2 = 0 then ({ r with x2 := x2, label := .se0 }, [])
  else
    let x1 := r.x1 ^^^ x2
    let shift := shiftIn x1 r.shift
    let r := { r with x2 := x2, x1 := x1 - 1, shift := shift }
    if shift < 0xfc then didUnstuffO 8 r
    else ({ r with x3 := r.x3 ||| 0x20, label := .unstuffOdd }, [10])

def unstuffOdd (r : Rx) (usbIn : Byte) : Rx × List ℕ :=
  let x2 := usbIn &&& usbMask
  let r := { r with x2 := x2, shift := dropBit r.shift }
  if x2 = 0 then ({ r with label := .se0 }, [])
  else didUnstuffO 9 { r with leap := r.leap + 1 }

/-- A leap cycle makes up for the thirds of a cycle that a byte is too short. -/
def rxByteLoop (r : Rx) (usbIn : Byte) : Rx × List ℕ :=
  if r.carry then ({ r with x1 := usbIn, label := .overflow }, [])
  else
    let x1 := usbIn &&& usbMask
    let x2 := r.x2 ^^^ x1
    let leap := r.leap - 1
    let r := { r with x1 := x1, x2 := x2 - 1, shift := shiftIn x2 r.shift }
    if leap.msb then didUnstuff6 11 { r with leap := leap + 3 }
    else didUnstuff6 10 { r with leap := leap }

/-- The sample of bit 7, which is the one of a stuffed bit after a sixth one. -/
def rxbit7 (r : Rx) (usbIn : Byte) : Rx × List ℕ :=
  if r.carry then
    let x2 := usbIn &&& usbMask
    let x1 := r.x1 ^^^ x2
    didUnstuff7 6 { r with x2 := x2, x1 := x1 - 1, shift := shiftIn x1 r.shift }
  else
    let x2 := usbIn &&& usbMask
    didUnstuff6 10
      { r with
        x2 := x2, x3 := r.x3 ||| 0x40, shift := dropBit r.shift, x1 := x2, leap := r.leap + 1 }

def unstuff7 (r : Rx) (usbIn : Byte) : Rx × List ℕ :=
  didUnstuff7 6
    { r with x2 := usbIn &&& usbMask, shift := dropBit r.shift, leap := r.leap - 2 }

/-- From one sample to the next. At `se0` and `overflow` the receiver is left. -/
def rxStep : Step Rx Byte ℕ := fun r usbIn =>
  match r.label with
  | .haveTwoBitsK => haveTwoBitsK r usbIn
  | .rxBitLoop => rxBitLoop r usbIn
  | .unstuffEven => unstuffEven r usbIn
  | .rxbit1 => rxbit1 r usbIn
  | .unstuffOdd => unstuffOdd r usbIn
  | .rxByteLoop => rxByteLoop r usbIn
  | .didUnstuff6 => rxbit7 r usbIn
  | .unstuff7 => unstuff7 r usbIn
  | .se0 | .overflow => (r, [])

/-- The bytes of a packet, as `se0` computes them from `cnt`. -/
def rxLen (r : Rx) : Byte := -(r.cnt - usbBufSize)

/-- The time taken by steps with these outputs. -/
def cycles : List ℕ → ℕ
  | [] => 0
  | t :: ts => t + cycles ts

theorem cycles_append (as bs : List ℕ) : cycles (as ++ bs) = cycles as + cycles bs := by
  induction as with
  | nil => exact (Nat.zero_add _).symm
  | cons a as ih =>
      rw [List.cons_append, cycles, cycles, ih, Nat.add_assoc]

/-! ## Registers -/

section Registers

/-- The ones at the top of the shift register. -/
def lead (shift : Byte) : ℕ :=
  ((List.range 8).takeWhile fun i => shift.getLsbD (7 - i)).length

theorem lead_shiftIn_le (x shift : Byte) : lead (shiftIn x shift) ≤ lead shift + 1 := by
  have hall : ∀ (c : Bool) (b : Byte), lead (rorByte c b) ≤ lead b + 1 := by decide +kernel
  exact hall (decide (x < 1)) shift

theorem lead_le (b : Byte) : lead b ≤ 8 := by
  have hall : ∀ b : Byte, lead b ≤ 8 := by decide +kernel
  exact hall b

@[simp] theorem lead_dropBit (b : Byte) : lead (dropBit b) = 0 := by
  have hall : ∀ b : Byte, lead (dropBit b) = 0 := by decide +kernel
  exact hall b

/-- The comparison with `0xfc` asks for six ones. -/
theorem lt_fc_iff (b : Byte) : b < 0xfc ↔ lead b < 6 := by
  have hall : ∀ b : Byte, b < 0xfc ↔ lead b < 6 := by decide +kernel
  exact hall b

theorem dropBit_lt (b : Byte) : dropBit b < 0xfc := by
  rw [lt_fc_iff, lead_dropBit]
  exact Nat.succ_pos 5

theorem toInt_add_one {b : Byte} (h : b.toInt < 100) : (b + 1).toInt = b.toInt + 1 := by
  have hall : ∀ b : Byte, b.toInt < 100 → (b + 1).toInt = b.toInt + 1 := by decide +kernel
  exact hall b h

theorem toInt_sub_two {b : Byte} (h : 0 ≤ b.toInt) : (b - 2).toInt = b.toInt - 2 := by
  have hall : ∀ b : Byte, 0 ≤ b.toInt → (b - 2).toInt = b.toInt - 2 := by decide +kernel
  exact hall b h

/-- The leap counter goes down, and up by two where it would get negative. -/
theorem toInt_leap {b : Byte} (h : -2 ≤ b.toInt) :
    if (b - 1).msb then b.toInt ≤ 0 ∧ (b - 1 + 3).toInt = b.toInt + 2
    else 0 < b.toInt ∧ (b - 1).toInt = b.toInt - 1 := by
  have hall : ∀ b : Byte, -2 ≤ b.toInt →
      if (b - 1).msb then b.toInt ≤ 0 ∧ (b - 1 + 3).toInt = b.toInt + 2
      else 0 < b.toInt ∧ (b - 1).toInt = b.toInt - 1 := by decide +kernel
  exact hall b h

/-- The value of `bitcnt` after `k` bytes and `j` pairs of bits. -/
def tick (k j : ℕ) : Byte := 0x55 - BitVec.ofNat 8 k - BitVec.ofNat 8 (0xab * j)

theorem tick_spec {k j : ℕ} (hk : k ≤ 11) (hj : j ≤ 2) :
    (tick k j < 0xab ↔ j < 2) ∧ tick k j - 0xab = tick k (j + 1) ∧ tick k 3 = tick (k + 1) 0 := by
  have hall : ∀ k < 12, ∀ j < 3, (tick k j < 0xab ↔ j < 2) ∧ tick k j - 0xab = tick k (j + 1) ∧
      tick k 3 = tick (k + 1) 0 := by decide +kernel
  exact hall k (Nat.lt_succ_of_le hk) j (Nat.lt_succ_of_le hj)

theorem cnt_spec {k : ℕ} (hk : k ≤ 11) :
    (usbBufSize - BitVec.ofNat 8 k < 1 ↔ k = 11) ∧
      usbBufSize - BitVec.ofNat 8 k - 1 = usbBufSize - BitVec.ofNat 8 (k + 1) := by
  have hall : ∀ k < 12, (usbBufSize - BitVec.ofNat 8 k < 1 ↔ k = 11) ∧
      usbBufSize - BitVec.ofNat 8 k - 1 = usbBufSize - BitVec.ofNat 8 (k + 1) := by decide +kernel
  exact hall k (Nat.lt_succ_of_le hk)

end Registers

/-! ## The place in the byte -/

section Place

/-- Bits 0 to 5 of byte `k`, with `j` pairs of bits behind. -/
structure Front (k j : ℕ) (bitcnt cnt : Byte) : Prop where
  bytes : k ≤ 11
  pairs : j ≤ 2
  bitcnt_eq : bitcnt = tick k j
  cnt_eq : cnt = usbBufSize - BitVec.ofNat 8 k

/-- Bit 6 of byte `k`, where the buffer may turn out to be full. -/
structure Turn (k : ℕ) (bitcnt cnt : Byte) (carry : Bool) : Prop where
  bytes : k ≤ 11
  bitcnt_eq : bitcnt = tick (k + 1) 0
  cnt_eq : cnt = usbBufSize - BitVec.ofNat 8 (k + 1)
  carry_iff : carry = true ↔ k = 11

/-- Bit 7 of byte `k`, for which there is room. -/
structure Back (k : ℕ) (bitcnt cnt : Byte) : Prop where
  bytes : k ≤ 10
  bitcnt_eq : bitcnt = tick (k + 1) 0
  cnt_eq : cnt = usbBufSize - BitVec.ofNat 8 (k + 1)

variable {k j t : ℕ} {bitcnt cnt : Byte} {carry : Bool} {r : Rx}

theorem Turn.back (h : Turn k bitcnt cnt carry) (hcarry : ¬ carry = true) : Back k bitcnt cnt := by
  have hne : k ≠ 11 := fun hk => hcarry (h.carry_iff.mpr hk)
  have hle := h.bytes
  exact ⟨by omega, h.bitcnt_eq, h.cnt_eq⟩

theorem Back.front (h : Back k bitcnt cnt) : Front (k + 1) 0 bitcnt cnt :=
  ⟨Nat.succ_le_succ h.bytes, Nat.zero_le 2, h.bitcnt_eq, h.cnt_eq⟩

/-- A pair of bits that is not the last one. -/
theorem didUnstuffO_loop (h : Front r.y.length j r.bitcnt r.cnt) (hj : j < 2) :
    didUnstuffO t r = ({ r with bitcnt := r.bitcnt - 0xab, label := .rxBitLoop }, [t + 3]) ∧
      Front r.y.length (j + 1) (r.bitcnt - 0xab) r.cnt := by
  obtain ⟨hlt, hsub, -⟩ := tick_spec h.bytes h.pairs
  rw [← h.bitcnt_eq] at hlt hsub
  exact ⟨if_pos (hlt.mpr hj), h.bytes, hj, hsub, h.cnt_eq⟩

/-- The last pair of bits: a byte is taken from the room in the buffer. -/
theorem didUnstuffO_turn (h : Front r.y.length j r.bitcnt r.cnt) (hj : ¬ j < 2) :
    didUnstuffO t r =
        ({ r with
            bitcnt := r.bitcnt - 0xab, carry := decide (r.cnt < 1), cnt := r.cnt - 1,
            label := .rxByteLoop },
          [t + 3]) ∧
      Turn r.y.length (r.bitcnt - 0xab) (r.cnt - 1) (decide (r.cnt < 1)) := by
  obtain ⟨hlt, hsub, hlast⟩ := tick_spec h.bytes h.pairs
  obtain ⟨hfull, hcnt⟩ := cnt_spec h.bytes
  have hpairs : j + 1 = 3 := by have := h.pairs; omega
  rw [← h.bitcnt_eq, hpairs, hlast] at hsub
  rw [← h.bitcnt_eq] at hlt
  rw [← h.cnt_eq] at hfull hcnt
  exact ⟨if_neg fun hc => hj (hlt.mp hc), h.bytes, hsub, hcnt, decide_eq_true_iff.trans hfull⟩

end Place

/-! ## The time of a sample -/

section Clock

/-- The error of a sample in thirds of a cycle, against the bits of a line at
`32 / 3` cycles each. It is the leap counter `l` up to the drift in the byte, and the
leap counter only grows with the `n` ones of a stuffed bit. -/
structure Clock (l : ℤ) (n k : ℕ) (floor drift slack e : ℤ) : Prop where
  floor_le : floor ≤ l
  error : e = l + drift
  reserve : 24 * l + 4 * n ≤ 48 + 8 * k + slack

/-- The place of the receiver and the error of the sample that is due. -/
def Timed (r : Rx) (j : ℕ) (e : ℤ) : Prop :=
  match r.label with
  | .haveTwoBitsK => r.y = [] ∧ r.bitcnt = 0x55 ∧ r.shift = 0 ∧ e = 0
  | .rxBitLoop =>
      Front r.y.length j r.bitcnt r.cnt ∧
        Clock r.leap.toInt (lead r.shift) r.y.length (-2) (-j) (28 + 8 * j) e
  | .rxbit1 =>
      Front r.y.length j r.bitcnt r.cnt ∧
        Clock r.leap.toInt (lead r.shift) r.y.length (-2) (-j - 2) (32 + 8 * j) e
  | .unstuffEven =>
      Front r.y.length j r.bitcnt r.cnt ∧
        Clock (r.leap.toInt + 1) 0 r.y.length (-1) (-j - 3) (32 + 8 * j) e
  | .unstuffOdd =>
      Front r.y.length j r.bitcnt r.cnt ∧
        Clock (r.leap.toInt + 1) 0 r.y.length (-1) (-j - 5) (36 + 8 * j) e
  | .rxByteLoop =>
      Turn r.y.length r.bitcnt r.cnt r.carry ∧
        Clock r.leap.toInt (lead r.shift) r.y.length (-2) (-3) 52 e
  | .didUnstuff6 =>
      Back r.y.length r.bitcnt r.cnt ∧ r.carry = decide (r.shift < 0xfc) ∧
        Clock r.leap.toInt (lead r.shift) (r.y.length + 1) 0 (-1) 24 e
  | .unstuff7 =>
      Back r.y.length r.bitcnt r.cnt ∧ Clock r.leap.toInt 0 (r.y.length + 1) 0 (-3) 28 e
  | .se0 | .overflow => r.y.length ≤ 11

/-- The error after one more sample. -/
def drifted (e : ℤ) (out : List ℕ) : ℤ := e + 3 * cycles out - 32

variable {j t : ℕ} {e : ℤ} {r : Rx}

theorem didUnstuffE_timed (hplace : Front r.y.length j r.bitcnt r.cnt)
    (hclock : Clock r.leap.toInt (lead r.shift) r.y.length (-2) (-j - 2) (32 + 8 * j)
      (drifted e [t + 2])) :
    Timed (didUnstuffE t r).1 j (drifted e (didUnstuffE t r).2) :=
  ⟨hplace, hclock⟩

theorem didUnstuffO_timed (hplace : Front r.y.length j r.bitcnt r.cnt)
    (hclock : Clock r.leap.toInt (lead r.shift) r.y.length (-2) (-j - 1) (36 + 8 * j)
      (drifted e [t + 3])) :
    ∃ j', Timed (didUnstuffO t r).1 j' (drifted e (didUnstuffO t r).2) := by
  obtain ⟨hfloor, herror, hreserve⟩ := hclock
  by_cases hj : j < 2
  · obtain ⟨heq, hnext⟩ := didUnstuffO_loop (t := t) hplace hj
    have hloop : Clock r.leap.toInt (lead r.shift) r.y.length (-2) (-(j + 1 : ℕ))
        (28 + 8 * (j + 1 : ℕ)) (drifted e [t + 3]) := ⟨hfloor, by omega, by omega⟩
    rw [heq]
    exact ⟨j + 1, hnext, hloop⟩
  · obtain ⟨heq, hnext⟩ := didUnstuffO_turn (t := t) hplace hj
    have hpairs := hplace.pairs
    have hturn : Clock r.leap.toInt (lead r.shift) r.y.length (-2) (-3) 52
        (drifted e [t + 3]) := ⟨hfloor, by omega, by omega⟩
    rw [heq]
    exact ⟨0, hnext, hturn⟩

theorem didUnstuff7_timed (hplace : Back r.y.length r.bitcnt r.cnt)
    (hstored : r.shift < 0xfc → Clock r.leap.toInt (lead r.shift) (r.y.length + 1) (-2) 0 28
      (drifted e [t + 5]))
    (hunstuff : ¬ r.shift < 0xfc → Clock r.leap.toInt 0 (r.y.length + 1) 0 (-3) 28
      (drifted e [t + 4])) :
    Timed (didUnstuff7 t r).1 0 (drifted e (didUnstuff7 t r).2) := by
  rw [didUnstuff7]
  split
  case isTrue hlt =>
    have hlen : (r.y ++ [r.x3 ^^^ r.shift]).length = r.y.length + 1 := List.length_append
    obtain ⟨hfloor, herror, hreserve⟩ := hstored hlt
    refine ⟨?_, hfloor, herror, ?_⟩
    · rw [hlen]
      exact hplace.front
    · rw [hlen]
      exact hreserve
  case isFalse hge => exact ⟨hplace, hunstuff hge⟩

theorem haveTwoBitsK_timed (s : Byte) (hy : r.y = []) (hbitcnt : r.bitcnt = 0x55)
    (hshift : r.shift = 0) (he : e = 0) :
    Timed (haveTwoBitsK r s).1 0 (drifted e (haveTwoBitsK r s).2) := by
  have hlead : lead (if (s &&& usbMask).getLsbD usbMinus then r.shift ||| 0x80
      else dropBit r.shift) ≤ 1 := by
    rw [hshift]
    split
    · exact Nat.le_of_ble_eq_true rfl
    · rw [lead_dropBit]
      exact Nat.zero_le 1
  have hplace : Front r.y.length 0 r.bitcnt usbBufSize := by
    rw [hy, hbitcnt]
    exact ⟨Nat.zero_le 11, Nat.zero_le 2, rfl, rfl⟩
  have hclock : Clock 0 (lead (if (s &&& usbMask).getLsbD usbMinus then r.shift ||| 0x80
      else dropBit r.shift)) r.y.length (-2) (-(0 : ℕ) - 2) (32 + 8 * (0 : ℕ))
      (drifted e [10]) := by
    rw [he]
    exact ⟨by omega, rfl, by omega⟩
  exact ⟨hplace, hclock⟩

theorem rxBitLoop_timed (s : Byte) (hplace : Front r.y.length j r.bitcnt r.cnt)
    (hclock : Clock r.leap.toInt (lead r.shift) r.y.length (-2) (-j) (28 + 8 * j) e) :
    Timed (rxBitLoop r s).1 j (drifted e (rxBitLoop r s).2) := by
  have hlead := lead_shiftIn_le (r.x2 ^^^ (s &&& usbMask)) r.shift
  obtain ⟨hfloor, herror, hreserve⟩ := hclock
  rw [rxBitLoop]
  split
  case isTrue =>
    have hbit : Clock r.leap.toInt (lead (shiftIn (r.x2 ^^^ (s &&& usbMask)) r.shift)) r.y.length
        (-2) (-j - 2) (32 + 8 * j) (drifted e [10]) := by
      refine ⟨hfloor, ?_, ?_⟩
      · change e + 3 * 10 - 32 = _
        omega
      · omega
    exact didUnstuffE_timed (t := 8) hplace hbit
  case isFalse hge =>
    have hsix : ¬ lead (shiftIn _ r.shift) < 6 := fun hlt => hge ((lt_fc_iff _).mpr hlt)
    have hstuffed : Clock (r.leap.toInt + 1) 0 r.y.length (-1) (-j - 3) (32 + 8 * j)
        (drifted e [10]) := by
      refine ⟨by omega, ?_, by omega⟩
      change e + 3 * 10 - 32 = _
      omega
    exact ⟨hplace, hstuffed⟩

/-- The leap counter of a receiver stays far from its overflow. -/
theorem Clock.lt {l : ℤ} {n k : ℕ} {floor drift slack : ℤ}
    (h : Clock l n k floor drift slack e) (hk : k ≤ 11) (hslack : slack ≤ 60) : l < 10 := by
  have hreserve := h.reserve
  omega

theorem unstuffEven_timed (s : Byte) (hplace : Front r.y.length j r.bitcnt r.cnt)
    (hclock : Clock (r.leap.toInt + 1) 0 r.y.length (-1) (-j - 3) (32 + 8 * j) e) :
    Timed (unstuffEven r s).1 j (drifted e (unstuffEven r s).2) := by
  have hpairs := hplace.pairs
  have hlt := hclock.lt hplace.bytes (by omega)
  have hleap : (r.leap + 1).toInt = r.leap.toInt + 1 := toInt_add_one (by omega)
  obtain ⟨hfloor, herror, hreserve⟩ := hclock
  rw [unstuffEven]
  split
  case isTrue => exact hplace.bytes
  case isFalse =>
    have hbit : Clock (r.leap + 1).toInt (lead (dropBit r.shift)) r.y.length (-2) (-j - 2)
        (32 + 8 * j) (drifted e [11]) := by
      rw [hleap, lead_dropBit]
      refine ⟨by omega, ?_, hreserve⟩
      change e + 3 * 11 - 32 = _
      omega
    exact didUnstuffE_timed (t := 9) hplace hbit

theorem rxbit1_timed (s : Byte) (hplace : Front r.y.length j r.bitcnt r.cnt)
    (hclock : Clock r.leap.toInt (lead r.shift) r.y.length (-2) (-j - 2) (32 + 8 * j) e) :
    ∃ j', Timed (rxbit1 r s).1 j' (drifted e (rxbit1 r s).2) := by
  have hlead := lead_shiftIn_le (r.x1 ^^^ (s &&& usbMask)) r.shift
  obtain ⟨hfloor, herror, hreserve⟩ := hclock
  rw [rxbit1]
  split
  case isTrue => exact ⟨j, hplace.bytes⟩
  case isFalse =>
    dsimp only
    split
    case isTrue =>
      have hbit : Clock r.leap.toInt (lead (shiftIn (r.x1 ^^^ (s &&& usbMask)) r.shift))
          r.y.length (-2) (-j - 1) (36 + 8 * j) (drifted e [11]) := by
        refine ⟨hfloor, ?_, ?_⟩
        · change e + 3 * 11 - 32 = _
          omega
        · omega
      exact didUnstuffO_timed (t := 8) hplace hbit
    case isFalse hge =>
      have hsix : ¬ lead (shiftIn _ r.shift) < 6 := fun hlt => hge ((lt_fc_iff _).mpr hlt)
      have hstuffed : Clock (r.leap.toInt + 1) 0 r.y.length (-1) (-j - 5) (36 + 8 * j)
          (drifted e [10]) := by
        refine ⟨by omega, ?_, by omega⟩
        change e + 3 * 10 - 32 = _
        omega
      exact ⟨j, hplace, hstuffed⟩

theorem unstuffOdd_timed (s : Byte) (hplace : Front r.y.length j r.bitcnt r.cnt)
    (hclock : Clock (r.leap.toInt + 1) 0 r.y.length (-1) (-j - 5) (36 + 8 * j) e) :
    ∃ j', Timed (unstuffOdd r s).1 j' (drifted e (unstuffOdd r s).2) := by
  have hpairs := hplace.pairs
  have hlt := hclock.lt hplace.bytes (by omega)
  have hleap : (r.leap + 1).toInt = r.leap.toInt + 1 := toInt_add_one (by omega)
  obtain ⟨hfloor, herror, hreserve⟩ := hclock
  rw [unstuffOdd]
  split
  case isTrue => exact ⟨j, hplace.bytes⟩
  case isFalse =>
    have hbit : Clock (r.leap + 1).toInt (lead (dropBit r.shift)) r.y.length (-2) (-j - 1)
        (36 + 8 * j) (drifted e [12]) := by
      rw [hleap, lead_dropBit]
      refine ⟨by omega, ?_, hreserve⟩
      change e + 3 * 12 - 32 = _
      omega
    exact didUnstuffO_timed (t := 9) hplace hbit

theorem rxByteLoop_timed (s : Byte) (hplace : Turn r.y.length r.bitcnt r.cnt r.carry)
    (hclock : Clock r.leap.toInt (lead r.shift) r.y.length (-2) (-3) 52 e) :
    Timed (rxByteLoop r s).1 j (drifted e (rxByteLoop r s).2) := by
  have hlead := lead_shiftIn_le (r.x2 ^^^ (s &&& usbMask)) r.shift
  have hle := lead_le (shiftIn (r.x2 ^^^ (s &&& usbMask)) r.shift)
  obtain ⟨hfloor, herror, hreserve⟩ := hclock
  have hleap := toInt_leap hfloor
  rw [rxByteLoop]
  split
  case isTrue => exact hplace.bytes
  case isFalse hroom =>
    dsimp only
    split
    case isTrue hneg =>
      rw [if_pos hneg] at hleap
      have hbit : Clock (r.leap - 1 + 3).toInt
          (lead (shiftIn (r.x2 ^^^ (s &&& usbMask)) r.shift)) (r.y.length + 1) 0 (-1) 24
          (drifted e [12]) := by
        refine ⟨by omega, ?_, ?_⟩
        · change e + 3 * 12 - 32 = _
          omega
        · omega
      exact ⟨hplace.back hroom, rfl, hbit⟩
    case isFalse hpos =>
      rw [if_neg hpos] at hleap
      have hbit : Clock (r.leap - 1).toInt
          (lead (shiftIn (r.x2 ^^^ (s &&& usbMask)) r.shift)) (r.y.length + 1) 0 (-1) 24
          (drifted e [11]) := by
        refine ⟨by omega, ?_, ?_⟩
        · change e + 3 * 11 - 32 = _
          omega
        · omega
      exact ⟨hplace.back hroom, rfl, hbit⟩

theorem rxbit7_timed (s : Byte) (hplace : Back r.y.length r.bitcnt r.cnt)
    (hcarry : r.carry = decide (r.shift < 0xfc))
    (hclock : Clock r.leap.toInt (lead r.shift) (r.y.length + 1) 0 (-1) 24 e) :
    Timed (rxbit7 r s).1 0 (drifted e (rxbit7 r s).2) := by
  have hlead := lead_shiftIn_le (r.x1 ^^^ (s &&& usbMask)) r.shift
  have hbytes := hplace.bytes
  have hlt := hclock.lt (by omega) (by omega)
  have hleap : (r.leap + 1).toInt = r.leap.toInt + 1 := toInt_add_one (by omega)
  obtain ⟨hfloor, herror, hreserve⟩ := hclock
  rw [rxbit7]
  split
  case isTrue =>
    refine didUnstuff7_timed (t := 6) hplace (fun _ => ⟨?_, ?_, ?_⟩) (fun hge => ⟨hfloor, ?_, ?_⟩)
    · exact le_trans (by omega) hfloor
    · change e + 3 * 11 - 32 = r.leap.toInt + 0
      omega
    · change 24 * r.leap.toInt + 4 * (lead (shiftIn _ r.shift) : ℤ) ≤
        48 + 8 * ((r.y.length + 1 : ℕ) : ℤ) + 28
      omega
    · change e + 3 * 10 - 32 = r.leap.toInt + -3
      omega
    · change 24 * r.leap.toInt + 4 * ((0 : ℕ) : ℤ) ≤ 48 + 8 * ((r.y.length + 1 : ℕ) : ℤ) + 28
      omega
  case isFalse hstuffed =>
    have hsix : ¬ lead r.shift < 6 := by
      intro hlt
      exact hstuffed (hcarry.trans (decide_eq_true ((lt_fc_iff r.shift).mpr hlt)))
    have hbit : Clock (r.leap + 1).toInt (lead (dropBit r.shift)) (r.y.length + 1) 0 (-1) 24
        (drifted e [11]) := by
      rw [hleap, lead_dropBit]
      refine ⟨by omega, ?_, by omega⟩
      change e + 3 * 11 - 32 = _
      omega
    exact ⟨hplace, rfl, hbit⟩

theorem unstuff7_timed (s : Byte) (hplace : Back r.y.length r.bitcnt r.cnt)
    (hclock : Clock r.leap.toInt 0 (r.y.length + 1) 0 (-3) 28 e) :
    Timed (unstuff7 r s).1 0 (drifted e (unstuff7 r s).2) := by
  obtain ⟨hfloor, herror, hreserve⟩ := hclock
  have hleap : (r.leap - 2).toInt = r.leap.toInt - 2 := toInt_sub_two hfloor
  rw [unstuff7]
  refine didUnstuff7_timed (t := 6) hplace (fun _ => ?_) (fun hge => absurd (dropBit_lt r.shift) hge)
  change Clock (r.leap - 2).toInt (lead (dropBit r.shift)) (r.y.length + 1) (-2) 0 28
    (drifted e [11])
  rw [hleap, lead_dropBit]
  refine ⟨by omega, ?_, by omega⟩
  change e + 3 * 11 - 32 = _
  omega

/-- Every sample keeps the receiver at its place and on its time. -/
theorem timed_step (s : Byte) (h : Timed r j e) :
    ∃ j', Timed (rxStep r s).1 j' (drifted e (rxStep r s).2) := by
  obtain ⟨label, x1, x2, x3, shift, bitcnt, leap, cnt, carry, y⟩ := r
  cases label with
  | haveTwoBitsK => exact ⟨0, haveTwoBitsK_timed s h.1 h.2.1 h.2.2.1 h.2.2.2⟩
  | rxBitLoop => exact ⟨j, rxBitLoop_timed s h.1 h.2⟩
  | unstuffEven => exact ⟨j, unstuffEven_timed s h.1 h.2⟩
  | rxbit1 => exact rxbit1_timed s h.1 h.2
  | unstuffOdd => exact unstuffOdd_timed s h.1 h.2
  | rxByteLoop => exact ⟨j, rxByteLoop_timed s h.1 h.2⟩
  | didUnstuff6 => exact ⟨0, rxbit7_timed s h.1 h.2.1 h.2.2⟩
  | unstuff7 => exact ⟨0, unstuff7_timed s h.1 h.2⟩
  | se0 => exact ⟨j, h⟩
  | overflow => exact ⟨j, h⟩

/-- The time from the sample of bit 0 to the sample that is due. -/
def elapsed (r : Rx) (samples : List Byte) : ℕ := cycles (outputs rxStep r samples)

theorem timed_run (samples : List Byte) (h : Timed r j e) :
    ∃ j', Timed (finish rxStep r samples) j'
      (e + 3 * elapsed r samples - 32 * samples.length) := by
  induction samples generalizing r j e with
  | nil =>
      refine ⟨j, ?_⟩
      rw [show e + 3 * (elapsed r [] : ℤ) - 32 * ([] : List Byte).length = e by
        change e + 3 * (0 : ℤ) - 32 * 0 = e
        omega]
      exact h
  | cons s samples ih =>
      obtain ⟨j', hnext⟩ := timed_step s h
      obtain ⟨j'', hlast⟩ := ih hnext
      refine ⟨j'', ?_⟩
      have herror : e + 3 * (elapsed r (s :: samples) : ℤ) - 32 * ((s :: samples).length : ℤ) =
          drifted e (rxStep r s).2 + 3 * elapsed (rxStep r s).1 samples - 32 * samples.length := by
        rw [elapsed, outputs, cycles_append, drifted, List.length_cons, elapsed]
        push_cast
        omega
      rw [herror]
      exact hlast

theorem timed_start (x1 x2 leap cnt : Byte) : Timed (.start x1 x2 leap cnt) 0 0 :=
  ⟨rfl, rfl, rfl, rfl⟩

theorem Timed.length_le (h : Timed r j e) : r.y.length ≤ 11 := by
  obtain ⟨label, x1, x2, x3, shift, bitcnt, leap, cnt, carry, y⟩ := r
  cases label with
  | haveTwoBitsK =>
      have hy : y = [] := h.1
      rw [hy]
      exact Nat.zero_le 11
  | rxBitLoop => exact h.1.bytes
  | unstuffEven => exact h.1.bytes
  | rxbit1 => exact h.1.bytes
  | unstuffOdd => exact h.1.bytes
  | rxByteLoop => exact h.1.bytes
  | didUnstuff6 => exact Nat.le_succ_of_le h.1.bytes
  | unstuff7 => exact Nat.le_succ_of_le h.1.bytes
  | se0 => exact h
  | overflow => exact h

/-- The receiver still takes samples. -/
def Rx.Active (r : Rx) : Prop := r.label ≠ .se0 ∧ r.label ≠ .overflow

theorem Clock.bounds {l : ℤ} {n k : ℕ} {floor drift slack : ℤ}
    (h : Clock l n k floor drift slack e) (hk : k ≤ 11) (hlow : -8 ≤ floor + drift)
    (hhigh : 136 + slack + 24 * drift < 168) : -8 ≤ e ∧ e ≤ 6 := by
  obtain ⟨hfloor, herror, hreserve⟩ := h
  omega

theorem Timed.error_bounds (h : Timed r j e) (hactive : r.Active) : -8 ≤ e ∧ e ≤ 6 := by
  obtain ⟨label, x1, x2, x3, shift, bitcnt, leap, cnt, carry, y⟩ := r
  cases label with
  | haveTwoBitsK =>
      rw [h.2.2.2]
      omega
  | rxBitLoop =>
      have hpairs := h.1.pairs
      exact h.2.bounds h.1.bytes (by omega) (by omega)
  | unstuffEven =>
      have hpairs := h.1.pairs
      exact h.2.bounds h.1.bytes (by omega) (by omega)
  | rxbit1 =>
      have hpairs := h.1.pairs
      exact h.2.bounds h.1.bytes (by omega) (by omega)
  | unstuffOdd =>
      have hpairs := h.1.pairs
      exact h.2.bounds h.1.bytes (by omega) (by omega)
  | rxByteLoop => exact h.2.bounds h.1.bytes (by omega) (by omega)
  | didUnstuff6 => exact h.2.2.bounds (Nat.succ_le_succ h.1.bytes) (by omega) (by omega)
  | unstuff7 => exact h.2.bounds (Nat.succ_le_succ h.1.bytes) (by omega) (by omega)
  | se0 => exact absurd rfl hactive.1
  | overflow => exact absurd rfl hactive.2

end Clock

/-- Whatever is on the line, the receiver stores no more than its buffer holds, and takes
every sample between `8 / 3` cycles before its time and two cycles after. -/
theorem receiver_bounds (x1 x2 leap cnt : Byte) (samples : List Byte) :
    (finish rxStep (.start x1 x2 leap cnt) samples).y.length ≤ 11 ∧
      ((finish rxStep (.start x1 x2 leap cnt) samples).Active →
        32 * samples.length ≤ 3 * elapsed (.start x1 x2 leap cnt) samples + 8 ∧
          3 * elapsed (.start x1 x2 leap cnt) samples ≤ 32 * samples.length + 6) := by
  obtain ⟨j, hrun⟩ := timed_run samples (timed_start x1 x2 leap cnt)
  refine ⟨hrun.length_le, fun hactive => ?_⟩
  have hbounds := hrun.error_bounds hactive
  omega

end TempHumid.Avr.Line
