import TempHumid.Avr.LinePackets

/-!
# The software transmitter of the AVR firmware

The code of `usbdrvasm16.inc` from `usbSendAndReti` to the end of `SE0`. One step goes
up to the next `out USBOUT` and past the branches behind it. Its output is the value
of the port and the number of clock cycles since the `out` before.

## Implementation notes

`t` counts the cycles since the last `out` when a label is reached. The packet is read
from memory through `Y`, and the transmitter stores nothing but the device address.
The label `idle` stands for the rest of the code behind `SE0`.
-/

namespace TempHumid.Avr.Line

open AvrCore (Byte Addr rorByte lsrByte bytes)
open Crc (byteBits)
open LineCode (encode due level)
open Machine (finish)

inductive TxLabel
  | txBitLoop | bitstuffN | didStuff6 | didStuff7 | se0 | idle | done
  deriving DecidableEq

structure Tx where
  label : TxLabel
  t : ℕ
  x1 : Byte
  x2 : Byte
  shift : Byte
  bitcnt : Byte
  cnt : Byte
  carry : Bool
  y : Addr
  usbNewDeviceAddr : Byte
  usbDeviceAddr : Byte

/-- A value of the port and the cycles since the one before. -/
abbrev Out := Byte × ℕ

def txByteLoop (t : ℕ) (tx : Tx) : Tx :=
  { tx with bitcnt := 0x35, label := .txBitLoop, t := t + 1 }

/-- `usbSendAndReti` with the port, and `x2` and the carry as they happen to be. -/
def usbSendAndReti (port x2 : Byte) (carry : Bool) (cnt : Byte) (y : Addr)
    (usbNewDeviceAddr usbDeviceAddr : Byte) : Tx :=
  txByteLoop 3
    { label := .txBitLoop, t := 0, x1 := port ||| 0x08, x2 := x2 ||| usbMask, shift := 0x80,
      bitcnt := 0, cnt := cnt, carry := carry, y := y, usbNewDeviceAddr := usbNewDeviceAddr,
      usbDeviceAddr := usbDeviceAddr }

/-- `sbrs` and `eor x1, x4`: a zero bit changes the level. -/
def toggle (bit : Bool) (x1 : Byte) : Byte := if bit then x1 else x1 ^^^ usbMask

def didStuffN (t : ℕ) (tx : Tx) : Tx :=
  if tx.x2 < 0xfc then
    let carry := tx.bitcnt.getLsbD 0
    let bitcnt := lsrByte tx.bitcnt
    let tx := { tx with bitcnt := bitcnt, carry := carry }
    if carry = false then { tx with label := .txBitLoop, t := t + 5 }
    else if bitcnt ≠ 0 then { tx with label := .txBitLoop, t := t + 6 }
    else { tx with x1 := toggle (tx.shift.getLsbD 0) tx.x1, label := .didStuff6, t := t + 7 }
  else { tx with carry := false, label := .bitstuffN, t := t + 3 }

def txBitLoop (tx : Tx) : Tx × List Out :=
  let x1 := toggle (tx.shift.getLsbD 0) tx.x1
  let x2 := rorByte (tx.shift.getLsbD 0) tx.x2
  (didStuffN 3 { tx with x1 := x1, shift := rorByte tx.carry tx.shift, x2 := x2 },
    [(x1, tx.t + 2)])

def bitstuffN (tx : Tx) : Tx × List Out :=
  let x1 := tx.x1 ^^^ usbMask
  (didStuffN 3 { tx with x1 := x1, x2 := 0 }, [(x1, tx.t + 5)])

/-- Bit 6, or the stuffed zero behind it, for which `bitstuff6` undoes a rotation. -/
def didStuff6 (tx : Tx) : Tx × List Out :=
  let x2 := rorByte (tx.shift.getLsbD 0) tx.x2
  let shift := rorByte tx.carry tx.shift
  let out := [(tx.x1, tx.t)]
  if x2 < 0xfc then
    ({ tx with
        x2 := x2, shift := rorByte true shift, carry := shift.getLsbD 0, label := .didStuff7,
        t := 6 },
      out)
  else
    ({ tx with
        x1 := tx.x1 ^^^ usbMask, x2 := 0, shift := shift <<< 1, carry := shift.getLsbD 7,
        label := .didStuff6, t := 11 },
      out)

/-- Bit 7, or the stuffed zero behind it. -/
def didStuff7 (mem : Addr → Byte) (tx : Tx) : Tx × List Out :=
  let x2 := rorByte tx.carry tx.x2
  let x1 := toggle (x2.getLsbD 7) tx.x1
  let out := [(x1, tx.t + 5)]
  if x2 < 0xfc then
    let tx :=
      { tx with
        x1 := x1, x2 := x2, carry := true, shift := mem tx.y, y := tx.y + 1, cnt := tx.cnt - 1 }
    if tx.cnt ≠ 0 then (txByteLoop 7 tx, out)
    else
      ({ tx with
          x1 := x1 &&& ~~~usbMask, x2 := tx.usbNewDeviceAddr <<< 1, y := tx.y - 22,
          label := .se0, t := 12 },
        out)
  else ({ tx with x1 := x1, x2 := 0, carry := false, label := .didStuff7, t := 6 }, out)

/-- The address is assigned behind every packet that did not come from `x3`. -/
def se0 (tx : Tx) : Tx × List Out :=
  let out := [(tx.x1, tx.t)]
  if tx.y = 0 then ({ tx with x1 := tx.x1 ||| 0x08, label := .idle, t := 22 }, out)
  else
    ({ tx with x1 := tx.x1 ||| 0x08, usbDeviceAddr := tx.x2, label := .idle, t := 23 }, out)

def txStep (mem : Addr → Byte) (tx : Tx) : Tx × List Out :=
  match tx.label with
  | .txBitLoop => txBitLoop tx
  | .bitstuffN => bitstuffN tx
  | .didStuff6 => didStuff6 tx
  | .didStuff7 => didStuff7 mem tx
  | .se0 => se0 tx
  | .idle => ({ tx with label := .done }, [(tx.x1, tx.t)])
  | .done => (tx, [])

/-- Up to `n` values of the port, and the state behind them. -/
def transmit (mem : Addr → Byte) : ℕ → Tx → Tx × List Out
  | 0, tx => (tx, [])
  | n + 1, tx =>
      let next := txStep mem tx
      let rest := transmit mem n next.1
      (rest.1, next.2 ++ rest.2)

/-! ## What is still to be sent -/

section Sends

/-- The port with the two pins at one of the two levels. -/
def pins (port : Byte) (l : Bool) : Byte := port ||| lineByte l

/-- The lowest `k` bits of the shift register. -/
def low (k : ℕ) (shift : Byte) : List Bool := (List.range k).map shift.getLsbD

/-- The bits of the bytes behind the current one. -/
def restBits (mem : Addr → Byte) (tx : Tx) : List Bool :=
  (bytes mem tx.y (tx.cnt.toNat - 1)).flatMap byteBits

/-- The cycles up to the next `out`. -/
def gap (tx : Tx) : ℕ :=
  match tx.label with
  | .txBitLoop => tx.t + 2
  | .bitstuffN => tx.t + 5
  | .didStuff6 => tx.t
  | .didStuff7 => tx.t + 5
  | .se0 => tx.t
  | .idle => tx.t
  | .done => 0

/-- Bits 0 to 5: `i` bits of the byte are sent, and the loop is at its pace. -/
structure Paced (i t : ℕ) (bitcnt : Byte) : Prop where
  bits : i ≤ 5
  bitcnt_eq : bitcnt = 0x35 >>> i
  time : t = if i % 2 = 0 then 8 else 9

/-- The levels that the transmitter is still to put out on the port before `SE0`. -/
def Sends (mem : Addr → Byte) (port : Byte) (tx : Tx) (ls : List Bool) : Prop :=
  match tx.label with
  | .txBitLoop =>
      tx.cnt ≠ 0 ∧ ∃ i run prev, Paced i tx.t tx.bitcnt ∧ tx.x1 = pins port prev ∧
        lead tx.x2 = run ∧ run < 6 ∧
        ls = encode 6 run prev (low (8 - i) tx.shift ++ restBits mem tx)
  | .bitstuffN =>
      tx.cnt ≠ 0 ∧ tx.t = 6 ∧ ∃ i prev, i ≤ 5 ∧ tx.bitcnt = 0x35 >>> i ∧ tx.x1 = pins port prev ∧
        ls = (!prev) :: encode 6 0 (!prev) (low (7 - i) tx.shift ++ restBits mem tx)
  | .didStuff6 =>
      tx.cnt ≠ 0 ∧ (tx.t = 10 ∨ tx.t = 11) ∧ ∃ run l, tx.x1 = pins port l ∧
        lead (rorByte (tx.shift.getLsbD 0) tx.x2) = run ∧ run ≤ 6 ∧
        ls = l :: due 6 run l (tx.shift.getLsbD 1 :: restBits mem tx)
  | .didStuff7 =>
      tx.cnt ≠ 0 ∧ tx.t = 6 ∧ ∃ run prev, tx.x1 = pins port prev ∧
        lead (rorByte tx.carry tx.x2) = run ∧ run ≤ 6 ∧
        ls = level prev tx.carry :: due 6 run (level prev tx.carry) (restBits mem tx)
  | .se0 => tx.t = 12 ∧ tx.x1 = port ∧ ls = []
  | .idle | .done => False

variable {mem : Addr → Byte} {port : Byte} {tx : Tx} {ls : List Bool} {i t run : ℕ} {prev : Bool}

theorem low_succ (k : ℕ) (hk : k ≤ 7) (c : Bool) (shift : Byte) :
    low (k + 1) shift = shift.getLsbD 0 :: low k (rorByte c shift) := by
  rw [low, low, List.range_succ_eq_map, List.map_cons, List.map_map]
  congr 1
  apply List.map_congr_left
  intro i hi
  have hlt := List.mem_range.mp hi
  rw [AvrCore.getLsbD_rorByte _ _ (by omega), if_neg (by omega)]
  rfl

theorem toggle_pins (hport : port &&& usbMask = 0) (prev b : Bool) :
    toggle b (pins port prev) = pins port (level prev b) := by
  have hall : ∀ port : Byte, port &&& usbMask = 0 → ∀ prev b : Bool,
      toggle b (pins port prev) = pins port (level prev b) := by decide +kernel
  exact hall port hport prev b

theorem pins_not (hport : port &&& usbMask = 0) (prev : Bool) :
    pins port prev ^^^ usbMask = pins port (!prev) := by
  rw [← LineCode.level_false, ← toggle_pins hport]
  rfl

theorem getLsbD_seven_rorByte (c : Bool) (b : Byte) : (rorByte c b).getLsbD 7 = c := by
  rw [AvrCore.getLsbD_rorByte _ _ (by omega), if_pos rfl]

/-- The bits of `0x35` count the first six bits of a byte, and slow down every other one. -/
theorem bitcnt_spec (hi : i ≤ 5) :
    (0x35 >>> i : Byte).getLsbD 0 = decide (i % 2 = 0 ∨ i = 5) ∧
      lsrByte (0x35 >>> i) = (0x35 >>> (i + 1) : Byte) ∧ (lsrByte (0x35 >>> i) ≠ 0 ↔ i < 5) := by
  have hall : ∀ i < 6, (0x35 >>> i : Byte).getLsbD 0 = decide (i % 2 = 0 ∨ i = 5) ∧
      lsrByte (0x35 >>> i) = (0x35 >>> (i + 1) : Byte) ∧ (lsrByte (0x35 >>> i) ≠ 0 ↔ i < 5) := by
    decide +kernel
  exact hall i (Nat.lt_succ_of_le hi)

/-- The code behind one of the bits 0 to 5, and behind a stuffed zero there. -/
theorem didStuffN_sends (mem : Addr → Byte) (tx : Tx) (hport : port &&& usbMask = 0) (hcnt : tx.cnt ≠ 0) (hi : i ≤ 5)
    (hbitcnt : tx.bitcnt = 0x35 >>> i) (hx1 : tx.x1 = pins port prev)
    (hlead : lead tx.x2 = run) (hrun : run ≤ 6) :
    Sends mem port (didStuffN 3 tx) (due 6 run prev (low (7 - i) tx.shift ++ restBits mem tx)) ∧
      (if i % 2 = 0 then 11 else 10) ≤ gap (didStuffN 3 tx) := by
  obtain ⟨hbit, hlsr, hne⟩ := bitcnt_spec hi
  rw [didStuffN]
  split
  case isTrue hlt =>
    have hlt6 : run < 6 := by rw [← hlead]; exact (lt_fc_iff _).mp hlt
    rw [due, if_neg (Nat.ne_of_lt hlt6), hbitcnt, hlsr, hbit]
    rw [hlsr] at hne
    dsimp only
    split
    case isTrue hodd =>
      have hi' : ¬ (i % 2 = 0 ∨ i = 5) := of_decide_eq_false hodd
      refine ⟨⟨hcnt, i + 1, run, prev, ⟨by omega, rfl, ?_⟩, hx1, hlead, hlt6, ?_⟩, ?_⟩
      · exact (if_pos (by omega)).symm
      · rw [show 8 - (i + 1) = 7 - i by omega]
        rfl
      · rw [if_neg (by omega)]
        exact Nat.le_refl 10
    case isFalse heven =>
      have hi' : i % 2 = 0 ∨ i = 5 := by
        by_contra hno
        exact heven (decide_eq_false hno)
      split
      case isTrue hmore =>
        have hlt5 := hne.mp hmore
        refine ⟨⟨hcnt, i + 1, run, prev, ⟨by omega, rfl, ?_⟩, hx1, hlead, hlt6, ?_⟩, ?_⟩
        · exact (if_neg (by omega)).symm
        · rw [show 8 - (i + 1) = 7 - i by omega]
          rfl
        · rw [if_pos (by omega)]
          exact Nat.le_refl 11
      case isFalse hlast =>
        have hfive : i = 5 := by
          have hnot : ¬ i < 5 := fun hlt5 => hlast (hne.mpr hlt5)
          omega
        have hnext := lead_rorByte (tx.shift.getLsbD 0) (b := tx.x2) (by omega)
        refine ⟨⟨hcnt, .inl rfl, _, level prev (tx.shift.getLsbD 0), ?_, hnext, ?_, ?_⟩, ?_⟩
        · change toggle _ tx.x1 = _
          rw [hx1, toggle_pins hport]
        · rw [hlead]
          split <;> omega
        · rw [hfive, hlead]
          exact LineCode.encode_cons (Nat.succ_pos 5) _
        · rw [hfive]
          exact Nat.le_refl 10
  case isFalse hge =>
    have hsix : run = 6 := by
      rw [lt_fc_iff] at hge
      omega
    rw [due, if_pos hsix]
    refine ⟨⟨hcnt, rfl, i, prev, hi, hbitcnt, hx1, rfl⟩, ?_⟩
    split
    · exact Nat.le_refl 11
    · exact Nat.le_succ 10

/-- The next level is put out on time, and the rest is still to be sent. -/
structure Puts (mem : Addr → Byte) (port : Byte) (tx : Tx) (l : Bool) (ls : List Bool) : Prop where
  output : (txStep mem tx).2 = [(pins port l, gap tx)]
  rest : Sends mem port (txStep mem tx).1 ls
  gap_le : 10 ≤ gap tx ∧ gap tx ≤ 11
  pair : 21 ≤ gap tx + gap (txStep mem tx).1

theorem txBitLoop_puts (hport : port &&& usbMask = 0) (hlabel : tx.label = .txBitLoop)
    (hcnt : tx.cnt ≠ 0) (hpace : Paced i tx.t tx.bitcnt) (hx1 : tx.x1 = pins port prev)
    (hlead : lead tx.x2 = run) (hrun : run < 6) :
    Puts mem port tx (level prev (tx.shift.getLsbD 0))
      (due 6 (if tx.shift.getLsbD 0 then run + 1 else 0) (level prev (tx.shift.getLsbD 0))
        (low (7 - i) (rorByte tx.carry tx.shift) ++ restBits mem tx)) := by
  have hgap : gap tx = tx.t + 2 := by rw [gap, hlabel]
  have hstep : txStep mem tx = txBitLoop tx := by rw [txStep, hlabel]
  have htoggle : toggle (tx.shift.getLsbD 0) tx.x1 = pins port (level prev (tx.shift.getLsbD 0)) := by
    rw [hx1, toggle_pins hport]
  have hnext : lead (rorByte (tx.shift.getLsbD 0) tx.x2) =
      if tx.shift.getLsbD 0 then run + 1 else 0 := by
    rw [lead_rorByte _ (by omega), hlead]
  have hle : (if tx.shift.getLsbD 0 then run + 1 else 0) ≤ 6 := by
    split <;> omega
  obtain ⟨hi, hbitcnt, htime⟩ := hpace
  have hafter := didStuffN_sends mem
    { tx with
      x1 := toggle (tx.shift.getLsbD 0) tx.x1
      shift := rorByte tx.carry tx.shift
      x2 := rorByte (tx.shift.getLsbD 0) tx.x2 }
    hport hcnt hi hbitcnt htoggle hnext hle
  refine ⟨?_, ?_, ?_, ?_⟩
  · rw [hstep, txBitLoop, htoggle, hgap]
  · rw [hstep]
    exact hafter.1
  · rw [hgap, htime]
    split <;> omega
  · rw [hgap, htime, hstep]
    have hbound := hafter.2
    change 21 ≤ _ + gap (didStuffN 3 _)
    split at hbound
    case isTrue heven => rw [if_pos heven]; omega
    case isFalse hodd => rw [if_neg hodd]; omega

theorem bitstuffN_puts (hport : port &&& usbMask = 0) (hlabel : tx.label = .bitstuffN)
    (hcnt : tx.cnt ≠ 0) (ht : tx.t = 6) (hi : i ≤ 5) (hbitcnt : tx.bitcnt = 0x35 >>> i)
    (hx1 : tx.x1 = pins port prev) :
    Puts mem port tx (!prev) (encode 6 0 (!prev) (low (7 - i) tx.shift ++ restBits mem tx)) := by
  have hgap : gap tx = 11 := by rw [gap, hlabel, ht]
  have hstep : txStep mem tx = bitstuffN tx := by rw [txStep, hlabel]
  have hnot : tx.x1 ^^^ usbMask = pins port (!prev) := by rw [hx1, pins_not hport]
  have hlead : lead (0 : Byte) = 0 := by decide
  have hafter := didStuffN_sends mem { tx with x1 := tx.x1 ^^^ usbMask, x2 := 0 }
    hport hcnt hi hbitcnt hnot hlead (Nat.zero_le 6)
  refine ⟨?_, ?_, ?_, ?_⟩
  · rw [hstep, bitstuffN, hnot, hgap, ht]
  · rw [hstep]
    exact hafter.1
  · omega
  · rw [hgap, hstep]
    have hbound := hafter.2
    change 21 ≤ 11 + gap (didStuffN 3 _)
    split at hbound <;> omega

theorem didStuff6_puts {l : Bool} (hport : port &&& usbMask = 0) (hlabel : tx.label = .didStuff6)
    (hcnt : tx.cnt ≠ 0) (ht : tx.t = 10 ∨ tx.t = 11) (hx1 : tx.x1 = pins port l)
    (hlead : lead (rorByte (tx.shift.getLsbD 0) tx.x2) = run) (hrun : run ≤ 6) :
    Puts mem port tx l (due 6 run l (tx.shift.getLsbD 1 :: restBits mem tx)) := by
  have hgap : gap tx = tx.t := by rw [gap, hlabel]
  have hstep : txStep mem tx = didStuff6 tx := by rw [txStep, hlabel]
  have hbit : (rorByte tx.carry tx.shift).getLsbD 0 = tx.shift.getLsbD 1 := by
    rw [AvrCore.getLsbD_rorByte _ _ (by omega), if_neg (by omega)]
  have hcases : (didStuff6 tx).2 = [(tx.x1, tx.t)] ∧
      Sends mem port (didStuff6 tx).1 (due 6 run l (tx.shift.getLsbD 1 :: restBits mem tx)) ∧
      gap (didStuff6 tx).1 = 11 := by
    rw [didStuff6]
    split
    case isTrue hlt =>
      have hlt6 : run < 6 := by rw [← hlead]; exact (lt_fc_iff _).mp hlt
      have hnext := lead_rorByte (tx.shift.getLsbD 1)
        (b := rorByte (tx.shift.getLsbD 0) tx.x2) (by omega)
      rw [due, if_neg (Nat.ne_of_lt hlt6), hbit]
      refine ⟨rfl, ⟨hcnt, rfl, _, l, hx1, hnext, ?_, ?_⟩, rfl⟩
      · rw [hlead]
        split <;> omega
      · rw [hlead]
        exact LineCode.encode_cons (Nat.succ_pos 5) _
    case isFalse hge =>
      have hsix : run = 6 := by
        rw [lt_fc_iff] at hge
        omega
      have hrol : ∀ b : Byte, (b <<< 1).getLsbD 0 = false ∧ (b <<< 1).getLsbD 1 = b.getLsbD 0 := by
        decide +kernel
      obtain ⟨hzero, hone⟩ := hrol (rorByte tx.carry tx.shift)
      rw [due, if_pos hsix]
      refine ⟨rfl, ⟨hcnt, .inr rfl, 0, !l, ?_, ?_, Nat.zero_le 6, ?_⟩, rfl⟩
      · change tx.x1 ^^^ usbMask = _
        rw [hx1, pins_not hport]
      · change lead (rorByte ((rorByte tx.carry tx.shift <<< 1).getLsbD 0) 0) = 0
        rw [hzero]
        decide
      · change _ = (!l) :: due 6 0 (!l) ((rorByte tx.carry tx.shift <<< 1).getLsbD 1 :: _)
        rw [hone, hbit]
        rfl
  refine ⟨?_, ?_, ?_, ?_⟩
  · rw [hstep, hcases.1, hx1, hgap]
  · rw [hstep]
    exact hcases.2.1
  · omega
  · rw [hstep, hcases.2.2]
    omega

theorem pins_clear (hport : port &&& usbMask = 0) (l : Bool) : pins port l &&& ~~~usbMask = port := by
  have hall : ∀ port : Byte, port &&& usbMask = 0 → ∀ l : Bool,
      pins port l &&& ~~~usbMask = port := by decide +kernel
  exact hall port hport l

theorem toNat_dec {c : Byte} (h : c ≠ 0) : (c - 1).toNat = c.toNat - 1 := by
  have hall : ∀ c : Byte, c ≠ 0 → (c - 1).toNat = c.toNat - 1 := by decide +kernel
  exact hall c h

theorem didStuff7_puts (hport : port &&& usbMask = 0) (hlabel : tx.label = .didStuff7)
    (hcnt : tx.cnt ≠ 0) (ht : tx.t = 6) (hx1 : tx.x1 = pins port prev)
    (hlead : lead (rorByte tx.carry tx.x2) = run) (hrun : run ≤ 6) :
    Puts mem port tx (level prev tx.carry)
      (due 6 run (level prev tx.carry) (restBits mem tx)) := by
  have hgap : gap tx = 11 := by rw [gap, hlabel, ht]
  have hstep : txStep mem tx = didStuff7 mem tx := by rw [txStep, hlabel]
  have htoggle : toggle ((rorByte tx.carry tx.x2).getLsbD 7) tx.x1 = pins port (level prev tx.carry) := by
    rw [getLsbD_seven_rorByte, hx1, toggle_pins hport]
  have hcases : (didStuff7 mem tx).2 = [(pins port (level prev tx.carry), tx.t + 5)] ∧
      Sends mem port (didStuff7 mem tx).1
        (due 6 run (level prev tx.carry) (restBits mem tx)) ∧
      10 ≤ gap (didStuff7 mem tx).1 := by
    rw [didStuff7, htoggle]
    dsimp only
    split
    case isTrue hlt =>
      have hlt6 : run < 6 := by rw [← hlead]; exact (lt_fc_iff _).mp hlt
      rw [due, if_neg (Nat.ne_of_lt hlt6)]
      split
      case isTrue hmore =>
        have hpos : (tx.cnt - 1).toNat ≠ 0 := fun hz => hmore (BitVec.eq_of_toNat_eq hz)
        have hnat : tx.cnt.toNat - 1 = (tx.cnt - 1).toNat - 1 + 1 := by
          rw [← toNat_dec hcnt]
          omega
        refine ⟨rfl, ⟨hmore, 0, run, _, ⟨Nat.zero_le 5, rfl, rfl⟩, rfl, hlead, hlt6, ?_⟩,
          Nat.le_refl 10⟩
        rw [restBits, hnat, bytes, List.flatMap_cons]
        rfl
      case isFalse hlast =>
        have hone : tx.cnt.toNat - 1 = 0 := by
          rw [← toNat_dec hcnt]
          exact congrArg BitVec.toNat (Decidable.not_not.mp hlast)
        refine ⟨rfl, ⟨rfl, pins_clear hport _, ?_⟩, ?_⟩
        · rw [restBits, hone]
          rfl
        · exact Nat.le_add_right 10 2
    case isFalse hge =>
      have hsix : run = 6 := by
        rw [lt_fc_iff] at hge
        omega
      have hzero : lead (rorByte false 0) = 0 := by decide
      rw [due, if_pos hsix]
      refine ⟨rfl, ⟨hcnt, rfl, 0, level prev tx.carry, rfl, hzero, Nat.zero_le 6, ?_⟩,
        Nat.le_succ 10⟩
      change _ = level _ false :: due 6 0 (level _ false) _
      rw [LineCode.level_false]
      rfl
  refine ⟨?_, ?_, ?_, ?_⟩
  · rw [hstep, hcases.1, hgap, ht]
  · rw [hstep]
    exact hcases.2.1
  · omega
  · rw [hstep, hgap]
    have hbound := hcases.2.2
    omega

/-- Until `SE0` every step puts out one more level. -/
theorem sends_cases (hport : port &&& usbMask = 0) (h : Sends mem port tx ls) :
    (tx.label = .se0 ∧ ls = []) ∨ ∃ l ls', ls = l :: ls' ∧ Puts mem port tx l ls' := by
  cases hlabel : tx.label with
  | txBitLoop =>
      rw [Sends, hlabel] at h
      obtain ⟨hcnt, i, run, prev, hpace, hx1, hlead, hrun, rfl⟩ := h
      have hi := hpace.bits
      refine .inr ⟨_, _, ?_, txBitLoop_puts hport hlabel hcnt hpace hx1 hlead hrun⟩
      rw [show 8 - i = 7 - i + 1 by omega, low_succ _ (by omega) tx.carry]
      exact LineCode.encode_cons (Nat.succ_pos 5) _
  | bitstuffN =>
      rw [Sends, hlabel] at h
      obtain ⟨hcnt, ht, i, prev, hi, hbitcnt, hx1, rfl⟩ := h
      exact .inr ⟨_, _, rfl, bitstuffN_puts hport hlabel hcnt ht hi hbitcnt hx1⟩
  | didStuff6 =>
      rw [Sends, hlabel] at h
      obtain ⟨hcnt, ht, run, l, hx1, hlead, hrun, rfl⟩ := h
      exact .inr ⟨_, _, rfl, didStuff6_puts hport hlabel hcnt ht hx1 hlead hrun⟩
  | didStuff7 =>
      rw [Sends, hlabel] at h
      obtain ⟨hcnt, ht, run, prev, hx1, hlead, hrun, rfl⟩ := h
      exact .inr ⟨_, _, rfl, didStuff7_puts hport hlabel hcnt ht hx1 hlead hrun⟩
  | se0 =>
      rw [Sends, hlabel] at h
      exact .inl ⟨rfl, h.2.2⟩
  | idle => rw [Sends, hlabel] at h; exact h.elim
  | done => rw [Sends, hlabel] at h; exact h.elim

end Sends

/-! ## A packet -/

section Packet

/-- Bits of ten or eleven cycles, and never two short ones in a row. -/
def Steady (ts : List ℕ) : Prop :=
  (∀ t ∈ ts, 10 ≤ t ∧ t ≤ 11) ∧ ts.IsChain fun s t => 21 ≤ s + t

/-- The levels that the transmitter makes of a packet, with the sync pattern before it. -/
def sentLevels (packet : List Byte) : List Bool :=
  encode 6 0 true ((0x80 :: packet).flatMap byteBits)

variable {mem : Addr → Byte} {port : Byte} {tx : Tx} {ls : List Bool}

theorem transmit_add (m n : ℕ) (tx : Tx) :
    transmit mem (m + n) tx = ((transmit mem n (transmit mem m tx).1).1,
      (transmit mem m tx).2 ++ (transmit mem n (transmit mem m tx).1).2) := by
  induction m generalizing tx with
  | zero => rw [Nat.zero_add, transmit, List.nil_append]
  | succ m ih => rw [Nat.succ_add, transmit, ih, transmit, List.append_assoc]

/-- All levels are put out, each on time after the one before. -/
theorem transmit_levels (hport : port &&& usbMask = 0) (h : Sends mem port tx ls) :
    Sends mem port (transmit mem ls.length tx).1 [] ∧
      (transmit mem ls.length tx).2.map Prod.fst = ls.map (pins port) ∧
      ∃ ts, (transmit mem ls.length tx).2.map Prod.snd = ts ∧ Steady ts ∧
        (ls ≠ [] → ts.head? = some (gap tx)) := by
  induction ls generalizing tx with
  | nil => exact ⟨h, rfl, [], rfl, ⟨by simp, .nil⟩, fun hne => absurd rfl hne⟩
  | cons l ls ih =>
      rcases sends_cases hport h with ⟨-, hnil⟩ | ⟨l', ls', heq, hputs⟩
      · cases hnil
      · obtain ⟨rfl, rfl⟩ := List.cons.inj heq
        obtain ⟨hend, hlevels, ts, htimes, hsteady, hhead⟩ := ih hputs.rest
        rw [List.length_cons, transmit]
        refine ⟨hend, ?_, gap tx :: ts, ?_, ⟨?_, ?_⟩, fun _ => rfl⟩
        · rw [List.map_append, hlevels, hputs.output]
          rfl
        · rw [List.map_append, htimes, hputs.output]
          rfl
        · intro t ht
          rcases List.mem_cons.mp ht with rfl | ht
          · exact hputs.gap_le
          · exact hsteady.1 t ht
        · cases ts with
          | nil => exact .singleton _
          | cons t ts =>
              refine List.isChain_cons_cons.mpr ⟨?_, hsteady.2⟩
              have hne : ls ≠ [] := by
                rintro rfl
                cases htimes
              have ht : t = gap (txStep mem tx).1 := Option.some.inj (hhead hne)
              rw [ht]
              exact hputs.pair

/-- The first bit is a zero, so that the history in `x2` does not matter. -/
theorem start_sends (mem : Addr → Byte) (hport : port &&& usbMask = 0) (x2 : Byte) (carry : Bool) {cnt : Byte}
    (hcnt : cnt ≠ 0) (y : Addr) (new old : Byte) :
    ∃ ls, sentLevels (bytes mem y (cnt.toNat - 1)) = false :: ls ∧
      (txStep mem (usbSendAndReti port x2 carry cnt y new old)).2 = [(pins port false, 6)] ∧
      Sends mem port (txStep mem (usbSendAndReti port x2 carry cnt y new old)).1 ls := by
  have htoggle : toggle ((0x80 : Byte).getLsbD 0) (port ||| 0x08) = pins port false :=
    toggle_pins hport true false
  have hlead : lead (rorByte ((0x80 : Byte).getLsbD 0) (x2 ||| usbMask)) = 0 := by
    change lead (rorByte false _) = 0
    rw [← dropBit_rorByte false, lead_dropBit]
  have hafter := didStuffN_sends mem
    { usbSendAndReti port x2 carry cnt y new old with
      x1 := toggle ((0x80 : Byte).getLsbD 0) (port ||| 0x08)
      shift := rorByte carry 0x80
      x2 := rorByte ((0x80 : Byte).getLsbD 0) (x2 ||| usbMask) }
    hport hcnt (Nat.zero_le 5) rfl htoggle hlead (Nat.zero_le 6)
  refine ⟨_, ?_, ?_, hafter.1⟩
  · have hsync : byteBits 0x80 = false :: low 7 (rorByte carry 0x80) :=
      low_succ 7 (Nat.le_refl 7) carry 0x80
    rw [sentLevels, List.flatMap_cons, hsync, List.cons_append, LineCode.encode_zero]
    rfl
  · change [(toggle ((0x80 : Byte).getLsbD 0) (port ||| 0x08), 6)] = _
    rw [htoggle]

/-- Where the read pointer is going to end, and the two addresses. -/
def Aims (stop : Addr) (new old : Byte) (tx : Tx) : Prop :=
  tx.usbNewDeviceAddr = new ∧ tx.usbDeviceAddr = old ∧
    match tx.label with
    | .se0 => tx.x2 = new <<< 1 ∧ tx.y = stop - 22
    | .idle | .done => True
    | _ => tx.y + tx.cnt.setWidth 16 = stop

variable {stop : Addr} {new old : Byte}

theorem didStuffN_aims (t : ℕ) (hnew : tx.usbNewDeviceAddr = new) (hold : tx.usbDeviceAddr = old)
    (hstop : tx.y + tx.cnt.setWidth 16 = stop) : Aims stop new old (didStuffN t tx) := by
  rw [didStuffN]
  dsimp only
  split
  · split
    · exact ⟨hnew, hold, hstop⟩
    · split
      · exact ⟨hnew, hold, hstop⟩
      · exact ⟨hnew, hold, hstop⟩
  · exact ⟨hnew, hold, hstop⟩

theorem add_one_add_dec {c : Byte} (h : c ≠ 0) (y : Addr) :
    y + 1 + (c - 1).setWidth 16 = y + c.setWidth 16 := by
  have hall : ∀ c : Byte, c ≠ 0 → (1 : Addr) + (c - 1).setWidth 16 = c.setWidth 16 := by
    decide +kernel
  rw [BitVec.add_assoc, hall c h]

theorem aims_step (hcnt : tx.cnt ≠ 0) (hlabel : tx.label ≠ .se0) (h : Aims stop new old tx) :
    Aims stop new old (txStep mem tx).1 := by
  obtain ⟨hnew, hold, hstop⟩ := h
  cases heq : tx.label with
  | txBitLoop =>
      rw [heq] at hstop
      rw [txStep, heq]
      exact didStuffN_aims 3 hnew hold hstop
  | bitstuffN =>
      rw [heq] at hstop
      rw [txStep, heq]
      exact didStuffN_aims 3 hnew hold hstop
  | didStuff6 =>
      rw [heq] at hstop
      rw [txStep, heq]
      change Aims stop new old (didStuff6 tx).1
      rw [didStuff6]
      split
      · exact ⟨hnew, hold, hstop⟩
      · exact ⟨hnew, hold, hstop⟩
  | didStuff7 =>
      rw [heq] at hstop
      rw [txStep, heq]
      change Aims stop new old (didStuff7 mem tx).1
      have hnext : tx.y + 1 + (tx.cnt - 1).setWidth 16 = stop :=
        (add_one_add_dec hcnt tx.y).trans hstop
      rw [didStuff7]
      dsimp only
      split
      · split
        · exact ⟨hnew, hold, hnext⟩
        case isFalse hlast =>
          have hzero : tx.cnt - 1 = 0 := Decidable.not_not.mp hlast
          have hy : tx.y + 1 = stop := by
            rw [← hnext, hzero]
            exact (BitVec.add_zero _).symm
          refine ⟨hnew, hold, ?_, ?_⟩
          · change tx.usbNewDeviceAddr <<< 1 = _
            rw [hnew]
          · change tx.y + 1 - 22 = _
            rw [hy]
      · exact ⟨hnew, hold, hstop⟩
  | se0 => exact absurd heq hlabel
  | idle => rw [txStep, heq]; exact ⟨hnew, hold, trivial⟩
  | done => rw [txStep, heq]; exact ⟨hnew, hold, by rw [heq]; trivial⟩

theorem Sends.cnt_ne_zero (h : Sends mem port tx ls) (hlabel : tx.label ≠ .se0) : tx.cnt ≠ 0 := by
  cases heq : tx.label with
  | se0 => exact absurd heq hlabel
  | idle => rw [Sends, heq] at h; exact h.elim
  | done => rw [Sends, heq] at h; exact h.elim
  | _ => rw [Sends, heq] at h; exact h.1

theorem transmit_aims (hport : port &&& usbMask = 0) (h : Sends mem port tx ls)
    (haims : Aims stop new old tx) : Aims stop new old (transmit mem ls.length tx).1 := by
  induction ls generalizing tx with
  | nil => exact haims
  | cons l ls ih =>
      rcases sends_cases hport h with ⟨-, hnil⟩ | ⟨l', ls', heq, hputs⟩
      · cases hnil
      · obtain ⟨rfl, rfl⟩ := List.cons.inj heq
        have hlabel : tx.label ≠ .se0 := by
          intro hse0
          rw [Sends, hse0] at h
          cases h.2.2
        exact ih hputs.rest (aims_step (h.cnt_ne_zero hlabel) hlabel haims)

/-- The end of the packet. -/
theorem transmit_se0 (hport : port &&& usbMask = 0) (h : Sends mem port tx [])
    (haims : Aims stop new old tx) :
    ∃ last, (last = 22 ∨ last = 23) ∧
      (transmit mem 2 tx).2 = [(port, 12), (port ||| 0x08, last)] ∧
      (transmit mem 2 tx).1.label = .done ∧
      (transmit mem 2 tx).1.usbDeviceAddr = if stop = 22 then old else new <<< 1 := by
  have hlabel : tx.label = .se0 := by
    rcases sends_cases hport h with ⟨hlabel, -⟩ | ⟨l, ls, hcons, -⟩
    · exact hlabel
    · cases hcons
  rw [Sends, hlabel] at h
  obtain ⟨ht, hx1, -⟩ := h
  obtain ⟨-, hold, haims⟩ := haims
  rw [hlabel] at haims
  obtain ⟨hx2, hy⟩ := haims
  have hstep : txStep mem tx = se0 tx := by rw [txStep, hlabel]
  rw [transmit, hstep, se0, ht, hx1]
  by_cases hstop : stop = 22
  · have hzero : tx.y = 0 := by rw [hy, hstop]; rfl
    rw [if_pos hzero, if_pos hstop]
    exact ⟨22, .inl rfl, rfl, rfl, hold⟩
  · have hne : tx.y ≠ 0 := by
      intro hzero
      apply hstop
      calc
        stop = stop - 22 + 22 := (BitVec.sub_add_cancel stop 22).symm
        _ = 22 := by rw [← hy, hzero]; rfl
    rw [if_neg hne, if_neg hstop]
    exact ⟨23, .inr rfl, rfl, rfl, hx2⟩

/-- What the transmitter makes of a packet: the levels of its bits, each for ten or eleven
cycles, both pins low for two bits, and the idle level. -/
structure Transmitted (port : Byte) (packet : List Byte) (outs : List Out) : Prop where
  values : outs.map Prod.fst = (sentLevels packet).map (pins port) ++ [port, port ||| 0x08]
  times : ∃ ts last, outs.map Prod.snd = 6 :: ts ++ [12, last] ∧ Steady ts ∧ (last = 22 ∨ last = 23)

theorem transmit_start (mem : Addr → Byte) (hport : port &&& usbMask = 0) (x2 : Byte) (carry : Bool) {cnt : Byte}
    (hcnt : cnt ≠ 0) (y : Addr) (new old : Byte) :
    let packet := bytes mem y (cnt.toNat - 1)
    let run := transmit mem ((sentLevels packet).length + 2)
      (usbSendAndReti port x2 carry cnt y new old)
    Transmitted port packet run.2 ∧ run.1.label = .done ∧
      run.1.usbDeviceAddr = if y + cnt.setWidth 16 = 22 then old else new <<< 1 := by
  dsimp only
  obtain ⟨ls, hlevels, hfirst, hsends⟩ := start_sends mem hport x2 carry hcnt y new old
  have haims : Aims (y + cnt.setWidth 16) new old
      (txStep mem (usbSendAndReti port x2 carry cnt y new old)).1 :=
    aims_step hcnt TxLabel.noConfusion ⟨rfl, rfl, rfl⟩
  obtain ⟨hend, hvalues, ts, htimes, hsteady, -⟩ := transmit_levels hport hsends
  obtain ⟨last, hlast, hout, hdone, haddr⟩ :=
    transmit_se0 hport hend (transmit_aims hport hsends haims)
  have hfuel : ls.length + 1 + 2 = ls.length + 2 + 1 := by omega
  rw [hlevels, List.length_cons, hfuel, transmit, transmit_add, hfirst, hout]
  refine ⟨⟨?_, ts, last, ?_, hsteady, hlast⟩, hdone, haddr⟩
  · rw [hlevels, List.map_append, List.map_append, hvalues]
    rfl
  · rw [List.map_append, List.map_append, htimes]
    rfl

/-- What the transmitter puts out behind the sync pattern is on the line as a packet. -/
theorem onLine_of_transmitted {packet : List Byte} {outs : List Out} (hport : port &&& usbMask = 0)
    (h : Transmitted port packet outs) :
    OnLine packet (((outs.map Prod.fst).drop 8).dropLast ++ [port]) := by
  have hsync : sentLevels packet = encode 6 0 true (byteBits 0x80) ++ packetLevels packet := by
    rw [sentLevels, List.flatMap_cons, LineCode.encode_append]
    rfl
  have hmask : ∀ l : Bool, pins port l &&& usbMask = lineByte l := by
    have hall : ∀ port : Byte, port &&& usbMask = 0 → ∀ l : Bool,
        pins port l &&& usbMask = lineByte l := by decide +kernel
    exact hall port hport
  have hlen : ((encode 6 0 true (byteBits 0x80)).map (pins port)).length = 8 := by
    rw [List.length_map]
    decide
  have hdrop : ((outs.map Prod.fst).drop 8).dropLast ++ [port] =
      (packetLevels packet).map (pins port) ++ [port, port] := by
    rw [h.values, hsync, List.map_append, List.append_assoc, List.drop_left' hlen,
      List.dropLast_append_of_ne_nil (List.cons_ne_nil _ _), List.append_assoc]
    rfl
  rw [OnLine, hdrop, List.map_append, List.map_map]
  refine congrArg₂ (· ++ ·) (List.map_congr_left fun l _ => hmask l) ?_
  rw [List.map_cons, List.map_singleton, hport]

/-- A receiver that takes one sample of every transmitted bit, and two of the end, stores
the packet that was sent. -/
theorem transmit_received (mem : Addr → Byte) (port x2 : Byte) (carry : Bool) (cnt : Byte) (n : ℕ)
    (y : Addr) (new old a b leap c : Byte) (hport : port &&& usbMask = 0)
    (hcnt : cnt.toNat = n + 2) (hn : n ≤ 10) (hpid : IsPid (mem y)) :
    let packet := bytes mem y (n + 1)
    let outs := (transmit mem ((sentLevels packet).length + 2)
      (usbSendAndReti port x2 carry cnt y new old)).2
    Received packet
      (finish rxStep (.start a b leap c) (((outs.map Prod.fst).drop 8).dropLast ++ [port])) := by
  have hne : cnt ≠ 0 := by
    intro hzero
    rw [hzero] at hcnt
    exact absurd hcnt.symm (Nat.succ_ne_zero (n + 1))
  have hsent := (transmit_start mem hport x2 carry hne y new old).1
  rw [hcnt, show n + 2 - 1 = n + 1 by omega] at hsent
  have hlen : (bytes mem (y + 1) n).length ≤ 10 := by
    rw [AvrCore.length_bytes]
    exact hn
  exact received_of_onLine hpid hlen (onLine_of_transmitted hport hsent) a b leap c

theorem transmit_received_ack :
    let packet := bytes (fun a => if a = 20 then 0xd2 else 0xff) 20 1
    let outs := (transmit (fun a => if a = 20 then 0xd2 else 0xff) ((sentLevels packet).length + 2)
      (usbSendAndReti 0x41 0xff true 2 20 5 0)).2
    Received packet
      (finish rxStep (.start 1 2 3 4) (((outs.map Prod.fst).drop 8).dropLast ++ [0x41])) :=
  transmit_received (fun a => if a = 20 then 0xd2 else 0xff) 0x41 0xff true 2 0 20 5 0 1 2 3 4
    (by decide) rfl (by decide) (by decide)

end Packet

end TempHumid.Avr.Line
