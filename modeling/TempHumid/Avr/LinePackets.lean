import TempHumid.Avr.LineReceiver

/-!
# The packets of the software receiver

The bits that the receiver loop of `usbdrvasm16.inc` holds are the ones that the line
code means. A packet on the line ends in `se0` with the bytes of the packet stored.

## Implementation notes

The bits of the current byte are shifted into `shift` from the top. A stuffed zero
is taken out by clearing the one before it, and `x3` marks the places of those ones.
`x3` is shifted by two places after bits 0, 2 and 4.
-/

namespace TempHumid.Avr.Line

open AvrCore (Byte rorByte)
open Crc (byteBits)
open LineCode (Receiver read level)
open Machine (Step finish outputs)

/-- The port at the level `J` or `K`. -/
def lineByte (j : Bool) : Byte := if j then 0x08 else 0x04

/-! ## The bits of a byte -/

section Bits

/-- The place of bit 0 in `x3` when `p` bits are read. -/
def markOff (p : ℕ) : ℕ := 6 - 2 * ((p + 1) / 2)

/-- The `p` bits of the current byte in the shift register and the marks. -/
structure Partial (p : ℕ) (shift x3 : Byte) (bits : List Bool) : Prop where
  length : bits.length = p
  data : ∀ i < p, bits[i]? = some (shift.getLsbD (8 - p + i) ^^ x3.getLsbD (markOff p + i))
  clean : 0 < p → ∀ i, markOff p + p ≤ i → x3.getLsbD i = false

variable {p : ℕ} {shift x3 x3' : Byte} {bits : List Bool}

theorem Partial.zero (shift x3 : Byte) : Partial 0 shift x3 [] :=
  ⟨rfl, fun _ h => absurd h (Nat.not_lt_zero _), fun h => absurd h (Nat.lt_irrefl 0)⟩

/-- One more bit, marked or not. -/
theorem Partial.push (h : Partial p shift x3 bits) (hp : p < 8) (c d : Bool)
    (hx : ∀ i, x3'.getLsbD (markOff (p + 1) + i) =
      if i < p then x3.getLsbD (markOff p + i) else d && decide (i = p)) :
    Partial (p + 1) (rorByte c shift) x3' (bits ++ [c ^^ d]) where
  length := by rw [List.length_append, h.length]; rfl
  data := by
    intro i hi
    rw [AvrCore.getLsbD_rorByte _ _ (show 8 - (p + 1) + i < 8 by omega), hx]
    by_cases hold : i < p
    · rw [List.getElem?_append_left (by rw [h.length]; exact hold), if_pos hold,
        if_neg (show ¬ 8 - (p + 1) + i = 7 by omega), h.data i hold,
        show 8 - (p + 1) + i + 1 = 8 - p + i by omega]
    · have heq : i = p := by omega
      rw [if_neg hold, if_pos (show 8 - (p + 1) + i = 7 by omega), heq, decide_eq_true rfl,
        Bool.and_true, List.getElem?_append_right (by rw [h.length]), h.length, Nat.sub_self]
      rfl
  clean := by
    intro _ i hi
    have hsplit : markOff (p + 1) + (i - markOff (p + 1)) = i := by omega
    rw [← hsplit, hx, if_neg (by omega), decide_eq_false (by omega), Bool.and_false]

/-- The marks of a byte stay in their places behind bits 1, 3 and 5 to 7. -/
theorem Partial.stay (h : Partial p shift x3 bits) (hpos : 0 < p)
    (hoff : markOff (p + 1) = markOff p) (i : ℕ) :
    x3.getLsbD (markOff (p + 1) + i) =
      if i < p then x3.getLsbD (markOff p + i) else false && decide (i = p) := by
  rw [hoff]
  split
  · rfl
  · exact h.clean hpos _ (by omega)

theorem Partial.stay_mark (h : Partial p shift x3 bits) (hpos : 0 < p)
    (hoff : markOff (p + 1) = markOff p) {q : ℕ} (hq : q = markOff p + p) (hq8 : q < 8) (i : ℕ) :
    (x3 ||| BitVec.twoPow 8 q).getLsbD (markOff (p + 1) + i) =
      if i < p then x3.getLsbD (markOff p + i) else true && decide (i = p) := by
  rw [BitVec.getLsbD_or, BitVec.getLsbD_twoPow, decide_eq_true hq8, Bool.true_and, hoff]
  split
  case isTrue hi => rw [decide_eq_false (by omega), Bool.or_false]
  case isFalse hi =>
    rw [h.clean hpos _ (by omega), Bool.false_or, Bool.true_and]
    exact decide_eq_decide.mpr (by omega)

/-- The shift by two places behind bits 0, 2 and 4. -/
theorem getLsbD_lsr2 (x : Byte) (i : ℕ) :
    ((x &&& 0x3f) >>> 1 >>> 1).getLsbD i = if i < 4 then x.getLsbD (i + 2) else false := by
  have hall : ∀ x : Byte, ∀ i < 8,
      ((x &&& 0x3f) >>> 1 >>> 1).getLsbD i = if i < 4 then x.getLsbD (i + 2) else false := by
    decide +kernel
  by_cases hi : i < 8
  · exact hall x i hi
  · rw [BitVec.getLsbD_of_ge _ i (by omega), if_neg (by omega)]

theorem getLsbD_mark_lsr2 (x : Byte) (i : ℕ) :
    ((x &&& 0x3f ||| 0x40) >>> 1 >>> 1).getLsbD i =
      if i < 4 then x.getLsbD (i + 2) else decide (i = 4) := by
  have hall : ∀ x : Byte, ∀ i < 8, ((x &&& 0x3f ||| 0x40) >>> 1 >>> 1).getLsbD i =
      if i < 4 then x.getLsbD (i + 2) else decide (i = 4) := by
    decide +kernel
  by_cases hi : i < 8
  · exact hall x i hi
  · rw [BitVec.getLsbD_of_ge _ i (by omega), if_neg (by omega), decide_eq_false (by omega)]

/-- A one that is marked is cleared in the shift register. -/
theorem dropBit_rorByte (c : Bool) (shift : Byte) : dropBit (rorByte c shift) = rorByte false shift := by
  have hall : ∀ (c : Bool) (b : Byte), dropBit (rorByte c b) = rorByte false b := by decide +kernel
  exact hall c shift

theorem Partial.even {j : ℕ} (h : Partial (2 * j) shift x3 bits) (hj : j ≤ 2) (c : Bool) :
    Partial (2 * j + 1) (rorByte c shift) ((x3 &&& 0x3f) >>> 1 >>> 1) (bits ++ [c]) := by
  have hoff : markOff (2 * j + 1) + 2 = markOff (2 * j) ∧ markOff (2 * j + 1) + 2 * j = 4 := by
    simp only [markOff]
    omega
  have hx : ∀ i, ((x3 &&& 0x3f) >>> 1 >>> 1).getLsbD (markOff (2 * j + 1) + i) =
      if i < 2 * j then x3.getLsbD (markOff (2 * j) + i) else false && decide (i = 2 * j) := by
    intro i
    rw [getLsbD_lsr2]
    by_cases hi : i < 2 * j
    · rw [if_pos hi, if_pos (by omega), show markOff (2 * j + 1) + i + 2 = markOff (2 * j) + i by omega]
    · rw [if_neg hi, if_neg (by omega), Bool.false_and]
  simpa only [Bool.xor_false] using h.push (by omega) c false hx

theorem Partial.even_stuffed {j : ℕ} (h : Partial (2 * j) shift x3 bits) (hj : j ≤ 2) (c : Bool) :
    Partial (2 * j + 1) (dropBit (rorByte c shift)) ((x3 &&& 0x3f ||| 0x40) >>> 1 >>> 1)
      (bits ++ [true]) := by
  have hoff : markOff (2 * j + 1) + 2 = markOff (2 * j) ∧ markOff (2 * j + 1) + 2 * j = 4 := by
    simp only [markOff]
    omega
  have hx : ∀ i, ((x3 &&& 0x3f ||| 0x40) >>> 1 >>> 1).getLsbD (markOff (2 * j + 1) + i) =
      if i < 2 * j then x3.getLsbD (markOff (2 * j) + i) else true && decide (i = 2 * j) := by
    intro i
    rw [getLsbD_mark_lsr2, Bool.true_and]
    by_cases hi : i < 2 * j
    · rw [if_pos hi, if_pos (by omega), show markOff (2 * j + 1) + i + 2 = markOff (2 * j) + i by omega]
    · rw [if_neg hi, if_neg (by omega)]
      exact decide_eq_decide.mpr (by omega)
  rw [dropBit_rorByte]
  simpa only [Bool.false_xor] using h.push (by omega) false true hx

/-- Bits 1, 3 and 5 to 7. -/
theorem Partial.next (h : Partial p shift x3 bits) (hpos : 0 < p) (hp : p < 8)
    (hoff : markOff (p + 1) = markOff p) (c : Bool) :
    Partial (p + 1) (rorByte c shift) x3 (bits ++ [c]) := by
  simpa only [Bool.xor_false] using h.push hp c false (h.stay hpos hoff)

theorem Partial.next_stuffed (h : Partial p shift x3 bits) (hpos : 0 < p) (hp : p < 8)
    (hoff : markOff (p + 1) = markOff p) {q : ℕ} (hq : q = markOff p + p) (hq8 : q < 8) (c : Bool) :
    Partial (p + 1) (dropBit (rorByte c shift)) (x3 ||| BitVec.twoPow 8 q) (bits ++ [true]) := by
  rw [dropBit_rorByte]
  simpa only [Bool.false_xor] using h.push hp false true (h.stay_mark hpos hoff hq hq8)

/-- A whole byte. -/
theorem Partial.byteBits_eq (h : Partial 8 shift x3 bits) : byteBits (x3 ^^^ shift) = bits := by
  apply List.ext_getElem?
  intro i
  rw [byteBits, List.getElem?_map]
  by_cases hi : i < 8
  · rw [List.getElem?_range hi, h.data i hi]
    change some ((x3 ^^^ shift).getLsbD i) = some _
    rw [BitVec.getLsbD_xor, Bool.xor_comm]
    simp [markOff]
  · rw [List.getElem?_eq_none (by rw [List.length_range]; omega),
      List.getElem?_eq_none (by rw [h.length]; omega)]
    rfl

end Bits

/-! ## The bits of a packet -/

section Reads

/-- The last sample and the shift register agree with the line code, and no stuffed
zero is due. -/
structure Synced (x shift : Byte) (v : Receiver) : Prop where
  sample : x = lineByte v.prev
  lead_eq : lead shift = v.run
  run_lt : v.run < 6

/-- The bits of the stored bytes and the bits of the current one. -/
def Held (y : List Byte) (p : ℕ) (shift x3 : Byte) (bits : List Bool) : Prop :=
  ∃ part, bits = y.flatMap byteBits ++ part ∧ Partial p shift x3 part

/-- The receiver loop holds the bits, and is in the state of the line code. -/
def Reads (r : Rx) (j : ℕ) (v : Receiver) (bits : List Bool) : Prop :=
  match r.label with
  | .rxBitLoop =>
      Front r.y.length j r.bitcnt r.cnt ∧ Synced r.x2 r.shift v ∧
        Held r.y (2 * j) r.shift r.x3 bits
  | .rxbit1 =>
      Front r.y.length j r.bitcnt r.cnt ∧ Synced r.x1 r.shift v ∧
        Held r.y (2 * j + 1) r.shift r.x3 bits
  | .unstuffEven =>
      Front r.y.length j r.bitcnt r.cnt ∧ v.run = 6 ∧
        Held r.y (2 * j + 1) (dropBit r.shift) (r.x3 >>> 1 >>> 1) bits
  | .unstuffOdd =>
      Front r.y.length j r.bitcnt r.cnt ∧ v.run = 6 ∧
        Held r.y (2 * j + 2) (dropBit r.shift) r.x3 bits
  | .rxByteLoop =>
      Turn r.y.length r.bitcnt r.cnt r.carry ∧ Synced r.x2 r.shift v ∧
        Held r.y 6 r.shift r.x3 bits
  | .didUnstuff6 =>
      Back r.y.length r.bitcnt r.cnt ∧
        if r.carry then Synced r.x1 r.shift v ∧ Held r.y 7 r.shift r.x3 bits
        else v.run = 6 ∧ Held r.y 7 (dropBit r.shift) (r.x3 ||| 0x40) bits
  | .unstuff7 =>
      Back r.y.length r.bitcnt r.cnt ∧ v.run = 6 ∧ Held r.y 8 (dropBit r.shift) r.x3 bits
  | .haveTwoBitsK | .se0 | .overflow => False

variable {r : Rx} {j t : ℕ} {v : Receiver} {bits : List Bool} {x shift x3 : Byte} {l : Bool}

theorem shiftIn_lineByte (a l : Bool) (shift : Byte) :
    shiftIn (lineByte a ^^^ lineByte l) shift = rorByte (level a l) shift := by
  cases a <;> cases l <;> rfl

theorem lineByte_ne_zero (l : Bool) : lineByte l ≠ 0 := by
  cases l <;> decide

theorem lead_rorByte (c : Bool) {b : Byte} (h : lead b < 8) :
    lead (rorByte c b) = if c then lead b + 1 else 0 := by
  have hall : ∀ (c : Bool) (b : Byte), lead b < 8 →
      lead (rorByte c b) = if c then lead b + 1 else 0 := by decide +kernel
  exact hall c b h

/-- A bit is read, with a stuffed zero due after it or not. -/
theorem Synced.read_cases (h : Synced x shift v) (l : Bool) :
    ∃ b v', read 6 v l = (v', [b]) ∧
      shiftIn (x ^^^ lineByte l) shift = rorByte b shift ∧
      if rorByte b shift < 0xfc then Synced (lineByte l) (rorByte b shift) v'
      else b = true ∧ v'.run = 6 := by
  have hlead := lead_rorByte (level v.prev l) (b := shift)
    (by rw [h.lead_eq]; exact Nat.lt_trans h.run_lt (by omega))
  refine ⟨level v.prev l, _, LineCode.read_bit h.run_lt, ?_, ?_⟩
  · rw [h.sample, shiftIn_lineByte]
  · have hrun := h.run_lt
    rw [h.lead_eq] at hlead
    split
    case isTrue hlt => exact ⟨rfl, hlead, by rw [← hlead]; exact (lt_fc_iff _).mp hlt⟩
    case isFalse hge =>
      rw [lt_fc_iff, hlead] at hge
      cases hl : level v.prev l with
      | false =>
          rw [hl, if_neg Bool.false_ne_true] at hge
          exact absurd (Nat.succ_pos 5) hge
      | true =>
          rw [hl, if_pos rfl] at hge
          refine ⟨rfl, ?_⟩
          change (if true then v.run + 1 else 0) = 6
          rw [if_pos rfl]
          omega

/-- A stuffed zero is dropped. -/
theorem synced_stuffed (hrun : v.run = 6) (l : Bool) (b : Byte) :
    read 6 v l = (⟨0, l⟩, []) ∧ Synced (lineByte l) (dropBit b) ⟨0, l⟩ :=
  ⟨LineCode.read_stuffed hrun, rfl, lead_dropBit b, Nat.succ_pos 5⟩

theorem Held.push {y : List Byte} {p p' : ℕ} {shift' x3' : Byte} {b : Bool}
    (h : Held y p shift x3 bits)
    (hnext : ∀ part, Partial p shift x3 part → Partial p' shift' x3' (part ++ [b])) :
    Held y p' shift' x3' (bits ++ [b]) := by
  obtain ⟨part, rfl, hpart⟩ := h
  exact ⟨part ++ [b], List.append_assoc _ _ _, hnext part hpart⟩

theorem Held.store {y : List Byte} (h : Held y 8 shift x3 bits) :
    Held (y ++ [x3 ^^^ shift]) 0 shift (x3 ^^^ shift) bits := by
  obtain ⟨part, rfl, hpart⟩ := h
  refine ⟨[], ?_, Partial.zero _ _⟩
  rw [List.flatMap_append, List.flatMap_singleton, hpart.byteBits_eq, List.append_nil]

theorem didUnstuffO_reads (hplace : Front r.y.length j r.bitcnt r.cnt)
    (hsync : Synced r.x2 r.shift v) (hheld : Held r.y (2 * j + 2) r.shift r.x3 bits) :
    ∃ j', Reads (didUnstuffO t r).1 j' v bits := by
  by_cases hj : j < 2
  · obtain ⟨heq, hnext⟩ := didUnstuffO_loop (t := t) hplace hj
    rw [heq]
    exact ⟨j + 1, hnext, hsync, hheld⟩
  · obtain ⟨heq, hnext⟩ := didUnstuffO_turn (t := t) hplace hj
    have htwo : j = 2 := by have := hplace.pairs; omega
    rw [heq]
    rw [htwo] at hheld
    exact ⟨0, hnext, hsync, hheld⟩

theorem didUnstuff7_reads (hplace : Back r.y.length r.bitcnt r.cnt)
    (hstored : r.shift < 0xfc → Synced r.x2 r.shift v ∧ Held r.y 8 r.shift r.x3 bits)
    (hunstuff : ¬ r.shift < 0xfc → v.run = 6 ∧ Held r.y 8 (dropBit r.shift) (r.x3 ||| 0x80) bits) :
    Reads (didUnstuff7 t r).1 0 v bits := by
  rw [didUnstuff7]
  split
  case isTrue hlt =>
    obtain ⟨hsync, hheld⟩ := hstored hlt
    refine ⟨?_, hsync, hheld.store⟩
    rw [show (r.y ++ [r.x3 ^^^ r.shift]).length = r.y.length + 1 from List.length_append]
    exact hplace.front
  case isFalse hge =>
    obtain ⟨hrun, hheld⟩ := hunstuff hge
    exact ⟨hplace, hrun, hheld⟩

theorem Held.length {y : List Byte} {p : ℕ} (h : Held y p shift x3 bits) :
    bits.length = 8 * y.length + p := by
  obtain ⟨part, rfl, hpart⟩ := h
  rw [List.length_append, Crc.length_flatMap_byteBits, hpart.length]

/-- Bit 6 of a twelfth byte is the first one that there is no room for. -/
theorem not_carry_of_length (hplace : Turn r.y.length r.bitcnt r.cnt r.carry)
    (hlen : bits.length = 8 * r.y.length + 6) (hbits : bits.length < 94) : ¬ r.carry = true := by
  intro hcarry
  rw [hplace.carry_iff.mp hcarry] at hlen
  omega

section Step

variable {s : Byte} (hs : s &&& usbMask = lineByte l)

include hs

theorem rxBitLoop_reads (hplace : Front r.y.length j r.bitcnt r.cnt)
    (hsync : Synced r.x2 r.shift v) (hheld : Held r.y (2 * j) r.shift r.x3 bits) :
    Reads (rxBitLoop r s).1 j (read 6 v l).1 (bits ++ (read 6 v l).2) := by
  obtain ⟨b, v', hread, hshift, hcases⟩ := hsync.read_cases l
  rw [rxBitLoop, hread, hs]
  dsimp only
  rw [hshift]
  split
  case isTrue hlt =>
    rw [if_pos hlt] at hcases
    exact ⟨hplace, hcases, hheld.push fun _ hpart => hpart.even hplace.pairs b⟩
  case isFalse hge =>
    rw [if_neg hge] at hcases
    obtain ⟨rfl, hrun⟩ := hcases
    exact ⟨hplace, hrun, hheld.push fun _ hpart => hpart.even_stuffed hplace.pairs true⟩

theorem unstuffEven_reads (hplace : Front r.y.length j r.bitcnt r.cnt) (hrun : v.run = 6)
    (hheld : Held r.y (2 * j + 1) (dropBit r.shift) (r.x3 >>> 1 >>> 1) bits) :
    Reads (unstuffEven r s).1 j (read 6 v l).1 (bits ++ (read 6 v l).2) := by
  obtain ⟨hread, hsync⟩ := synced_stuffed hrun l r.shift
  rw [unstuffEven, hread, hs, List.append_nil]
  dsimp only
  rw [if_neg (lineByte_ne_zero l)]
  exact ⟨hplace, hsync, hheld⟩

theorem rxbit1_reads (hplace : Front r.y.length j r.bitcnt r.cnt)
    (hsync : Synced r.x1 r.shift v) (hheld : Held r.y (2 * j + 1) r.shift r.x3 bits) :
    ∃ j', Reads (rxbit1 r s).1 j' (read 6 v l).1 (bits ++ (read 6 v l).2) := by
  obtain ⟨b, v', hread, hshift, hcases⟩ := hsync.read_cases l
  have hpairs := hplace.pairs
  have hoff : markOff (2 * j + 1 + 1) = markOff (2 * j + 1) := by
    simp only [markOff]
    omega
  have hmark : 5 = markOff (2 * j + 1) + (2 * j + 1) := by
    simp only [markOff]
    omega
  rw [rxbit1, hread, hs]
  dsimp only
  rw [if_neg (lineByte_ne_zero l), hshift]
  split
  case isTrue hlt =>
    rw [if_pos hlt] at hcases
    exact didUnstuffO_reads hplace hcases
      (hheld.push fun _ hpart => hpart.next (by omega) (by omega) hoff b)
  case isFalse hge =>
    rw [if_neg hge] at hcases
    obtain ⟨rfl, hrun⟩ := hcases
    exact ⟨j, hplace, hrun,
      hheld.push fun _ hpart => hpart.next_stuffed (by omega) (by omega) hoff hmark (by omega) true⟩

theorem unstuffOdd_reads (hplace : Front r.y.length j r.bitcnt r.cnt) (hrun : v.run = 6)
    (hheld : Held r.y (2 * j + 2) (dropBit r.shift) r.x3 bits) :
    ∃ j', Reads (unstuffOdd r s).1 j' (read 6 v l).1 (bits ++ (read 6 v l).2) := by
  obtain ⟨hread, hsync⟩ := synced_stuffed hrun l r.shift
  rw [unstuffOdd, hread, hs, List.append_nil]
  dsimp only
  rw [if_neg (lineByte_ne_zero l)]
  exact didUnstuffO_reads hplace hsync hheld

theorem rxByteLoop_reads (hplace : Turn r.y.length r.bitcnt r.cnt r.carry)
    (hroom : ¬ r.carry = true) (hsync : Synced r.x2 r.shift v)
    (hheld : Held r.y 6 r.shift r.x3 bits) :
    Reads (rxByteLoop r s).1 j (read 6 v l).1 (bits ++ (read 6 v l).2) := by
  obtain ⟨b, v', hread, hshift, hcases⟩ := hsync.read_cases l
  have hplace' := hplace.back hroom
  have hseven : if decide (rorByte b r.shift < 0xfc) = true then
      Synced (lineByte l) (rorByte b r.shift) v' ∧ Held r.y 7 (rorByte b r.shift) r.x3 (bits ++ [b])
      else v'.run = 6 ∧
        Held r.y 7 (dropBit (rorByte b r.shift)) (r.x3 ||| 0x40) (bits ++ [b]) := by
    by_cases hlt : rorByte b r.shift < 0xfc
    · rw [if_pos hlt] at hcases
      rw [if_pos (decide_eq_true hlt)]
      exact ⟨hcases, hheld.push fun _ hpart => hpart.next (by omega) (by omega) rfl b⟩
    · rw [if_neg hlt] at hcases
      obtain ⟨rfl, hrun⟩ := hcases
      rw [if_neg (by rw [decide_eq_true_iff]; exact hlt)]
      exact ⟨hrun,
        hheld.push fun _ hpart => hpart.next_stuffed (q := 6) (by omega) (by omega) rfl rfl (by omega) true⟩
  rw [rxByteLoop, if_neg hroom, hread, hs]
  dsimp only
  rw [hshift]
  split
  · exact ⟨hplace', hseven⟩
  · exact ⟨hplace', hseven⟩

theorem rxbit7_reads (hplace : Back r.y.length r.bitcnt r.cnt)
    (hheld : if r.carry then Synced r.x1 r.shift v ∧ Held r.y 7 r.shift r.x3 bits
      else v.run = 6 ∧ Held r.y 7 (dropBit r.shift) (r.x3 ||| 0x40) bits) :
    Reads (rxbit7 r s).1 0 (read 6 v l).1 (bits ++ (read 6 v l).2) := by
  rw [rxbit7, hs]
  split at hheld
  case isTrue hcarry =>
    obtain ⟨hsync, hheld⟩ := hheld
    obtain ⟨b, v', hread, hshift, hcases⟩ := hsync.read_cases l
    rw [if_pos hcarry, hread]
    dsimp only
    rw [hshift]
    refine didUnstuff7_reads hplace (fun hlt => ?_) (fun hge => ?_)
    · rw [if_pos hlt] at hcases
      exact ⟨hcases, hheld.push fun _ hpart => hpart.next (by omega) (by omega) rfl b⟩
    · rw [if_neg hge] at hcases
      obtain ⟨rfl, hrun⟩ := hcases
      exact ⟨hrun,
        hheld.push fun _ hpart => hpart.next_stuffed (q := 7) (by omega) (by omega) rfl rfl (by omega) true⟩
  case isFalse hcarry =>
    obtain ⟨hrun, hheld⟩ := hheld
    obtain ⟨hread, hsync⟩ := synced_stuffed hrun l r.shift
    rw [if_neg hcarry, hread, List.append_nil]
    refine ⟨hplace, ?_⟩
    change if decide (dropBit r.shift < 0xfc) = true then _ else _
    rw [if_pos (decide_eq_true (dropBit_lt r.shift))]
    exact ⟨hsync, hheld⟩

theorem unstuff7_reads (hplace : Back r.y.length r.bitcnt r.cnt) (hrun : v.run = 6)
    (hheld : Held r.y 8 (dropBit r.shift) r.x3 bits) :
    Reads (unstuff7 r s).1 0 (read 6 v l).1 (bits ++ (read 6 v l).2) := by
  obtain ⟨hread, hsync⟩ := synced_stuffed hrun l r.shift
  rw [unstuff7, hread, hs, List.append_nil]
  exact didUnstuff7_reads hplace (fun _ => ⟨hsync, hheld⟩)
    (fun hge => absurd (dropBit_lt r.shift) hge)

/-- A sample at one of the two levels is read as the line code reads it. -/
theorem reads_step (h : Reads r j v bits) (hlen : bits.length < 94) :
    ∃ j', Reads (rxStep r s).1 j' (read 6 v l).1 (bits ++ (read 6 v l).2) := by
  obtain ⟨label, x1, x2, x3, shift, bitcnt, leap, cnt, carry, y⟩ := r
  cases label with
  | haveTwoBitsK => exact h.elim
  | rxBitLoop => exact ⟨j, rxBitLoop_reads hs h.1 h.2.1 h.2.2⟩
  | unstuffEven => exact ⟨j, unstuffEven_reads hs h.1 h.2.1 h.2.2⟩
  | rxbit1 => exact rxbit1_reads hs h.1 h.2.1 h.2.2
  | unstuffOdd => exact unstuffOdd_reads hs h.1 h.2.1 h.2.2
  | rxByteLoop =>
      have hroom := not_carry_of_length h.1 h.2.2.length hlen
      exact ⟨j, rxByteLoop_reads hs h.1 hroom h.2.1 h.2.2⟩
  | didUnstuff6 => exact ⟨0, rxbit7_reads hs h.1 h.2⟩
  | unstuff7 => exact ⟨0, unstuff7_reads hs h.1 h.2.1 h.2.2⟩
  | se0 => exact h.elim
  | overflow => exact h.elim

end Step

theorem reads_run {ls : List Bool} {samples : List Byte}
    (hs : samples.map (· &&& usbMask) = ls.map lineByte) (h : Reads r j v bits)
    (hlen : (bits ++ outputs (read 6) v ls).length < 94) :
    ∃ j', Reads (finish rxStep r samples) j' (finish (read 6) v ls)
      (bits ++ outputs (read 6) v ls) := by
  induction ls generalizing r j v bits samples with
  | nil =>
      rw [List.map_nil, List.map_eq_nil_iff] at hs
      rw [hs, Machine.outputs_nil, List.append_nil]
      exact ⟨j, h⟩
  | cons l ls ih =>
      cases samples with
      | nil => cases hs
      | cons s samples =>
          rw [List.map_cons, List.map_cons, List.cons.injEq] at hs
          rw [Machine.outputs_cons, ← List.append_assoc] at hlen ⊢
          have hbits : bits.length < 94 := by
            rw [List.length_append, List.length_append] at hlen
            omega
          obtain ⟨j', hnext⟩ := reads_step hs.1 h hbits
          obtain ⟨j'', hlast⟩ := ih hs.2 hnext hlen
          exact ⟨j'', hlast⟩

/-- The first sample gives bit 0, after the `K` of the sync pattern. -/
theorem start_reads {s : Byte} (hs : s &&& usbMask = lineByte l) (x1 x2 leap cnt : Byte) :
    Reads (rxStep (.start x1 x2 leap cnt) s).1 0 ⟨if l then 1 else 0, l⟩ [!l] := by
  have hclean : ∀ i, 5 ≤ i → (0x10 : Byte).getLsbD i = false := by
    intro i hi
    by_cases h8 : i < 8
    · have hall : ∀ i < 8, 5 ≤ i → (0x10 : Byte).getLsbD i = false := by decide
      exact hall i h8 hi
    · exact BitVec.getLsbD_of_ge _ i (by omega)
  have hshift : (if (lineByte l).getLsbD usbMinus then (0 : Byte) ||| 0x80 else dropBit 0) =
      if l then 0x80 else 0 := by
    cases l <;> decide
  have hpart : Partial 1 (if l then 0x80 else 0) 0x10 [!l] := by
    refine ⟨rfl, fun i hi => ?_, fun _ i hi => hclean i hi⟩
    have hzero : i = 0 := by omega
    rw [hzero]
    cases l <;> rfl
  have hsync : Synced (lineByte l) (if l then 0x80 else 0) ⟨if l then 1 else 0, l⟩ := by
    cases l with
    | false => exact ⟨rfl, by decide, Nat.succ_pos 5⟩
    | true => exact ⟨rfl, by decide, by decide⟩
  have hplace : Front 0 0 0x55 usbBufSize := ⟨Nat.zero_le 11, Nat.zero_le 2, rfl, rfl⟩
  change Reads (haveTwoBitsK _ s).1 0 _ _
  rw [haveTwoBitsK, hs]
  change Reads { Rx.start x1 x2 leap cnt with
    x1 := lineByte l
    shift := if (lineByte l).getLsbD usbMinus then (0 : Byte) ||| 0x80 else dropBit 0
    leap := 0
    cnt := usbBufSize
    label := .rxbit1 } 0 _ _
  rw [hshift]
  exact ⟨hplace, hsync, [!l], rfl, hpart⟩

/-- Whole bytes with no stuffed zero due are all stored. -/
theorem stored_of_reads {packet : List Byte} (h : Reads r j v (packet.flatMap byteBits))
    (hrun : v.run < 6) :
    r.label = .rxBitLoop ∧ r.y = packet ∧
      r.cnt = usbBufSize - BitVec.ofNat 8 packet.length := by
  have hlen := Crc.length_flatMap_byteBits packet
  obtain ⟨label, x1, x2, x3, shift, bitcnt, leap, cnt, carry, y⟩ := r
  cases label with
  | rxBitLoop =>
      have hj := h.1.pairs
      have hheld := h.2.2.length
      have hzero : 2 * j = 0 := by
        rw [hlen] at hheld
        omega
      obtain ⟨part, hsplit, hpart⟩ := h.2.2
      have hnil : part = [] := List.eq_nil_of_length_eq_zero (hpart.length.trans hzero)
      rw [hnil, List.append_nil] at hsplit
      have hy := Crc.flatMap_byteBits_injective hsplit
      refine ⟨rfl, hy.symm, ?_⟩
      rw [hy]
      exact h.1.cnt_eq
  | unstuff7 => exact absurd h.2.1 (Nat.ne_of_lt hrun)
  | unstuffEven => exact absurd h.2.1 (Nat.ne_of_lt hrun)
  | unstuffOdd => exact absurd h.2.1 (Nat.ne_of_lt hrun)
  | rxbit1 =>
      have hj := h.1.pairs
      have hheld := h.2.2.length
      omega
  | rxByteLoop =>
      have hheld := h.2.2.length
      omega
  | didUnstuff6 =>
      have hcases := h.2
      split at hcases
      · have hheld := hcases.2.length
        omega
      · exact absurd hcases.1 (Nat.ne_of_lt hrun)
  | haveTwoBitsK => exact h.elim
  | se0 => exact h.elim
  | overflow => exact h.elim

end Reads

/-! ## A packet on the line -/

section Packet

/-- The upper half of a packet identifier is the complement of the lower one. -/
def IsPid (b : Byte) : Prop := b >>> 4 = ~~~b &&& 0x0f

instance (b : Byte) : Decidable (IsPid b) := inferInstanceAs (Decidable (_ = _))

/-- The levels of a packet, after the one bit that ends the sync pattern. -/
def packetLevels (packet : List Byte) : List Bool :=
  LineCode.encode 6 1 false (packet.flatMap byteBits)

/-- The port during a packet and its end, for every bit one sample. -/
def OnLine (packet samples : List Byte) : Prop :=
  samples.map (· &&& usbMask) = (packetLevels packet).map lineByte ++ [0, 0]

instance (packet samples : List Byte) : Decidable (OnLine packet samples) :=
  inferInstanceAs (Decidable (_ = _))

variable {pid : Byte} {data samples : List Byte} {r : Rx}

/-- The ones behind bit 0 of a packet identifier. -/
def pidOnes (pid : Byte) : ℕ := ((byteBits pid).tail.takeWhile id).length

/-- No packet identifier has enough ones for a stuffed zero, and none can be mistaken for
one that has, although bit 0 is read inverted. -/
theorem byteBits_pid (h : IsPid pid) :
    byteBits pid = pid.getLsbD 0 ::
        (List.replicate (pidOnes pid) true ++ false :: (byteBits pid).drop (pidOnes pid + 2)) ∧
      (if pid.getLsbD 0 then 2 else 0) + pidOnes pid < 6 ∧
      (if (!pid.getLsbD 0) then 1 else 0) + pidOnes pid < 6 := by
  have hall : ∀ pid : Byte, IsPid pid → byteBits pid = pid.getLsbD 0 ::
        (List.replicate (pidOnes pid) true ++ false :: (byteBits pid).drop (pidOnes pid + 2)) ∧
      (if pid.getLsbD 0 then 2 else 0) + pidOnes pid < 6 ∧
      (if (!pid.getLsbD 0) then 1 else 0) + pidOnes pid < 6 := by decide +kernel
  exact hall pid h

theorem encode_first (b : Bool) (bs : List Bool) :
    LineCode.encode 6 1 false (b :: bs) =
      (!b) :: LineCode.encode 6 (if b then 2 else 0) (!b) bs := by
  cases b with
  | false => exact LineCode.encode_zero
  | true => exact LineCode.encode_one (by omega)

/-- Up to the end of the packet. -/
theorem reads_packet (hpid : IsPid pid) (hlen : data.length ≤ 10)
    (hs : samples.map (· &&& usbMask) = (packetLevels (pid :: data)).map lineByte)
    (x1 x2 leap cnt : Byte) :
    ∃ j v, v.run < 6 ∧
      Reads (finish rxStep (.start x1 x2 leap cnt) samples) j v ((pid :: data).flatMap byteBits) := by
  obtain ⟨hbits, hrun, hrun'⟩ := byteBits_pid hpid
  have hsplit : (pid :: data).flatMap byteBits = pid.getLsbD 0 ::
      (List.replicate (pidOnes pid) true ++
        false :: ((byteBits pid).drop (pidOnes pid + 2) ++ data.flatMap byteBits)) := by
    rw [List.flatMap_cons]
    conv_lhs => rw [hbits]
    simp only [List.cons_append, List.append_assoc]
  have htotal : ((pid :: data).flatMap byteBits).length < 94 := by
    rw [Crc.length_flatMap_byteBits, List.length_cons]
    omega
  rw [packetLevels, hsplit, encode_first] at hs
  rw [hsplit] at htotal ⊢
  cases samples with
  | nil => cases hs
  | cons s samples =>
      rw [List.map_cons, List.map_cons, List.cons.injEq] at hs
      obtain ⟨hout, hfinish⟩ := LineCode.read_encode_zero _ _ _ (!pid.getLsbD 0)
        ((byteBits pid).drop (pidOnes pid + 2) ++ data.flatMap byteBits) hrun hrun'
      have hstart := start_reads hs.1 x1 x2 leap cnt
      rw [Bool.not_not] at hstart
      obtain ⟨j, hlast⟩ := reads_run hs.2 hstart (by rw [hout]; exact htotal)
      rw [hout, hfinish] at hlast
      exact ⟨j, _, LineCode.runAfter_lt (Nat.succ_pos 5) _ (Nat.succ_pos 5), hlast⟩

/-- Both pins low for two samples end the packet. -/
theorem se0_of_rxBitLoop {s s' : Byte} (hlabel : r.label = .rxBitLoop) (hs' : s' &&& usbMask = 0) :
    (finish rxStep r [s, s']).label = .se0 ∧ (finish rxStep r [s, s']).y = r.y ∧
      (finish rxStep r [s, s']).cnt = r.cnt := by
  have hstep : rxStep r s = rxBitLoop r s := by rw [rxStep, hlabel]
  rw [Machine.finish_cons, Machine.finish_cons, Machine.finish_nil, hstep, rxBitLoop]
  dsimp only
  split
  · change (rxbit1 _ s').1.label = _ ∧ (rxbit1 _ s').1.y = _ ∧ (rxbit1 _ s').1.cnt = _
    rw [rxbit1, hs']
    exact ⟨rfl, rfl, rfl⟩
  · change (unstuffEven _ s').1.label = _ ∧ (unstuffEven _ s').1.y = _ ∧ (unstuffEven _ s').1.cnt = _
    rw [unstuffEven, hs']
    exact ⟨rfl, rfl, rfl⟩

theorem rxLen_eq {n : ℕ} (h : r.cnt = usbBufSize - BitVec.ofNat 8 n) :
    rxLen r = BitVec.ofNat 8 n := by
  have hall : ∀ b : Byte, -(usbBufSize - b - usbBufSize) = b := by decide +kernel
  rw [rxLen, h]
  exact hall _

/-- The state in which a packet leaves the receiver. -/
structure Received (packet : List Byte) (r : Rx) : Prop where
  label : r.label = .se0
  stored : r.y = packet
  length : rxLen r = BitVec.ofNat 8 packet.length

theorem received_of_onLine (hpid : IsPid pid) (hlen : data.length ≤ 10)
    (hs : OnLine (pid :: data) samples) (x1 x2 leap cnt : Byte) :
    Received (pid :: data) (finish rxStep (.start x1 x2 leap cnt) samples) := by
  obtain ⟨packet, eop, rfl, hpacket, heop⟩ := List.map_eq_append_iff.mp hs
  obtain ⟨j, v, hrun, hreads⟩ := reads_packet hpid hlen hpacket x1 x2 leap cnt
  obtain ⟨hlabel, hy, hcnt⟩ := stored_of_reads hreads hrun
  have htwo : eop.length = 2 := by simpa using congrArg List.length heop
  obtain ⟨s, s', rfl⟩ := List.length_eq_two.mp htwo
  rw [List.map_cons, List.map_cons, List.cons.injEq, List.cons.injEq] at heop
  obtain ⟨hlabel', hy', hcnt'⟩ := se0_of_rxBitLoop (s := s) hlabel heop.2.1
  rw [Machine.finish_append]
  exact ⟨hlabel', hy'.trans hy, rxLen_eq (hcnt'.trans hcnt)⟩

end Packet

/-! ## Sampling the line -/

section Wire

/-- The receiver takes `n` samples of a line by itself, the first one in cycle `now`. -/
def receive (wire : ℕ → Byte) : ℕ → ℕ → Rx → Rx
  | 0, _, r => r
  | n + 1, now, r =>
      let next := rxStep r (wire now)
      receive wire n (now + cycles next.2) next.1

/-- The line has the level of every bit from `8 / 3` cycles before the middle of the bit
to two cycles after it, for bits of `32 / 3` cycles. -/
def Carries (wire : ℕ → Byte) (samples : List Byte) : Prop :=
  ∀ k (hk : k < samples.length), ∀ t, 32 * k ≤ 3 * t + 8 → 3 * t ≤ 32 * k + 6 → wire t = samples[k]

/-- The line of a transmitter with the clock of the bus. -/
def wireOf (samples : List Byte) (t : ℕ) : Byte := samples.getD ((3 * t + 8) / 32) 0

theorem carries_wireOf (samples : List Byte) : Carries (wireOf samples) samples := by
  intro k hk t hlow hhigh
  have hdiv : (3 * t + 8) / 32 = k := by omega
  rw [wireOf, hdiv, List.getD_eq_getElem _ _ hk]

variable {wire : ℕ → Byte} {j : ℕ} {e : ℤ} {r : Rx}

theorem rxStep_inactive (h : ¬ r.Active) (s : Byte) : rxStep r s = (r, []) := by
  obtain ⟨label, x1, x2, x3, shift, bitcnt, leap, cnt, carry, y⟩ := r
  cases label with
  | se0 => rfl
  | overflow => rfl
  | _ => exact absurd ⟨Label.noConfusion, Label.noConfusion⟩ h

theorem receive_inactive (h : ¬ r.Active) (n now : ℕ) : receive wire n now r = r := by
  induction n generalizing now with
  | zero => rfl
  | succ n ih =>
      rw [receive, rxStep_inactive h]
      exact ih _

theorem finish_inactive (h : ¬ r.Active) (samples : List Byte) : finish rxStep r samples = r := by
  induction samples with
  | nil => rfl
  | cons s samples ih =>
      rw [Machine.finish_cons, rxStep_inactive h]
      exact ih

/-- The samples are taken while the line has the level of their bit. -/
theorem receive_eq (samples : List Byte) {done : List Byte} {now : ℕ}
    (hwire : Carries wire (done ++ samples)) (h : Timed r j e)
    (he : e = 3 * now - 32 * done.length) :
    receive wire samples.length now r = finish rxStep r samples := by
  induction samples generalizing r j e done now with
  | nil => rfl
  | cons s samples ih =>
      by_cases hactive : r.Active
      · have hbounds := h.error_bounds hactive
        have hsample : wire now = s := by
          rw [hwire done.length (by simp) now (by omega) (by omega)]
          simp
        obtain ⟨j', hnext⟩ := timed_step s h
        rw [List.length_cons, receive, hsample, Machine.finish_cons]
        have hmore : Carries wire (done ++ [s] ++ samples) := by
          rwa [List.append_assoc]
        apply ih hmore hnext
        rw [he, drifted, List.length_append, List.length_singleton]
        push_cast
        omega
      · rw [receive_inactive hactive, finish_inactive hactive]

/-- A packet on a line with open eyes is stored, and its length with it. -/
theorem receive_packet {pid : Byte} {data samples : List Byte} (hpid : IsPid pid)
    (hlen : data.length ≤ 10) (hs : OnLine (pid :: data) samples) (hwire : Carries wire samples)
    (x1 x2 leap cnt : Byte) :
    Received (pid :: data) (receive wire samples.length 0 (.start x1 x2 leap cnt)) := by
  have hnone : Carries wire ([] ++ samples) := hwire
  rw [receive_eq samples hnone (timed_start x1 x2 leap cnt) rfl]
  exact received_of_onLine hpid hlen hs x1 x2 leap cnt

theorem receive_packet_stuffed :
    Received [0xc3, 0xff, 0x7e]
      (receive (wireOf ((packetLevels [0xc3, 0xff, 0x7e]).map lineByte ++ [0, 0]))
        ((packetLevels [0xc3, 0xff, 0x7e]).map lineByte ++ [0, 0]).length 0 (.start 1 2 3 4)) :=
  receive_packet (by decide) (by decide) (by decide) (carries_wireOf _) 1 2 3 4

end Wire

end TempHumid.Avr.Line
