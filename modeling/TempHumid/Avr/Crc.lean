import TempHumid.Library.AvrCore
import TempHumid.Library.Crc

/-!
# The data CRC of the AVR firmware

`usbCrc16` and `usbCrc16Append` of `usbdrvasm.S`, instruction by instruction: the
fast version, which `usbconfig.h` selects, the slow one, and the C pseudo-code in
the comment of the fast one.

## Implementation notes

The register assignment is the one for gcc. Labels are places in the program.
Both versions of `usbCrc16` read each byte once, through `X`, and change no memory.
`usbCrc16Append` calls the fast one with `rcall`, which pushes a return address.
-/

namespace TempHumid.Avr

open AvrCore (Reg Cpu Instr Addr Reaches Returns bytes)
open Crc (byteStep bitStep remainder feedBits byteBits)

namespace Crc16

abbrev argLen := Reg.r22
abbrev argPtrL := Reg.r24
abbrev argPtrH := Reg.r25
abbrev resCrcL := Reg.r24
abbrev resCrcH := Reg.r25
abbrev ptrL := Reg.r26
abbrev ptrH := Reg.r27
abbrev byte := Reg.r18
abbrev bitCnt := Reg.r19
abbrev polyL := Reg.r20
abbrev polyH := Reg.r21
abbrev scratch := Reg.r23

def usbCrc16ByteLoop : ℕ := 5
def usbCrc16LoopTest : ℕ := 26

def usbCrcByteLoop : ℕ := 9
def usbCrcBitLoop : ℕ := 11
def usbCrcNoXor : ℕ := 16
def usbCrcLoopEntry : ℕ := 18

/-- The label `usbCrc16Append`. -/
def appendEntry : ℕ := 31

end Crc16

open Crc16

/-- `usbCrc16` with `USB_USE_FAST_CRC`. -/
def usbCrc16 : List Instr :=
  [ .movw (ptrL, ptrH) (argPtrL, argPtrH),
    .ldi resCrcL 0xff,
    .ldi resCrcH 0xff,
    .clr bitCnt,
    .rjmp usbCrc16LoopTest,
    -- usbCrc16ByteLoop
    .ldX byte,
    .eor byte resCrcL,
    .mov scratch byte,
    .swap byte,
    .eor byte scratch,
    .mov resCrcL byte,
    .lsr byte,
    .lsr byte,
    .eor byte resCrcL,
    .inc byte,
    .andi byte 2,
    .cp bitCnt byte,
    .ror scratch,
    .ror byte,
    .mov resCrcL byte,
    .eor resCrcL resCrcH,
    .mov resCrcH scratch,
    .lsr scratch,
    .ror byte,
    .eor resCrcH scratch,
    .eor resCrcL byte,
    -- usbCrc16LoopTest
    .subi argLen 1,
    .brsh usbCrc16ByteLoop,
    .com resCrcL,
    .com resCrcH,
    .ret ]

/-- `usbCrc16` without `USB_USE_FAST_CRC`. -/
def usbCrc16Slow : List Instr :=
  [ .mov ptrL argPtrL,
    .mov ptrH argPtrH,
    .ldi resCrcL 0,
    .ldi resCrcH 0,
    .ldi polyL 0x01,
    .ldi polyH 0xa0,
    .com argLen,
    .ldi bitCnt 0,
    .rjmp usbCrcLoopEntry,
    -- usbCrcByteLoop
    .ldX byte,
    .eor resCrcL byte,
    -- usbCrcBitLoop
    .ror resCrcH,
    .ror resCrcL,
    .brcs usbCrcNoXor,
    .eor resCrcL polyL,
    .eor resCrcH polyH,
    -- usbCrcNoXor
    .subi bitCnt 224,
    .brcs usbCrcBitLoop,
    -- usbCrcLoopEntry
    .subi argLen 255,
    .brcs usbCrcByteLoop,
    .ret ]

/-- `usbCrc16` and, behind it as in the source, `usbCrc16Append`. -/
def usbCrc16Append : List Instr :=
  usbCrc16 ++ [.rcall 0, .stX resCrcL, .stX resCrcH, .ret]

/-- A call with the arguments in their registers. -/
def call (argPtr : Addr) (len : BitVec 8) (c : Cpu) : Cpu :=
  { c with
    pc := 0, r24 := argPtr.setWidth 8, r25 := (argPtr >>> 8).setWidth 8, r22 := len
    frame := { c.frame with depth := 0 } }

/-- A call of `usbCrc16Append`. -/
def callAppend (data : Addr) (len : BitVec 8) (c : Cpu) : Cpu :=
  { call data len c with pc := appendEntry }

/-- The polynomial of the USB data CRC, reflected. -/
def usbPoly : BitVec 16 := 0xa001

/-- What a receiver is left with after a block and its CRC. -/
def residue : BitVec 16 := 0xb001

/-! ## The pseudo-code -/

def parity (x : BitVec 8) : Bool := (byteBits x).foldl xor false

def table (x : BitVec 8) : BitVec 16 :=
  let value := x.setWidth 16 <<< 6
  let value := value ^^^ (x.setWidth 16 <<< 7)
  if parity x then value ^^^ 0xc001 else value

def pseudoByte (crc : BitVec 16) (b : BitVec 8) : BitVec 16 :=
  table (crc.setWidth 8 ^^^ b) ^^^ (crc >>> 8)

def pseudoCrc16 (data : List (BitVec 8)) : BitVec 16 := ~~~ data.foldl pseudoByte 0xffff

theorem table_eq (x : BitVec 8) : table x = Crc.bits usbPoly 8 (x.setWidth 16) := by
  have hall : ∀ x : BitVec 8, table x = Crc.bits usbPoly 8 (x.setWidth 16) := by decide +kernel
  exact hall x

theorem pseudoCrc16_eq (data : List (BitVec 8)) :
    pseudoCrc16 data = ~~~ remainder usbPoly 0xffff data := by
  have hbyte : pseudoByte = byteStep usbPoly := by
    funext crc b
    rw [pseudoByte, table_eq, Crc.byteStep_eq_table]
  rw [pseudoCrc16, hbyte, remainder]

/-! ## The fast version -/

section Fast

/-- The values of the loop body that depend on `x`: a byte with the parity of `x`
in bit 1, and the two halves of the table. -/
def foldX (x : BitVec 8) : BitVec 8 := AvrCore.swapByte x ^^^ x

def parityBit (x : BitVec 8) : BitVec 8 :=
  (AvrCore.lsrByte (AvrCore.lsrByte (foldX x)) ^^^ foldX x) + 1 &&& 2

def halfH (x : BitVec 8) : BitVec 8 := AvrCore.rorByte (decide (0 < parityBit x)) x

def halfL (x : BitVec 8) : BitVec 8 := AvrCore.rorByte (x.getLsbD 0) (parityBit x)

def tableH (x : BitVec 8) : BitVec 8 := halfH x ^^^ AvrCore.lsrByte (halfH x)

def tableL (x : BitVec 8) : BitVec 8 :=
  halfL x ^^^ AvrCore.rorByte ((halfH x).getLsbD 0) (halfL x)

theorem tableH_append_tableL (x : BitVec 8) : tableH x ++ tableL x = table x := by
  have hall : ∀ x : BitVec 8, tableH x ++ tableL x = table x := by decide +kernel
  exact hall x

/-- The step of a byte on the two halves of the remainder. -/
theorem byteStep_halves (h l b : BitVec 8) :
    byteStep usbPoly (h ++ l) b =
      (tableH (b ^^^ l) ++ (tableL (b ^^^ l) ^^^ h) : BitVec (8 + 8)) := by
  have hx : (h ++ l).setWidth 8 ^^^ b = b ^^^ l := by
    rw [BitVec.setWidth_append_eq_right, BitVec.xor_comm]
  rw [Crc.byteStep_eq_table, hx, ← table_eq, ← tableH_append_tableL,
    AvrCore.append_ushiftRight h l, BitVec.xor_append]
  exact congrArg (· ++ _) BitVec.xor_zero

/-- One round of the loop body, up to the loop test. -/
theorem reaches_byteLoop (c : Cpu) (hpc : c.pc = usbCrc16ByteLoop) (hzero : c.r19 = 0) :
    ∃ d, Reaches usbCrc16 c d ∧ d.pc = usbCrc16LoopTest ∧ d.r19 = 0 ∧ d.r22 = c.r22 ∧
      d.frame = c.frame ∧ d.mem = c.mem ∧ d.x = c.x + 1 ∧ d.result = byteStep usbPoly c.result (c.mem c.x) := by
  obtain ⟨r18, r19, r20, r21, r22, r23, r24, r25, r26, r27, carry, mem, frame, pc⟩ := c
  cases hpc
  cases hzero
  refine ⟨_, ⟨21, rfl⟩, rfl, rfl, rfl, rfl, rfl, AvrCore.append_halves _, ?_⟩
  have hlow : ∀ x : BitVec 8, halfL x ^^^ r25 ^^^
      AvrCore.rorByte ((halfH x).getLsbD 0) (halfL x) = tableL x ^^^ r25 := by
    intro x
    rw [tableL, BitVec.xor_assoc, BitVec.xor_comm r25, BitVec.xor_assoc]
  change (tableH (mem (r27 ++ r26) ^^^ r24) ++ (halfL (mem (r27 ++ r26) ^^^ r24) ^^^ r25 ^^^
    AvrCore.rorByte ((halfH (mem (r27 ++ r26) ^^^ r24)).getLsbD 0)
      (halfL (mem (r27 ++ r26) ^^^ r24))) : BitVec (8 + 8)) =
    byteStep usbPoly (r25 ++ r24) (mem (r27 ++ r26))
  rw [hlow, byteStep_halves]

/-- The loop from its test on. The induction is on the number of bytes left. -/
theorem returns_loopTest (n : ℕ) (c : Cpu) (hpc : c.pc = usbCrc16LoopTest) (hzero : c.r19 = 0)
    (hdepth : c.frame.depth = 0) (hlen : c.r22.toNat = n) :
    ∃ d, Returns usbCrc16 c d ∧ d.mem = c.mem ∧ d.x = c.x + BitVec.ofNat 16 n ∧
      d.result = ~~~ remainder usbPoly c.result (bytes c.mem c.x n) := by
  induction n generalizing c with
  | zero =>
      have hnone : c.r22 = 0 := BitVec.eq_of_toNat_eq hlen
      obtain ⟨r18, r19, r20, r21, r22, r23, r24, r25, r26, r27, carry, mem, frame, pc⟩ := c
      cases hpc
      cases hnone
      refine ⟨_, Reaches.returns ⟨4, rfl⟩ (AvrCore.returns_of_ret rfl hdepth), rfl, ?_, ?_⟩
      · exact (BitVec.add_zero _).symm
      · exact BitVec.not_append.symm
  | succ n ih =>
      have hsome : decide (c.r22 < 1) = false := by
        apply decide_eq_false
        rw [BitVec.lt_def, hlen]
        exact Nat.not_lt.mpr (Nat.succ_le_succ (Nat.zero_le n))
      have hleft : (c.r22 - 1).toNat = n := by
        have hone : (1 : BitVec 8).toNat = 1 := rfl
        have hle : (1 : BitVec 8) ≤ c.r22 := by
          rw [BitVec.le_def, hlen, hone]
          exact Nat.le_add_left 1 n
        rw [BitVec.toNat_sub_of_le hle, hlen, hone, Nat.add_sub_cancel]
      obtain ⟨r18, r19, r20, r21, r22, r23, r24, r25, r26, r27, carry, mem, frame, pc⟩ := c
      cases hpc
      have htest : Reaches usbCrc16
          ⟨r18, r19, r20, r21, r22, r23, r24, r25, r26, r27, carry, mem, frame, usbCrc16LoopTest⟩
          ⟨r18, r19, r20, r21, r22 - 1, r23, r24, r25, r26, r27, false, mem, frame, usbCrc16ByteLoop⟩ := by
        refine ⟨2, ?_⟩
        change some (Cpu.mk r18 r19 r20 r21 (r22 - 1) r23 r24 r25 r26 r27 (decide (r22 < 1)) mem frame
          (if decide (r22 < 1) = true then 28 else usbCrc16ByteLoop)) = _
        simp only at hsome
        rw [hsome]
        rfl
      obtain ⟨d, hround, hdpc, hdzero, hdlen, hdframe, hdmem, hdx, hdcrc⟩ := reaches_byteLoop
        ⟨r18, r19, r20, r21, r22 - 1, r23, r24, r25, r26, r27, false, mem, frame, usbCrc16ByteLoop⟩
        rfl hzero
      obtain ⟨e, hreturns, hmem, hx, hcrc⟩ := ih d hdpc hdzero (hdframe ▸ hdepth)
        (hdlen ▸ hleft)
      refine ⟨e, htest.returns (hround.returns hreturns), hmem.trans hdmem, ?_, ?_⟩
      · rw [hx, hdx, AvrCore.add_one_add_ofNat]
        rfl
      · rw [hcrc, hdcrc, hdmem, hdx]
        rfl

theorem returns_usbCrc16 (argPtr : Addr) (len : BitVec 8) (c : Cpu) :
    ∃ d, Returns usbCrc16 (call argPtr len c) d ∧ d.mem = c.mem ∧
      d.x = argPtr + BitVec.ofNat 16 len.toNat ∧
      d.result = ~~~ remainder usbPoly 0xffff (bytes c.mem argPtr len.toNat) := by
  have hx : (argPtr >>> 8).setWidth 8 ++ argPtr.setWidth 8 = argPtr := AvrCore.append_halves argPtr
  have hones : ((0xff : BitVec 8) ++ (0xff : BitVec 8) : BitVec (8 + 8)) = 0xffff := by decide
  obtain ⟨r18, r19, r20, r21, r22, r23, r24, r25, r26, r27, carry, mem, frame, pc⟩ := c
  have hentry : Reaches usbCrc16 (call argPtr len
        ⟨r18, r19, r20, r21, r22, r23, r24, r25, r26, r27, carry, mem, frame, pc⟩)
      ⟨r18, 0, r20, r21, len, r23, 0xff, 0xff, argPtr.setWidth 8, (argPtr >>> 8).setWidth 8,
        carry, mem, { frame with depth := 0 }, usbCrc16LoopTest⟩ := ⟨5, rfl⟩
  obtain ⟨d, hreturns, hmem, hdx, hcrc⟩ := returns_loopTest len.toNat
    ⟨r18, 0, r20, r21, len, r23, 0xff, 0xff, argPtr.setWidth 8, (argPtr >>> 8).setWidth 8,
      carry, mem, { frame with depth := 0 }, usbCrc16LoopTest⟩ rfl rfl rfl rfl
  refine ⟨d, hentry.returns hreturns, hmem, ?_, ?_⟩
  · rw [hdx, Cpu.x, hx]
  · rw [hcrc, Cpu.x, hx, Cpu.result, hones]

end Fast

/-! ## The slow version -/

section Slow

/-- What a round of the slow version leaves alone. -/
structure Kept (c d : Cpu) : Prop where
  polyL : d.r20 = c.r20
  polyH : d.r21 = c.r21
  argLen : d.r22 = c.r22
  frame : d.frame = c.frame
  mem : d.mem = c.mem
  ptr : d.x = c.x

theorem Kept.trans {b c d : Cpu} (hbc : Kept b c) (hcd : Kept c d) : Kept b d where
  polyL := hcd.polyL.trans hbc.polyL
  polyH := hcd.polyH.trans hbc.polyH
  argLen := hcd.argLen.trans hbc.argLen
  frame := hcd.frame.trans hbc.frame
  mem := hcd.mem.trans hbc.mem
  ptr := hcd.ptr.trans hbc.ptr

/-- Rotating the complement through a set carry shifts the number itself. -/
theorem ror_pair (h l : BitVec 8) :
    (AvrCore.rorByte true h ++ AvrCore.rorByte (h.getLsbD 0) l : BitVec (8 + 8)) =
      ~~~ ((~~~ (h ++ l)) >>> 1) := by
  apply BitVec.eq_of_getLsbD_eq
  intro i hi
  have hnext : (~~~ (h ++ l)).getLsbD (1 + i) =
      (decide (1 + i < 8 + 8) && !(h ++ l).getLsbD (1 + i)) := BitVec.getLsbD_not
  rw [BitVec.getLsbD_not, BitVec.getLsbD_ushiftRight, hnext, decide_eq_true hi, Bool.true_and,
    BitVec.getLsbD_append, BitVec.getLsbD_append]
  by_cases hlow : i < 8
  · rw [if_pos hlow, AvrCore.getLsbD_rorByte _ _ hlow, decide_eq_true (show 1 + i < 8 + 8 by omega)]
    by_cases hlast : i = 7
    · simp [hlast]
    · rw [if_neg hlast, if_pos (show 1 + i < 8 by omega), Bool.true_and, Bool.not_not,
        Nat.add_comm]
  · rw [if_neg hlow, AvrCore.getLsbD_rorByte _ _ (show i - 8 < 8 by omega),
      if_neg (show ¬1 + i < 8 by omega), show 1 + i - 8 = i - 8 + 1 by omega]
    by_cases hlast : i - 8 = 7
    · rw [if_pos hlast, decide_eq_false (show ¬1 + i < 8 + 8 by omega)]
      rfl
    · rw [if_neg hlast, decide_eq_true (show 1 + i < 8 + 8 by omega), Bool.true_and, Bool.not_not]

/-- One round of the bit loop. The registers hold the complement of the remainder. -/
theorem reaches_bit (c : Cpu) (hpc : c.pc = usbCrcBitLoop) (hcarry : c.carry = true)
    (hpolyL : c.r20 = 0x01) (hpolyH : c.r21 = 0xa0) :
    ∃ d, Reaches usbCrc16Slow c d ∧ Kept c d ∧ d.carry = decide (c.r19 < 224) ∧
      d.pc = (if decide (c.r19 < 224) then usbCrcBitLoop else usbCrcLoopEntry) ∧
      d.r19 = c.r19 - 224 ∧ d.result = ~~~ bitStep usbPoly (~~~ c.result) := by
  obtain ⟨r18, r19, r20, r21, r22, r23, r24, r25, r26, r27, carry, mem, frame, pc⟩ := c
  cases hpc
  cases hcarry
  cases hpolyL
  cases hpolyH
  have hror : Reaches usbCrc16Slow
      ⟨r18, r19, 0x01, 0xa0, r22, r23, r24, r25, r26, r27, true, mem, frame, usbCrcBitLoop⟩
      ⟨r18, r19, 0x01, 0xa0, r22, r23, AvrCore.rorByte (r25.getLsbD 0) r24,
        AvrCore.rorByte true r25, r26, r27, r24.getLsbD 0, mem, frame, 13⟩ := ⟨2, rfl⟩
  have hbit : (~~~ (r25 ++ r24)).getLsbD 0 = !r24.getLsbD 0 := by
    rw [BitVec.getLsbD_not, BitVec.getLsbD_append]
    rfl
  cases hlow : r24.getLsbD 0 with
  | true =>
      rw [hlow] at hror
      refine ⟨_, hror.trans ⟨3, rfl⟩, ⟨rfl, rfl, rfl, rfl, rfl, rfl⟩, rfl, rfl, rfl, ?_⟩
      change (AvrCore.rorByte true r25 ++ AvrCore.rorByte (r25.getLsbD 0) r24 : BitVec (8 + 8)) =
        ~~~ bitStep usbPoly (~~~ (r25 ++ r24))
      rw [ror_pair, bitStep, hbit, hlow]
      rfl
  | false =>
      rw [hlow] at hror
      refine ⟨_, hror.trans ⟨5, rfl⟩, ⟨rfl, rfl, rfl, rfl, rfl, rfl⟩, rfl, rfl, rfl, ?_⟩
      have hpoly : usbPoly = ((0xa0 : BitVec 8) ++ (0x01 : BitVec 8) : BitVec (8 + 8)) := by decide
      change ((AvrCore.rorByte true r25 ^^^ 0xa0) ++
        (AvrCore.rorByte (r25.getLsbD 0) r24 ^^^ 0x01) : BitVec (8 + 8)) =
          ~~~ bitStep usbPoly (~~~ (r25 ++ r24))
      rw [← BitVec.xor_append, ror_pair, ← hpoly, bitStep, hbit, hlow, Bool.not_false,
        if_pos rfl, BitVec.not_xor_left]

/-- The bit loop with `m + 1` rounds to go. -/
theorem reaches_bitLoop (m : ℕ) (hm : m ≤ 7) (c : Cpu) (hpc : c.pc = usbCrcBitLoop)
    (hcarry : c.carry = true) (hpolyL : c.r20 = 0x01) (hpolyH : c.r21 = 0xa0)
    (hcount : c.r19.toNat = 224 - 32 * m) :
    ∃ d, Reaches usbCrc16Slow c d ∧ Kept c d ∧ d.pc = usbCrcLoopEntry ∧ d.r19 = 0 ∧
      d.result = ~~~ Crc.bits usbPoly (m + 1) (~~~ c.result) := by
  obtain ⟨d, hreach, hkept, hdcarry, hdpc, hdcount, hdcrc⟩ := reaches_bit c hpc hcarry hpolyL hpolyH
  induction m generalizing c d with
  | zero =>
      have hlast : c.r19 = 224 := BitVec.eq_of_toNat_eq hcount
      rw [hlast] at hdpc hdcount
      exact ⟨d, hreach, hkept, hdpc, hdcount, hdcrc⟩
  | succ m ih =>
      have hmore : c.r19 < 224 := by
        rw [BitVec.lt_def, hcount]
        change 224 - 32 * (m + 1) < 224
        omega
      rw [decide_eq_true hmore] at hdcarry hdpc
      have hcount' : d.r19.toNat = 224 - 32 * m := by
        rw [hdcount, BitVec.toNat_sub, hcount]
        change (2 ^ 8 - 224 + (224 - 32 * (m + 1))) % 2 ^ 8 = _
        omega
      have hdL := hkept.polyL.trans hpolyL
      have hdH := hkept.polyH.trans hpolyH
      obtain ⟨e, hreach', hkept', hecarry, hepc, hecount, hecrc⟩ :=
        reaches_bit d hdpc hdcarry hdL hdH
      obtain ⟨f, hrest, hfkept, hfpc, hfcount, hfcrc⟩ := ih (Nat.le_of_succ_le hm) d hdpc hdcarry
        hdL hdH hcount' e hreach' hkept' hecarry hepc hecount hecrc
      refine ⟨f, hreach.trans hrest, hkept.trans hfkept, hfpc, hfcount, ?_⟩
      rw [hfcrc, hdcrc, BitVec.not_not]
      rfl

theorem byteStep_eq_bits (h l b : BitVec 8) :
    byteStep usbPoly (~~~ (h ++ l)) b = Crc.bits usbPoly 8 (~~~ (h ++ (l ^^^ b))) := by
  have hb : b.setWidth 16 = ((0 : BitVec 8) ++ b : BitVec (8 + 8)) := by
    apply BitVec.eq_of_getLsbD_eq
    intro i hi
    rw [BitVec.getLsbD_setWidth, BitVec.getLsbD_append, decide_eq_true hi, Bool.true_and]
    by_cases h8 : i < 8
    · rw [if_pos h8]
    · rw [if_neg h8, BitVec.getLsbD_of_ge b i (Nat.le_of_not_lt h8)]
      exact BitVec.getLsbD_zero.symm
  have hsum : (h ++ (l ^^^ b) : BitVec (8 + 8)) = (h ++ l) ^^^ ((0 : BitVec 8) ++ b) := by
    rw [BitVec.xor_append]
    exact congrArg (· ++ _) BitVec.xor_zero.symm
  rw [byteStep, hb, hsum, BitVec.not_xor_left]

/-- The byte loop with `n` bytes to go. `argLen` counts up to 255. -/
theorem returns_loopEntry (n : ℕ) (c : Cpu) (hpc : c.pc = usbCrcLoopEntry) (hcount : c.r19 = 0)
    (hpolyL : c.r20 = 0x01) (hpolyH : c.r21 = 0xa0) (hdepth : c.frame.depth = 0)
    (hlen : c.r22.toNat + n = 255) :
    ∃ d, Returns usbCrc16Slow c d ∧ d.mem = c.mem ∧ d.x = c.x + BitVec.ofNat 16 n ∧
      d.result = ~~~ remainder usbPoly (~~~ c.result) (bytes c.mem c.x n) := by
  induction n generalizing c with
  | zero =>
      have hnone : c.r22 = 255 := BitVec.eq_of_toNat_eq hlen
      obtain ⟨r18, r19, r20, r21, r22, r23, r24, r25, r26, r27, carry, mem, frame, pc⟩ := c
      cases hpc
      cases hnone
      refine ⟨_, Reaches.returns ⟨2, rfl⟩ (AvrCore.returns_of_ret rfl hdepth), rfl, ?_, ?_⟩
      · exact (BitVec.add_zero _).symm
      · exact (BitVec.not_not (b := r25 ++ r24)).symm
  | succ n ih =>
      have hmore : decide (c.r22 < 255) = true := by
        apply decide_eq_true
        rw [BitVec.lt_def]
        change c.r22.toNat < 255
        omega
      have hleft : (c.r22 - 255).toNat + n = 255 := by
        rw [BitVec.toNat_sub]
        change (2 ^ 8 - 255 + c.r22.toNat) % 2 ^ 8 + n = 255
        omega
      obtain ⟨r18, r19, r20, r21, r22, r23, r24, r25, r26, r27, carry, mem, frame, pc⟩ := c
      cases hpc
      have htest : Reaches usbCrc16Slow
          ⟨r18, r19, r20, r21, r22, r23, r24, r25, r26, r27, carry, mem, frame, usbCrcLoopEntry⟩
          ⟨r18, r19, r20, r21, r22 - 255, r23, r24, r25, r26, r27, true, mem, frame, usbCrcByteLoop⟩ := by
        refine ⟨2, ?_⟩
        change some (Cpu.mk r18 r19 r20 r21 (r22 - 255) r23 r24 r25 r26 r27 (decide (r22 < 255)) mem frame
          (if decide (r22 < 255) = true then usbCrcByteLoop else 20)) = _
        simp only at hmore
        rw [hmore]
        rfl
      have hload : ∃ d, Reaches usbCrc16Slow
          ⟨r18, r19, r20, r21, r22 - 255, r23, r24, r25, r26, r27, true, mem, frame, usbCrcByteLoop⟩ d ∧
          d.pc = usbCrcBitLoop ∧ d.carry = true ∧ d.r20 = r20 ∧ d.r21 = r21 ∧ d.r22 = r22 - 255 ∧
          d.r19 = r19 ∧ d.frame = frame ∧ d.mem = mem ∧ d.x = (r27 ++ r26) + 1 ∧
          d.result = r25 ++ (r24 ^^^ mem (r27 ++ r26)) :=
        ⟨_, ⟨2, rfl⟩, rfl, rfl, rfl, rfl, rfl, rfl, rfl, rfl, AvrCore.append_halves _, rfl⟩
      obtain ⟨d, hbyte, hdpc, hdcarry, hdL, hdH, hdlen, hdcount, hdframe, hdmem, hdx, hdcrc⟩ := hload
      have hd0 : d.r19.toNat = 224 - 32 * 7 := congrArg BitVec.toNat (hdcount.trans hcount)
      obtain ⟨e, hbits, hkept, hepc, hecount, hecrc⟩ := reaches_bitLoop 7 le_rfl d hdpc hdcarry
        (hdL.trans hpolyL) (hdH.trans hpolyH) hd0
      have helen : e.r22.toNat + n = 255 := by rw [hkept.argLen, hdlen, hleft]
      obtain ⟨f, hreturns, hmem, hx, hcrc⟩ := ih e hepc hecount
        (hkept.polyL.trans (hdL.trans hpolyL)) (hkept.polyH.trans (hdH.trans hpolyH))
        ((hkept.frame.trans hdframe) ▸ hdepth) helen
      refine ⟨f, htest.returns (hbyte.returns (hbits.returns hreturns)),
        hmem.trans (hkept.mem.trans hdmem), ?_, ?_⟩
      · rw [hx, hkept.ptr, hdx, AvrCore.add_one_add_ofNat]
        rfl
      · rw [hcrc, hecrc, hdcrc, hkept.mem, hdmem, hkept.ptr, hdx, BitVec.not_not,
          ← byteStep_eq_bits]
        rfl

theorem returns_usbCrc16Slow (argPtr : Addr) (len : BitVec 8) (c : Cpu) :
    ∃ d, Returns usbCrc16Slow (call argPtr len c) d ∧ d.mem = c.mem ∧
      d.x = argPtr + BitVec.ofNat 16 len.toNat ∧
      d.result = ~~~ remainder usbPoly 0xffff (bytes c.mem argPtr len.toNat) := by
  have hx : (argPtr >>> 8).setWidth 8 ++ argPtr.setWidth 8 = argPtr := AvrCore.append_halves argPtr
  have hzeros : (~~~ ((0 : BitVec 8) ++ (0 : BitVec 8)) : BitVec (8 + 8)) = 0xffff := by decide
  have hlen : (~~~ len).toNat + len.toNat = 255 := by
    have hbound := len.isLt
    rw [BitVec.toNat_not]
    omega
  obtain ⟨r18, r19, r20, r21, r22, r23, r24, r25, r26, r27, carry, mem, frame, pc⟩ := c
  have hentry : Reaches usbCrc16Slow (call argPtr len
        ⟨r18, r19, r20, r21, r22, r23, r24, r25, r26, r27, carry, mem, frame, pc⟩)
      ⟨r18, 0, 0x01, 0xa0, ~~~ len, r23, 0, 0, argPtr.setWidth 8, (argPtr >>> 8).setWidth 8,
        true, mem, { frame with depth := 0 }, usbCrcLoopEntry⟩ := ⟨9, rfl⟩
  obtain ⟨d, hreturns, hmem, hdx, hcrc⟩ := returns_loopEntry len.toNat
    ⟨r18, 0, 0x01, 0xa0, ~~~ len, r23, 0, 0, argPtr.setWidth 8, (argPtr >>> 8).setWidth 8,
      true, mem, { frame with depth := 0 }, usbCrcLoopEntry⟩ rfl rfl rfl rfl rfl hlen
  refine ⟨d, hentry.returns hreturns, hmem, ?_, ?_⟩
  · rw [hdx, Cpu.x, hx]
  · rw [hcrc, Cpu.x, hx, Cpu.result, hzeros]

end Slow

/-- For every memory, address and length the two versions and the pseudo-code of
`usbCrc16` compute the complement of the remainder, read up to the same address
and change no memory. -/
theorem usbCrc16_agree (argPtr : Addr) (len : BitVec 8) (c : Cpu) :
    ∃ fast slow, Returns usbCrc16 (call argPtr len c) fast ∧
      Returns usbCrc16Slow (call argPtr len c) slow ∧
      fast.result = ~~~ remainder usbPoly 0xffff (bytes c.mem argPtr len.toNat) ∧
      slow.result = fast.result ∧
      pseudoCrc16 (bytes c.mem argPtr len.toNat) = fast.result ∧
      fast.mem = c.mem ∧ slow.mem = c.mem ∧ slow.x = fast.x := by
  obtain ⟨fast, hfast, hfmem, hfx, hfcrc⟩ := returns_usbCrc16 argPtr len c
  obtain ⟨slow, hslow, hsmem, hsx, hscrc⟩ := returns_usbCrc16Slow argPtr len c
  refine ⟨fast, slow, hfast, hslow, hfcrc, hscrc.trans hfcrc.symm, ?_, hfmem, hsmem,
    hsx.trans hfx.symm⟩
  rw [pseudoCrc16_eq, hfcrc]

/-! ## The receiver -/

section Receiver

/-- The polynomial has a constant term. -/
theorem usbPoly_constant : usbPoly.getLsbD (16 - 1) = true := by decide

theorem eight_le : 8 ≤ 16 := by decide

theorem word_two (lo hi : BitVec 8) :
    Crc.word 16 (byteBits lo ++ byteBits hi) = (hi ++ lo : BitVec (8 + 8)) := by
  have hlen : ∀ b : BitVec 8, (byteBits b).length = 8 := fun b => by simp [byteBits]
  have hbits : ∀ (b : BitVec 8) (i : ℕ), i < 8 → (byteBits b).getD i false = b.getLsbD i := by
    intro b i hi
    rw [List.getD_eq_getElem _ _ ((hlen b).symm ▸ hi)]
    simp [byteBits]
  apply BitVec.eq_of_getLsbD_eq
  intro i hlt
  rw [Crc.getLsbD_word, decide_eq_true hlt, Bool.true_and, BitVec.getLsbD_append]
  by_cases h8 : i < 8
  · rw [List.getD_append _ _ _ _ ((hlen lo).symm ▸ h8), if_pos h8, hbits lo i h8]
  · rw [List.getD_append_right _ _ _ _ ((hlen lo).symm ▸ Nat.le_of_not_lt h8), if_neg h8, hlen,
      hbits hi (i - 8) (by omega)]

/-- A receiver accepts the complement of the remainder and nothing else. -/
theorem remainder_eq_residue (r : BitVec 16) (lo hi : BitVec 8) :
    remainder usbPoly r [lo, hi] = residue ↔ (hi ++ lo : BitVec (8 + 8)) = ~~~ r := by
  have hlen : (byteBits lo ++ byteBits hi).length = 16 := by simp [byteBits]
  have hbits : feedBits usbPoly r (byteBits lo ++ byteBits hi) = remainder usbPoly r [lo, hi] := by
    rw [Crc.feedBits_append, Crc.feedBits_byteBits usbPoly eight_le,
      Crc.feedBits_byteBits usbPoly eight_le]
    rfl
  have hres : residue = Crc.bits usbPoly 16 (BitVec.allOnes 16) := by decide +kernel
  rw [← hbits, hres, Crc.bits_residue usbPoly_constant r hlen, word_two]

/-- The part of `usbCrc16Append` behind the call. -/
theorem returns_stores (c : Cpu) (hpc : c.pc = appendEntry + 1) (hdepth : c.frame.depth = 0) :
    ∃ e, Returns usbCrc16Append c e ∧ e.frame = c.frame ∧ e.r24 = c.r24 ∧ e.r25 = c.r25 ∧
      e.mem = fun a => if a = c.x + 1 then c.r25 else if a = c.x then c.r24 else c.mem a := by
  have hmem : ∀ a, (if a = c.incX.x then c.r25 else if a = c.x then c.r24 else c.mem a) =
      if a = c.x + 1 then c.r25 else if a = c.x then c.r24 else c.mem a := by
    intro a
    rw [AvrCore.x_incX]
  obtain ⟨r18, r19, r20, r21, r22, r23, r24, r25, r26, r27, carry, mem, frame, pc⟩ := c
  cases hpc
  exact ⟨_, Reaches.returns ⟨2, rfl⟩ (AvrCore.returns_of_ret rfl hdepth), rfl, rfl, rfl,
    funext hmem⟩

theorem usbCrc16_leaf (t : ℕ) : Instr.rcall t ∉ usbCrc16 := by simp [usbCrc16]

/-- `usbCrc16Append` comes back from `usbCrc16` and stores the result at the address
that `X` has reached. The block lies outside the two bytes of the return address. -/
theorem returns_usbCrc16Append (data : Addr) (len : BitVec 8) (c : Cpu)
    (hstack : ∀ i < len.toNat, data + BitVec.ofNat 16 i ≠ c.frame.sp ∧
      data + BitVec.ofNat 16 i ≠ c.frame.sp - 1) :
    ∃ e, Returns usbCrc16Append (callAppend data len c) e ∧ e.frame.sp = c.frame.sp ∧
      (e.r25 ++ e.r24 : BitVec (8 + 8)) =
        ~~~ remainder usbPoly 0xffff (bytes c.mem data len.toNat) ∧
      e.mem = fun a => if a = data + BitVec.ofNat 16 (len.toNat + 1) then e.r25
        else if a = data + BitVec.ofNat 16 len.toNat then e.r24
        else ((callAppend data len c).enter 0).mem a := by
  have hx1 := AvrCore.add_ofNat_add_one data len.toNat
  have hblock : bytes ((callAppend data len c).enter 0).mem data len.toNat =
      bytes c.mem data len.toNat := by
    apply AvrCore.bytes_congr
    intro i hi
    exact (if_neg (hstack i hi).1).trans (if_neg (hstack i hi).2)
  have hne : c.frame.sp - 1 ≠ c.frame.sp := by bv_omega
  obtain ⟨d, hcrc, hdmem, hdx, hdresult⟩ :=
    returns_usbCrc16 data len ((callAppend data len c).enter 0)
  have hcall : usbCrc16Append[(callAppend data len c).pc]? = some (.rcall 0) := rfl
  have hplace : (callAppend data len c).pc + 1 < 2 ^ 16 := by
    change 31 + 1 < 2 ^ 16
    decide
  have hlow : d.mem c.frame.sp = ((callAppend data len c).returnAddr).setWidth 8 := by
    rw [hdmem]
    exact if_pos rfl
  have hhigh : d.mem (c.frame.sp - 1) =
      ((callAppend data len c).returnAddr >>> 8).setWidth 8 := by
    rw [hdmem]
    exact (if_neg hne).trans (if_pos rfl)
  have hback := hcrc.comes_back hcall hplace usbCrc16_leaf hlow hhigh
  obtain ⟨e, hreturns, hframe, hlo, hhi, hmem⟩ := returns_stores
    { d with frame := (callAppend data len c).frame, pc := appendEntry + 1 } rfl rfl
  have hx : Cpu.x { d with frame := (callAppend data len c).frame, pc := appendEntry + 1 } =
      data + BitVec.ofNat 16 len.toNat := hdx
  refine ⟨e, hback.returns hreturns, hframe ▸ rfl, ?_, ?_⟩
  · rw [← hblock, hlo, hhi]
    exact hdresult
  · rw [hmem, hx, hx1, hlo, hhi, ← hdmem]

/-- The memory behind `usbCrc16Append`: the CRC stands behind the block, and nothing else
has changed but the two bytes of the return address. -/
theorem mem_usbCrc16Append {data : Addr} {len : BitVec 8} {c e : Cpu}
    (hstack : ∀ i < len.toNat, data + BitVec.ofNat 16 i ≠ c.frame.sp ∧
      data + BitVec.ofNat 16 i ≠ c.frame.sp - 1)
    (hmem : e.mem = fun a => if a = data + BitVec.ofNat 16 (len.toNat + 1) then e.r25
      else if a = data + BitVec.ofNat 16 len.toNat then e.r24
      else ((callAppend data len c).enter 0).mem a) :
    (∀ a, a ≠ data + BitVec.ofNat 16 len.toNat → a ≠ data + BitVec.ofNat 16 (len.toNat + 1) →
        a ≠ c.frame.sp → a ≠ c.frame.sp - 1 → e.mem a = c.mem a) ∧
      bytes e.mem data len.toNat = bytes c.mem data len.toNat ∧
      bytes e.mem data (len.toNat + 2) = bytes c.mem data len.toNat ++ [e.r24, e.r25] := by
  have hother : ∀ a, a ≠ data + BitVec.ofNat 16 len.toNat →
      a ≠ data + BitVec.ofNat 16 (len.toNat + 1) → a ≠ c.frame.sp → a ≠ c.frame.sp - 1 →
      e.mem a = c.mem a := by
    intro a hfirst hsecond hlow hhigh
    have hpush : ((callAppend data len c).enter 0).mem a = c.mem a :=
      (if_neg hlow).trans (if_neg hhigh)
    rw [hmem, ← hpush]
    exact (if_neg hsecond).trans (if_neg hfirst)
  have hoff : ∀ i k, i < k → k ≤ len.toNat + 1 →
      data + BitVec.ofNat 16 i ≠ data + BitVec.ofNat 16 k := by
    intro i k hk hk' h
    have hbound := len.isLt
    have heq := congrArg BitVec.toNat (BitVec.add_right_inj _ |>.mp h)
    rw [BitVec.toNat_ofNat, BitVec.toNat_ofNat] at heq
    omega
  have hbytes : bytes e.mem data len.toNat = bytes c.mem data len.toNat := by
    apply AvrCore.bytes_congr
    intro i hi
    obtain ⟨hlow, hhigh⟩ := hstack i hi
    exact hother _ (hoff i _ hi (Nat.le_succ _)) (hoff i _ (Nat.lt_succ_of_lt hi) le_rfl) hlow hhigh
  have hlow : e.mem (data + BitVec.ofNat 16 len.toNat) = e.r24 := by
    rw [hmem]
    exact (if_neg (hoff _ _ (Nat.lt_succ_self _) le_rfl)).trans (if_pos rfl)
  have hhigh : e.mem (data + BitVec.ofNat 16 (len.toNat + 1)) = e.r25 := by
    rw [hmem]
    exact if_pos rfl
  refine ⟨hother, hbytes, ?_⟩
  rw [AvrCore.bytes_add, hbytes, bytes, bytes, bytes, AvrCore.add_ofNat_add_one, hlow, hhigh]

/-- A burst in bytes that the receiver accepts is detected. -/
theorem residue_burst {sent : List (BitVec 8)} (hgood : remainder usbPoly 0xffff sent = residue)
    {before xs ys after : List Bool} (hsent : sent.flatMap byteBits = before ++ xs ++ after)
    (hlen : xs.length = ys.length) (hshort : xs.length ≤ 16) (hne : xs ≠ ys) :
    feedBits usbPoly 0xffff (before ++ ys ++ after) ≠ residue := by
  have hclean := Crc.feedBits_flatMap usbPoly eight_le 0xffff sent
  rw [hsent, hgood] at hclean
  rw [← hclean]
  exact (Crc.feedBits_burst usbPoly_constant 0xffff before after hlen hshort hne).symm

/-- `usbCrc16Append` leaves a block that the receiver accepts: its bytes are the ones
found, no other two bytes after them would do, and no burst of up to 16 bits in the
block or its CRC goes unnoticed. Beside the CRC it writes only the return address of
its call, in two bytes of the stack in which the block does not lie. -/
theorem usbCrc16Append_accepted (data : Addr) (len : BitVec 8) (c : Cpu)
    (hstack : ∀ i < len.toNat, data + BitVec.ofNat 16 i ≠ c.frame.sp ∧
      data + BitVec.ofNat 16 i ≠ c.frame.sp - 1) :
    ∃ e, Returns usbCrc16Append (callAppend data len c) e ∧ e.frame.sp = c.frame.sp ∧
      (∀ a, a ≠ data + BitVec.ofNat 16 len.toNat → a ≠ data + BitVec.ofNat 16 (len.toNat + 1) →
        a ≠ c.frame.sp → a ≠ c.frame.sp - 1 → e.mem a = c.mem a) ∧
      bytes e.mem data len.toNat = bytes c.mem data len.toNat ∧
      remainder usbPoly 0xffff (bytes e.mem data (len.toNat + 2)) = residue ∧
      (∀ lo hi, remainder usbPoly 0xffff (bytes c.mem data len.toNat ++ [lo, hi]) = residue →
        bytes e.mem data (len.toNat + 2) = bytes c.mem data len.toNat ++ [lo, hi]) ∧
      ∀ before xs ys after : List Bool,
        (bytes e.mem data (len.toNat + 2)).flatMap byteBits = before ++ xs ++ after →
        xs.length = ys.length → xs.length ≤ 16 → xs ≠ ys →
        feedBits usbPoly 0xffff (before ++ ys ++ after) ≠ residue := by
  obtain ⟨e, hreturns, hsp, hpair, hmem⟩ := returns_usbCrc16Append data len c hstack
  obtain ⟨hother, hbytes, hblock⟩ := mem_usbCrc16Append hstack hmem
  have hgood : remainder usbPoly 0xffff (bytes e.mem data (len.toNat + 2)) = residue := by
    rw [hblock, Crc.remainder_append, remainder_eq_residue, hpair]
  refine ⟨e, hreturns, hsp, hother, hbytes, hgood, ?_, ?_⟩
  · intro lo hi h
    rw [Crc.remainder_append, remainder_eq_residue, ← hpair] at h
    have hlo := congrArg (BitVec.setWidth 8) h
    have hhi := congrArg (fun a : BitVec (8 + 8) => (a >>> 8).setWidth 8) h
    simp only [AvrCore.append_ushiftRight, BitVec.setWidth_append_eq_right] at hlo hhi
    rw [hblock, hlo, hhi]
  · intro before xs ys after hsent hlen hshort hne
    exact residue_burst hgood hsent hlen hshort hne

/-- A processor with the stack near the end of its memory. -/
def idleCpu (mem : Addr → BitVec 8) : Cpu where
  r18 := 0
  r19 := 0
  r20 := 0
  r21 := 0
  r22 := 0
  r23 := 0
  r24 := 0
  r25 := 0
  r26 := 0
  r27 := 0
  carry := false
  mem := mem
  frame := ⟨0x4f0, 0, 0⟩
  pc := 0

/-- A report of eight bytes at `0x100`. -/
theorem usbCrc16Append_accepted_report : ∃ e,
    Returns usbCrc16Append (callAppend 0x100 8 (idleCpu fun a => a.setWidth 8)) e ∧
      bytes e.mem 0x100 8 = [0, 1, 2, 3, 4, 5, 6, 7] ∧
      remainder usbPoly 0xffff (bytes e.mem 0x100 10) = residue := by
  obtain ⟨e, hreturns, -, -, hbytes, hgood, -⟩ :=
    usbCrc16Append_accepted 0x100 8 (idleCpu fun a => a.setWidth 8) (by decide)
  exact ⟨e, hreturns, hbytes, hgood⟩

end Receiver

end TempHumid.Avr
