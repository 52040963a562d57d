import Mathlib.Data.List.Basic
import Mathlib.Data.List.GetD

/-!
# Reflected cyclic redundancy checks

A remainder of `w` bits, shifted to the right for every bit of a message, least
significant bit first. The polynomial is given reflected, so its top bit is the
coefficient of the constant term.

## Implementation notes

Both a step on the remainder and the remainder of a message are linear in
exclusive or. A step is injective as soon as the polynomial has a constant term,
and this alone makes every burst of up to `w` bits visible.
-/

namespace TempHumid.Crc

variable {w : ℕ}

/-- One step without input: the bit shifted out decides about the polynomial. -/
def bitStep (poly c : BitVec w) : BitVec w :=
  if c.getLsbD 0 then (c >>> 1) ^^^ poly else c >>> 1

def bits (poly : BitVec w) : ℕ → BitVec w → BitVec w
  | 0, c => c
  | n + 1, c => bits poly n (bitStep poly c)

/-- A bit of a message is added to the lowest bit of the remainder. -/
def ofBit (w : ℕ) (b : Bool) : BitVec w := if b then 1 else 0

def feed (poly c : BitVec w) (b : Bool) : BitVec w := bitStep poly (c ^^^ ofBit w b)

/-- The remainder after a message, bit by bit. -/
def feedBits (poly c : BitVec w) (bs : List Bool) : BitVec w := bs.foldl (feed poly) c

/-- The number of up to `w` bits, the first one sent in the lowest place. -/
def word (w : ℕ) : List Bool → BitVec w
  | [] => 0
  | b :: bs => ofBit w b ^^^ (word w bs <<< 1)

/-- The bits of a byte in the order in which they are sent. -/
def byteBits (b : BitVec 8) : List Bool := (List.range 8).map b.getLsbD

/-- The remainder after a byte, added as a whole. -/
def byteStep (poly c : BitVec w) (b : BitVec 8) : BitVec w :=
  bits poly 8 (c ^^^ b.setWidth w)

/-- The remainder after a message, byte by byte. -/
def remainder (poly c : BitVec w) (msg : List (BitVec 8)) : BitVec w :=
  msg.foldl (byteStep poly) c

section Linear

variable (poly : BitVec w)

/-- Exclusive or on both sides of a remainder cancels. -/
theorem xor_xor_xor_cancel (a b p : BitVec w) : a ^^^ p ^^^ (b ^^^ p) = a ^^^ b := by
  ext i
  simp only [BitVec.getElem_xor]
  cases a[i] <;> cases b[i] <;> cases p[i] <;> rfl

theorem bitStep_xor (a b : BitVec w) :
    bitStep poly (a ^^^ b) = bitStep poly a ^^^ bitStep poly b := by
  have hshift : (a ^^^ b) >>> 1 = (a >>> 1) ^^^ (b >>> 1) := BitVec.ushiftRight_xor_distrib a b 1
  simp only [bitStep, BitVec.getLsbD_xor, hshift]
  cases a.getLsbD 0 <;> cases b.getLsbD 0
  · simp
  · simp [BitVec.xor_assoc]
  · simp only [Bool.xor_false, if_true, Bool.false_eq_true, if_false]
    rw [BitVec.xor_assoc, BitVec.xor_assoc, BitVec.xor_comm poly]
  · simpa using (xor_xor_xor_cancel (a >>> 1) (b >>> 1) poly).symm

theorem bits_xor (n : ℕ) (a b : BitVec w) :
    bits poly n (a ^^^ b) = bits poly n a ^^^ bits poly n b := by
  induction n generalizing a b with
  | zero => rfl
  | succ n ih => rw [bits, bits, bits, bitStep_xor, ih]

/-- Bits that do not reach the lowest place are only shifted. -/
theorem bits_shift (n : ℕ) (c : BitVec w) (h : ∀ i < n, c.getLsbD i = false) :
    bits poly n c = c >>> n := by
  induction n generalizing c with
  | zero => rw [bits, BitVec.ushiftRight_zero]
  | succ n ih =>
      have hstep : bitStep poly c = c >>> 1 := by
        rw [bitStep, h 0 (Nat.succ_pos n)]
        rfl
      rw [bits, hstep, ih, ← BitVec.shiftRight_add, Nat.add_comm 1 n]
      intro i hi
      rw [BitVec.getLsbD_ushiftRight, Nat.add_comm]
      exact h (i + 1) (Nat.succ_lt_succ hi)

end Linear

section Injective

variable {poly : BitVec w}

/-- A polynomial with a constant term tells from the result which way a step went. -/
theorem bitStep_injective (hpoly : poly.getLsbD (w - 1) = true) :
    Function.Injective (bitStep poly) := by
  have hw : 0 < w := by
    apply Nat.pos_of_ne_zero
    rintro rfl
    simp at hpoly
  have hmsb : ∀ c : BitVec w, (bitStep poly c).getLsbD (w - 1) = c.getLsbD 0 := by
    intro c
    have hzero : (c >>> 1).getLsbD (w - 1) = false := by
      rw [BitVec.getLsbD_ushiftRight]
      exact BitVec.getLsbD_of_ge c _ (by omega)
    rw [bitStep]
    cases c.getLsbD 0
    · exact hzero
    · simp [BitVec.getLsbD_xor, hzero, hpoly]
  intro a b hab
  have hlow : a.getLsbD 0 = b.getLsbD 0 := by rw [← hmsb a, hab, hmsb b]
  have hhigh : a >>> 1 = b >>> 1 := by
    rw [bitStep, bitStep, hlow] at hab
    cases h : b.getLsbD 0
    · simpa [h] using hab
    · simp only [h, if_true] at hab
      calc
        a >>> 1 = (a >>> 1 ^^^ poly) ^^^ poly := by rw [BitVec.xor_assoc, BitVec.xor_self,
          BitVec.xor_zero]
        _ = (b >>> 1 ^^^ poly) ^^^ poly := by rw [hab]
        _ = b >>> 1 := by rw [BitVec.xor_assoc, BitVec.xor_self, BitVec.xor_zero]
  apply BitVec.eq_of_getLsbD_eq
  intro i hi
  cases i with
  | zero => exact hlow
  | succ i =>
      have hbit := congrArg (fun c : BitVec w => c.getLsbD i) hhigh
      simpa only [BitVec.getLsbD_ushiftRight, Nat.add_comm 1 i] using hbit

theorem bits_injective (hpoly : poly.getLsbD (w - 1) = true) (n : ℕ) :
    Function.Injective (bits poly n) := by
  induction n with
  | zero => exact fun _ _ h => h
  | succ n ih => exact fun a b h => bitStep_injective hpoly (ih h)

theorem feed_injective (hpoly : poly.getLsbD (w - 1) = true) (b : Bool) :
    Function.Injective fun c => feed poly c b := by
  intro c d h
  have hsum := bitStep_injective hpoly h
  calc
    c = c ^^^ ofBit w b ^^^ ofBit w b := by rw [BitVec.xor_assoc, BitVec.xor_self, BitVec.xor_zero]
    _ = d ^^^ ofBit w b ^^^ ofBit w b := by rw [hsum]
    _ = d := by rw [BitVec.xor_assoc, BitVec.xor_self, BitVec.xor_zero]

theorem feedBits_injective (hpoly : poly.getLsbD (w - 1) = true) (bs : List Bool) :
    Function.Injective fun c => feedBits poly c bs := by
  induction bs with
  | nil => exact fun _ _ h => h
  | cons b bs ih => exact fun c d h => feed_injective hpoly b (ih h)

end Injective

section Words

variable (poly : BitVec w)

theorem getLsbD_ofBit (b : Bool) (i : ℕ) : (ofBit w b).getLsbD i = (b && i == 0 && i < w) := by
  cases b
  · simp [ofBit]
  · by_cases hi : i = 0
    · simp [ofBit, hi, BitVec.getLsbD_one]
    · simp [ofBit, hi, BitVec.getLsbD_one]

theorem getLsbD_word (bs : List Bool) (i : ℕ) :
    (word w bs).getLsbD i = (decide (i < w) && bs.getD i false) := by
  induction bs generalizing i with
  | nil => simp [word]
  | cons b bs ih =>
      rw [word, BitVec.getLsbD_xor, getLsbD_ofBit, BitVec.getLsbD_shiftLeft]
      cases i with
      | zero => cases b <;> simp
      | succ i =>
          rw [Nat.add_sub_cancel, ih]
          by_cases hi : i + 1 < w
          · simp [hi, Nat.lt_of_succ_lt hi]
          · simp [hi]

/-- A bit beyond the length of the message is clear. -/
theorem getLsbD_word_of_length_le (bs : List Bool) {i : ℕ} (h : bs.length ≤ i) :
    (word w bs).getLsbD i = false := by
  rw [getLsbD_word, List.getD_eq_default bs false h, Bool.and_false]

theorem word_injective {xs ys : List Bool} (hlen : xs.length = ys.length) (hxs : xs.length ≤ w)
    (h : word w xs = word w ys) : xs = ys := by
  apply List.ext_getElem hlen
  intro i hx hy
  have hbit := congrArg (fun c : BitVec w => c.getLsbD i) h
  simp only [getLsbD_word, Nat.lt_of_lt_of_le hx hxs, decide_true, Bool.true_and] at hbit
  rwa [List.getD_eq_getElem xs false hx, List.getD_eq_getElem ys false hy] at hbit

/-- Feeding up to `w` bits one by one is adding their number and stepping. -/
theorem feedBits_eq_bits (c : BitVec w) (bs : List Bool) (h : bs.length ≤ w) :
    feedBits poly c bs = bits poly bs.length (c ^^^ word w bs) := by
  induction bs generalizing c with
  | nil => exact congrArg (bits poly 0) (BitVec.xor_zero (x := c)).symm
  | cons b bs ih =>
      have hlen : bs.length + 1 ≤ w := h
      have hlow : (word w bs <<< 1).getLsbD 0 = false := by simp
      have hback : (word w bs <<< 1) >>> 1 = word w bs := by
        apply BitVec.eq_of_getLsbD_eq
        intro i hi
        rw [BitVec.getLsbD_ushiftRight, BitVec.getLsbD_shiftLeft, Nat.add_sub_cancel_left]
        by_cases hlast : 1 + i < w
        · simp [hlast]
        · rw [getLsbD_word_of_length_le bs (show bs.length ≤ i by omega)]
          simp
      have hstep : bitStep poly (word w bs <<< 1) = word w bs := by
        rw [bitStep, hlow, hback]
        rfl
      calc
        feedBits poly c (b :: bs) = feedBits poly (feed poly c b) bs := rfl
        _ = bits poly bs.length (feed poly c b ^^^ word w bs) := ih _ (Nat.le_of_succ_le hlen)
        _ = bits poly bs.length (bitStep poly (c ^^^ ofBit w b ^^^ (word w bs <<< 1))) := by
            rw [bitStep_xor, hstep, feed]
        _ = bits poly (b :: bs).length (c ^^^ word w (b :: bs)) := by
            rw [List.length_cons, bits, word, BitVec.xor_assoc]

theorem word_byteBits (b : BitVec 8) : word w (byteBits b) = b.setWidth w := by
  apply BitVec.eq_of_getLsbD_eq
  intro i hi
  rw [getLsbD_word, BitVec.getLsbD_setWidth, byteBits]
  by_cases h8 : i < 8
  · simp [hi, h8]
  · rw [List.getD_eq_default _ _ (by simpa using h8), BitVec.getLsbD_of_ge b i (by omega)]

theorem byteBits_injective {a b : BitVec 8} (h : byteBits a = byteBits b) : a = b := by
  have hword := congrArg (word 8) h
  rwa [word_byteBits, word_byteBits, BitVec.setWidth_eq, BitVec.setWidth_eq] at hword

theorem length_flatMap_byteBits (msg : List (BitVec 8)) :
    (msg.flatMap byteBits).length = 8 * msg.length := by
  induction msg with
  | nil => rfl
  | cons b msg ih =>
      rw [List.flatMap_cons, List.length_append, ih, List.length_cons]
      change 8 + 8 * msg.length = _
      omega

/-- A message is known by its bits. -/
theorem flatMap_byteBits_injective {msg msg' : List (BitVec 8)}
    (h : msg.flatMap byteBits = msg'.flatMap byteBits) : msg = msg' := by
  have hlen := congrArg List.length h
  rw [length_flatMap_byteBits, length_flatMap_byteBits] at hlen
  induction msg generalizing msg' with
  | nil => exact (List.eq_nil_of_length_eq_zero (by rw [List.length_nil] at hlen; omega)).symm
  | cons b msg ih =>
      cases msg' with
      | nil => rw [List.length_cons, List.length_nil] at hlen; omega
      | cons b' msg' =>
          obtain ⟨hhead, htail⟩ := List.append_inj h rfl
          rw [List.length_cons, List.length_cons] at hlen
          rw [byteBits_injective hhead, ih htail (by omega)]

/-- A byte at once is its bits one by one. -/
theorem feedBits_byteBits (hw : 8 ≤ w) (c : BitVec w) (b : BitVec 8) :
    feedBits poly c (byteBits b) = byteStep poly c b := by
  have hlen : (byteBits b).length = 8 := by simp [byteBits]
  rw [feedBits_eq_bits poly c _ (by omega), hlen, word_byteBits, byteStep]

theorem feedBits_append (c : BitVec w) (xs ys : List Bool) :
    feedBits poly c (xs ++ ys) = feedBits poly (feedBits poly c xs) ys :=
  List.foldl_append

theorem remainder_append (c : BitVec w) (xs ys : List (BitVec 8)) :
    remainder poly c (xs ++ ys) = remainder poly (remainder poly c xs) ys :=
  List.foldl_append

/-- The remainder of a message of bytes is the one of the bits sent for it. -/
theorem feedBits_flatMap (hw : 8 ≤ w) (c : BitVec w) (msg : List (BitVec 8)) :
    feedBits poly c (msg.flatMap byteBits) = remainder poly c msg := by
  induction msg generalizing c with
  | nil => rfl
  | cons b msg ih =>
      rw [List.flatMap_cons, feedBits_append, feedBits_byteBits poly hw, ih]
      rfl

/-- The form with a table of the low byte: the high part is only shifted. -/
theorem byteStep_eq_table (c : BitVec w) (b : BitVec 8) :
    byteStep poly c b = bits poly 8 ((c.setWidth 8 ^^^ b).setWidth w) ^^^ (c >>> 8) := by
  have hsplit : c ^^^ b.setWidth w =
      (c.setWidth 8 ^^^ b).setWidth w ^^^ ((c >>> 8) <<< 8) := by
    apply BitVec.eq_of_getLsbD_eq
    intro i hi
    simp only [BitVec.getLsbD_xor, BitVec.getLsbD_setWidth, BitVec.getLsbD_shiftLeft,
      BitVec.getLsbD_ushiftRight, hi, decide_true, Bool.true_and]
    by_cases h8 : i < 8
    · simp [h8]
    · rw [BitVec.getLsbD_of_ge b i (by omega)]
      simp [h8, show 8 + (i - 8) = i by omega]
  have hclear : ∀ i < 8, ((c >>> 8) <<< 8).getLsbD i = false := by
    intro i hi
    simp [BitVec.getLsbD_shiftLeft, hi]
  have hshift : ((c >>> 8) <<< 8) >>> 8 = c >>> 8 := by
    apply BitVec.eq_of_getLsbD_eq
    intro i hi
    simp only [BitVec.getLsbD_ushiftRight, BitVec.getLsbD_shiftLeft, Nat.add_sub_cancel_left]
    by_cases h : 8 + i < w
    · simp [h]
    · rw [BitVec.getLsbD_of_ge c (8 + i) (by omega)]
      simp
  rw [byteStep, hsplit, bits_xor, bits_shift poly 8 _ hclear, hshift]

end Words

section Errors

variable {poly : BitVec w}

/-- Messages that differ in a window of at most `w` bits have different remainders. -/
theorem feedBits_burst (hpoly : poly.getLsbD (w - 1) = true) (c : BitVec w)
    (before : List Bool) {xs ys : List Bool} (after : List Bool) (hlen : xs.length = ys.length)
    (hxs : xs.length ≤ w) (hne : xs ≠ ys) :
    feedBits poly c (before ++ xs ++ after) ≠ feedBits poly c (before ++ ys ++ after) := by
  intro h
  rw [feedBits_append, feedBits_append, feedBits_append, feedBits_append] at h
  have hwindow := feedBits_injective hpoly after h
  rw [feedBits_eq_bits poly _ xs hxs, feedBits_eq_bits poly _ ys (hlen ▸ hxs), hlen] at hwindow
  have hsum := bits_injective hpoly ys.length hwindow
  apply hne
  apply word_injective hlen hxs
  exact (BitVec.xor_right_inj _).mp hsum

/-- A message that is followed by `w` bits leaves the residue exactly when these bits
are the complement of its remainder. -/
theorem bits_residue (hpoly : poly.getLsbD (w - 1) = true) (c : BitVec w) {bs : List Bool}
    (hlen : bs.length = w) :
    feedBits poly c bs = bits poly w (BitVec.allOnes w) ↔ word w bs = ~~~c := by
  rw [feedBits_eq_bits poly c bs (Nat.le_of_eq hlen), hlen]
  constructor
  · intro h
    have hsum := bits_injective hpoly w h
    rw [← BitVec.xor_allOnes, ← hsum, ← BitVec.xor_assoc, BitVec.xor_self, BitVec.zero_xor]
  · intro h
    rw [h, ← BitVec.xor_allOnes, ← BitVec.xor_assoc, BitVec.xor_self, BitVec.zero_xor]

end Errors

end TempHumid.Crc
