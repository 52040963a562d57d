import Mathlib.Tactic.Ring
import Mathlib.Tactic.Positivity
import Mathlib.Data.BitVec

/-!
# Fixed-width words and their bytes

Signed operations on words that represent non-negative numbers, little-endian
byte strings with their unsigned and two's complement values, and stores into
a byte memory.
-/

namespace TempHumid.Words

section Nonneg

variable {n : ℕ} {x y : BitVec (n + 1)}

/-- A word below half of the range is non-negative. -/
theorem msb_of_lt (h : x.toNat < 2 ^ n) : x.msb = false := by
  rw [BitVec.msb_eq_false_iff_two_mul_lt, Nat.pow_succ, Nat.mul_comm 2]
  exact Nat.mul_lt_mul_of_pos_right h Nat.two_pos

theorem toInt_of_lt (h : x.toNat < 2 ^ n) : x.toInt = x.toNat :=
  BitVec.toInt_eq_toNat_of_msb (msb_of_lt h)

/-- The signed value of a word whose number is known. -/
theorem toInt_of_toNat_eq {m : ℕ} (h : x.toNat = m) (hm : m < 2 ^ n) : x.toInt = m := by
  rw [toInt_of_lt (h.trans_lt hm), h]

/-- A product that stays non-negative is the exact one. -/
theorem toNat_mul_of_lt (h : x.toNat * y.toNat < 2 ^ n) : (x * y).toNat = x.toNat * y.toNat :=
  BitVec.toNat_mul_of_lt (h.trans (Nat.pow_lt_pow_right Nat.one_lt_two n.lt_succ_self))

/-- Signed and unsigned division agree on non-negative words. -/
theorem sdiv_of_lt (hx : x.toNat < 2 ^ n) (hy : y.toNat < 2 ^ n) : x.sdiv y = x / y := by
  rw [BitVec.sdiv_eq, msb_of_lt hx, msb_of_lt hy]
  rfl

/-- A product that stays non-negative is divided alike, signed or unsigned. -/
theorem sdiv_mul_of_lt {d : BitVec (n + 1)} (h : x.toNat * y.toNat < 2 ^ n)
    (hd : d.toNat < 2 ^ n) : (x * y).sdiv d = x * y / d := by
  apply sdiv_of_lt
  · rw [BitVec.toNat_mul]
    exact Nat.lt_of_le_of_lt (Nat.mod_le _ _) h
  · exact hd

theorem smulOverflow_of_lt (hx : x.toNat < 2 ^ n) (hy : y.toNat < 2 ^ n)
    (h : x.toNat * y.toNat < 2 ^ n) : x.smulOverflow y = false := by
  have hprod : x.toInt * y.toInt = ((x.toNat * y.toNat : ℕ) : ℤ) := by
    rw [toInt_of_lt hx, toInt_of_lt hy, Nat.cast_mul]
  have hlt : ((x.toNat * y.toNat : ℕ) : ℤ) < 2 ^ n := by exact_mod_cast h
  have hpos : (0 : ℤ) < 2 ^ n := by positivity
  rw [BitVec.smulOverflow, hprod]
  simp only [Nat.add_sub_cancel, Bool.or_eq_false_iff, decide_eq_false_iff_not, not_le, not_lt]
  constructor
  · exact hlt
  · omega

end Nonneg

/-- Counting down from a word that is not zero does not wrap. -/
theorem toNat_sub_one {n : ℕ} {w : BitVec (n + 1)} (h : w ≠ 0) : (w - 1).toNat = w.toNat - 1 := by
  have hone : (1 : BitVec (n + 1)).toNat = 1 := Nat.mod_eq_of_lt (Nat.one_lt_two_pow n.succ_ne_zero)
  have hle : 1 ≤ w := by
    rw [BitVec.le_def, hone]
    exact BitVec.toNat_pos_of_ne_zero h
  rw [BitVec.toNat_sub_of_le hle, hone]

/-- The number that a byte string represents, least significant byte first. -/
def value : List (BitVec 8) → ℕ
  | [] => 0
  | b :: bs => b.toNat + 2 ^ 8 * value bs

/-- The `k` low bytes of a number, least significant byte first. -/
def encode : ℕ → ℕ → List (BitVec 8)
  | 0, _ => []
  | k + 1, n => BitVec.ofNat 8 n :: encode k (n / 2 ^ 8)

@[simp] theorem encode_length (k n : ℕ) : (encode k n).length = k := by
  induction k generalizing n with
  | zero => rfl
  | succ k ih => rw [encode, List.length_cons, ih]

/-- Reading back the bytes of a number keeps its low part. -/
theorem value_encode (k n : ℕ) : value (encode k n) = n % 2 ^ (8 * k) := by
  induction k generalizing n with
  | zero => rw [encode, value, Nat.mul_zero, Nat.pow_zero, Nat.mod_one]
  | succ k ih =>
      calc value (encode (k + 1) n) = n % 2 ^ 8 + 2 ^ 8 * (n / 2 ^ 8 % 2 ^ (8 * k)) := by
            rw [encode, value, ih, BitVec.toNat_ofNat]
        _ = n % (2 ^ 8 * 2 ^ (8 * k)) := Nat.mod_mul.symm
        _ = n % 2 ^ (8 * (k + 1)) := by rw [← Nat.pow_add, Nat.mul_succ, Nat.add_comm]

/-- Bytes are determined by the number they represent. -/
theorem encode_value (bs : List (BitVec 8)) : encode bs.length (value bs) = bs := by
  induction bs with
  | nil => rfl
  | cons b bs ih =>
      have hlow : BitVec.ofNat 8 (b.toNat + 2 ^ 8 * value bs) = b := by
        apply BitVec.eq_of_toNat_eq
        rw [BitVec.toNat_ofNat, Nat.add_mul_mod_self_left, Nat.mod_eq_of_lt b.isLt]
      have hhigh : (b.toNat + 2 ^ 8 * value bs) / 2 ^ 8 = value bs := by
        rw [Nat.add_mul_div_left _ _ (by decide), Nat.div_eq_of_lt b.isLt, Nat.zero_add]
      rw [List.length_cons, value, encode, hlow, hhigh, ih]

theorem value_lt (bs : List (BitVec 8)) : value bs < 2 ^ (8 * bs.length) := by
  have h := value_encode bs.length (value bs)
  rw [encode_value] at h
  rw [h]
  exact Nat.mod_lt _ (Nat.two_pow_pos _)

/-- The two's complement value of a byte string. -/
def signed (bs : List (BitVec 8)) : ℤ := Int.bmod (value bs) (2 ^ (8 * bs.length))

/-- The bytes of a word read back as its signed value. -/
theorem signed_encode (k : ℕ) (w : BitVec (8 * k)) : signed (encode k w.toNat) = w.toInt := by
  rw [signed, value_encode, encode_length, Nat.mod_eq_of_lt w.isLt, BitVec.toInt_eq_toNat_bmod]

/-- Byte strings of one length are told apart by their signed values. -/
theorem signed_inj {bs cs : List (BitVec 8)} (h : bs.length = cs.length) :
    signed bs = signed cs ↔ bs = cs := by
  constructor
  · intro heq
    have hvalue : ((value bs : ℕ) : ℤ) % (2 ^ (8 * bs.length) : ℕ) =
        (value cs : ℕ) % (2 ^ (8 * cs.length) : ℕ) := by
      calc ((value bs : ℕ) : ℤ) % (2 ^ (8 * bs.length) : ℕ)
          = signed bs % (2 ^ (8 * bs.length) : ℕ) := Int.bmod_emod.symm
        _ = signed cs % (2 ^ (8 * cs.length) : ℕ) := by rw [heq, h]
        _ = (value cs : ℕ) % (2 ^ (8 * cs.length) : ℕ) := Int.bmod_emod
    have hnat : value bs = value cs := by
      have hcast : value bs % 2 ^ (8 * bs.length) = value cs % 2 ^ (8 * cs.length) := by
        exact_mod_cast hvalue
      rwa [Nat.mod_eq_of_lt (value_lt bs), Nat.mod_eq_of_lt (value_lt cs)] at hcast
    rw [← encode_value bs, ← encode_value cs, hnat, h]
  · rintro rfl
    rfl

section Memory

variable {α : Type*}

/-- The memory after a store of `data` at offset `off`. -/
def splice (mem : List α) (off : ℕ) (data : List α) : List α :=
  mem.take off ++ data ++ mem.drop (off + data.length)

@[simp] theorem splice_nil (mem : List α) (off : ℕ) : splice mem off [] = mem := by
  rw [splice, List.append_nil, List.length_nil, Nat.add_zero, List.take_append_drop]

/-- A store inside the memory keeps its length. -/
theorem splice_length {mem data : List α} {off : ℕ} (h : off + data.length ≤ mem.length) :
    (splice mem off data).length = mem.length := by
  rw [splice, List.length_append, List.length_append, List.length_take, List.length_drop]
  omega

/-- A store of one byte is what reads back at its place. -/
theorem getElem?_splice_singleton {mem : List α} {off : ℕ} (h : off < mem.length) (b : α) :
    (splice mem off [b])[off]? = some b := by
  have hlen : (mem.take off).length = off := by rw [List.length_take, Nat.min_eq_left h.le]
  rw [splice, List.append_assoc, List.getElem?_append_right hlen.le, hlen, Nat.sub_self]
  rfl

end Memory

end TempHumid.Words
