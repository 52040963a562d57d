import TempHumid.Library.Words
import TempHumid.Sensor.Frame

/-!
# The memory of `usb_val`

Both firmwares send `usb_val` as it lies in memory: two 32-bit words, each with
its least significant byte first.
-/

namespace TempHumid

open Words

namespace UsbVal

/-- The memory of `usb_val`. -/
def bytes (v : UsbVal) : List Byte := encode 4 v.w0.toNat ++ encode 4 v.w1.toNat

def ofBytes (mem : List Byte) : UsbVal :=
  ⟨BitVec.ofNat 32 (value (mem.take 4)), BitVec.ofNat 32 (value (mem.drop 4))⟩

@[simp] theorem bytes_length (v : UsbVal) : v.bytes.length = 8 := by
  rw [bytes, List.length_append, encode_length, encode_length]

@[simp] theorem ofBytes_bytes (v : UsbVal) : ofBytes v.bytes = v := by
  have h0 : v.bytes.take 4 = encode 4 v.w0.toNat := by
    rw [bytes, List.take_left' (encode_length 4 _)]
  have h1 : v.bytes.drop 4 = encode 4 v.w1.toNat := by
    rw [bytes, List.drop_left' (encode_length 4 _)]
  apply UsbVal.ext
  · apply BitVec.eq_of_toNat_eq
    rw [ofBytes, h0, value_encode, BitVec.toNat_ofNat, Nat.mod_mod_of_dvd _ (dvd_refl _),
      Nat.mod_eq_of_lt v.w0.isLt]
  · apply BitVec.eq_of_toNat_eq
    rw [ofBytes, h1, value_encode, BitVec.toNat_ofNat, Nat.mod_mod_of_dvd _ (dvd_refl _),
      Nat.mod_eq_of_lt v.w1.isLt]

/-- Eight bytes of memory hold one pair of words. -/
theorem bytes_ofBytes {mem : List Byte} (h : mem.length = 8) : (ofBytes mem).bytes = mem := by
  have h0 : (mem.take 4).length = 4 := by rw [List.length_take, h]; rfl
  have h1 : (mem.drop 4).length = 4 := by rw [List.length_drop, h]
  have hword : ∀ bs : List Byte, bs.length = 4 →
      encode 4 (BitVec.ofNat 32 (value bs)).toNat = bs := by
    intro bs hbs
    have hlt := value_lt bs
    rw [hbs] at hlt
    rw [BitVec.toNat_ofNat, Nat.mod_eq_of_lt hlt]
    simpa only [hbs] using encode_value bs
  rw [bytes, ofBytes, hword _ h0, hword _ h1, List.take_append_drop]

def word (v : UsbVal) : Fin 2 → Word
  | 0 => v.w0
  | 1 => v.w1

/-- A word as it lies in memory reads back as its signed value. -/
theorem signed_word (v : UsbVal) (i : Fin 2) :
    signed ((v.bytes.drop (4 * i)).take 4) = (v.word i).toInt := by
  match i with
  | 0 =>
      have h : (v.bytes.drop 0).take 4 = encode 4 v.w0.toNat := by
        rw [List.drop_zero, bytes, List.take_left' (encode_length 4 _)]
      exact (congrArg signed h).trans (signed_encode 4 v.w0)
  | 1 =>
      have h : (v.bytes.drop 4).take 4 = encode 4 v.w1.toNat := by
        rw [bytes, List.drop_left' (encode_length 4 _),
          List.take_of_length_le (encode_length 4 _).le]
      exact (congrArg signed h).trans (signed_encode 4 v.w1)

end UsbVal

end TempHumid
