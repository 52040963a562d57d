import TempHumid.Sensor.Memory

/-!
# The HID report of the AVR firmware

`makeReport` of `main.c`, which puts a report ID and a value into `hidRpt`.

## Implementation notes

Right shifts of `int32_t` are arithmetic. The report is compared with the memory
of `usb_val`, which is what the requests of the host return.
-/

namespace TempHumid.Avr

open Words

/-- The contents of `hidRpt` after the call. -/
def makeReport (id : Byte) (val : Word) : List Byte :=
  [id,
    (val &&& 0xff).setWidth 8,
    (val.sshiftRight 8 &&& 0xff).setWidth 8,
    -- `val > 16`, an `int`
    ((if BitVec.slt 16 val then 1 else 0 : BitVec 16) &&& 0xff).setWidth 8,
    (val.sshiftRight 24 &&& 0xff).setWidth 8]

/-- The report reads back as the ID and the value, and its value lies in memory as a
word of `usb_val` does. -/
structure RoundTrips (id : Byte) (val : Word) : Prop where
  head : (makeReport id val).head? = some id
  value : signed ((makeReport id val).drop 1) = val.toInt
  bytes : (makeReport id val).drop 1 = encode 4 val.toNat

/-- The bits of a value from bit `k` on that a byte of the report is for. -/
def lane (val : Word) (k : ℕ) : Byte := BitVec.ofNat 8 (val.toNat / 2 ^ k)

theorem encode_eq_lanes (val : Word) :
    encode 4 val.toNat = [lane val 0, lane val 8, lane val 16, lane val 24] := by
  simp only [encode, lane, Nat.pow_zero, Nat.div_one, Nat.div_div_eq_div_mul, ← Nat.pow_add]

/-- A shifted byte carries its own bits, whatever the sign. -/
theorem shifted_eq_lane (val : Word) {k : ℕ} (hk : k + 8 ≤ 32) :
    (val.sshiftRight k &&& 0xff).setWidth 8 = lane val k := by
  have hmask : ∀ i < 8, (0xff : Word).getLsbD i = true := by decide
  apply BitVec.eq_of_getLsbD_eq
  intro i hi
  have hin : k + i < 32 := by omega
  have hw : ¬ 32 ≤ i := by omega
  calc ((val.sshiftRight k &&& 0xff).setWidth 8).getLsbD i
      = (val.sshiftRight k).getLsbD i := by
        rw [BitVec.getLsbD_setWidth, BitVec.getLsbD_and, hmask i hi, Bool.and_true,
          decide_eq_true hi, Bool.true_and]
    _ = val.getLsbD (k + i) := by simp [BitVec.getLsbD_sshiftRight, hin, hw]
    _ = (val.toNat / 2 ^ k).testBit i := by
        rw [Nat.testBit_div_two_pow, Nat.add_comm]
        rfl
    _ = (lane val k).getLsbD i := by
        rw [lane, BitVec.getLsbD_ofNat, decide_eq_true hi, Bool.true_and]

/-- The comparison that stands in the place of a shift. -/
def compared (val : Word) : ℕ := if 16 < val.toInt then 1 else 0

theorem compared_byte (val : Word) :
    ((if BitVec.slt 16 val then 1 else 0 : BitVec 16) &&& 0xff).setWidth 8 =
      BitVec.ofNat 8 (compared val) := by
  have hslt : BitVec.slt 16 val = decide (16 < val.toInt) := rfl
  rw [hslt, compared]
  by_cases h : 16 < val.toInt
  · rw [if_pos h, decide_eq_true h]
    rfl
  · rw [if_neg h, decide_eq_false h]
    rfl

theorem makeReport_eq (id : Byte) (val : Word) : makeReport id val =
    [id, lane val 0, lane val 8, BitVec.ofNat 8 (compared val), lane val 24] := by
  have h0 : val.sshiftRight 0 = val := BitVec.sshiftRight_zero
  have hlow : (val &&& 0xff).setWidth 8 = lane val 0 := by
    calc (val &&& 0xff).setWidth 8 = (val.sshiftRight 0 &&& 0xff).setWidth 8 := by rw [h0]
      _ = lane val 0 := shifted_eq_lane val (by omega)
  rw [makeReport, hlow, shifted_eq_lane val (k := 8) (by omega),
    shifted_eq_lane val (k := 24) (by omega), compared_byte]

/-- A report holds the bytes of the value if the compared byte does. -/
theorem report_bytes_iff (id : Byte) (val : Word) :
    (makeReport id val).drop 1 = encode 4 val.toNat ↔
      val.toNat / 2 ^ 16 % 2 ^ 8 = compared val := by
  have hlt : compared val < 2 ^ 8 := by
    rw [compared]
    split <;> decide
  have hbyte : BitVec.ofNat 8 (compared val) = lane val 16 ↔
      val.toNat / 2 ^ 16 % 2 ^ 8 = compared val := by
    rw [lane, ← BitVec.toNat_inj, BitVec.toNat_ofNat, BitVec.toNat_ofNat, Nat.mod_eq_of_lt hlt]
    exact eq_comm
  rw [makeReport_eq, encode_eq_lanes, ← hbyte]
  simp

/-- A report round-trips exactly for the values whose bits 16 to 23 are the result of
the comparison with 16. -/
theorem makeReport_roundTrips_iff (id : Byte) (val : Word) :
    RoundTrips id val ↔ val.toNat / 2 ^ 16 % 2 ^ 8 = if 16 < val.toInt then 1 else 0 := by
  change _ ↔ _ = compared val
  rw [← report_bytes_iff id val]
  constructor
  · intro h
    -- the value alone decides
    apply (signed_inj _).mp
    · rw [h.value, signed_encode 4 val]
    · rfl
  · intro hbytes
    refine ⟨rfl, ?_, hbytes⟩
    rw [hbytes, signed_encode 4 val]

/-- 21.50 °C in report 1: the comparison adds 2 ^ 16. -/
theorem makeReport_temperature :
    ¬ RoundTrips 1 2150 ∧ signed ((makeReport 1 2150).drop 1) = 2150 + 2 ^ 16 := by
  constructor
  · intro h
    exact absurd h.value (by decide)
  · decide

end TempHumid.Avr
