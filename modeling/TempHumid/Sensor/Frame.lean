import Mathlib.Tactic.Ring
import Mathlib.Data.Int.Order.Basic
import Mathlib.Data.BitVec

/-!
# Sensor frames and the readings they carry

One read of the HIH sensor returns four bytes. The two top bits of the first
byte are the status: 0 for fresh data, 1 for stale data, and any other value
for a sensor in command mode. The remaining bits hold a 14-bit humidity and a
14-bit temperature field.

## Implementation notes

`Frame.reading` and `published` state the purpose of both firmwares in terms
of integers: hundredths of a degree and of a percent, floors of exact
quotients. A `Reading` carries the ranges of the HID report descriptor as
fields, so a reading outside them cannot be built.
-/

namespace TempHumid

abbrev Byte := BitVec 8
abbrev Word := BitVec 32

/-- The four bytes of one sensor read, in the order they arrive. -/
structure Frame where
  b0 : Byte
  b1 : Byte
  b2 : Byte
  b3 : Byte
  deriving DecidableEq

namespace Frame

def toList (f : Frame) : List Byte := [f.b0, f.b1, f.b2, f.b3]

/-- Store into a four-byte buffer. An index from 4 on leaves the buffer alone. -/
def set (f : Frame) (i : ℕ) (b : Byte) : Frame :=
  match i with
  | 0 => { f with b0 := b }
  | 1 => { f with b1 := b }
  | 2 => { f with b2 := b }
  | 3 => { f with b3 := b }
  | _ => f

/-- Storing the next byte extends the filled part of the buffer. -/
theorem take_set (f : Frame) {i : ℕ} (hi : i < 4) (b : Byte) :
    (f.set i b).toList.take (i + 1) = f.toList.take i ++ [b] := by
  obtain rfl | rfl | rfl | rfl : i = 0 ∨ i = 1 ∨ i = 2 ∨ i = 3 := by omega
  all_goals rfl

/-- The status bits, as both firmwares extract them. -/
def status (f : Frame) : Byte := f.b0 >>> 6

/-- A frame with status 0 carries a new measurement. -/
def Fresh (f : Frame) : Prop := f.status = 0

instance (f : Frame) : Decidable f.Fresh := inferInstanceAs (Decidable (f.status = 0))

/-- The 14-bit temperature field. -/
def rawT (f : Frame) : ℕ := 64 * f.b2.toNat + f.b3.toNat / 4

/-- The 14-bit humidity field. -/
def rawH (f : Frame) : ℕ := 256 * (f.b0.toNat % 64) + f.b1.toNat

theorem rawT_lt (f : Frame) : f.rawT < 2 ^ 14 := by
  have h2 := f.b2.isLt
  have h3 := f.b3.isLt
  unfold rawT
  omega

theorem rawH_lt (f : Frame) : f.rawH < 2 ^ 14 := by
  have h0 : f.b0.toNat % 64 < 64 := Nat.mod_lt _ (by decide)
  have h1 := f.b1.isLt
  unfold rawH
  omega

end Frame

/-- A temperature and a humidity in hundredths, within the logical ranges that
the HID report descriptor declares. -/
@[ext] structure Reading where
  temp : ℤ
  humid : ℤ
  temp_ge : -4000 ≤ temp
  temp_le : temp ≤ 16500
  humid_nonneg : 0 ≤ humid
  humid_le : humid ≤ 10000

namespace Reading

/-- The reading before the first measurement. -/
def zero : Reading := ⟨0, 0, by decide, by decide, by decide, by decide⟩

end Reading

/-- The reading that a frame carries: floors of the exact quotients. -/
def Frame.reading (f : Frame) : Reading where
  temp := (f.rawT * 16500 / 16382 : ℕ) - 4000
  humid := (f.rawH * 10000 / 16382 : ℕ)
  temp_ge := by omega
  temp_le := by have := f.rawT_lt; omega
  humid_nonneg := by omega
  humid_le := by have := f.rawH_lt; omega

/-- The temperature of a frame never exceeds 125.01 degrees. -/
theorem Frame.reading_temp_le (f : Frame) : f.reading.temp ≤ 12501 := by
  have := f.rawT_lt
  simp only [Frame.reading]
  omega

/-- What a device publishes after a sequence of frames: the reading of the
latest fresh frame, and zeros before there is one. -/
def published : List Frame → Reading :=
  List.foldl (fun r f => if f.Fresh then f.reading else r) Reading.zero

theorem published_concat (fs : List Frame) (f : Frame) :
    published (fs ++ [f]) = if f.Fresh then f.reading else published fs := by
  simp only [published, List.foldl_append, List.foldl_cons, List.foldl_nil]

/-- A published reading is the initial one or the reading of one fresh frame. -/
theorem published_eq_zero_or (fs : List Frame) :
    published fs = Reading.zero ∨ ∃ f ∈ fs, f.Fresh ∧ published fs = f.reading := by
  induction fs using List.reverseRecOn with
  | nil => exact .inl rfl
  | append_singleton fs f ih =>
      rw [published_concat]
      by_cases hf : f.Fresh
      · exact .inr ⟨f, by simp, hf, if_pos hf⟩
      · rw [if_neg hf]
        rcases ih with h | ⟨g, hg, hfresh, h⟩
        · exact .inl h
        · exact .inr ⟨g, List.mem_append_left _ hg, hfresh, h⟩

/-- The two 32-bit words `usb_val[0]` and `usb_val[1]` of either firmware. -/
@[ext] structure UsbVal where
  w0 : Word
  w1 : Word
  deriving DecidableEq

/-- The words that represent a reading, in two's complement. -/
def Reading.words (r : Reading) : UsbVal := ⟨BitVec.ofInt 32 r.temp, BitVec.ofInt 32 r.humid⟩

theorem toInt_ofInt_of_range {x : ℤ} (hl : -2 ^ 31 ≤ x) (hu : x < 2 ^ 31) :
    (BitVec.ofInt 32 x).toInt = x := by
  rw [BitVec.toInt_ofInt, Int.bmod_eq_of_le (by omega) (by omega)]

/-- The host reads back the temperature of a reading as a signed integer. -/
@[simp] theorem Reading.toInt_w0 (r : Reading) : r.words.w0.toInt = r.temp :=
  toInt_ofInt_of_range (by have := r.temp_ge; omega) (by have := r.temp_le; omega)

/-- The host reads back the humidity of a reading as a signed integer. -/
@[simp] theorem Reading.toInt_w1 (r : Reading) : r.words.w1.toInt = r.humid :=
  toInt_ofInt_of_range (by have := r.humid_nonneg; omega) (by have := r.humid_le; omega)

/-- A device publishes the latest fresh frame if each read of it does. -/
theorem foldl_published {σ ρ : Type*} {feed : σ → ρ → σ} {usbVal : σ → UsbVal} {frame : ρ → Frame}
    (hfeed : ∀ s r, usbVal (feed s r) =
      if (frame r).Fresh then (frame r).reading.words else usbVal s)
    {s : σ} (hs : usbVal s = Reading.zero.words) (reads : List ρ) :
    usbVal (reads.foldl feed s) = (published (reads.map frame)).words := by
  induction reads using List.reverseRecOn with
  | nil => exact hs
  | append_singleton reads r ih =>
      rw [List.foldl_append, List.foldl_cons, List.foldl_nil, hfeed, ih, List.map_append,
        List.map_singleton, published_concat]
      split <;> rfl

end TempHumid
