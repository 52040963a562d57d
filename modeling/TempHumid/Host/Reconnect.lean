import TempHumid.Host.Form

/-!
# The retry counter of the form

Without a device the form counts its updates down and looks for devices when the
count has reached zero. The count is reloaded behind the call of `get_device`, so an
exception there leaves it at -1.

## Implementation notes

A run is a list of updates. An exception ends its own update only, as it does when
the timer makes the call. `Form1_Load` makes the first one.
-/

namespace TempHumid.Host

open Machine

/-- An update, whether it throws or not. -/
def tickStep : Step Form Tick LibusbCall := fun s t => ((update t s).form, (update t s).calls)

/-- The update initializes libusb, or an exception says that it could not. -/
def CallsGetDevice (s : Form) (t : Tick) : Prop :=
  (update t s).threw = true ∨ ∃ c, .init c ∈ (update t s).calls

/-- The count as a C# `int`. -/
def InRange (s : Form) : Prop := 0 ≤ s.chkCount.toInt ∧ s.chkCount.toInt ≤ chkInterval.toInt

/-- The counter is in range at every update, and five updates without a device look
for one. -/
structure Reconnects (s : Form) (ts : List Tick) : Prop where
  range : ∀ xs, xs.IsPrefix ts → InRange (finish tickStep s xs)
  looks : ∀ xs ws, (xs ++ ws).IsPrefix ts → ws.length = 5 →
    AllSteps tickStep (fun s _ => s.d = none) (finish tickStep s xs) ws →
      ∃ en ∈ trace tickStep (finish tickStep s xs) ws, CallsGetDevice en.before en.input

/-- An update that looks for devices can initialize the library. -/
def InitSucceeds (s : Form) (t : Tick) : Prop :=
  s.d = none → s.chkCount = 0 → t.attempt.init = .ok

section Tick

variable {s : Form} {t : Tick}

@[simp] theorem tickStep_fst (s : Form) (t : Tick) : (tickStep s t).1 = (update t s).form := rfl

theorem getDevice_calls {a : Attempt} (hok : a.init = .ok) :
    .init s.nextCtx ∈ (getDevice a s).calls := by
  simp [getDevice, hok]

theorem callsGetDevice_iff : CallsGetDevice s t ↔ s.d = none ∧ s.chkCount = 0 := by
  rw [CallsGetDevice]
  refine update_cases t s ?wait ?check ?threw ?dropped ?shown
  case wait =>
    intro _ hcount
    exact iff_of_false (by simp) fun h => hcount h.2
  case check =>
    intro hd hcount hok
    exact iff_of_true (.inr ⟨_, getDevice_calls hok⟩) ⟨hd, hcount⟩
  case threw =>
    intro hd hcount _
    exact iff_of_true (.inl rfl) ⟨hd, hcount⟩
  case dropped =>
    intro dev hd _
    exact iff_of_false (by simp) (by simp [hd])
  case shown =>
    intro dev hd _
    exact iff_of_false (by simp) (by simp [hd])

theorem inRange_iff : InRange s ↔ s.chkCount.toNat ≤ 4 := by
  have hfour : chkInterval.toInt = 4 := rfl
  have hlt := s.chkCount.isLt
  rw [InRange, hfour, BitVec.toInt_eq_toNat_cond]
  split <;> omega

/-- A count of zero wraps around. -/
theorem counted_of_zero (hcount : s.chkCount = 0) : s.counted.chkCount.toNat = 2 ^ 32 - 1 := by
  rw [Form.counted, hcount]
  rfl

/-- An update keeps the counter in range if and only if it does not fail to
initialize the library. -/
theorem inRange_tick_iff (hs : InRange s) : InRange (tickStep s t).1 ↔ InitSucceeds s t := by
  have hle := inRange_iff.mp hs
  rw [tickStep_fst]
  refine update_cases t s ?wait ?check ?threw ?dropped ?shown
  case wait =>
    intro _ hcount
    refine iff_of_true (inRange_iff.mpr ?_) fun _ hzero => absurd hzero hcount
    exact (Words.toNat_sub_one hcount).trans_le ((Nat.sub_le _ _).trans hle)
  case check =>
    intro _ _ hok
    exact iff_of_true (inRange_iff.mpr le_rfl) fun _ _ => hok
  case threw =>
    intro hd hcount hok
    refine iff_of_false (fun hrange => ?_) fun h => hok (h hd hcount)
    have hmax := (counted_of_zero hcount).symm.trans_le (inRange_iff.mp hrange)
    exact absurd hmax (by decide)
  case dropped =>
    intro dev hd _
    exact iff_of_true (inRange_iff.mpr hle) fun hnone => by cases hd.symm.trans hnone
  case shown =>
    intro dev hd _
    exact iff_of_true hs fun hnone => by cases hd.symm.trans hnone

theorem inRange_iff_run (ts : List Tick) (hs : InRange s) :
    (∀ xs, xs.IsPrefix ts → InRange (finish tickStep s xs)) ↔
      AllSteps tickStep InitSucceeds s ts := by
  rw [forall_prefix_iff, and_iff_right hs]
  exact allSteps_congr hs (fun s t hs => inRange_tick_iff hs)
    fun s t hs hok => (inRange_tick_iff hs).mpr hok

end Tick

/-! ## Windows of updates without a device -/

/-- A window longer than the count looks for devices. -/
theorem looks_of_count_lt (ws : List Tick) (s : Form) (hlt : s.chkCount.toNat < ws.length)
    (hnone : AllSteps tickStep (fun s _ => s.d = none) s ws) :
    ∃ en ∈ trace tickStep s ws, CallsGetDevice en.before en.input := by
  induction ws generalizing s with
  | nil => exact absurd hlt (Nat.not_lt_zero _)
  | cons t ws ih =>
      by_cases hcount : s.chkCount = 0
      · exact ⟨entry tickStep s t, List.mem_cons_self, callsGetDevice_iff.mpr ⟨hnone.1, hcount⟩⟩
      · have hwait : (tickStep s t).1.chkCount = s.chkCount - 1 := by
          rw [tickStep_fst, update_wait hnone.1 hcount]
        have hnext : (tickStep s t).1.chkCount.toNat < ws.length := by
          rw [hwait, Words.toNat_sub_one hcount]
          have hpos := BitVec.toNat_pos_of_ne_zero hcount
          rw [List.length_cons] at hlt
          omega
        obtain ⟨en, hmem, hcalls⟩ := ih _ hnext hnone.2
        exact ⟨en, List.mem_cons_of_mem _ hmem, hcalls⟩

/-- A window no longer than the count does not. -/
theorem silent_of_le_count (ws : List Tick) (s : Form) (hnone : s.d = none)
    (hle : ws.length ≤ s.chkCount.toNat) :
    AllSteps tickStep (fun s t => s.d = none ∧ ¬CallsGetDevice s t) s ws := by
  induction ws generalizing s with
  | nil => exact allSteps_nil
  | cons t ws ih =>
      rw [List.length_cons] at hle
      have hcount : s.chkCount ≠ 0 := by
        intro hzero
        rw [hzero] at hle
        exact absurd hle (Nat.not_succ_le_zero _)
      refine ⟨⟨hnone, fun hcalls => hcount (callsGetDevice_iff.mp hcalls).2⟩, ?_⟩
      apply ih
      · rw [tickStep_fst, update_wait hnone hcount]
        exact hnone
      · rw [tickStep_fst, update_wait hnone hcount]
        have hdown := Words.toNat_sub_one hcount
        change ws.length ≤ (s.chkCount - 1).toNat
        omega

/-- After an exception the form does not look for devices for 2 ^ 32 - 1 updates. -/
theorem silent_of_threw {s : Form} {t : Tick} (hthrew : (update t s).threw = true)
    (ws : List Tick) (hlt : ws.length < 2 ^ 32) :
    AllSteps tickStep (fun s t => s.d = none ∧ ¬CallsGetDevice s t) (tickStep s t).1 ws := by
  obtain ⟨hd, hcount⟩ := callsGetDevice_iff.mp (.inl hthrew)
  have hok : t.attempt.init ≠ .ok := by
    intro hok
    rw [update_check hd hcount hok] at hthrew
    simp [getDevice, hok] at hthrew
  rw [tickStep_fst, update_threw hd hcount hok]
  apply silent_of_le_count
  · exact hd
  · have hmax := counted_of_zero hcount
    change ws.length ≤ s.counted.chkCount.toNat
    omega

/-! ## The form -/

theorem getDevice_chkCount (a : Attempt) (s : Form) :
    (getDevice a s).form.chkCount = s.chkCount := by
  cases hinit : a.init <;> simp only [getDevice, hinit]

theorem inRange_formLoad (a : Attempt) : InRange (formLoad a).1 := by
  have hcount : (formLoad a).1.chkCount = 0 := getDevice_chkCount a Form.init
  rw [inRange_iff, hcount]
  exact Nat.zero_le 4

/-- From the load on, the counter stays in range and the form keeps looking for
devices exactly in the runs in which every update that looks for one can initialize
the library. -/
theorem reconnects_iff (a : Attempt) (ts : List Tick) :
    Reconnects (formLoad a).1 ts ↔ AllSteps tickStep InitSucceeds (formLoad a).1 ts := by
  rw [← inRange_iff_run ts (inRange_formLoad a)]
  constructor
  · exact Reconnects.range
  · intro hrange
    refine ⟨hrange, fun xs ws hprefix hlength hnone => ?_⟩
    apply looks_of_count_lt ws _ _ hnone
    have hstart := inRange_iff.mp (hrange xs ((List.prefix_append xs ws).trans hprefix))
    omega

/-- `n` updates without a reading. -/
def searches (a : Attempt) (n : ℕ) : List Tick := List.replicate n ⟨a, none, none⟩

/-- The library can be initialized, and no device is there. -/
def emptyBus : Attempt := ⟨.ok, some [], some []⟩

/-- An empty bus, until the library cannot be initialized once. -/
def failedOnce : List Tick := searches emptyBus 5 ++ searches ⟨.failedKept, none, none⟩ 1

/-- The form does not look for the device that is on the bus after it. -/
theorem failed_init_stops_looking :
    (finish tickStep (formLoad emptyBus).1 failedOnce).chkCount = -1 ∧
      AllSteps tickStep (fun s t => s.d = none ∧ ¬CallsGetDevice s t)
        (finish tickStep (formLoad emptyBus).1 failedOnce) (searches oneDevice 5) ∧
      ¬Reconnects (formLoad emptyBus).1 (failedOnce ++ searches oneDevice 5) := by
  have hcount : (finish tickStep (formLoad emptyBus).1 failedOnce).chkCount = -1 := by decide
  refine ⟨hcount, ?_, fun h => ?_⟩
  · rw [failedOnce, finish_append]
    exact silent_of_threw (by decide) (searches oneDevice 5) (by decide)
  · have hrange := h.range failedOnce (List.prefix_append _ _)
    rw [InRange, hcount] at hrange
    exact absurd hrange (by decide)

end TempHumid.Host
