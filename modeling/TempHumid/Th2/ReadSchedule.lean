import TempHumid.Th2.Steps

/-!
# When a read is due

The deadline `hih_request_at` is an equality test on a wrapping counter. It is
set by each completed measurement request, that is each `MB` iteration in
`STATE_HIH_REQUEST`, and never cleared. A summary of the history counts the
ticks since the latest completion. As long as this count stays below `2^32`, a
read is due exactly at the second tick after a completion.
-/

namespace TempHumid.Th2

open Machine

/-- The ticks since the latest completed measurement request, or since the
start if none has completed. -/
@[ext] structure Gap where
  ticks : ℕ
  completed : Bool
  deriving DecidableEq

def gapStep (g : Gap) (en : Entry Firmware Event Act) : Gap :=
  match en.input with
  | .tick _ => { g with ticks := g.ticks + 1 }
  | .mb => if en.before.state = .hihRequest then ⟨0, true⟩ else g
  | .sb _ _ => g

def gap (evs : List Event) : Gap := watch gapStep ⟨0, false⟩ (trace step init evs)

section GapAlgebra

theorem gap_tick (evs : List Event) (released : Bool) :
    gap (evs ++ [.tick released]) = ⟨(gap evs).ticks + 1, (gap evs).completed⟩ :=
  watch_concat init _ evs _

theorem gap_mb (evs : List Event) : gap (evs ++ [.mb]) =
    if (run evs).state = .hihRequest then ⟨0, true⟩ else gap evs :=
  watch_concat init _ evs _

theorem gap_sb (evs : List Event) (b : Byte) (released : Bool) :
    gap (evs ++ [.sb b released]) = gap evs :=
  watch_concat init _ evs _

theorem gap_ticks_le (evs : List Event) : (gap evs).ticks ≤ evs.length := by
  induction evs using List.reverseRecOn with
  | nil => exact Nat.le_refl 0
  | append_singleton evs e ih =>
      rw [List.length_append, List.length_singleton]
      cases e with
      | tick released =>
          rw [gap_tick]
          exact Nat.succ_le_succ ih
      | mb =>
          rw [gap_mb]
          split
          · exact Nat.zero_le _
          · exact Nat.le_succ_of_le ih
      | sb b released =>
          rw [gap_sb]
          exact Nat.le_succ_of_le ih

/-- Without a completion the count only grows. -/
theorem gap_mono_of_no_completion (evs mid : List Event)
    (h : ∀ m₁ m₂, mid = m₁ ++ .mb :: m₂ → (run (evs ++ m₁)).state ≠ .hihRequest) :
    (gap evs).ticks ≤ (gap (evs ++ mid)).ticks := by
  induction mid using List.reverseRecOn with
  | nil => rw [List.append_nil]
  | append_singleton mid e ih =>
      have hprefix := ih fun m₁ m₂ hm => h m₁ (m₂ ++ [e]) (by rw [hm]; simp)
      rw [← List.append_assoc]
      cases e with
      | tick released =>
          rw [gap_tick]
          exact Nat.le_succ_of_le hprefix
      | mb => rwa [gap_mb, if_neg (h mid [] rfl)]
      | sb b released => rwa [gap_sb]

end GapAlgebra

/-- The counter and the deadline, against the history. All equations hold
modulo `2^32`. -/
structure GapInv (s : Firmware) (g : Gap) : Prop where
  index : s.bytesRead ≤ 3
  initial : g.completed = false →
    s.hihRequestAt = 0 ∧ s.curTick = BitVec.ofNat 32 g.ticks
  elapsed : g.completed = true → s.curTick + 2 = s.hihRequestAt + BitVec.ofNat 32 g.ticks

theorem gapInv_init : GapInv init ⟨0, false⟩ where
  index := Nat.zero_le 3
  initial _ := ⟨rfl, rfl⟩
  elapsed h := by cases h

section Step

variable {s : Firmware} {g : Gap}

/-- Only the `MB` loop in `STATE_HIH_REQUEST` sets the deadline. -/
theorem mb_keeps_timers (h : s.state ≠ .hihRequest) :
    (step s .mb).1.curTick = s.curTick ∧ (step s .mb).1.hihRequestAt = s.hihRequestAt := by
  simp only [step]
  cases hs : s.state with
  | hihRequest => exact absurd hs h
  | _ => simp [sercom0HandlerMB, hs]

theorem GapInv.tick (h : GapInv s g) (released : Bool) :
    GapInv (step s (.tick released)).1 { g with ticks := g.ticks + 1 } := by
  have hcount : BitVec.ofNat 32 (g.ticks + 1) = BitVec.ofNat 32 g.ticks + 1 :=
    BitVec.ofNat_add g.ticks 1
  refine ⟨bytesRead_step h.index _, ?_, ?_⟩ <;> intro hc <;>
    simp only [step, tc1Handler_eq, hcount]
  · obtain ⟨hdeadline, htick⟩ := h.initial hc
    exact ⟨hdeadline, by rw [htick]⟩
  · have helapsed := h.elapsed hc
    calc s.curTick + 1 + 2 = s.curTick + 2 + 1 := by ac_rfl
      _ = s.hihRequestAt + BitVec.ofNat 32 g.ticks + 1 := by rw [helapsed]
      _ = s.hihRequestAt + (BitVec.ofNat 32 g.ticks + 1) := by ac_rfl

theorem GapInv.mb (h : GapInv s g) :
    GapInv (step s .mb).1 (if s.state = .hihRequest then ⟨0, true⟩ else g) := by
  by_cases hs : s.state = .hihRequest
  · rw [if_pos hs]
    refine ⟨bytesRead_step h.index _, ?_, ?_⟩ <;> intro hc
    · cases hc
    · simp only [step, mb_hihRequest hs]
      exact (BitVec.add_zero _).symm
  · obtain ⟨htick, hdeadline⟩ := mb_keeps_timers hs
    rw [if_neg hs]
    refine ⟨bytesRead_step h.index _, ?_, ?_⟩ <;> intro hc <;> rw [htick, hdeadline]
    · exact h.initial hc
    · exact h.elapsed hc

theorem gapInv_step (h : GapInv s g) (e : Event) :
    GapInv (step s e).1 (gapStep g (entry step s e)) := by
  cases e with
  | tick released => exact h.tick released
  | mb => exact h.mb
  | sb b released =>
      obtain ⟨htick, hdeadline, -⟩ := sb_frame h.index b released
      refine ⟨bytesRead_step h.index _, ?_, ?_⟩ <;> intro hc <;> rw [htick, hdeadline]
      · exact h.initial hc
      · exact h.elapsed hc

/-- Within one turn of the counter, the deadline test recognises the second
tick after a completion. -/
theorem readDue_iff (h : GapInv s g) (hlt : g.ticks + 1 < 2 ^ 32) :
    ReadDue s ↔ g = ⟨1, true⟩ := by
  rw [ReadDue, Gap.ext_iff]
  cases hc : g.completed with
  | false =>
      obtain ⟨hdeadline, htick⟩ := h.initial hc
      rw [hdeadline, htick, ← BitVec.toNat_inj]
      simp only [BitVec.toNat_add, BitVec.toNat_ofNat, BitVec.reduceToNat, Bool.false_eq_true,
        and_false, iff_false]
      omega
  | true =>
      have helapsed := congrArg BitVec.toNat (h.elapsed hc)
      have hd := s.hihRequestAt.isLt
      rw [← BitVec.toNat_inj]
      simp only [BitVec.toNat_add, BitVec.toNat_ofNat, BitVec.reduceToNat, and_true] at helapsed ⊢
      omega

end Step

theorem gapInv_run (evs : List Event) : GapInv (run evs) (gap evs) :=
  watch_invariant step gapStep gapInv_init (fun _ _ e h => gapInv_step h e) evs

/-- The tick after `evs` writes the read address of the sensor. -/
def Reads (evs : List Event) (released : Bool) : Prop :=
  .addr slaR ∈ (step (run evs) (.tick released)).2

instance (evs : List Event) (released : Bool) : Decidable (Reads evs released) :=
  inferInstanceAs (Decidable (.addr slaR ∈ (step (run evs) (.tick released)).2))

/-- Fewer than `2^32` ticks pass without a completion. -/
def NoLongGap (evs : List Event) : Prop := ∀ pre, pre <+: evs → (gap pre).ticks < 2 ^ 32

theorem noLongGap_of_length (evs : List Event) (h : evs.length < 2 ^ 32) : NoLongGap evs := by
  intro pre hpre
  calc (gap pre).ticks ≤ pre.length := gap_ticks_le pre
    _ ≤ evs.length := hpre.length_le
    _ < 2 ^ 32 := h

theorem reads_iff_gap {evs pre post : List Event} {released : Bool} (h : NoLongGap evs)
    (he : evs = pre ++ .tick released :: post) : Reads pre released ↔ gap pre = ⟨1, true⟩ := by
  have hlt := h (pre ++ [.tick released]) ⟨post, by rw [he]; simp⟩
  rw [gap_tick] at hlt
  rw [Reads, slaR_mem_step (bytesRead_run pre), readDue_iff (gapInv_run pre) hlt]
  exact and_iff_right ⟨released, rfl⟩

/-- A tick writes the read address if and only if the latest completion lies
between the two ticks before it, and two reads have a completion between them. -/
theorem read_schedule (evs : List Event) (h : NoLongGap evs) :
    (∀ pre released post, evs = pre ++ .tick released :: post →
      (Reads pre released ↔ gap pre = ⟨1, true⟩)) ∧
    ∀ pre r mid r' post, evs = pre ++ .tick r :: (mid ++ .tick r' :: post) →
      Reads pre r → Reads (pre ++ .tick r :: mid) r' →
        ∃ m₁ m₂, mid = m₁ ++ .mb :: m₂ ∧ (run (pre ++ .tick r :: m₁)).state = .hihRequest := by
  refine ⟨fun pre released post he => reads_iff_gap h he, ?_⟩
  intro pre r mid r' post he hfirst hsecond
  by_contra hnone
  have hfirst := (reads_iff_gap h he).mp hfirst
  have hsplit : evs = (pre ++ .tick r :: mid) ++ .tick r' :: post := by
    rw [he, List.append_assoc, List.cons_append]
  have hsecond := (reads_iff_gap h hsplit).mp hsecond
  have hmono := gap_mono_of_no_completion (pre ++ [.tick r]) mid fun m₁ m₂ hm hs =>
    hnone ⟨m₁, m₂, hm, by simpa using hs⟩
  -- the count is 2 after the first read and 1 before the second
  rw [gap_tick, hfirst, List.append_assoc, List.singleton_append, hsecond] at hmono
  exact absurd hmono (by decide)

/-- The first read comes two ticks after the first completed request. -/
theorem read_schedule_first :
    Reads (List.replicate 10 (.tick true) ++ [.mb, .tick true]) true ∧
      gap (List.replicate 10 (.tick true) ++ [.mb, .tick true]) = ⟨1, true⟩ := by
  have hread : Reads (List.replicate 10 (.tick true) ++ [.mb, .tick true]) true := by
    decide +kernel
  refine ⟨hread, ?_⟩
  have hgap := noLongGap_of_length
    (List.replicate 10 (.tick true) ++ [.mb, .tick true, .tick true]) (by decide)
  exact ((read_schedule _ hgap).1 _ true [] (by decide)).mp hread

end TempHumid.Th2
