import TempHumid.Th2.Steps

/-!
# The bytes of a decoded frame

A summary of the bus history keeps the bytes received since the read address
was last written. While a read is in progress, the filled part of `hih_val` is
that history. A poll tick that cuts a read short leaves the state
`hihReceive`, and only a new read address brings it back.

## Implementation notes

The history counts every data byte that raises `SB`, also in a state that does
not read the `DATA` register.
-/

namespace TempHumid.Th2

open Machine

/-- The bytes received since the read address was last written. -/
def receivedStep (g : List Byte) (en : Entry Firmware Event Act) : List Byte :=
  if .addr slaR ∈ en.outputs then []
  else match en.input with
    | .sb b _ => g ++ [b]
    | .tick _ | .mb => g

/-- The bytes received after a list of activations. -/
def received (evs : List Event) : List Byte := watch receivedStep [] (trace step init evs)

theorem received_concat (evs : List Event) (e : Event) :
    received (evs ++ [e]) = receivedStep (received evs) (entry step (run evs) e) :=
  watch_concat init [] evs e

/-- While a read is in progress, the filled part of `hih_val` is the history. -/
structure FrameInv (s : Firmware) (g : List Byte) : Prop where
  index : s.bytesRead ≤ 3
  length : s.state = .hihReceive → g.length = s.bytesRead
  filled : s.state = .hihReceive → s.hihVal.toList.take s.bytesRead = g

theorem frameInv_init : FrameInv init [] where
  index := Nat.zero_le 3
  length h := by cases h
  filled h := by cases h

section Step

variable {s : Firmware} {g : List Byte}

theorem receivedStep_tick {released : Bool} (hb : s.bytesRead ≤ 3) :
    receivedStep g (entry step s (.tick released)) = if ReadDue s then [] else g := by
  simp only [receivedStep, entry, slaR_mem_step hb, Event.tick.injEq, exists_eq', true_and]

theorem receivedStep_mb (hb : s.bytesRead ≤ 3) : receivedStep g (entry step s .mb) = g := by
  simp only [receivedStep, entry, slaR_mem_step hb, reduceCtorEq, exists_false, false_and, if_false]

theorem receivedStep_sb {b : Byte} {released : Bool} (hb : s.bytesRead ≤ 3) :
    receivedStep g (entry step s (.sb b released)) = g ++ [b] := by
  simp only [receivedStep, entry, slaR_mem_step hb, reduceCtorEq, exists_false, false_and, if_false]

/-- The `MB` loop never enters the state that receives a frame. -/
theorem mb_hihReceive (h : (step s .mb).1.state = .hihReceive) : (step s .mb).1 = s := by
  simp only [step] at h ⊢
  cases hs : s.state <;> simp [sercom0HandlerMB, hs] at h ⊢

theorem FrameInv.tick (h : FrameInv s g) (released : Bool) :
    FrameInv (step s (.tick released)).1
      (receivedStep g (entry step s (.tick released))) := by
  rw [receivedStep_tick h.index]
  have hindex := bytesRead_step h.index (.tick released)
  simp only [step, tc1Handler_eq] at hindex ⊢
  by_cases hp : PollDue s
  · -- A poll tick leaves the read, whether or not it started one itself.
    refine ⟨hindex, ?_, ?_⟩ <;> intro hs <;> simp [hp] at hs
  · by_cases hr : ReadDue s
    · refine ⟨hindex, ?_, ?_⟩ <;> intro _ <;> simp [hr]
    · refine ⟨hindex, ?_, ?_⟩ <;> intro hs <;> simp only [hp, hr, if_false] at hs ⊢
      · exact h.length hs
      · exact h.filled hs

theorem FrameInv.mb (h : FrameInv s g) :
    FrameInv (step s .mb).1 (receivedStep g (entry step s .mb)) := by
  rw [receivedStep_mb h.index]
  refine ⟨bytesRead_step h.index .mb, ?_, ?_⟩
  · intro hs
    have heq := mb_hihReceive hs
    rw [heq] at hs ⊢
    exact h.length hs
  · intro hs
    have heq := mb_hihReceive hs
    rw [heq] at hs ⊢
    exact h.filled hs

theorem FrameInv.sb (h : FrameInv s g) (b : Byte) (released : Bool) :
    FrameInv (step s (.sb b released)).1
      (receivedStep g (entry step s (.sb b released))) := by
  rw [receivedStep_sb h.index]
  have hindex := bytesRead_step h.index (.sb b released)
  simp only [step] at hindex ⊢
  rcases sb_cases s h.index with hs | ⟨hs, h2⟩ | ⟨hs, h3⟩
  · rw [sb_unexpected b released hs] at hindex ⊢
    exact ⟨hindex, fun hd => absurd hd hs, fun hd => absurd hd hs⟩
  · rw [sb_early b released hs h2] at hindex ⊢
    refine ⟨hindex, ?_, ?_⟩
    · intro _
      rw [List.length_append, h.length hs, List.length_singleton]
    · intro _
      rw [Frame.take_set _ (by omega) b, h.filled hs]
  · rw [sb_last b released hs h3] at hindex ⊢
    refine ⟨hindex, ?_, ?_⟩ <;> intro hd <;> cases hd

theorem frameInv_step (h : FrameInv s g) (e : Event) :
    FrameInv (step s e).1 (receivedStep g (entry step s e)) := by
  cases e with
  | tick released => exact h.tick released
  | mb => exact h.mb
  | sb b released => exact h.sb b released

end Step

theorem frameInv_run (evs : List Event) : FrameInv (run evs) (received evs) :=
  watch_invariant step receivedStep frameInv_init (fun _ _ e h => frameInv_step h e) evs

section Outputs

variable {s : Firmware} {e : Event}

/-- The `MB` loop handles no received data. -/
theorem not_data_mb :
    (∀ i b, Act.store i b ∉ (step s .mb).2) ∧ ∀ f, Act.decode f ∉ (step s .mb).2 := by
  simp only [step]
  cases hs : s.state <;> simp [sercom0HandlerMB, hs]

/-- The accesses that store byte `i` of a read: the first three bytes are
acknowledged, the fourth is refused and followed by STOP. -/
def storeActs (i : ℕ) (b : Byte) (f : Frame) : List Act :=
  if i = 3 then
    [.ackAct true, .read b true, .store i b, .stop, .decode f, .outSet statusG, .addr i2cAddrTdac]
  else [.ackAct false, .read b false, .store i b]

/-- Stores come from the `SB` loop, which stores at `bytes_read`. -/
theorem store_step (hb : s.bytesRead ≤ 3) {i : ℕ} {b : Byte} (h : .store i b ∈ (step s e).2) :
    s.state = .hihReceive ∧ i = s.bytesRead ∧ (∃ released, e = .sb b released) ∧
      (step s e).2 = storeActs i b (s.hihVal.set i b) := by
  cases e with
  | tick released =>
      have hstore := mem_tick h
      simp at hstore
  | mb => exact absurd h (not_data_mb.1 i b)
  | sb b' released =>
      simp only [step] at h ⊢
      rcases sb_cases s hb with hs | ⟨hs, h2⟩ | ⟨hs, h3⟩
      · rw [sb_unexpected b' released hs] at h
        simp at h
      · have h3 : s.bytesRead ≠ 3 := by omega
        rw [sb_early b' released hs h2] at h ⊢
        obtain ⟨rfl, rfl⟩ : i = s.bytesRead ∧ b = b' := by simpa using h
        exact ⟨hs, rfl, ⟨released, rfl⟩, by simp [storeActs, h3]⟩
      · rw [sb_last b' released hs h3] at h ⊢
        obtain ⟨rfl, rfl⟩ : i = 3 ∧ b = b' := by simpa using h
        exact ⟨hs, h3.symm, ⟨released, rfl⟩, by simp [storeActs]⟩

/-- The words published after a frame has been decoded: its own, if it is fresh. -/
def publish (f : Frame) (old : UsbVal) : UsbVal :=
  if f.Fresh then ⟨tempWord f, humidWord f⟩ else old

/-- A frame is decoded and published by the activation that stores its fourth byte. -/
theorem decode_step (hb : s.bytesRead ≤ 3) {f : Frame} (h : .decode f ∈ (step s e).2) :
    s.state = .hihReceive ∧ s.bytesRead = 3 ∧ (step s e).1.usbVal = publish f s.usbVal ∧
      ∃ b released, e = .sb b released ∧ f = s.hihVal.set 3 b := by
  cases e with
  | tick released =>
      have hdecode := mem_tick h
      simp at hdecode
  | mb => exact absurd h (not_data_mb.2 f)
  | sb b released =>
      simp only [step] at h ⊢
      rcases sb_cases s hb with hs | ⟨hs, h2⟩ | ⟨hs, h3⟩
      · rw [sb_unexpected b released hs] at h
        simp at h
      · rw [sb_early b released hs h2] at h
        simp at h
      · rw [sb_last b released hs h3] at h ⊢
        obtain rfl : f = s.hihVal.set 3 b := by simpa using h
        exact ⟨hs, h3, rfl, b, released, rfl, rfl⟩

end Outputs

/-- Frame integrity: after any activations, `bytes_read` is a valid index, a
store goes to the index of the byte within its read and is answered as
`storeActs` says, and a decoded frame consists of the bytes received since
the read address was last written and is the one whose words are published. -/
theorem frame_integrity (evs : List Event) :
    (run evs).bytesRead ≤ 3 ∧
      ∀ e,
        (∀ i b, .store i b ∈ (step (run evs) e).2 →
          i < 4 ∧ i = (received evs).length ∧ received (evs ++ [e]) = received evs ++ [b] ∧
            ∃ f, (step (run evs) e).2 = storeActs i b f) ∧
        ∀ f, .decode f ∈ (step (run evs) e).2 →
          f.toList = received (evs ++ [e]) ∧ (received (evs ++ [e])).length = 4 ∧
            (step (run evs) e).1.usbVal = publish f (run evs).usbVal := by
  have hinv := frameInv_run evs
  have hb := hinv.index
  refine ⟨hb, fun e => ⟨?_, ?_⟩⟩
  · intro i b h
    obtain ⟨hs, hi, ⟨released, rfl⟩, hacts⟩ := store_step hb h
    refine ⟨by omega, ?_, ?_, _, hacts⟩
    · rw [hi, hinv.length hs]
    · rw [received_concat, receivedStep_sb hb]
  · intro f h
    obtain ⟨hs, h3, hpublish, b, released, rfl, rfl⟩ := decode_step hb h
    have htake := Frame.take_set (run evs).hihVal (show 3 < 4 by decide) b
    have hfilled := hinv.filled hs
    have hlength := hinv.length hs
    rw [h3] at hfilled hlength
    rw [received_concat, receivedStep_sb hb, ← hfilled, ← htake]
    exact ⟨rfl, rfl, hpublish⟩

end TempHumid.Th2
