import TempHumid.Th2.Firmware

/-!
# What one handler activation does

One equation for a tick, and one for each branch of the two loops of
`SERCOM0_Handler`. The invariants of the later modules are read off these
equations, with no further unfolding of the handlers.
-/

namespace TempHumid.Th2

open Machine

/-- The next tick meets the deadline of the read. -/
def ReadDue (s : Firmware) : Prop := s.curTick + 1 = s.hihRequestAt

/-- The next tick is a poll tick. -/
def PollDue (s : Firmware) : Prop := pollDelay ≤ s.pollCnt + 1

instance (s : Firmware) : Decidable (ReadDue s) :=
  inferInstanceAs (Decidable (s.curTick + 1 = s.hihRequestAt))

instance (s : Firmware) : Decidable (PollDue s) :=
  inferInstanceAs (Decidable (pollDelay ≤ s.pollCnt + 1))

/-- The code a DAC variable holds after a tick. -/
def tickCode (released : Bool) (s : Firmware) (code : Word) : Word :=
  if released then code else calibLevel (s.curTick + 1)

/-- A tick counts, calibrates if the switch is pressed, starts the read that is
due and then the measurement request that is due. -/
theorem tc1Handler_eq (released : Bool) (s : Firmware) :
    tc1Handler released s =
      ({ s with
          state := if PollDue s then .hihRequest else if ReadDue s then .hihReceive else s.state
          bytesRead := if ReadDue s then 0 else s.bytesRead
          curTick := s.curTick + 1
          tdacVal := tickCode released s s.tdacVal
          hdacVal := tickCode released s s.hdacVal
          pollCnt := if PollDue s then 0 else s.pollCnt + 1
          ackAct := if ReadDue s then false else s.ackAct },
        (if ReadDue s then [.ackAct false, .addr slaR] else []) ++
          (if PollDue s then [.addr i2cAddrHih] else []) ++ [.clearMC0]) := by
  have haddr : i2cAddrHih ||| 0 = i2cAddrHih := by decide
  have hcount : countTick released s =
      { s with
        curTick := s.curTick + 1
        pollCnt := s.pollCnt + 1
        tdacVal := tickCode released s s.tdacVal
        hdacVal := tickCode released s s.hdacVal } := by
    cases released <;> rfl
  simp only [tc1Handler, hcount, startRead, requestMeasurement, haddr]
  by_cases hr : s.curTick + 1 = s.hihRequestAt <;> by_cases hp : pollDelay ≤ s.pollCnt + 1 <;>
    simp only [ReadDue, PollDue, hr, hp, if_true, if_false]

section MB

variable {s : Firmware}

theorem mb_hihRequest (h : s.state = .hihRequest) :
    sercom0HandlerMB s = ({ s with hihRequestAt := s.curTick + 2 }, [.stop]) := by
  simp only [sercom0HandlerMB, h]

theorem mb_dac0Write (h : s.state = .dac0Write) :
    sercom0HandlerMB s = ({ s with ackAct := false, state := .dac0Write2 },
      [.ackAct false, .write (toByte (s.tdacVal >>> 8))]) := by
  simp only [sercom0HandlerMB, h]

theorem mb_dac0Write2 (h : s.state = .dac0Write2) :
    sercom0HandlerMB s = ({ s with ackAct := true, state := .dac0Write3 },
      [.ackAct true, .write (toByte (s.tdacVal &&& 0xff))]) := by
  simp only [sercom0HandlerMB, h]

theorem mb_dac0Write3 (h : s.state = .dac0Write3) :
    sercom0HandlerMB s = ({ s with state := .dac1Write }, [.stop, .addr i2cAddrHdac]) := by
  have haddr : i2cAddrHdac ||| 0 = i2cAddrHdac := by decide
  simp only [sercom0HandlerMB, h, haddr]

theorem mb_dac1Write (h : s.state = .dac1Write) :
    sercom0HandlerMB s = ({ s with ackAct := false, state := .dac1Write2 },
      [.ackAct false, .write (toByte (s.hdacVal >>> 8))]) := by
  simp only [sercom0HandlerMB, h]

theorem mb_dac1Write2 (h : s.state = .dac1Write2) :
    sercom0HandlerMB s = ({ s with ackAct := true, state := .dac1Write3 },
      [.ackAct true, .write (toByte (s.hdacVal &&& 0xff))]) := by
  simp only [sercom0HandlerMB, h]

theorem mb_dac1Write3 (h : s.state = .dac1Write3) :
    sercom0HandlerMB s = ({ s with state := .idle }, [.stop]) := by
  simp only [sercom0HandlerMB, h]

theorem mb_unexpected (h : s.state = .idle ∨ s.state = .hihReceive) :
    sercom0HandlerMB s = (s, [.outSet statusR, .outClr statusG, .clearMB]) := by
  rcases h with h | h <;> simp only [sercom0HandlerMB, h]

end MB

section SB

variable {s : Firmware} (b : Byte) (released : Bool)

/-- One of the first three bytes of a read is stored and acknowledged. -/
theorem sb_early (h : s.state = .hihReceive) (hb : s.bytesRead ≤ 2) :
    sercom0HandlerSB b released s =
      ({ s with
          ackAct := false
          hihVal := s.hihVal.set s.bytesRead b
          bytesRead := s.bytesRead + 1 },
        [.ackAct false, .read b false, .store s.bytesRead b]) := by
  have hn : s.bytesRead + 1 ≠ 4 := by omega
  have hz : s.bytesRead + 1 ≠ 0 := by omega
  simp only [sercom0HandlerSB, receiveByte, if_pos h, if_neg hn, if_neg hz, decide_eq_true hb,
    Bool.not_true, List.append_nil]

/-- The state that the fourth byte of a read leaves, given the complete frame. -/
def afterFrame (f : Frame) (s : Firmware) : Firmware :=
  { s with
    state := .dac0Write
    bytesRead := 0
    hihVal := f
    ackAct := true
    usbVal := if f.Fresh then ⟨tempWord f, humidWord f⟩ else s.usbVal
    tdacVal := if f.Fresh ∧ released = true then scaleTemp (tempWord f) else s.tdacVal
    hdacVal := if f.Fresh ∧ released = true then scaleHumid (humidWord f) else s.hdacVal }

/-- The fourth byte is stored and refused, the frame is decoded and the first
DAC is addressed. -/
theorem sb_last (h : s.state = .hihReceive) (hb : s.bytesRead = 3) :
    sercom0HandlerSB b released s =
      (afterFrame released (s.hihVal.set 3 b) s,
        [.ackAct true, .read b true, .store 3 b, .stop, .decode (s.hihVal.set 3 b),
          .outSet statusG, .addr i2cAddrTdac]) := by
  have haddr : i2cAddrTdac ||| 0 = i2cAddrTdac := by decide
  have hdecode (t : Firmware) : decodeFrame released t =
      { t with
        usbVal := if t.hihVal.Fresh then ⟨tempWord t.hihVal, humidWord t.hihVal⟩ else t.usbVal
        tdacVal := if t.hihVal.Fresh ∧ released = true then scaleTemp (tempWord t.hihVal)
          else t.tdacVal
        hdacVal := if t.hihVal.Fresh ∧ released = true then scaleHumid (humidWord t.hihVal)
          else t.hdacVal } := by
    by_cases hf : t.hihVal.status = 0 <;> cases released <;>
      simp only [decodeFrame, Frame.Fresh, hf, if_true, if_false, and_true, and_false, and_self,
        Bool.false_eq_true]
  simp only [sercom0HandlerSB, receiveByte, completeFrame, beginDacWrite, hdecode, if_pos h, hb,
    haddr]
  rfl

theorem sb_unexpected (h : s.state ≠ .hihReceive) :
    sercom0HandlerSB b released s = (s, [.outSet (statusG ||| statusR), .clearSB]) := by
  simp only [sercom0HandlerSB, if_neg h]

/-- The three cases of an `SB` iteration. -/
theorem sb_cases (s : Firmware) (hb : s.bytesRead ≤ 3) :
    s.state ≠ .hihReceive ∨ (s.state = .hihReceive ∧ s.bytesRead ≤ 2) ∨
      (s.state = .hihReceive ∧ s.bytesRead = 3) := by
  by_cases h : s.state = .hihReceive
  · rcases Nat.lt_or_ge s.bytesRead 3 with hlt | hge
    · exact .inr (.inl ⟨h, Nat.le_of_lt_succ hlt⟩)
    · exact .inr (.inr ⟨h, Nat.le_antisymm hb hge⟩)
  · exact .inl h

end SB

/-! ## What the activations leave alone -/

section Frames

variable {s : Firmware} {released : Bool}

/-- A tick sets `ACKACT`, writes addresses and clears its own flag. -/
theorem mem_tick {a : Act} (h : a ∈ (step s (.tick released)).2) :
    a = .ackAct false ∨ (∃ addr, a = .addr addr) ∨ a = .clearMC0 := by
  simp only [step, tc1Handler_eq, List.mem_append, List.mem_singleton] at h
  rcases h with (hread | hpoll) | hflag
  · by_cases hr : ReadDue s
    · simp only [if_pos hr, List.mem_cons, List.not_mem_nil, or_false] at hread
      exact hread.imp_right fun haddr => .inl ⟨_, haddr⟩
    · simp [hr] at hread
  · by_cases hp : PollDue s
    · simp only [if_pos hp, List.mem_singleton] at hpoll
      exact .inr (.inl ⟨_, hpoll⟩)
    · simp [hp] at hpoll
  · exact .inr (.inr hflag)

/-- The `MB` loop changes the protocol state, the deadline and `ACKACT` only. -/
theorem mb_frame (s : Firmware) : ∃ state deadline ack,
    (step s .mb).1 = { s with state := state, hihRequestAt := deadline, ackAct := ack } := by
  simp only [step]
  cases hs : s.state with
  | hihRequest => exact ⟨_, _, _, congrArg Prod.fst (mb_hihRequest hs)⟩
  | dac0Write => exact ⟨_, _, _, congrArg Prod.fst (mb_dac0Write hs)⟩
  | dac0Write2 => exact ⟨_, _, _, congrArg Prod.fst (mb_dac0Write2 hs)⟩
  | dac0Write3 => exact ⟨_, _, _, congrArg Prod.fst (mb_dac0Write3 hs)⟩
  | dac1Write => exact ⟨_, _, _, congrArg Prod.fst (mb_dac1Write hs)⟩
  | dac1Write2 => exact ⟨_, _, _, congrArg Prod.fst (mb_dac1Write2 hs)⟩
  | dac1Write3 => exact ⟨_, _, _, congrArg Prod.fst (mb_dac1Write3 hs)⟩
  | idle => exact ⟨_, _, _, congrArg Prod.fst (mb_unexpected (.inl hs))⟩
  | hihReceive => exact ⟨_, _, _, congrArg Prod.fst (mb_unexpected (.inr hs))⟩

/-- The `SB` loop leaves the counters and the deadline alone. -/
theorem sb_frame (hb : s.bytesRead ≤ 3) (b : Byte) (released : Bool) :
    (step s (.sb b released)).1.curTick = s.curTick ∧
      (step s (.sb b released)).1.hihRequestAt = s.hihRequestAt ∧
      (step s (.sb b released)).1.pollCnt = s.pollCnt := by
  simp only [step]
  rcases sb_cases s hb with h | ⟨h, h2⟩ | ⟨h, h3⟩
  · rw [sb_unexpected b released h]
    exact ⟨rfl, rfl, rfl⟩
  · rw [sb_early b released h h2]
    exact ⟨rfl, rfl, rfl⟩
  · rw [sb_last b released h h3]
    exact ⟨rfl, rfl, rfl⟩

end Frames

/-- `bytes_read` stays an index into `hih_val` between activations. -/
theorem bytesRead_step {s : Firmware} (hb : s.bytesRead ≤ 3) (e : Event) :
    (step s e).1.bytesRead ≤ 3 := by
  cases e with
  | tick released =>
      simp only [step, tc1Handler_eq]
      split <;> omega
  | mb =>
      obtain ⟨state, deadline, ack, hframe⟩ := mb_frame s
      rwa [hframe]
  | sb b released =>
      simp only [step]
      rcases sb_cases s hb with h | ⟨h, h2⟩ | ⟨h, h3⟩
      · rwa [sb_unexpected b released h]
      · rw [sb_early b released h h2]
        exact Nat.succ_le_succ h2
      · rw [sb_last b released h h3]
        exact Nat.zero_le 3

theorem bytesRead_run (evs : List Event) : (run evs).bytesRead ≤ 3 :=
  finish_invariant step (I := fun s => s.bytesRead ≤ 3) (Nat.zero_le 3)
    (fun _ e hs => bytesRead_step hs e) evs

/-! ## The addresses each activation writes -/

section Addresses

variable {s : Firmware} {a : Byte}

theorem addr_mem_tick {released : Bool} : .addr a ∈ (step s (.tick released)).2 ↔
    (ReadDue s ∧ a = slaR) ∨ (PollDue s ∧ a = i2cAddrHih) := by
  simp only [step, tc1Handler_eq]
  by_cases hr : ReadDue s <;> by_cases hp : PollDue s <;> simp [hr, hp]

theorem addr_mem_mb : .addr a ∈ (step s .mb).2 ↔ s.state = .dac0Write3 ∧ a = i2cAddrHdac := by
  simp only [step]
  cases h : s.state <;> simp [sercom0HandlerMB, h]

theorem addr_mem_sb {b : Byte} {released : Bool} (hb : s.bytesRead ≤ 3) :
    .addr a ∈ (step s (.sb b released)).2 ↔
      (s.state = .hihReceive ∧ s.bytesRead = 3) ∧ a = i2cAddrTdac := by
  simp only [step]
  rcases sb_cases s hb with h | ⟨h, h2⟩ | ⟨h, h3⟩
  · rw [sb_unexpected b released h]
    simp [h]
  · rw [sb_early b released h h2]
    have hne : s.bytesRead ≠ 3 := by omega
    simp [hne]
  · rw [sb_last b released h h3]
    simp [h, h3]

/-- Only a tick at the deadline writes the read address. -/
theorem slaR_mem_step {e : Event} (hb : s.bytesRead ≤ 3) :
    .addr slaR ∈ (step s e).2 ↔ (∃ released, e = .tick released) ∧ ReadDue s := by
  have hh : slaR ≠ i2cAddrHih := by decide
  have ht : slaR ≠ i2cAddrTdac := by decide
  have hd : slaR ≠ i2cAddrHdac := by decide
  cases e with
  | tick released => simp [addr_mem_tick, hh]
  | mb => simp [addr_mem_mb, hd]
  | sb b released => simp [addr_mem_sb hb, ht]

end Addresses

end TempHumid.Th2
