import TempHumid.Th2.Bus

/-!
# The measurement cycle on a responsive bus

If every bus event arrives before the next tick, the bus carries one
measurement request every ten ticks and, two ticks later, one read of four
bytes and one write to each DAC. The schedule is exact for any number of
ticks, past the wrap of `cur_tick` as well.

## Implementation notes

The log pairs each bus operation with the number of ticks counted when it
happens. `Phase` lists the situations that a prompt run goes through, each
with the operations since the latest tick.
-/

namespace TempHumid.Th2

open Machine

/-- An operation visible on the bus. The data bytes are left out. -/
inductive BusOp
  | addr (a : Byte)
  | write
  | read (nack : Bool)
  | stop
  deriving DecidableEq

def busOp : Act → Option BusOp
  | .addr a => some (.addr a)
  | .write _ => some .write
  | .read _ nack => some (.read nack)
  | .stop => some .stop
  | _ => none

/-- The bus, the number of ticks so far and the operations with their ticks. -/
structure CycleLog where
  bus : Bus
  ticks : ℕ
  ops : List (ℕ × BusOp)
  deriving DecidableEq

def countIn (n : ℕ) : Event → ℕ
  | .tick _ => n + 1
  | .mb | .sb _ _ => n

/-- A tick counts before its accesses are logged. -/
def cycleStep (g : CycleLog) (en : Entry Firmware Event Act) : CycleLog :=
  ⟨(g.bus.deliver en.input).after en.outputs, countIn g.ticks en.input,
    g.ops ++ (en.outputs.filterMap busOp).map fun op => (countIn g.ticks en.input, op)⟩

def CycleLog.start : CycleLog := ⟨.closed, 0, []⟩

abbrev cycleMachine : Step (Firmware × CycleLog) Event Act := paired step cycleStep

/-- A responsive bus delivers the event it owes before the next tick. -/
def Prompt (p : Firmware × CycleLog) : Event → Prop
  | .tick _ => p.2.bus.pending = .none
  | .mb => p.2.bus.pending = .mb
  | .sb _ _ => p.2.bus.pending = .sb

instance (p : Firmware × CycleLog) : ∀ e, Decidable (Prompt p e)
  | .tick _ => inferInstanceAs (Decidable (p.2.bus.pending = .none))
  | .mb => inferInstanceAs (Decidable (p.2.bus.pending = .mb))
  | .sb _ _ => inferInstanceAs (Decidable (p.2.bus.pending = .sb))

/-- Neither branch for an unexpected event is taken. -/
def Expected (p : Firmware × CycleLog) (e : Event) : Prop :=
  .clearMB ∉ (step p.1 e).2 ∧ .clearSB ∉ (step p.1 e).2

/-! ## The schedule -/

def requestOps : List BusOp := [.addr i2cAddrHih, .stop]

/-- One read of four bytes and the two DAC writes. -/
def readOps : List BusOp :=
  [.addr slaR, .read false, .read false, .read false, .read true, .stop,
    .addr i2cAddrTdac, .write, .write, .stop, .addr i2cAddrHdac, .write, .write, .stop]

/-- The operations between tick `n` and the next tick. -/
def scheduled (n : ℕ) : List BusOp :=
  if 10 ≤ n ∧ n % 10 = 0 then requestOps
  else if 10 ≤ n ∧ n % 10 = 2 then readOps
  else []

/-- The operations before tick `n`. -/
def scheduleBefore (n : ℕ) : List (ℕ × BusOp) :=
  (List.range n).flatMap fun t => (scheduled t).map fun op => (t, op)

theorem scheduleBefore_succ (n : ℕ) :
    scheduleBefore (n + 1) = scheduleBefore n ++ (scheduled n).map fun op => (n, op) := by
  rw [scheduleBefore, List.range_succ, List.flatMap_append, List.flatMap_singleton]
  rfl

/-- The number of operations of `readOps` done in each state of the chain. -/
def chainDone (s : Firmware) : ℕ :=
  match s.state with
  | .hihReceive => 1 + s.bytesRead
  | .dac0Write => 7
  | .dac0Write2 => 8
  | .dac0Write3 => 9
  | .dac1Write => 11
  | .dac1Write2 => 12
  | .dac1Write3 => 13
  | .idle | .hihRequest => 14

/-- The deadline that the request of tick `n - n % 10` sets. -/
def deadline (n : ℕ) : Word := BitVec.ofNat 32 (n - n % 10 + 2)

/-- The situations of a prompt run after `n` ticks: the bus, and the operations
since tick `n`. -/
inductive Phase (n : ℕ) (s : Firmware) : Bus → List BusOp → Prop
  | early (hn : n < 10) (hs : s.state = .idle) (hd : s.hihRequestAt = 0) :
      Phase n s .closed []
  | request (hn : 10 ≤ n ∧ n % 10 = 0) (hs : s.state = .hihRequest) :
      Phase n s ⟨true, .mb⟩ [.addr i2cAddrHih]
  | requested (hn : 10 ≤ n ∧ n % 10 ≤ 1) (hs : s.state = .hihRequest)
      (hd : s.hihRequestAt = deadline n) : Phase n s .closed (scheduled n)
  | reading (hn : 10 ≤ n ∧ n % 10 = 2) (hs : s.state = .hihReceive) (hb : s.bytesRead ≤ 3)
      (hd : s.hihRequestAt = deadline n) :
      Phase n s ⟨true, .sb⟩ (readOps.take (chainDone s))
  | writing (hn : 10 ≤ n ∧ n % 10 = 2) (hs : 7 ≤ chainDone s ∧ chainDone s ≤ 13)
      (hd : s.hihRequestAt = deadline n) :
      Phase n s ⟨true, .mb⟩ (readOps.take (chainDone s))
  | done (hn : 10 ≤ n ∧ 2 ≤ n % 10) (hs : s.state = .idle) (hd : s.hihRequestAt = deadline n) :
      Phase n s .closed (scheduled n)

/-- The counters of the firmware and the log agree with the schedule. -/
structure CycleInv (s : Firmware) (g : CycleLog) : Prop where
  index : s.bytesRead ≤ 3
  tick : s.curTick = BitVec.ofNat 32 g.ticks
  poll : s.pollCnt = g.ticks % 10
  phase : ∃ ops, Phase g.ticks s g.bus ops ∧
    g.ops = scheduleBefore g.ticks ++ ops.map fun op => (g.ticks, op)

theorem cycleInv_start : CycleInv init .start where
  index := Nat.zero_le 3
  tick := rfl
  poll := rfl
  phase := ⟨[], .early (by decide) rfl rfl, rfl⟩

section Step

variable {s : Firmware} {g : CycleLog} {n : ℕ}

theorem pollDue_iff (hp : s.pollCnt = n % 10) : PollDue s ↔ n % 10 = 9 := by
  rw [PollDue, pollDelay, hp]
  omega

/-- Between the poll ticks the deadline is met only by the second tick. -/
theorem readDue_iff_second (ht : s.curTick = BitVec.ofNat 32 n)
    (hd : s.hihRequestAt = deadline n) : ReadDue s ↔ n % 10 = 1 := by
  rw [ReadDue, ht, hd, deadline, ← BitVec.toNat_inj]
  simp only [BitVec.toNat_add, BitVec.toNat_ofNat, BitVec.reduceToNat]
  omega

theorem not_readDue_early (hn : n < 10) (ht : s.curTick = BitVec.ofNat 32 n)
    (hd : s.hihRequestAt = 0) : ¬ReadDue s := by
  rw [ReadDue, ht, hd, ← BitVec.toNat_inj]
  simp only [BitVec.toNat_add, BitVec.toNat_ofNat, BitVec.reduceToNat]
  omega

theorem deadline_succ (hn : n % 10 ≠ 9) : deadline (n + 1) = deadline n := by
  have hmod : (n + 1) % 10 = n % 10 + 1 := by omega
  rw [deadline, deadline, hmod, Nat.add_sub_add_right]

theorem scheduled_nil (hn : n % 10 = 1 ∨ 3 ≤ n % 10) : scheduled n = [] := by
  have h0 : ¬(10 ≤ n ∧ n % 10 = 0) := by omega
  have h2 : ¬(10 ≤ n ∧ n % 10 = 2) := by omega
  rw [scheduled, if_neg h0, if_neg h2]

theorem scheduled_early (hn : n < 10) : scheduled n = [] := by
  have hle : ¬10 ≤ n := by omega
  simp only [scheduled, hle, false_and, if_false]

theorem scheduled_request (hn : 10 ≤ n ∧ n % 10 = 0) : scheduled n = requestOps := if_pos hn

theorem scheduled_read (hn : 10 ≤ n ∧ n % 10 = 2) : scheduled n = readOps := by
  have h0 : ¬(10 ≤ n ∧ n % 10 = 0) := by omega
  rw [scheduled, if_neg h0, if_pos hn]

/-- With no event to come, the operations of the current tick are complete. -/
theorem Phase.complete {bus : Bus} {ops : List BusOp} (h : Phase n s bus ops)
    (hp : bus.pending = .none) : ops = scheduled n := by
  cases h with
  | early hn _ _ => exact (scheduled_early hn).symm
  | request _ _ => cases hp
  | requested _ _ _ => rfl
  | reading _ _ _ _ => cases hp
  | writing _ _ _ => cases hp
  | done _ _ _ => rfl

theorem Phase.le_scheduled {bus : Bus} {ops : List BusOp} (h : Phase n s bus ops) :
    ops <+: scheduled n := by
  cases h with
  | early _ _ _ => exact List.nil_prefix
  | request hn _ => exact ⟨[.stop], (scheduled_request hn).symm⟩
  | requested _ _ _ => exact List.prefix_refl _
  | reading hn _ _ _ =>
      rw [scheduled_read hn]
      exact List.take_prefix _ _
  | writing hn _ _ =>
      rw [scheduled_read hn]
      exact List.take_prefix _ _
  | done _ _ _ => exact List.prefix_refl _

/-! ### Ticks -/

theorem tick_quiet (released : Bool) (hr : ¬ReadDue s) (hp : ¬PollDue s) :
    (step s (.tick released)).2 = [.clearMC0] ∧
      (step s (.tick released)).1.state = s.state ∧
      (step s (.tick released)).1.hihRequestAt = s.hihRequestAt := by
  simp only [step, tc1Handler_eq, if_neg hr, if_neg hp, List.nil_append, and_self]

theorem tick_polls (released : Bool) (hr : ¬ReadDue s) (hp : PollDue s) :
    (step s (.tick released)).2 = [.addr i2cAddrHih, .clearMC0] ∧
      (step s (.tick released)).1.state = .hihRequest := by
  simp only [step, tc1Handler_eq, if_neg hr, if_pos hp, List.nil_append, List.singleton_append,
    and_self]

theorem tick_reads (released : Bool) (hr : ReadDue s) (hp : ¬PollDue s) :
    (step s (.tick released)).2 = [.ackAct false, .addr slaR, .clearMC0] ∧
      (step s (.tick released)).1.state = .hihReceive ∧
      (step s (.tick released)).1.bytesRead = 0 ∧
      (step s (.tick released)).1.hihRequestAt = s.hihRequestAt := by
  simp only [step, tc1Handler_eq, if_pos hr, if_neg hp, List.append_nil, List.cons_append,
    List.nil_append, and_self]

/-- The tenth tick puts a request on the bus. -/
theorem phase_of_poll (released : Bool) (hp : s.pollCnt = n % 10) (hn : n % 10 = 9)
    (hr : ¬ReadDue s) {bus : Bus} :
    Phase (n + 1) (step s (.tick released)).1 (bus.after (step s (.tick released)).2)
      ((step s (.tick released)).2.filterMap busOp) := by
  have hdue : PollDue s := (pollDue_iff hp).mpr hn
  obtain ⟨houts, hstate⟩ := tick_polls released hr hdue
  rw [houts]
  exact .request (by omega) hstate

/-- A tick on a bus that owes nothing leads from phase to phase. -/
theorem Phase.tick {bus : Bus} {ops : List BusOp} (h : Phase n s bus ops) (released : Bool)
    (hpending : bus.pending = .none) (ht : s.curTick = BitVec.ofNat 32 n)
    (hp : s.pollCnt = n % 10) :
    Phase (n + 1) (step s (.tick released)).1 (bus.after (step s (.tick released)).2)
      ((step s (.tick released)).2.filterMap busOp) := by
  have hpoll := pollDue_iff hp
  cases h with
  | request hn hs => cases hpending
  | reading hn hs hb hd => cases hpending
  | writing hn hs hd => cases hpending
  | early hn hs hd =>
      have hr := not_readDue_early hn ht hd
      by_cases h9 : n % 10 = 9
      · exact phase_of_poll released hp h9 hr
      · obtain ⟨houts, hstate, hdeadline⟩ :=
          tick_quiet released hr (hpoll.not.mpr h9)
        rw [houts]
        exact .early (by omega) (hstate.trans hs) (hdeadline.trans hd)
  | requested hn hs hd =>
      have h9 : n % 10 ≠ 9 := by omega
      have hdue := readDue_iff_second ht hd
      by_cases h1 : n % 10 = 1
      · obtain ⟨houts, hstate, hbytes, hdeadline⟩ :=
          tick_reads released (hdue.mpr h1) (hpoll.not.mpr h9)
        have hdone : chainDone (step s (.tick released)).1 = 1 := by
          simp only [chainDone, hstate, hbytes]
        have hphase := Phase.reading (n := n + 1) (by omega) hstate (by omega)
          (hdeadline.trans (hd.trans (deadline_succ h9).symm))
        rw [hdone] at hphase
        rw [houts]
        exact hphase
      · obtain ⟨houts, hstate, hdeadline⟩ :=
          tick_quiet released (hdue.not.mpr h1) (hpoll.not.mpr h9)
        have hphase := Phase.requested (n := n + 1) (by omega) (hstate.trans hs)
          (hdeadline.trans (hd.trans (deadline_succ h9).symm))
        rw [scheduled_nil (by omega)] at hphase
        rw [houts]
        exact hphase
  | done hn hs hd =>
      have hr : ¬ReadDue s := (readDue_iff_second ht hd).not.mpr (by omega)
      by_cases h9 : n % 10 = 9
      · exact phase_of_poll released hp h9 hr
      · obtain ⟨houts, hstate, hdeadline⟩ :=
          tick_quiet released hr (hpoll.not.mpr h9)
        have hphase := Phase.done (n := n + 1) (by omega) (hstate.trans hs)
          (hdeadline.trans (hd.trans (deadline_succ h9).symm))
        rw [scheduled_nil (by omega)] at hphase
        rw [houts]
        exact hphase

/-! ### Bus events -/

theorem phase_writing {t : Firmware} {k : ℕ} (hn : 10 ≤ n ∧ n % 10 = 2) (hk : chainDone t = k)
    (h7 : 7 ≤ k ∧ k ≤ 13) (hd : t.hihRequestAt = deadline n) :
    Phase n t ⟨true, .mb⟩ (readOps.take k) := by
  subst hk
  exact .writing hn h7 hd

/-- One step of the DAC writes, or the STOP that ends the chain. -/
theorem phase_of_write (hn : 10 ≤ n ∧ n % 10 = 2) (hb : s.bytesRead ≤ 3)
    (hs : 7 ≤ chainDone s ∧ chainDone s ≤ 13) (hd : s.hihRequestAt = deadline n) :
    Phase n (step s .mb).1 (Bus.after ⟨true, .none⟩ (step s .mb).2)
      (readOps.take (chainDone s) ++ (step s .mb).2.filterMap busOp) := by
  simp only [step]
  cases hstate : s.state with
  | idle => simp [chainDone, hstate] at hs
  | hihRequest => simp [chainDone, hstate] at hs
  | hihReceive =>
      simp only [chainDone, hstate] at hs
      omega
  | dac0Write =>
      have hk : chainDone s = 7 := by simp only [chainDone, hstate]
      rw [mb_dac0Write hstate, hk]
      exact phase_writing (k := 8) hn rfl (by decide) hd
  | dac0Write2 =>
      have hk : chainDone s = 8 := by simp only [chainDone, hstate]
      rw [mb_dac0Write2 hstate, hk]
      exact phase_writing (k := 9) hn rfl (by decide) hd
  | dac0Write3 =>
      have hk : chainDone s = 9 := by simp only [chainDone, hstate]
      rw [mb_dac0Write3 hstate, hk]
      exact phase_writing (k := 11) hn rfl (by decide) hd
  | dac1Write =>
      have hk : chainDone s = 11 := by simp only [chainDone, hstate]
      rw [mb_dac1Write hstate, hk]
      exact phase_writing (k := 12) hn rfl (by decide) hd
  | dac1Write2 =>
      have hk : chainDone s = 12 := by simp only [chainDone, hstate]
      rw [mb_dac1Write2 hstate, hk]
      exact phase_writing (k := 13) hn rfl (by decide) hd
  | dac1Write3 =>
      have hk : chainDone s = 13 := by simp only [chainDone, hstate]
      have hdone := Phase.done (s := { s with state := .idle }) ⟨hn.1, hn.2.ge⟩ rfl hd
      rw [scheduled_read hn] at hdone
      rw [mb_dac1Write3 hstate, hk]
      exact hdone

/-- A promptly delivered `MB` leads from phase to phase. -/
theorem Phase.mb {bus : Bus} {ops : List BusOp} (h : Phase n s bus ops) (hb : s.bytesRead ≤ 3)
    (hpending : bus.pending = .mb) (ht : s.curTick = BitVec.ofNat 32 n) :
    Phase n (step s .mb).1 ((bus.deliver .mb).after (step s .mb).2)
      (ops ++ (step s .mb).2.filterMap busOp) := by
  cases h with
  | early hn hs hd => cases hpending
  | requested hn hs hd => cases hpending
  | reading hn hs hr hd => cases hpending
  | done hn hs hd => cases hpending
  | writing hn hs hd => exact phase_of_write hn hb hs hd
  | request hn hs =>
      have hdeadline : s.curTick + 2 = deadline n := by
        rw [ht, deadline, hn.2]
        exact (BitVec.ofNat_add n 2).symm
      have hphase := Phase.requested (s := { s with hihRequestAt := s.curTick + 2 })
        ⟨hn.1, by omega⟩ hs hdeadline
      rw [scheduled_request hn] at hphase
      simp only [step, mb_hihRequest hs]
      exact hphase

/-- Each of the first three bytes is acknowledged. -/
theorem take_reading {i : ℕ} (hi : i ≤ 2) :
    readOps.take (1 + i) ++ [.read false] = readOps.take (1 + (i + 1)) := by
  obtain rfl | rfl | rfl : i = 0 ∨ i = 1 ∨ i = 2 := by omega
  all_goals rfl

theorem phase_reading {t : Firmware} {ops : List BusOp} (hn : 10 ≤ n ∧ n % 10 = 2)
    (hops : ops = readOps.take (1 + t.bytesRead)) (hs : t.state = .hihReceive)
    (hb : t.bytesRead ≤ 3) (hd : t.hihRequestAt = deadline n) : Phase n t ⟨true, .sb⟩ ops := by
  have hk : chainDone t = 1 + t.bytesRead := by simp only [chainDone, hs]
  rw [hops, ← hk]
  exact .reading hn hs hb hd

/-- A promptly delivered `SB` leads from phase to phase. -/
theorem Phase.sb {bus : Bus} {ops : List BusOp} (h : Phase n s bus ops) (b : Byte)
    (released : Bool) (hpending : bus.pending = .sb) :
    Phase n (step s (.sb b released)).1
      ((bus.deliver (.sb b released)).after (step s (.sb b released)).2)
      (ops ++ (step s (.sb b released)).2.filterMap busOp) := by
  cases h with
  | early hn hs hd => cases hpending
  | request hn hs => cases hpending
  | requested hn hs hd => cases hpending
  | writing hn hs hd => cases hpending
  | done hn hs hd => cases hpending
  | reading hn hs hb hd =>
      have hk : chainDone s = 1 + s.bytesRead := by simp only [chainDone, hs]
      simp only [step]
      rcases sb_cases s hb with h | ⟨-, h2⟩ | ⟨-, h3⟩
      · exact absurd hs h
      · rw [sb_early b released hs h2, hk]
        exact phase_reading hn (take_reading h2) hs (Nat.succ_le_succ h2) hd
      · rw [sb_last b released hs h3, hk, h3]
        exact phase_writing (k := 7) hn rfl (by decide) hd

/-! ### The whole step -/

theorem Phase.state_of_mb {bus : Bus} {ops : List BusOp} (h : Phase n s bus ops)
    (hb : s.bytesRead ≤ 3) (hpending : bus.pending = .mb) :
    s.state ≠ .idle ∧ s.state ≠ .hihReceive := by
  cases h with
  | early hn hs hd => cases hpending
  | requested hn hs hd => cases hpending
  | reading hn hs hr hd => cases hpending
  | done hn hs hd => cases hpending
  | request hn hs => simp [hs]
  | writing hn hs hd =>
      constructor <;> intro hstate <;> simp only [chainDone, hstate] at hs <;> omega

theorem Phase.state_of_sb {bus : Bus} {ops : List BusOp} (h : Phase n s bus ops)
    (hpending : bus.pending = .sb) : s.state = .hihReceive := by
  cases h with
  | reading hn hs hr hd => exact hs
  | _ => cases hpending

/-- After the read and the writes, the state is idle until the next poll tick. -/
theorem Phase.state_idle {bus : Bus} {ops : List BusOp} (h : Phase n s bus ops)
    (hpending : bus.pending = .none) (hn : 2 ≤ n % 10) : s.state = .idle := by
  cases h with
  | early _ hs hd => exact hs
  | requested hle hs hd => omega
  | done _ hs hd => exact hs
  | request hle hs => cases hpending
  | reading hle hs hr hd => cases hpending
  | writing hle hs hd => cases hpending

/-- Only the poll ticks and the second ticks after them leave events to come. -/
theorem Phase.pending_tick {bus : Bus} {ops : List BusOp} (h : Phase n s bus ops)
    (hpending : bus.pending ≠ .none) : 10 ≤ n ∧ (n % 10 = 0 ∨ n % 10 = 2) := by
  cases h with
  | early hn hs hd => exact absurd rfl hpending
  | requested hn hs hd => exact absurd rfl hpending
  | done hn hs hd => exact absurd rfl hpending
  | request hn hs => exact ⟨hn.1, .inl hn.2⟩
  | reading hn hs hr hd => exact ⟨hn.1, .inr hn.2⟩
  | writing hn hs hd => exact ⟨hn.1, .inr hn.2⟩

theorem cycleInv_step (h : CycleInv s g) {e : Event} (hprompt : Prompt (s, g) e) :
    CycleInv (step s e).1 (cycleStep g (entry step s e)) := by
  obtain ⟨ops, hphase, hops⟩ := h.phase
  have hindex := bytesRead_step h.index e
  cases e with
  | tick released =>
      have hnext := hphase.tick released hprompt h.tick h.poll
      refine ⟨hindex, ?_, ?_, _, hnext, ?_⟩
      · simp only [step, tc1Handler_eq, h.tick, cycleStep, entry, countIn]
        exact (BitVec.ofNat_add g.ticks 1).symm
      · simp only [step, tc1Handler_eq, h.poll, pollDue_iff h.poll, cycleStep, entry, countIn]
        split <;> omega
      · simp only [cycleStep, entry, countIn, scheduleBefore_succ, hops,
          hphase.complete hprompt]
  | mb =>
      have hnext := hphase.mb h.index hprompt h.tick
      obtain ⟨state, deadline, ack, hframe⟩ := mb_frame s
      refine ⟨hindex, by rw [hframe]; exact h.tick, by rw [hframe]; exact h.poll, _, hnext, ?_⟩
      simp only [cycleStep, entry, countIn, hops, List.map_append, List.append_assoc]
  | sb b released =>
      have hnext := hphase.sb b released hprompt
      obtain ⟨htick, -, hpoll⟩ := sb_frame h.index b released
      refine ⟨hindex, htick.trans h.tick, hpoll.trans h.poll, _, hnext, ?_⟩
      simp only [cycleStep, entry, countIn, hops, List.map_append, List.append_assoc]

/-- A promptly delivered event is one that the state expects. -/
theorem expected_of_cycleInv (h : CycleInv s g) {e : Event} (hprompt : Prompt (s, g) e) :
    Expected (s, g) e := by
  obtain ⟨ops, hphase, -⟩ := h.phase
  cases e with
  | tick released =>
      constructor <;> intro hmem <;> simpa using mem_tick hmem
  | mb =>
      have hexpected := hphase.state_of_mb h.index hprompt
      simp only [Expected, step]
      cases hstate : s.state with
      | idle => exact absurd hstate hexpected.1
      | hihReceive => exact absurd hstate hexpected.2
      | _ => simp [sercom0HandlerMB, hstate]
  | sb b released =>
      have hexpected := hphase.state_of_sb hprompt
      simp only [Expected, step]
      rcases sb_cases s h.index with hs | ⟨hs, h2⟩ | ⟨hs, h3⟩
      · exact absurd hexpected hs
      · rw [sb_early b released hs h2]
        simp
      · rw [sb_last b released hs h3]
        simp

end Step

/-- The bus log after a list of activations. -/
def cycleLog (evs : List Event) : CycleLog := watch cycleStep .start (trace step init evs)

theorem cycleLog_concat (evs : List Event) (e : Event) :
    cycleLog (evs ++ [e]) = cycleStep (cycleLog evs) (entry step (run evs) e) :=
  watch_concat init CycleLog.start evs e

/-- Every bus event of the run came before the next tick. -/
def PromptRun (evs : List Event) : Prop :=
  AllSteps cycleMachine Prompt (init, CycleLog.start) evs

instance (evs : List Event) : Decidable (PromptRun evs) :=
  inferInstanceAs (Decidable (AllSteps _ _ _ _))

theorem promptRun_concat {evs : List Event} {e : Event} :
    PromptRun (evs ++ [e]) ↔ PromptRun evs ∧ Prompt (run evs, cycleLog evs) e := by
  rw [PromptRun, allSteps_concat, finish_paired]
  rfl

theorem cycleInv_run (evs : List Event) (h : PromptRun evs) :
    CycleInv (run evs) (cycleLog evs) := by
  have hinv := h.invariant (I := fun p => CycleInv p.1 p.2) cycleInv_start
    fun p e hp hprompt => cycleInv_step hp hprompt
  rwa [finish_paired] at hinv

/-! ## A responsive bus never stalls -/

/-- What a responsive bus delivers: the event it owes, with the byte `b` of the
sensor, or else a tick. The handler finds the switch at the level `released`. -/
def Bus.next (bus : Bus) (b : Byte) (released : Bool) : Event :=
  match bus.pending with
  | .none => .tick released
  | .mb => .mb
  | .sb => .sb b released

def Event.isData : Event → Bool
  | .sb _ _ => true
  | .tick _ | .mb => false

def Event.samplesSwitch : Event → Bool
  | .tick _ | .sb _ _ => true
  | .mb => false

section Respond

variable (bytes : ℕ → Byte) (levels : ℕ → Bool)

/-- The run goes on by one event. The bytes of the sensor and the levels of the
switch are taken from the two sequences in order. -/
def respond (evs : List Event) : List Event :=
  evs ++ [(cycleLog evs).bus.next (bytes (evs.countP Event.isData))
    (levels (evs.countP Event.samplesSwitch))]

theorem prompt_next (s : Firmware) (g : CycleLog) (b : Byte) (released : Bool) :
    Prompt (s, g) (g.bus.next b released) := by
  rw [Bus.next]
  cases h : g.bus.pending with
  | none => exact h
  | mb => exact h
  | sb => exact h

theorem promptRun_respond {evs : List Event} (h : PromptRun evs) :
    PromptRun (respond bytes levels evs) :=
  promptRun_concat.mpr ⟨h, prompt_next _ _ _ _⟩

/-- An expected bus event is answered by an operation on the bus. -/
theorem exists_busOp {s : Firmware} {g : CycleLog} (h : CycleInv s g) {e : Event}
    (hprompt : Prompt (s, g) e) (hpending : g.bus.pending ≠ .none) :
    (step s e).2.filterMap busOp ≠ [] := by
  have hexpected := expected_of_cycleInv h hprompt
  cases e with
  | tick released => exact absurd hprompt hpending
  | mb =>
      simp only [Expected, step] at hexpected ⊢
      cases hstate : s.state with
      | idle => simp [sercom0HandlerMB, hstate] at hexpected
      | hihReceive => simp [sercom0HandlerMB, hstate] at hexpected
      | _ => simp [sercom0HandlerMB, hstate, busOp]
  | sb b released =>
      simp only [Expected, step] at hexpected ⊢
      rcases sb_cases s h.index with hs | ⟨hs, h2⟩ | ⟨hs, h3⟩
      · simp [sb_unexpected b released hs] at hexpected
      · simp [sb_early b released hs h2, busOp]
      · simp [sb_last b released hs h3, busOp]

/-- The operations that the bus still owes the schedule of the current tick. -/
def CycleLog.missing (g : CycleLog) : ℕ := (scheduleBefore (g.ticks + 1)).length - g.ops.length

theorem length_ops_le {s : Firmware} {g : CycleLog} (h : CycleInv s g) :
    g.ops.length ≤ (scheduleBefore (g.ticks + 1)).length := by
  obtain ⟨ops, hphase, hops⟩ := h.phase
  have hle := hphase.le_scheduled.length_le
  rw [hops, scheduleBefore_succ, List.length_append, List.length_append, List.length_map,
    List.length_map]
  omega

/-- A delivered event brings the log closer to the schedule and counts no tick. -/
theorem missing_respond {evs : List Event} (h : PromptRun evs)
    (hpending : (cycleLog evs).bus.pending ≠ .none) :
    (cycleLog (respond bytes levels evs)).ticks = (cycleLog evs).ticks ∧
      (cycleLog (respond bytes levels evs)).missing < (cycleLog evs).missing := by
  have hnext := promptRun_respond bytes levels h
  have hle := length_ops_le (cycleInv_run _ hnext)
  rw [respond] at hnext hle ⊢
  set e := (cycleLog evs).bus.next (bytes (evs.countP Event.isData))
    (levels (evs.countP Event.samplesSwitch))
  have hprompt : Prompt (run evs, cycleLog evs) e := (promptRun_concat.mp hnext).2
  have hticks : (cycleLog (evs ++ [e])).ticks = (cycleLog evs).ticks := by
    rw [cycleLog_concat]
    cases he : e with
    | tick released =>
        rw [he] at hprompt
        exact absurd hprompt hpending
    | mb => rfl
    | sb b released => rfl
  have hops : (cycleLog evs).ops.length < (cycleLog (evs ++ [e])).ops.length := by
    have hsome := List.length_pos_of_ne_nil (exists_busOp (cycleInv_run evs h) hprompt hpending)
    rw [cycleLog_concat, cycleStep, List.length_append, List.length_map]
    exact Nat.lt_add_of_pos_right hsome
  refine ⟨hticks, ?_⟩
  rw [hticks] at hle
  rw [CycleLog.missing, CycleLog.missing, hticks]
  omega

/-- After at most as many events as operations are missing, the bus owes nothing. -/
theorem exists_settled (evs : List Event) (h : PromptRun evs) :
    ∃ k ≤ (cycleLog evs).missing, PromptRun ((respond bytes levels)^[k] evs) ∧
      (cycleLog ((respond bytes levels)^[k] evs)).ticks = (cycleLog evs).ticks ∧
      (cycleLog ((respond bytes levels)^[k] evs)).bus.pending = .none := by
  by_cases hpending : (cycleLog evs).bus.pending = .none
  · exact ⟨0, Nat.zero_le _, h, rfl, hpending⟩
  · obtain ⟨hticks, hlt⟩ := missing_respond bytes levels h hpending
    obtain ⟨k, hk, hprompt, hsame, hsettled⟩ :=
      exists_settled (respond bytes levels evs) (promptRun_respond bytes levels h)
    exact ⟨k + 1, by omega, hprompt, hsame.trans hticks, hsettled⟩
termination_by (cycleLog evs).missing

/-- A responsive bus lets any number of ticks pass. -/
theorem exists_ticks {evs : List Event} (h : PromptRun evs) (n : ℕ) :
    ∃ k, PromptRun ((respond bytes levels)^[k] evs) ∧
      (cycleLog ((respond bytes levels)^[k] evs)).ticks = (cycleLog evs).ticks + n ∧
      (cycleLog ((respond bytes levels)^[k] evs)).bus.pending = .none := by
  induction n with
  | zero =>
      obtain ⟨k, -, hsettled⟩ := exists_settled bytes levels evs h
      exact ⟨k, hsettled⟩
  | succ n ih =>
      obtain ⟨k, hprompt, hticks, hnone⟩ := ih
      set mid := (respond bytes levels)^[k] evs with hmid
      have htick : (cycleLog (respond bytes levels mid)).ticks = (cycleLog mid).ticks + 1 := by
        rw [respond, cycleLog_concat, Bus.next, hnone]
        rfl
      obtain ⟨j, -, hagain, hsame, hsettled⟩ := exists_settled bytes levels
        (respond bytes levels mid) (promptRun_respond bytes levels hprompt)
      have hiter : (respond bytes levels)^[j + 1 + k] evs =
          (respond bytes levels)^[j] (respond bytes levels mid) := by
        rw [Function.iterate_add_apply, Function.iterate_succ_apply]
      refine ⟨j + 1 + k, ?_, ?_, ?_⟩ <;> rw [hiter]
      · exact hagain
      · rw [hsame, htick, hticks, Nat.add_assoc]
      · exact hsettled

end Respond

/-- On a settled bus the log is the schedule. -/
theorem ops_of_settled {evs : List Event} (h : PromptRun evs)
    (hpending : (cycleLog evs).bus.pending = .none) :
    (cycleLog evs).ops = scheduleBefore ((cycleLog evs).ticks + 1) := by
  obtain ⟨ops, hphase, hops⟩ := (cycleInv_run evs h).phase
  rw [hops, scheduleBefore_succ, hphase.complete hpending]

/-- On a responsive bus the log is the schedule, up to the operations that the
current tick still owes, and only the ticks of the schedule owe any. The counter
wraps, the schedule does not. Whatever the sensor and the switch do next, the
owed events come to an end and any number of ticks follows. -/
theorem measurement_cycle (evs : List Event) (h : PromptRun evs) :
    (run evs).curTick = BitVec.ofNat 32 (cycleLog evs).ticks ∧
      (cycleLog evs).ops <+: scheduleBefore ((cycleLog evs).ticks + 1) ∧
      ((cycleLog evs).bus.pending ≠ .none →
        10 ≤ (cycleLog evs).ticks ∧
          ((cycleLog evs).ticks % 10 = 0 ∨ (cycleLog evs).ticks % 10 = 2)) ∧
      ((cycleLog evs).bus.pending = .none →
        (cycleLog evs).ops = scheduleBefore ((cycleLog evs).ticks + 1) ∧
          (12 ≤ (cycleLog evs).ticks → 2 ≤ (cycleLog evs).ticks % 10 →
            (run evs).state = .idle)) ∧
      AllSteps cycleMachine Expected (init, CycleLog.start) evs ∧
      ∀ (bytes : ℕ → Byte) (levels : ℕ → Bool) (n : ℕ), ∃ k,
        PromptRun ((respond bytes levels)^[k] evs) ∧
          (cycleLog ((respond bytes levels)^[k] evs)).ticks = (cycleLog evs).ticks + n ∧
          (cycleLog ((respond bytes levels)^[k] evs)).bus.pending = .none ∧
          (cycleLog ((respond bytes levels)^[k] evs)).ops =
            scheduleBefore ((cycleLog evs).ticks + n + 1) := by
  have hinv := cycleInv_run evs h
  obtain ⟨ops, hphase, hops⟩ := hinv.phase
  refine ⟨hinv.tick, ?_, hphase.pending_tick, ?_, ?_, ?_⟩
  · rw [hops, scheduleBefore_succ]
    exact (List.prefix_append_right_inj _).mpr (hphase.le_scheduled.map _)
  · intro hpending
    exact ⟨ops_of_settled h hpending, fun _ hsecond => hphase.state_idle hpending hsecond⟩
  · exact h.of_invariant (Q := Expected) (I := fun p => CycleInv p.1 p.2) cycleInv_start
      (fun p e hp hprompt => cycleInv_step hp hprompt)
      fun p e hp hprompt => expected_of_cycleInv hp hprompt
  · intro bytes levels n
    obtain ⟨k, hprompt, hticks, hsettled⟩ := exists_ticks bytes levels h n
    refine ⟨k, hprompt, hticks, hsettled, ?_⟩
    rw [ops_of_settled hprompt hsettled, hticks]

/-- The first read and the six events of the DAC writes. -/
def firstCycle : List Event := firstRead ⟨0, 0, 100, 216⟩ true ++ List.replicate 6 .mb

theorem measurement_cycle_first :
    (cycleLog firstCycle).ops =
        requestOps.map (fun op => (10, op)) ++ readOps.map (fun op => (12, op)) ∧
      (run firstCycle).state = .idle := by
  have hcycle := (measurement_cycle firstCycle (by decide +kernel)).2.2.2.1 (by decide +kernel)
  refine ⟨hcycle.1.trans (by decide +kernel), hcycle.2 ?_ ?_⟩ <;> decide +kernel

end TempHumid.Th2
