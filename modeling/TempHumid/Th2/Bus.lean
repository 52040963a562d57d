import TempHumid.Th2.ReadSchedule

/-!
# Transactions on the bus

A monitor follows the register accesses: a write to `ADDR` opens a
transaction, STOP ends it, and an access that starts a bus action leaves one
event to come. The firmware has no test of a busy bus. Its timers alone keep
the transactions apart, and the result says when the events have to arrive for
that.

## Implementation notes

An event may be delayed by any number of ticks. `MB` may come in the place of
`SB`, as after a refused address. `Monitor` keeps the gap since the latest
completion beside the bus, for the invariant. `Arrivals` is a summary of the
events alone: it knows nothing of the firmware or of the bus.
-/

namespace TempHumid.Th2

open Machine

/-- The event that the bus owes the firmware. -/
inductive Pending
  | none
  | mb
  | sb
  deriving DecidableEq

/-- Whether a transaction is open, and the event to come. -/
structure Bus where
  isOpen : Bool
  pending : Pending
  deriving DecidableEq

namespace Bus

def closed : Bus := ⟨false, .none⟩

/-- An event that is delivered is owed no longer, whatever the handler does. -/
def deliver (bus : Bus) : Event → Bus
  | .tick _ => bus
  | .mb | .sb _ _ => { bus with pending := .none }

/-- The effect of one register access. -/
def feed (bus : Bus) : Act → Bus
  | .addr a => ⟨true, if a &&& 1 = 1 then .sb else .mb⟩
  | .write _ => { bus with pending := .mb }
  | .read _ nack => { bus with pending := if nack then .none else .sb }
  | .stop => closed
  | .ackAct _ | .store _ _ | .decode _ | .outSet _ | .outClr _ | .clearMB | .clearSB
  | .clearMC0 => bus

/-- The effect of the accesses of one activation. -/
def after (bus : Bus) (acts : List Act) : Bus := acts.foldl feed bus

end Bus

def Act.isAddr : Act → Bool
  | .addr _ => true
  | _ => false

/-- Every write to `ADDR` finds the earlier transactions ended. -/
def Clean : Bus → List Act → Prop
  | _, [] => True
  | bus, a :: as => (a.isAddr = true → bus.isOpen = false) ∧ Clean (bus.feed a) as

instance Clean.decidable : ∀ bus acts, Decidable (Clean bus acts)
  | _, [] => isTrue trivial
  | bus, a :: as =>
      have := Clean.decidable (bus.feed a) as
      inferInstanceAs (Decidable ((a.isAddr = true → bus.isOpen = false) ∧ Clean (bus.feed a) as))

/-- The bus, with the gap since the latest completed request. -/
structure Monitor where
  bus : Bus
  gap : Gap
  deriving DecidableEq

def monitorStep (m : Monitor) (en : Entry Firmware Event Act) : Monitor :=
  ⟨(m.bus.deliver en.input).after en.outputs, gapStep m.gap en⟩

def Monitor.start : Monitor := ⟨.closed, ⟨0, false⟩⟩

/-- The firmware together with the monitor of its bus. -/
abbrev busMachine : Step (Firmware × Monitor) Event Act := paired step monitorStep

/-- Ticks come at any time, a bus event only if it is owed. -/
def Enabled (p : Firmware × Monitor) : Event → Prop
  | .tick _ => True
  | .mb => p.2.bus.pending ≠ .none
  | .sb _ _ => p.2.bus.pending = .sb

instance (p : Firmware × Monitor) : ∀ e, Decidable (Enabled p e)
  | .tick _ => isTrue trivial
  | .mb => inferInstanceAs (Decidable (p.2.bus.pending ≠ .none))
  | .sb _ _ => inferInstanceAs (Decidable (p.2.bus.pending = .sb))

/-- An activation cuts off no transaction, and writes `ADDR` at most once. -/
def NoOverlap (p : Firmware × Monitor) (e : Event) : Prop :=
  Clean p.2.bus (step p.1 e).2 ∧ ((step p.1 e).2.filter Act.isAddr).length ≤ 1

instance (p : Firmware × Monitor) (e : Event) : Decidable (NoOverlap p e) :=
  inferInstanceAs (Decidable (Clean _ _ ∧ _ ≤ 1))

/-! ## Arrival times -/

/-- The events of one cycle: `MB` of the measurement request, `SB` of each byte
of the frame, `MB` of the addresses and data of the two DAC writes. -/
def cycleEvents : List Pending := .mb :: (List.replicate 4 .sb ++ List.replicate 6 .mb)

def Event.kind : Event → Pending
  | .tick _ => .none
  | .mb => .mb
  | .sb _ _ => .sb

/-- The ticks since the latest poll tick, the events of its cycle still to come,
the tick after which its first event came, and whether the first event of the
cycle before came after the last tick of that cycle. -/
structure Arrivals where
  ticks : ℕ
  due : List Pending
  first : Option ℕ
  late : Bool
  deriving DecidableEq

namespace Arrivals

/-- No cycle has begun. -/
def start : Arrivals := ⟨0, [], none, false⟩

/-- Every tenth tick begins a cycle. An event counts if it is the next one due. -/
def arrive (a : Arrivals) (e : Event) : Arrivals :=
  match e with
  | .tick _ =>
      if a.ticks = 9 then ⟨0, cycleEvents, none, decide (a.first = some 9)⟩
      else { a with ticks := a.ticks + 1 }
  | .mb | .sb _ _ =>
      if a.due.head? = some e.kind then
        { a with due := a.due.tail, first := a.first.or (some a.ticks) }
      else a

end Arrivals

def arrivalsMachine : Step Arrivals Event Empty := fun a e => (a.arrive e, [])

/-- At a poll tick the events of the cycle have arrived, or only the first one
has and it came after the ninth tick. In that case the first event of the next
cycle comes before the next tick. -/
def OnTime (a : Arrivals) : Event → Prop
  | .tick _ => (a.ticks = 9 → a.due = [] ∨ a.first = some 9) ∧
      (a.ticks = 0 → a.late = true → a.first ≠ none)
  | .mb | .sb _ _ => True

instance (a : Arrivals) : ∀ e, Decidable (OnTime a e)
  | .tick _ => inferInstanceAs (Decidable ((_ → _) ∧ (_ → _ → _)))
  | .mb | .sb _ _ => isTrue trivial

/-! ## The bus after each activation -/

section After

variable {s : Firmware} {bus : Bus}

theorem after_tick (released : Bool) : bus.after (step s (.tick released)).2 =
    if PollDue s then ⟨true, .mb⟩ else if ReadDue s then ⟨true, .sb⟩ else bus := by
  simp only [step, tc1Handler_eq]
  by_cases hp : PollDue s <;> by_cases hr : ReadDue s <;> simp only [hp, hr, if_true, if_false] <;>
    rfl

theorem tick_noOverlap_iff (m : Monitor) (released : Bool) : NoOverlap (s, m) (.tick released) ↔
    (PollDue s → m.bus.isOpen = false ∧ ¬ReadDue s) ∧ (ReadDue s → m.bus.isOpen = false) := by
  simp only [NoOverlap, step, tc1Handler_eq]
  by_cases hp : PollDue s <;> by_cases hr : ReadDue s <;>
    simp [hp, hr, Clean, Act.isAddr, Bus.feed, List.filter_cons]

theorem mb_noOverlap (m : Monitor) : NoOverlap (s, m) .mb := by
  simp only [NoOverlap, step]
  cases hs : s.state <;> simp [sercom0HandlerMB, hs, Clean, Act.isAddr, Bus.feed,
    Bus.closed, List.filter_cons]

theorem sb_noOverlap (m : Monitor) (hb : s.bytesRead ≤ 3) (b : Byte) (released : Bool) :
    NoOverlap (s, m) (.sb b released) := by
  simp only [NoOverlap, step]
  rcases sb_cases s hb with h | ⟨h, h2⟩ | ⟨h, h3⟩
  · rw [sb_unexpected b released h]
    simp [Clean, Act.isAddr]
  · rw [sb_early b released h h2]
    simp [Clean, Act.isAddr]
  · rw [sb_last b released h h3]
    simp [Clean, Act.isAddr, Bus.feed, Bus.closed, List.filter_cons]

end After

/-! ## The invariant of a run whose events arrive on time -/

/-- The number of `MB` events left in each state of the DAC writes. -/
def writesLeft : I2CState → ℕ
  | .dac0Write => 6
  | .dac0Write2 => 5
  | .dac0Write3 => 4
  | .dac1Write => 3
  | .dac1Write2 => 2
  | .dac1Write3 => 1
  | .idle | .hihRequest | .hihReceive => 0

/-- The first event of the cycle came after tick `d`, two ticks or more ago. -/
structure Served (g : Gap) (a : Arrivals) : Prop where
  completed : g.completed = true
  first : a.first = some (a.ticks - g.ticks)
  ticks_ge : 2 ≤ g.ticks
  ticks_le : g.ticks ≤ a.ticks

/-- Where a run stands in its cycle: the firmware, the bus, the gap since the
latest completed request, and the events still to come. -/
inductive BusPhase (s : Firmware) (bus : Bus) (g : Gap) (a : Arrivals) : Prop
  | start (hb : bus = .closed) (hg : g = ⟨a.ticks, false⟩) (ha : a = ⟨a.ticks, [], none, false⟩)
  | request (hb : bus = ⟨true, .mb⟩) (hs : s.state = .hihRequest) (hd : a.due = cycleEvents)
      (ha : a.first = none) (hlate : a.late = true → g = ⟨a.ticks + 1, true⟩)
      (hprompt : a.late = false → g.completed = true → a.ticks + 2 ≤ g.ticks)
      (hle : g.ticks ≤ a.ticks + 10)
  | waiting (hb : bus = .closed) (hg : g.completed = true ∧ g.ticks ≤ 1 ∧ g.ticks ≤ a.ticks)
      (hd : a.due = cycleEvents.tail) (ha : a.first = some (a.ticks - g.ticks))
  | reading (hb : bus = ⟨true, .sb⟩) (hs : s.state = .hihReceive) (hg : Served g a)
      (hd : a.due = List.replicate (4 - s.bytesRead) .sb ++ List.replicate 6 .mb)
  | refused (hb : bus = ⟨true, .none⟩) (hg : Served g a) (hd : a.due ≠ [])
  | writing (hb : bus = ⟨true, .mb⟩) (hs : 0 < writesLeft s.state) (hg : Served g a)
      (hd : a.due = List.replicate (writesLeft s.state) .mb)
  | done (hb : bus = .closed) (hg : Served g a) (hd : a.due = [])

structure BusInv (s : Firmware) (m : Monitor) (a : Arrivals) : Prop where
  gap : GapInv s m.gap
  poll : s.pollCnt = a.ticks
  ticks_le : a.ticks ≤ 9
  phase : BusPhase s m.bus m.gap a

theorem busInv_start : BusInv init .start .start where
  gap := gapInv_init
  poll := rfl
  ticks_le := Nat.zero_le 9
  phase := .start rfl rfl rfl

section Step

variable {s : Firmware} {m : Monitor} {bus : Bus} {g : Gap} {a : Arrivals}

theorem BusPhase.gap_le (h : BusPhase s bus g a) : g.ticks ≤ a.ticks + 10 := by
  cases h with
  | start hb hg ha =>
      rw [hg]
      exact Nat.le_add_right _ _
  | request hb hs hd ha hlate hprompt hle => exact hle
  | waiting hb hg hd ha => exact Nat.le_add_right_of_le hg.2.2
  | reading hb hs hg hd => exact Nat.le_add_right_of_le hg.ticks_le
  | refused hb hg hd => exact Nat.le_add_right_of_le hg.ticks_le
  | writing hb hs hg hd => exact Nat.le_add_right_of_le hg.ticks_le
  | done hb hg hd => exact Nat.le_add_right_of_le hg.ticks_le

theorem BusInv.readDue_iff (h : BusInv s m a) : ReadDue s ↔ m.gap = ⟨1, true⟩ := by
  have hle := h.phase.gap_le
  have hnine := h.ticks_le
  exact Th2.readDue_iff h.gap (by omega)

theorem BusInv.pollDue_iff (h : BusInv s m a) : PollDue s ↔ a.ticks = 9 := by
  have hnine := h.ticks_le
  rw [PollDue, pollDelay, h.poll]
  omega

theorem Served.ne_one (h : Served g a) : g ≠ ⟨1, true⟩ := by
  have hge := h.ticks_ge
  intro heq
  rw [heq] at hge
  exact absurd hge (by decide)

/-- A first event two ticks ago came before the ninth tick. -/
theorem Served.first_ne (h : Served g a) (hle : a.ticks ≤ 9) : a.first ≠ some 9 := by
  have hge := h.ticks_ge
  rw [h.first, ne_eq, Option.some_inj]
  omega

/-- With a transaction open, nothing overlaps at a tick that neither polls nor reads. -/
theorem tick_noOverlap_open (hb : m.bus.isOpen = true) (released : Bool) :
    NoOverlap (s, m) (.tick released) ↔ ¬PollDue s ∧ ¬ReadDue s := by
  rw [tick_noOverlap_iff, hb]
  simp

theorem tick_noOverlap_closed (hb : m.bus.isOpen = false) (released : Bool) :
    NoOverlap (s, m) (.tick released) ↔ (PollDue s → ¬ReadDue s) := by
  rw [tick_noOverlap_iff, hb]
  simp

/-- Events are due and the read has begun: the next poll tick would be too early. -/
theorem onTime_served (hg : Served g a) (hle : a.ticks ≤ 9) (hd : a.due ≠ []) (released : Bool) :
    OnTime a (.tick released) ↔ a.ticks ≠ 9 := by
  have hfirst := hg.first_ne hle
  have hsome : a.first ≠ none := by
    rw [hg.first]
    exact Option.some_ne_none _
  simp [OnTime, hd, hfirst, hsome]

/-- Under the invariant an activation overlaps with nothing exactly if the
events have arrived on time for it. -/
theorem noOverlap_iff_onTime (h : BusInv s m a) (e : Event) :
    NoOverlap (s, m) e ↔ OnTime a e := by
  have hread := h.readDue_iff
  have hpoll := h.pollDue_iff
  have hnine := h.ticks_le
  cases e with
  | mb => exact iff_of_true (mb_noOverlap m) trivial
  | sb b released => exact iff_of_true (sb_noOverlap m h.gap.index b released) trivial
  | tick released =>
      cases h.phase with
      | start hb hg ha =>
          rw [tick_noOverlap_closed (by rw [hb]; rfl), hread, hg, ha]
          simp [OnTime]
      | request hb hs hd ha hlate hprompt hle =>
          have hdue : m.gap = ⟨1, true⟩ ↔ a.late = true ∧ a.ticks = 0 := by
            rw [Gap.ext_iff]
            cases hl : a.late with
            | true =>
                rw [hlate hl]
                simp
            | false =>
                have hgap := hprompt hl
                simp only [Bool.false_eq_true, false_and, iff_false, not_and]
                intro hone hc
                exact absurd (hgap hc) (by omega)
          rw [tick_noOverlap_open (by rw [hb]), hread, hpoll, hdue]
          simp only [OnTime, hd, ha, cycleEvents, reduceCtorEq, or_self, imp_false, ne_eq,
            not_true_eq_false, not_and]
          exact and_congr_right fun _ => forall_comm
      | waiting hb hg hd ha =>
          have hdue : m.gap = ⟨1, true⟩ ↔ m.gap.ticks = 1 := by
            rw [Gap.ext_iff]
            exact and_iff_left hg.1
          rw [tick_noOverlap_closed (by rw [hb]; rfl), hread, hpoll, hdue]
          simp only [OnTime, hd, ha, cycleEvents, List.tail_cons, ne_eq, reduceCtorEq,
            not_false_eq_true, implies_true, and_true, Option.some_inj]
          have hne : List.replicate 4 Pending.sb ++ List.replicate 6 .mb ≠ [] := by decide
          simp only [hne, false_or]
          omega
      | reading hb hs hg hd =>
          have hne : a.due ≠ [] := by
            rw [hd]
            simp
          rw [tick_noOverlap_open (by rw [hb]), onTime_served hg hnine hne, hread, hpoll]
          exact and_iff_left hg.ne_one
      | refused hb hg hd =>
          rw [tick_noOverlap_open (by rw [hb]), onTime_served hg hnine hd, hread, hpoll]
          exact and_iff_left hg.ne_one
      | writing hb hs hg hd =>
          have hne : a.due ≠ [] := by
            rw [hd, ne_eq, List.replicate_eq_nil_iff]
            omega
          rw [tick_noOverlap_open (by rw [hb]), onTime_served hg hnine hne, hread, hpoll]
          exact and_iff_left hg.ne_one
      | done hb hg hd =>
          rw [tick_noOverlap_closed (by rw [hb]; rfl), hread]
          simp [OnTime, hd, hg.ne_one, hg.first]

/-! ### Ticks -/

/-- A poll tick that finds nothing to overlap with begins the next cycle. -/
theorem request_of_poll (h : BusInv s m a) (released : Bool) (hp : a.ticks = 9)
    (hon : OnTime a (.tick released)) :
    BusPhase (step s (.tick released)).1 ⟨true, .mb⟩ ⟨m.gap.ticks + 1, m.gap.completed⟩
      (a.arrive (.tick released)) := by
  have hpoll : PollDue s := h.pollDue_iff.mpr hp
  have hstate : (step s (.tick released)).1.state = .hihRequest := by
    simp only [step, tc1Handler_eq, if_pos hpoll]
  have hnext : a.arrive (.tick released) = ⟨0, cycleEvents, none, decide (a.first = some 9)⟩ :=
    if_pos hp
  have hle := h.phase.gap_le
  have hlast := hon.1 hp
  rw [hnext]
  cases h.phase with
  | start hb hg ha =>
      rw [hg, ha]
      exact .request rfl hstate rfl rfl (by simp) (by simp) (by simp only; omega)
  | request hb hs hd ha hlate hprompt hgap => simp [hd, ha, cycleEvents] at hlast
  | waiting hb hg hd ha =>
      -- only the first event has come, after the ninth tick
      have hfirst : a.first = some 9 := hlast.resolve_left (by rw [hd]; decide)
      have hzero : m.gap.ticks = 0 := by
        rw [ha, Option.some_inj] at hfirst
        omega
      refine .request rfl hstate rfl rfl ?_ ?_ ?_
      · intro _
        rw [hzero, hg.1]
      · intro hlate
        simp [hfirst] at hlate
      · simp only [hzero]
        omega
  | reading hb hs hg hd =>
      have hdue := hlast.resolve_right (hg.first_ne h.ticks_le)
      simp [hd] at hdue
  | refused hb hg hd => exact absurd (hlast.resolve_right (hg.first_ne h.ticks_le)) hd
  | writing hb hs hg hd =>
      have hdue := hlast.resolve_right (hg.first_ne h.ticks_le)
      rw [hd, List.replicate_eq_nil_iff] at hdue
      omega
  | done hb hg hd =>
      have hge := hg.ticks_ge
      have hlt := hg.ticks_le
      refine .request rfl hstate rfl rfl ?_ ?_ ?_
      · intro hlate
        exact absurd (of_decide_eq_true hlate) (hg.first_ne h.ticks_le)
      · exact fun _ _ => Nat.le_succ_of_le hge
      · simp only
        omega

theorem Served.tick (h : Served g a) :
    Served ⟨g.ticks + 1, g.completed⟩ { a with ticks := a.ticks + 1 } where
  completed := h.completed
  first := by
    rw [h.first]
    exact congrArg some (Nat.succ_sub_succ a.ticks g.ticks).symm
  ticks_ge := Nat.le_succ_of_le h.ticks_ge
  ticks_le := Nat.succ_le_succ h.ticks_le

/-- A tick that neither polls nor reads leaves the run where it is. -/
theorem BusPhase.quiet (h : BusPhase s bus g a) {t : Firmware} (hstate : t.state = s.state)
    (hbytes : t.bytesRead = s.bytesRead) (hone : g ≠ ⟨1, true⟩) :
    BusPhase t bus ⟨g.ticks + 1, g.completed⟩ { a with ticks := a.ticks + 1 } := by
  cases h with
  | start hb hg ha =>
      refine .start hb ?_ ?_
      · rw [hg]
      · rw [ha]
  | request hb hs hd ha hlate hprompt hle =>
      refine .request hb (hstate.trans hs) hd ha ?_ ?_ ?_
      · intro hl
        rw [hlate hl]
      · exact fun hl hc => Nat.succ_le_succ (hprompt hl hc)
      · simp only
        omega
  | waiting hb hg hd ha =>
      have hzero : g.ticks = 0 := by
        have hne : g.ticks ≠ 1 := fun h => hone (Gap.ext h hg.1)
        omega
      refine .waiting hb ⟨hg.1, ?_, ?_⟩ hd ?_
      · rw [hzero]
      · exact Nat.succ_le_succ hg.2.2
      · rw [ha]
        exact congrArg some (Nat.succ_sub_succ a.ticks g.ticks).symm
  | reading hb hs hg hd =>
      exact .reading hb (hstate.trans hs) hg.tick (by rw [hbytes]; exact hd)
  | refused hb hg hd => exact .refused hb hg.tick hd
  | writing hb hs hg hd =>
      rw [← hstate] at hs hd
      exact .writing hb hs hg.tick hd
  | done hb hg hd => exact .done hb hg.tick hd

/-- The read begins at the second tick after the first event of the cycle. -/
theorem BusPhase.read (h : BusPhase s bus g a) {t : Firmware} (hstate : t.state = .hihReceive)
    (hbytes : t.bytesRead = 0) (hone : g = ⟨1, true⟩) (hclosed : bus.isOpen = false) :
    BusPhase t ⟨true, .sb⟩ ⟨g.ticks + 1, g.completed⟩ { a with ticks := a.ticks + 1 } := by
  cases h with
  | start hb hg ha =>
      rw [hg, Gap.ext_iff] at hone
      cases hone.2
  | request hb hs hd ha hlate hprompt hle =>
      rw [hb] at hclosed
      cases hclosed
  | waiting hb hg hd ha =>
      refine .reading rfl hstate ⟨hg.1, ?_, ?_, ?_⟩ ?_
      · rw [ha]
        exact congrArg some (Nat.succ_sub_succ a.ticks g.ticks).symm
      · rw [hone]
      · exact Nat.succ_le_succ hg.2.2
      · rw [hbytes]
        exact hd
  | reading hb hs hg hd => exact absurd hone hg.ne_one
  | refused hb hg hd => exact absurd hone hg.ne_one
  | writing hb hs hg hd => exact absurd hone hg.ne_one
  | done hb hg hd => exact absurd hone hg.ne_one

theorem BusInv.tick (h : BusInv s m a) (released : Bool) (hon : OnTime a (.tick released)) :
    BusInv (step s (.tick released)).1 (monitorStep m (entry step s (.tick released)))
      (a.arrive (.tick released)) := by
  have hread := h.readDue_iff
  have hpoll := h.pollDue_iff
  have hgap := gapInv_step h.gap (.tick released)
  have hmonitor : monitorStep m (entry step s (.tick released)) =
      ⟨m.bus.after (step s (.tick released)).2, ⟨m.gap.ticks + 1, m.gap.completed⟩⟩ := rfl
  have hover := (noOverlap_iff_onTime h (.tick released)).mpr hon
  rw [tick_noOverlap_iff] at hover
  by_cases hp : a.ticks = 9
  · have hdue : PollDue s := hpoll.mpr hp
    have hnext : a.arrive (.tick released) = ⟨0, cycleEvents, none, decide (a.first = some 9)⟩ :=
      if_pos hp
    refine ⟨hgap, ?_, ?_, ?_⟩
    · simp only [step, tc1Handler_eq, if_pos hdue, hnext]
    · rw [hnext]
      exact Nat.zero_le 9
    · rw [hmonitor, after_tick, if_pos hdue]
      exact request_of_poll h released hp hon
  · have hdue : ¬PollDue s := hpoll.not.mpr hp
    have hnext : a.arrive (.tick released) = { a with ticks := a.ticks + 1 } := if_neg hp
    have hnine := h.ticks_le
    refine ⟨hgap, ?_, ?_, ?_⟩
    · simp only [step, tc1Handler_eq, if_neg hdue, hnext, h.poll]
    · rw [hnext]
      simp only
      omega
    · rw [hmonitor, after_tick, if_neg hdue, hnext]
      by_cases hr : ReadDue s
      · rw [if_pos hr]
        exact h.phase.read (by simp only [step, tc1Handler_eq, if_neg hdue, if_pos hr])
          (by simp only [step, tc1Handler_eq, if_pos hr]) (hread.mp hr) (hover.2 hr)
      · rw [if_neg hr]
        exact h.phase.quiet (by simp only [step, tc1Handler_eq, if_neg hdue, if_neg hr])
          (by simp only [step, tc1Handler_eq, if_neg hr]) (hread.not.mp hr)

/-! ### Bus events -/

/-- The event that is due has come. -/
theorem arrive_due {e : Event} {rest : List Pending} (he : e.kind ≠ .none)
    (hd : a.due = e.kind :: rest) :
    a.arrive e = { a with due := rest, first := a.first.or (some a.ticks) } := by
  cases e with
  | tick released => exact absurd rfl he
  | mb => simp [Arrivals.arrive, hd]
  | sb b released => simp [Arrivals.arrive, hd]

/-- Not the first event of its cycle. -/
theorem Served.arrive (h : Served g a) (rest : List Pending) :
    Served g { a with due := rest, first := a.first.or (some a.ticks) } where
  completed := h.completed
  first := by rw [h.first, Option.some_or]
  ticks_ge := h.ticks_ge
  ticks_le := h.ticks_le

/-- An `MB` of the DAC writes leads to the next access, the last one to STOP. -/
theorem writing_step (hs : 0 < writesLeft s.state) :
    writesLeft (step s .mb).1.state = writesLeft s.state - 1 ∧
      Bus.after ⟨true, .none⟩ (step s .mb).2 =
        if writesLeft s.state = 1 then .closed else ⟨true, .mb⟩ := by
  simp only [step]
  cases hstate : s.state with
  | idle => simp [hstate, writesLeft] at hs
  | hihRequest => simp [hstate, writesLeft] at hs
  | hihReceive => simp [hstate, writesLeft] at hs
  | dac0Write => exact mb_dac0Write hstate ▸ ⟨rfl, rfl⟩
  | dac0Write2 => exact mb_dac0Write2 hstate ▸ ⟨rfl, rfl⟩
  | dac0Write3 => exact mb_dac0Write3 hstate ▸ ⟨rfl, rfl⟩
  | dac1Write => exact mb_dac1Write hstate ▸ ⟨rfl, rfl⟩
  | dac1Write2 => exact mb_dac1Write2 hstate ▸ ⟨rfl, rfl⟩
  | dac1Write3 => exact mb_dac1Write3 hstate ▸ ⟨rfl, rfl⟩

theorem BusPhase.writing_mb (hs : 0 < writesLeft s.state) (hg : Served g a)
    (hd : a.due = List.replicate (writesLeft s.state) .mb) :
    BusPhase (step s .mb).1 (Bus.after ⟨true, .none⟩ (step s .mb).2) g (a.arrive .mb) := by
  obtain ⟨hleft, hbus⟩ := writing_step hs
  obtain ⟨k, hk⟩ := Nat.exists_eq_succ_of_ne_zero hs.ne'
  rw [hk, Nat.succ_sub_one] at hleft
  rw [hk, List.replicate_succ] at hd
  rw [arrive_due (by decide) hd, hbus, hk]
  cases k with
  | zero => exact .done rfl (hg.arrive _) rfl
  | succ k =>
      refine .writing (if_neg (by omega)) ?_ (hg.arrive _) ?_
      · rw [hleft]
        exact Nat.succ_pos k
      · rw [hleft]

theorem BusInv.mb (h : BusInv s m a) (hen : Enabled (s, m) .mb) :
    BusInv (step s .mb).1 (monitorStep m (entry step s .mb)) (a.arrive .mb) := by
  have hgap := gapInv_step h.gap .mb
  obtain ⟨state, deadline, ack, hframe⟩ := mb_frame s
  have hpoll : (step s .mb).1.pollCnt = a.ticks := by
    rw [hframe]
    exact h.poll
  have hticks : (a.arrive .mb).ticks = a.ticks := by
    rw [Arrivals.arrive]
    split <;> rfl
  refine ⟨hgap, by rw [hticks, hpoll], by rw [hticks]; exact h.ticks_le, ?_⟩
  change BusPhase _ ((m.bus.deliver .mb).after (step s .mb).2)
    (if s.state = .hihRequest then ⟨0, true⟩ else m.gap) _
  cases h.phase with
  | start hb hg ha => exact absurd (by rw [hb]; rfl) hen
  | waiting hb hg hd ha => exact absurd (by rw [hb]; rfl) hen
  | refused hb hg hd => exact absurd (by rw [hb]) hen
  | done hb hg hd => exact absurd (by rw [hb]; rfl) hen
  | request hb hs hd ha hlate hprompt hle =>
      have hstep : (step s .mb).2 = [.stop] := by rw [step, mb_hihRequest hs]
      rw [if_pos hs, hb, hstep, arrive_due (by decide) hd, ha]
      exact .waiting rfl ⟨rfl, Nat.zero_le 1, Nat.zero_le _⟩ rfl rfl
  | reading hb hs hg hd =>
      -- the read address was refused, and nothing ends the transaction
      have hstep : step s .mb = (s, [.outSet statusR, .outClr statusG, .clearMB]) :=
        mb_unexpected (.inr hs)
      have hindex := h.gap.index
      obtain ⟨k, hk⟩ : ∃ k, 4 - s.bytesRead = k + 1 := ⟨3 - s.bytesRead, by omega⟩
      rw [hk, List.replicate_succ] at hd
      have hkeep : a.arrive .mb = a := by simp [Arrivals.arrive, hd, Event.kind]
      rw [if_neg (by rw [hs]; decide), hb, hstep, hkeep]
      exact .refused rfl hg (by rw [hd]; exact List.cons_ne_nil _ _)
  | writing hb hs hg hd =>
      have hne : s.state ≠ .hihRequest := by
        intro hstate
        rw [hstate] at hs
        exact absurd hs (by decide)
      rw [if_neg hne, hb]
      exact .writing_mb hs hg hd

theorem BusInv.sb (h : BusInv s m a) (b : Byte) (released : Bool)
    (hen : Enabled (s, m) (.sb b released)) :
    BusInv (step s (.sb b released)).1 (monitorStep m (entry step s (.sb b released)))
      (a.arrive (.sb b released)) := by
  have hpending : m.bus.pending = .sb := hen
  have hindex := h.gap.index
  have hgap := gapInv_step h.gap (.sb b released)
  have hpoll := (sb_frame hindex b released).2.2.trans h.poll
  have hticks : (a.arrive (.sb b released)).ticks = a.ticks := by
    rw [Arrivals.arrive]
    split <;> rfl
  refine ⟨hgap, by rw [hticks, hpoll], by rw [hticks]; exact h.ticks_le, ?_⟩
  change BusPhase _ ((m.bus.deliver (.sb b released)).after (step s (.sb b released)).2) m.gap _
  cases h.phase with
  | start hb hg ha => rw [hb] at hpending; cases hpending
  | request hb hs hd ha hlate hprompt hle => rw [hb] at hpending; cases hpending
  | waiting hb hg hd ha => rw [hb] at hpending; cases hpending
  | refused hb hg hd => rw [hb] at hpending; cases hpending
  | writing hb hs hg hd => rw [hb] at hpending; cases hpending
  | done hb hg hd => rw [hb] at hpending; cases hpending
  | reading hb hs hg hd =>
      rcases sb_cases s hindex with hstate | ⟨-, h2⟩ | ⟨-, h3⟩
      · exact absurd hs hstate
      · have hk : 4 - s.bytesRead = (4 - (s.bytesRead + 1)) + 1 := by omega
        rw [hk, List.replicate_succ, List.cons_append] at hd
        rw [arrive_due (e := .sb b released) (by simp [Event.kind]) hd, hb]
        simp only [step, sb_early b released hs h2]
        exact .reading rfl hs (hg.arrive _) rfl
      · rw [h3] at hd
        rw [arrive_due (e := .sb b released) (by simp [Event.kind]) hd, hb]
        simp only [step, sb_last b released hs h3]
        exact .writing rfl (Nat.succ_pos 5) (hg.arrive _) rfl

theorem busInv_step (h : BusInv s m a) {e : Event} (hen : Enabled (s, m) e) (hon : OnTime a e) :
    BusInv (step s e).1 (monitorStep m (entry step s e)) (a.arrive e) := by
  cases e with
  | tick released => exact h.tick released hon
  | mb => exact h.mb hen
  | sb b released => exact h.sb b released hen

end Step

/-- From a state of the invariant on, nothing overlaps if and only if the events
arrive on time. -/
theorem noOverlap_iff_of_busInv (evs : List Event) {s : Firmware} {m : Monitor} {a : Arrivals}
    (h : BusInv s m a) (hen : AllSteps busMachine Enabled (s, m) evs) :
    AllSteps busMachine NoOverlap (s, m) evs ↔ AllSteps arrivalsMachine OnTime a evs := by
  induction evs generalizing s m a with
  | nil => exact iff_of_true allSteps_nil allSteps_nil
  | cons e evs ih =>
      rw [allSteps_cons, allSteps_cons]
      constructor
      · rintro ⟨hover, hrest⟩
        have hon := (noOverlap_iff_onTime h e).mp hover
        exact ⟨hon, (ih (busInv_step h hen.1 hon) hen.2).mp hrest⟩
      · rintro ⟨hon, hrest⟩
        exact ⟨(noOverlap_iff_onTime h e).mpr hon, (ih (busInv_step h hen.1 hon) hen.2).mpr hrest⟩

/-- However the bus events are delayed, no transaction is cut off if and only if
the events of each cycle arrive before the poll tick that begins the next one,
or its first event alone between the ninth tick and that poll tick and the first
event of the next cycle before the tick after it. -/
theorem no_overlap_iff (evs : List Event)
    (h : AllSteps busMachine Enabled (init, Monitor.start) evs) :
    AllSteps busMachine NoOverlap (init, Monitor.start) evs ↔
      AllSteps arrivalsMachine OnTime .start evs :=
  noOverlap_iff_of_busInv evs busInv_start h

/-- A whole cycle, its events as late as they may be, and the next poll tick. -/
def slowCycle : List Event :=
  List.replicate 17 (.tick true) ++ [.mb, .tick true, .tick true] ++
    List.replicate 4 (.sb 0 true) ++ List.replicate 6 .mb ++ [.tick true]

theorem no_overlap_slowCycle :
    AllSteps busMachine NoOverlap (init, Monitor.start) slowCycle :=
  (no_overlap_iff slowCycle (by decide +kernel)).mpr (by decide +kernel)

/-- A stuck slave: no event ever comes, and the second poll tick writes `ADDR`
into the first measurement request. -/
theorem stuck_slave_overlap :
    AllSteps busMachine Enabled (init, Monitor.start) (List.replicate 20 (.tick true)) ∧
      ¬AllSteps busMachine NoOverlap (init, Monitor.start) (List.replicate 20 (.tick true)) := by
  decide +kernel

end TempHumid.Th2
