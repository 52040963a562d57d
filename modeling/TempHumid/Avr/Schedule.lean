import TempHumid.Avr.MainLoop
import TempHumid.Library.Words

/-!
# The measurement schedule of the AVR firmware

The counter is reloaded on every way out of a sensor transaction, so there is
one transaction in every 101 iterations. A read follows its own successful
request; after anything else the next transaction is a request.

## Implementation notes

The log pairs each transaction with the number of its iteration. Iterations are
counted from 0.
-/

namespace TempHumid.Avr

open Machine

/-- The transactions among the accesses of an iteration. -/
def transactions (acts : List LoopAct) : List Transaction :=
  acts.filterMap fun
    | .returned t => some t
    | .bus _ => none

/-- The number of iterations and the transactions so far. -/
structure ScheduleLog where
  iterations : ℕ
  done : List (ℕ × Transaction)
  deriving DecidableEq

def scheduleStep (g : ScheduleLog) (en : Entry MainLoop Iteration LoopAct) : ScheduleLog :=
  ⟨g.iterations + 1, g.done ++ (transactions en.outputs).map fun t => (g.iterations, t)⟩

def ScheduleLog.start : ScheduleLog := ⟨0, []⟩

/-- The transactions after a list of iterations. -/
def schedule (its : List Iteration) : ScheduleLog :=
  watch scheduleStep .start (trace loopStep MainLoop.init its)

def Transaction.isRead : Transaction → Bool
  | .read _ => true
  | .request _ => false

section Transactions

variable (s : MainLoop) (it : Iteration)

@[simp] theorem transactions_bus (acts : List Act) : transactions (acts.map .bus) = [] := by
  simp [transactions]

theorem transactions_concat (acts : List Act) (t : Transaction) :
    transactions (acts.map .bus ++ [.returned t]) = [t] := by
  rw [transactions, List.filterMap_append]
  simp

/-- A poll precedes the transaction of an iteration. -/
theorem transactions_loopStep :
    transactions (loopStep s it).2 = transactions (countDown it s).2 := rfl

end Transactions

/-- The counter tells the position in the cycle, and the sensor state whether
the latest transaction was a successful request. -/
structure ScheduleInv (s : MainLoop) (g : ScheduleLog) : Prop where
  count : s.cnt.toNat + g.iterations % 101 = 100
  first : g.iterations ≤ 100 → s.state = .preMeasure ∧ g.done = []
  latest : 101 ≤ g.iterations → ∃ t,
    g.done.getLast? = some (g.iterations - g.iterations % 101 - 1, t) ∧
      (s.state = .preRead ↔ t = .request 0)

theorem scheduleInv_start : ScheduleInv MainLoop.init .start where
  count := rfl
  first _ := ⟨rfl, rfl⟩
  latest h := by cases h

section Step

variable {s : MainLoop} {g : ScheduleLog} {it : Iteration}

/-- The counter has run down at the last iteration of a cycle. -/
theorem ScheduleInv.cnt_eq_zero_iff (h : ScheduleInv s g) :
    s.cnt = 0 ↔ g.iterations % 101 = 100 := by
  have hcount := h.count
  rw [← BitVec.toNat_inj]
  change s.cnt.toNat = 0 ↔ _
  omega

/-- While the counter runs there is no transaction. -/
theorem scheduleStep_run (h : s.cnt ≠ 0) :
    scheduleStep g (entry loopStep s it) = ⟨g.iterations + 1, g.done⟩ := by
  have hnone : transactions (loopStep s it).2 = [] := by
    rw [transactions_loopStep, countDown_run s it h]
    rfl
  simp only [scheduleStep, entry, hnone, List.map_nil, List.append_nil]

/-- The transaction of the last iteration of a cycle, and the state it leaves. -/
theorem transaction_of_zero (it : Iteration) (h : s.cnt = 0) : ∃ t : Transaction,
    transactions (loopStep s it).2 = [t] ∧ (loopStep s it).1.cnt = 100 ∧
      (t.isRead = true ↔ s.state = .preRead) ∧
      ((loopStep s it).1.state = .preRead ↔ t = .request 0) := by
  cases hs : s.state with
  | preMeasure =>
      refine ⟨.request (requestMeasurement it.request s.globals).2, ?_, ?_, ?_, ?_⟩
      · rw [transactions_loopStep, countDown_request s it h hs, transactions_concat]
      · rw [loopStep, updatePwm_cnt, countDown_request s it h hs]
      · simp [Transaction.isRead]
      · rw [loopStep, updatePwm_state, countDown_request s it h hs]
        simp only [Transaction.request.injEq]
        split_ifs with hok <;> simp [hok]
  | preRead =>
      refine ⟨.read (readResult it.read s.globals).2.2, ?_, ?_, ?_, ?_⟩
      · rw [transactions_loopStep, countDown_read s it h hs, transactions_concat]
      · rw [loopStep, updatePwm_cnt, countDown_read s it h hs]
      · simp [Transaction.isRead]
      · rw [loopStep, updatePwm_state, countDown_read s it h hs]
        simp

/-- The last iteration of a cycle logs its transaction and starts the next cycle. -/
theorem scheduleInv_fire (h : ScheduleInv s g) (hzero : s.cnt = 0) :
    ScheduleInv (loopStep s it).1 (scheduleStep g (entry loopStep s it)) := by
  have hmod := h.cnt_eq_zero_iff.mp hzero
  obtain ⟨t, hone, hreload, -, hstate⟩ := transaction_of_zero it hzero
  have hlog : scheduleStep g (entry loopStep s it) =
      ⟨g.iterations + 1, g.done ++ [(g.iterations, t)]⟩ := by
    simp only [scheduleStep, entry, hone, List.map_cons, List.map_nil]
  rw [hlog]
  constructor
  · rw [hreload]
    change 100 + (g.iterations + 1) % 101 = 100
    omega
  · intro hle
    change g.iterations + 1 ≤ 100 at hle
    omega
  · intro _
    refine ⟨t, ?_, hstate⟩
    rw [List.getLast?_concat]
    congr 2
    change g.iterations = g.iterations + 1 - (g.iterations + 1) % 101 - 1
    omega

/-- Any other iteration counts down. -/
theorem scheduleInv_wait (h : ScheduleInv s g) (hrun : s.cnt ≠ 0) :
    ScheduleInv (loopStep s it).1 (scheduleStep g (entry loopStep s it)) := by
  have hcount := h.count
  have hmod := h.cnt_eq_zero_iff.not.mp hrun
  have hlt : g.iterations % 101 < 101 := Nat.mod_lt _ (by decide)
  have hpos : 0 < s.cnt.toNat := BitVec.toNat_pos_of_ne_zero hrun
  have hstate : (loopStep s it).1.state = s.state := by
    rw [loopStep, updatePwm_state, countDown_run s it hrun]
  have hnext : (loopStep s it).1.cnt = s.cnt - 1 := by
    rw [loopStep, updatePwm_cnt, countDown_run s it hrun]
  rw [scheduleStep_run hrun]
  constructor
  · rw [hnext, Words.toNat_sub_one hrun]
    change s.cnt.toNat - 1 + (g.iterations + 1) % 101 = 100
    omega
  · intro hle
    change g.iterations + 1 ≤ 100 at hle
    rw [hstate]
    exact h.first (by omega)
  · intro hge
    change 101 ≤ g.iterations + 1 at hge
    obtain ⟨t, hlast, hiff⟩ := h.latest (by omega)
    refine ⟨t, ?_, by rw [hstate]; exact hiff⟩
    rw [hlast]
    congr 2
    change _ = g.iterations + 1 - (g.iterations + 1) % 101 - 1
    omega

theorem scheduleInv_step (h : ScheduleInv s g) :
    ScheduleInv (loopStep s it).1 (scheduleStep g (entry loopStep s it)) := by
  by_cases hzero : s.cnt = 0
  · exact scheduleInv_fire h hzero
  · exact scheduleInv_wait h hzero

end Step

theorem scheduleInv_run (its : List Iteration) : ScheduleInv (loopRun its) (schedule its) :=
  watch_invariant loopStep scheduleStep scheduleInv_start (fun _ _ _ h => scheduleInv_step h) its

theorem schedule_concat (its : List Iteration) (it : Iteration) :
    schedule (its ++ [it]) = scheduleStep (schedule its) (entry loopStep (loopRun its) it) :=
  watch_concat MainLoop.init ScheduleLog.start its it

theorem schedule_iterations (its : List Iteration) : (schedule its).iterations = its.length := by
  induction its using List.reverseRecOn with
  | nil => rfl
  | append_singleton its it ih =>
      rw [schedule_concat, List.length_append, ← ih]
      rfl

/-- The measurement schedule: the iteration numbered `its.length` makes a sensor
transaction if and only if its number is 100 modulo 101. The transaction is a
read exactly if the latest one was a request that returned 0, and the latest one
lies 101 iterations back. At the loop head the counter is between 0 and 100. -/
theorem measurement_schedule (its : List Iteration) (it : Iteration) :
    (0 ≤ (loopRun its).cnt.toInt ∧ (loopRun its).cnt.toInt ≤ 100) ∧
      (its.length % 101 ≠ 100 → (schedule (its ++ [it])).done = (schedule its).done) ∧
      (its.length % 101 = 100 → ∃ t,
        (schedule (its ++ [it])).done = (schedule its).done ++ [(its.length, t)] ∧
          (t.isRead = true ↔ ∃ n, (schedule its).done.getLast? = some (n, .request 0)) ∧
          ∀ n t', (schedule its).done.getLast? = some (n, t') → n + 101 = its.length) := by
  have hinv := scheduleInv_run its
  have hlen := schedule_iterations its
  have hcount := hinv.count
  refine ⟨?_, fun hmod => ?_, fun hmod => ?_⟩
  · rw [BitVec.toInt_eq_toNat_of_lt (by omega)]
    omega
  · have hrun : (loopRun its).cnt ≠ 0 := by
      rw [Ne, hinv.cnt_eq_zero_iff, hlen]
      exact hmod
    rw [schedule_concat, scheduleStep_run hrun]
  · have hzero : (loopRun its).cnt = 0 := by
      rw [hinv.cnt_eq_zero_iff, hlen]
      exact hmod
    obtain ⟨t, hone, -, hread, -⟩ := transaction_of_zero it hzero
    refine ⟨t, ?_, ?_, ?_⟩
    · rw [schedule_concat, scheduleStep]
      simp only [entry, hone, hlen, List.map_cons, List.map_nil]
    · rw [hread]
      rcases Nat.lt_or_ge its.length 101 with hlt | hge
      · obtain ⟨hstate, hdone⟩ := hinv.first (by omega)
        simp [hstate, hdone]
      · obtain ⟨t', hlast, hiff⟩ := hinv.latest (by omega)
        rw [hiff, hlast]
        simp
    · intro n t' hn
      rcases Nat.lt_or_ge its.length 101 with hlt | hge
      · rw [(hinv.first (by omega)).2] at hn
        cases hn
      · obtain ⟨t'', hlast, -⟩ := hinv.latest (by omega)
        rw [hlast] at hn
        obtain ⟨rfl, rfl⟩ := Prod.mk.inj (Option.some.inj hn)
        omega

end TempHumid.Avr
