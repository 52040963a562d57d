import TempHumid.Library.Machine
import TempHumid.Avr.Firmware

/-!
# The main loop of the AVR firmware

One iteration of the loop in `main`: a call of `usbPoll`, a sensor transaction
when the counter reaches 0, and the update of the two compare registers.

## Implementation notes

An iteration is a function of what the TWI unit would answer and of the level of
the switch. `int` has 16 bits and wraps. The debug LEDs are left out.
-/

namespace TempHumid.Avr

open Machine

/-- The `int` of the AVR. -/
abbrev CInt := BitVec 16

/-- `STATE_PRE_MEASURE` and `STATE_PRE_READ`. -/
inductive SensorState
  | preMeasure
  | preRead
  deriving DecidableEq

def msDelay : CInt := 1
def preReadDelay : CInt := 100 / msDelay
def preMeasureDelay : CInt := 100 / msDelay

/-- The variables of the main loop and the two compare registers. -/
structure MainLoop where
  globals : Globals
  state : SensorState
  cnt : CInt
  cnt2 : CInt
  ocr1a : CInt
  ocr1b : CInt
  deriving DecidableEq

/-- The values on entry to the loop. -/
def MainLoop.init : MainLoop where
  globals := Avr.init
  state := .preMeasure
  cnt := preReadDelay
  cnt2 := 0
  ocr1a := 0x1ff
  ocr1b := 0x1ff

/-- What one iteration meets: the answers to either transaction, and the level
of D4, which is high while the switch is released. -/
structure Iteration where
  request : RequestEnv
  read : ReadEnv
  released : Bool

/-- A call of a sensor function, with the value that it returned. -/
inductive Transaction
  | request (result : ℤ)
  | read (result : ℤ)
  deriving DecidableEq

/-- The accesses of an iteration. -/
inductive LoopAct
  | bus (a : Act)
  | returned (t : Transaction)
  deriving DecidableEq

/-- The `switch` on the sensor state. -/
def transact (it : Iteration) (s : MainLoop) : MainLoop × List LoopAct :=
  match s.state with
  | .preMeasure =>
      let r := requestMeasurement it.request s.globals
      (if r.2 = 0 then { s with state := .preRead, cnt := preReadDelay }
        else { s with state := .preMeasure, cnt := preMeasureDelay },
        r.1.map .bus ++ [.returned (.request r.2)])
  | .preRead =>
      let r := readResult it.read s.globals
      ({ s with globals := r.1, state := .preMeasure, cnt := preReadDelay },
        r.2.1.map .bus ++ [.returned (.read r.2.2)])

/-- `if(cnt-- == 0)` and its body. -/
def countDown (it : Iteration) (s : MainLoop) : MainLoop × List LoopAct :=
  let s' := { s with cnt := s.cnt - 1 }
  if s.cnt = 0 then transact it s' else (s', [])

/-- The outputs: the sensor values, or a square wave while the switch is pressed. -/
def updatePwm (released : Bool) (s : MainLoop) : MainLoop :=
  let s' :=
    if released then
      { s with
        ocr1a := (s.globals.tempVal &&& 0x3ff).setWidth 16
        ocr1b := (s.globals.humidVal &&& 0x3ff).setWidth 16 }
    else if s.cnt2 &&& 0x100 ≠ 0 then { s with ocr1a := 0, ocr1b := 0 }
    else { s with ocr1a := 0x3ff, ocr1b := 0x3ff }
  { s' with cnt2 := s'.cnt2 + 1 }

/-- One iteration of `while(1)`. -/
def loopStep : Step MainLoop Iteration LoopAct := fun s it =>
  let r := countDown it s
  (updatePwm it.released r.1, .bus (.poll s.globals.usbVal) :: r.2)

/-- The state after a list of iterations. -/
def loopRun (its : List Iteration) : MainLoop := finish loopStep MainLoop.init its

theorem loopRun_concat (its : List Iteration) (it : Iteration) :
    loopRun (its ++ [it]) = (loopStep (loopRun its) it).1 := by
  rw [loopRun, loopRun, finish_append, finish_cons, finish_nil]

/-- The last iteration, as its two halves. -/
theorem loopRun_succ (its : List Iteration) (it : Iteration) :
    loopRun (its ++ [it]) = updatePwm it.released (countDown it (loopRun its)).1 :=
  loopRun_concat its it

/-! ## What one iteration does -/

section Iteration

variable (s : MainLoop) (it : Iteration)

@[simp] theorem updatePwm_globals (released : Bool) :
    (updatePwm released s).globals = s.globals := by
  simp only [updatePwm]
  split_ifs <;> rfl

@[simp] theorem updatePwm_state (released : Bool) : (updatePwm released s).state = s.state := by
  simp only [updatePwm]
  split_ifs <;> rfl

@[simp] theorem updatePwm_cnt (released : Bool) : (updatePwm released s).cnt = s.cnt := by
  simp only [updatePwm]
  split_ifs <;> rfl

@[simp] theorem updatePwm_cnt2 (released : Bool) :
    (updatePwm released s).cnt2 = s.cnt2 + 1 := by
  simp only [updatePwm]
  split_ifs <;> rfl

/-- While the counter runs, an iteration only counts and updates the outputs. -/
theorem countDown_run (h : s.cnt ≠ 0) : countDown it s = ({ s with cnt := s.cnt - 1 }, []) :=
  if_neg h

/-- A request reloads the counter, whatever it returns. -/
theorem countDown_request (h : s.cnt = 0) (hs : s.state = .preMeasure) :
    countDown it s =
      ({ s with
          state := if (requestMeasurement it.request s.globals).2 = 0 then .preRead else .preMeasure
          cnt := 100 },
        (requestMeasurement it.request s.globals).1.map .bus ++
          [.returned (.request (requestMeasurement it.request s.globals).2)]) := by
  rw [countDown, if_pos h, transact]
  simp only [hs]
  split_ifs <;> rfl

/-- So does a read. -/
theorem countDown_read (h : s.cnt = 0) (hs : s.state = .preRead) :
    countDown it s =
      ({ s with
          globals := (readResult it.read s.globals).1
          state := .preMeasure
          cnt := 100 },
        (readResult it.read s.globals).2.1.map .bus ++
          [.returned (.read (readResult it.read s.globals).2.2)]) := by
  rw [countDown, if_pos h, transact]
  simp only [hs]
  rfl

end Iteration

end TempHumid.Avr
