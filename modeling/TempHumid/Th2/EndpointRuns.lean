import TempHumid.Library.Machine
import TempHumid.Th2.EndpointJobs

/-!
# Runs of an interrupt endpoint

The endpoint functions of `usb_device_udd.c` in any order, with the transfers that the
hardware completes: allocation, jobs, aborts and halts. The hardware owes a transfer to
a busy job, and a busy job owes a call to its callback.

## Implementation notes

The hardware completes a transfer only while one is under way, and `armed` holds the
size that it was started with. A bus reset clears the registers of the endpoint, but
not its job. The checks of the endpoint number are left to the caller: endpoint 0 has no
job, and the device has no endpoint above 2.
-/

namespace TempHumid.Th2.EpJobs

open Machine

/-- An endpoint: its job, and the registers of the hardware. -/
structure Pipe where
  job : Job
  halted : Bool
  typed : Bool
  armed : Option Half
  deriving DecidableEq

def Pipe.init : Pipe := ⟨⟨false, 0, 0, 0, false, false, false⟩, false, false, none⟩

/-- The transfer under way. -/
def arm (armed : Option Half) : Act → Option Half
  | .write _ len => some len
  | .read _ len => some len
  | .readCache len => some len
  | _ => armed

/-- A job that has gone on. -/
def Pipe.put (p : Pipe) (r : Job × List Act) : Pipe :=
  { p with job := r.1, armed := r.2.foldl arm p.armed }

def uddEpAlloc (bmAttributes : Byte) (maxEndpointSize : Half) (p : Pipe) : Pipe × List Act :=
  if 1023 < maxEndpointSize then (p, [.returns false])
  else
    let p := { p with job := { p.job with epSize := maxEndpointSize } }
    if bmAttributes &&& 3 = 0 then (p, [.returns false])
    else if p.typed then (p, [.returns false])
    else ({ p with typed := true, armed := none }, [.returns true])

def uddEpAbort (p : Pipe) : Pipe × List Act :=
  let p := { p with armed := none }
  if p.job.busy then
    let r := complete .abort p.job
    ({ p with job := r.1 }, r.2)
  else (p, [])

def uddEpFree (p : Pipe) : Pipe × List Act :=
  let r := uddEpAbort p
  ({ r.1 with typed := false }, r.2)

def uddEpSetHalt (p : Pipe) : Pipe × List Act :=
  let r := uddEpAbort { p with halted := true }
  (r.1, r.2 ++ [.returns true])

def uddEpClearHalt (p : Pipe) : Pipe × List Act :=
  let p := { p with halted := false }
  if p.job.busy then
    ({ p with job := { p.job with busy := false } },
      [.callNohalt p.job.hasCallback, .returns true])
  else (p, [.returns true])

def uddEpWaitStallClear (p : Pipe) : Pipe × List Act :=
  if p.job.busy then (p, [.returns false])
  else if p.halted then
    ({ p with job := { p.job with busy := true, hasCallback := true } }, [.returns true])
  else if p.typed then (p, [.callNohalt true, .returns true])
  else (p, [.returns false])

/-- The reset of the endpoint registers by the hardware. -/
def hwReset (p : Pipe) : Pipe := { p with halted := false, typed := false, armed := none }

section Direction

variable (dirIn : Bool)

def uddEpRun (short : Bool) (size : Size) (hasCallback : Bool) (p : Pipe) : Pipe × List Act :=
  if p.halted then (p, [.returns false])
  else if p.job.busy then (p, [.returns false])
  else
    let r := if dirIn then runIn p.typed short size hasCallback p.job
      else runOut p.typed short size hasCallback p.job
    (p.put r.2, r.2.2 ++ [.returns r.1])

def uddEpTransferProcess (nb : Half) (p : Pipe) : Pipe × List Act :=
  match p.armed with
  | none => (p, [])
  | some len =>
      let p := { p with armed := none }
      let r := if dirIn then uddEpTransInNext p.typed nb p.job
        else uddEpTransOutNext p.typed nb len p.job
      (p.put r, r.2)

inductive PipeEvent
  | alloc (bmAttributes : Byte) (maxEndpointSize : Half)
  | free
  | run (short : Bool) (size : Size) (hasCallback : Bool)
  | abort
  | setHalt
  | clearHalt
  | waitStallClear
  | transferred (nb : Half)
  | busReset
  deriving DecidableEq

def pipeStep : Step Pipe PipeEvent Act
  | p, .alloc bmAttributes size => uddEpAlloc bmAttributes size p
  | p, .free => uddEpFree p
  | p, .run short size hasCallback => uddEpRun dirIn short size hasCallback p
  | p, .abort => uddEpAbort p
  | p, .setHalt => uddEpSetHalt p
  | p, .clearHalt => uddEpClearHalt p
  | p, .waitStallClear => uddEpWaitStallClear p
  | p, .transferred nb => uddEpTransferProcess dirIn nb p
  | p, .busReset => (hwReset p, [])

end Direction

/-! ## Callbacks -/

/-- The hardware uses a buffer only while its job is busy. -/
def Owned (p : Pipe) : Prop := p.armed ≠ none → p.job.busy = true

instance : DecidablePred Owned := fun _ => inferInstanceAs (Decidable (_ → _))

/-- A transfer is under way only on a configured endpoint. -/
def Wired (p : Pipe) : Prop := p.armed ≠ none → p.typed = true

/-- A halt is cleared while no transfer is under way. -/
def ClearedIdle (p : Pipe) : PipeEvent → Prop
  | .clearHalt => p.armed = none
  | _ => True

instance : ∀ p e, Decidable (ClearedIdle p e)
  | p, .clearHalt => inferInstanceAs (Decidable (p.armed = none))
  | _, .alloc _ _ => isTrue trivial
  | _, .free => isTrue trivial
  | _, .run _ _ _ => isTrue trivial
  | _, .abort => isTrue trivial
  | _, .setHalt => isTrue trivial
  | _, .waitStallClear => isTrue trivial
  | _, .transferred _ => isTrue trivial
  | _, .busReset => isTrue trivial

/-- A call of a callback that is there. -/
def isCall : Act → Bool
  | .callTrans _ _ => true
  | .callNohalt hasCallback => hasCallback
  | _ => false

def calls (acts : List Act) : ℕ := acts.countP isCall

/-- The callback that a busy job owes. -/
def held (p : Pipe) : ℕ := (p.job.busy && p.job.hasCallback).toNat

/-- A job or a wait is taken on, or called back at once. An endpoint that is not
configured takes a job on as well, although `udd_ep_run` then returns `false`. -/
def takesOn (p : Pipe) : PipeEvent → Bool
  | .run _ _ _ => !p.halted && !p.job.busy
  | .waitStallClear => !p.job.busy && (p.halted || p.typed)
  | _ => false

theorem takesOn_run (p : Pipe) (short : Bool) (size : Size) (hasCallback : Bool) :
    takesOn p (.run short size hasCallback) = (!p.halted && !p.job.busy) := rfl

/-- The callbacks that a step takes on. -/
def registered (p : Pipe) : PipeEvent → ℕ
  | .run short size hasCallback => (takesOn p (.run short size hasCallback) && hasCallback).toNat
  | e => (takesOn p e).toNat

/-- No transfer follows the one that has moved `nb` of `len` bytes. -/
def lastTransfer (dirIn : Bool) (nb len : Half) (j : Job) : Bool :=
  if dirIn then decide (j.nbTrans + nb.setWidth 32 = j.bufSize) && !j.bShortpacket
  else !(decide (nb = len) && decide (addReceived nb j ≠ j.bufSize))

/-- No transfer is needed for a new job. -/
def emptyJob (dirIn short : Bool) (size : Size) : Bool :=
  decide (size = 0) && !(dirIn && short)

/-- The job that is busy, or that the step takes on, is over after the step. -/
def ends (dirIn : Bool) (p : Pipe) : PipeEvent → Bool
  | .run short size hasCallback =>
      takesOn p (.run short size hasCallback) && emptyJob dirIn short size
  | .waitStallClear => takesOn p .waitStallClear && !p.halted
  | .transferred nb =>
      match p.armed with
      | none => false
      | some len => lastTransfer dirIn nb len p.job
  | .free => true
  | .abort => true
  | .setHalt => true
  | .clearHalt => true
  | .alloc _ _ => false
  | .busReset => false

/-- The steps after which a job has a transfer under way, if it is not over. -/
def Moves (p : Pipe) : PipeEvent → Prop
  | .run short size hasCallback => takesOn p (.run short size hasCallback) = true ∧ p.typed = true
  | .transferred _ => p.armed ≠ none
  | _ => False

/-- A step calls a callback exactly if it ends the job, and otherwise the job goes on.
On a configured endpoint `udd_ep_run` returns `true` exactly if it takes the job on. -/
structure Serves (dirIn : Bool) (p : Pipe) (e : PipeEvent) : Prop where
  called : calls (pipeStep dirIn p e).2 = if ends dirIn p e then held p + registered p e else 0
  ended : ends dirIn p e = true → (pipeStep dirIn p e).1.job.busy = false
  goesOn : ends dirIn p e = false → Moves p e → (pipeStep dirIn p e).1.armed ≠ none
  returned : ∀ short size hasCallback, e = .run short size hasCallback → p.typed = true →
    (.returns true ∈ (pipeStep dirIn p e).2 ↔ takesOn p e = true)

/-- What becomes of a job: it is over with a call of its callback, or goes on with a
transfer if the endpoint is configured. -/
structure Outcome (hasCallback configured last : Bool) (r : Job × List Act) : Prop where
  busy : r.1.busy = !last
  same : r.1.hasCallback = hasCallback
  called : calls r.2 = (last && hasCallback).toNat
  armed : (r.2.foldl arm none).isSome = (configured && !last)
  silent : ∀ b, .returns b ∉ r.2

section Outcomes

variable {hasCallback configured last : Bool} {r : Job × List Act}

theorem calls_append (as bs : List Act) : calls (as ++ bs) = calls as + calls bs :=
  List.countP_append

/-- A job that starts a transfer. -/
theorem outcome_start {j : Job} {a : Act} (hbusy : j.busy = true)
    (hsame : j.hasCallback = hasCallback) (hcall : isCall a = false)
    (harm : (arm none a).isSome = true) (hsilent : ∀ b, .returns b ≠ a) :
    Outcome hasCallback configured false (j, start configured a) := by
  rw [start]
  cases configured with
  | false => exact ⟨hbusy, hsame, rfl, rfl, fun b => List.not_mem_nil⟩
  | true =>
      refine ⟨hbusy, hsame, ?_, harm, fun b h => hsilent b (List.mem_singleton.mp h)⟩
      rw [if_pos rfl, calls, List.countP_singleton, hcall]
      rfl

theorem outcome_complete (status : Status) (j : Job) :
    Outcome j.hasCallback configured true (complete status j) := by
  rw [complete]
  obtain ⟨hasCallback, bufSize, nbTrans, epSize, busy, short, cache⟩ := j
  cases hasCallback with
  | false => exact ⟨rfl, rfl, rfl, by simp, by simp⟩
  | true => exact ⟨rfl, rfl, rfl, by simp [arm], by simp⟩

/-- A copy before the outcome changes nothing about it. -/
theorem Outcome.copyCache (h : Outcome hasCallback configured last r) (j : Job) :
    Outcome hasCallback configured last (r.1, copyCache j ++ r.2) := by
  rw [EpJobs.copyCache]
  cases j.bUseOutCacheBuffer with
  | false => exact h
  | true =>
      refine ⟨h.busy, h.same, h.called, h.armed, fun b hb => ?_⟩
      obtain heq | htail := List.mem_cons.mp hb
      · cases heq
      · exact h.silent b htail

theorem outcome_write {j : Job} (hbusy : j.busy = true) (hsame : j.hasCallback = hasCallback)
    (off : Size) (len : Half) :
    Outcome hasCallback configured false (j, start configured (.write off len)) :=
  outcome_start hbusy hsame rfl rfl fun _ h => Act.noConfusion h

theorem outcome_startRead (off : Size) (next : Half) {j : Job} (hbusy : j.busy = true)
    (hsame : j.hasCallback = hasCallback) :
    Outcome hasCallback configured false (startRead configured off next j) := by
  rw [startRead]
  split
  · exact outcome_start hbusy hsame rfl rfl fun _ h => Act.noConfusion h
  · exact outcome_start hbusy hsame rfl rfl fun _ h => Act.noConfusion h

theorem outcome_transInNext (sent len : Half) {j : Job} (h : j.busy = true) :
    Outcome j.hasCallback configured (lastTransfer true sent len j)
      (uddEpTransInNext configured sent j) := by
  rw [uddEpTransInNext, lastTransfer, if_pos rfl]
  simp only
  split
  · next hmore =>
      rw [decide_eq_false hmore, Bool.false_and]
      apply outcome_write
      · exact h
      · rfl
  · next hall =>
      rw [decide_eq_true (not_not.mp hall), Bool.true_and]
      split
      · next hshort =>
          have hmore : (!j.bShortpacket) = false := by rw [hshort, Bool.not_true]
          rw [hmore]
          apply outcome_write
          · exact h
          · rfl
      · next hshort =>
          have hover : (!j.bShortpacket) = true := by
            rw [Bool.not_eq_true] at hshort
            rw [hshort, Bool.not_false]
          rw [hover]
          exact outcome_complete .ok { j with nbTrans := j.nbTrans + sent.setWidth 32 }

theorem outcome_transOutNext (received outSize : Half) {j : Job} (h : j.busy = true) :
    Outcome j.hasCallback configured (lastTransfer false received outSize j)
      (uddEpTransOutNext configured received outSize j) := by
  rw [uddEpTransOutNext, lastTransfer, if_neg Bool.false_ne_true, ← Bool.decide_and]
  apply Outcome.copyCache
  split
  · next hmore =>
      rw [decide_eq_true hmore]
      apply outcome_startRead
      · exact h
      · rfl
  · next hall =>
      rw [decide_eq_false hall]
      exact outcome_complete .ok { j with nbTrans := addReceived received j }

theorem outcome_runIn (short : Bool) (size : Size) (hasCallback : Bool) (j : Job) :
    Outcome hasCallback configured (emptyJob true short size)
      (runIn configured short size hasCallback j).2 := by
  rw [runIn, emptyJob]
  simp only
  split
  · next hne =>
      rw [decide_eq_false (Ne.symm hne), Bool.false_and]
      apply outcome_write
      · rfl
      · rfl
  · next hzero =>
      rw [decide_eq_true (not_not.mp hzero).symm, Bool.true_and, Bool.true_and]
      cases short with
      | true =>
          apply outcome_write
          · rfl
          · rfl
      | false => exact outcome_complete .ok (newJob false size hasCallback j)

theorem outcome_runOut (short : Bool) (size : Size) (hasCallback : Bool) (j : Job) :
    Outcome hasCallback configured (emptyJob false short size)
      (runOut configured short size hasCallback j).2 := by
  rw [runOut, emptyJob]
  split
  · next hne =>
      rw [decide_eq_false (Ne.symm hne), Bool.false_and]
      apply outcome_startRead
      · rfl
      · rfl
  · next hzero =>
      rw [decide_eq_true (not_not.mp hzero).symm, Bool.true_and]
      exact outcome_complete .ok (newJob short size hasCallback j)

/-- On a configured endpoint a job that is taken on is accepted. -/
theorem runIn_returns (short : Bool) (size : Size) (hasCallback : Bool) (j : Job) :
    (runIn true short size hasCallback j).1 = true := by
  rw [runIn]
  simp only
  split_ifs <;> rfl

theorem runOut_returns (short : Bool) (size : Size) (hasCallback : Bool) (j : Job) :
    (runOut true short size hasCallback j).1 = true := by
  rw [runOut]
  split_ifs <;> rfl

/-- A job that went on or is over, on an endpoint with no transfer under way before. -/
theorem Outcome.put {p : Pipe} (h : Outcome hasCallback p.typed last r) (hp : p.armed = none) :
    Owned (p.put r) ∧ Wired (p.put r) ∧ hasCallback.toNat = calls r.2 + held (p.put r) ∧
      (last = false → p.typed = true → (p.put r).armed ≠ none) := by
  have harmed : (p.put r).armed.isSome = (p.typed && !last) := by
    rw [← h.armed, Pipe.put, hp]
  refine ⟨fun hsome => ?_, fun hsome => ?_, ?_, fun hlast htyped => ?_⟩
  · rw [← Option.isSome_iff_ne_none, harmed, Bool.and_eq_true] at hsome
    exact h.busy.trans hsome.2
  · rw [← Option.isSome_iff_ne_none, harmed, Bool.and_eq_true] at hsome
    exact hsome.1
  · rw [held, h.called]
    change _ = _ + (r.1.busy && r.1.hasCallback).toNat
    rw [h.busy, h.same]
    cases last <;> cases hasCallback <;> rfl
  · rw [← Option.isSome_iff_ne_none, harmed, htyped, hlast]
    rfl

end Outcomes

section Steps

variable {dirIn : Bool} {p : Pipe} {e : PipeEvent}

/-- A step on an owned endpoint: it stays one, every callback taken on before or in the
step is called or still owed, and the step serves its job. -/
structure Accounted (dirIn : Bool) (p : Pipe) (e : PipeEvent) : Prop where
  owned : Owned (pipeStep dirIn p e).1
  wired : Wired (pipeStep dirIn p e).1
  balance : held p + registered p e =
    calls (pipeStep dirIn p e).2 + held (pipeStep dirIn p e).1
  serves : Serves dirIn p e

theorem unarmed_of_idle (h : Owned p) (hidle : p.job.busy = false) : p.armed = none := by
  by_contra harmed
  exact absurd (h harmed) (by rw [hidle]; exact Bool.false_ne_true)

theorem held_of_idle (h : p.job.busy = false) : held p = 0 := by
  rw [held, h, Bool.false_and, Bool.toNat_false]

theorem held_of_busy (h : p.job.busy = true) : held p = p.job.hasCallback.toNat := by
  rw [held, h, Bool.true_and]

/-- A step after which no job is left. -/
theorem accounted_ended (hends : ends dirIn p e = true)
    (hunarmed : (pipeStep dirIn p e).1.armed = none)
    (hidle : (pipeStep dirIn p e).1.job.busy = false)
    (hcalls : calls (pipeStep dirIn p e).2 = held p + registered p e)
    (hrun : ∀ short size hasCallback, e ≠ .run short size hasCallback) : Accounted dirIn p e := by
  refine ⟨fun h => absurd hunarmed h, fun h => absurd hunarmed h, ?_, ?_⟩
  · rw [hcalls, held_of_idle hidle, Nat.add_zero]
  · refine ⟨?_, fun _ => hidle, fun hmore => ?_, fun short size hasCallback heq => ?_⟩
    · rw [hcalls, if_pos hends]
    · exact absurd (hends.symm.trans hmore) Bool.false_ne_true.symm
    · exact absurd heq (hrun short size hasCallback)

/-- A step without a call, in which no job ends and none has to go on. -/
theorem accounted_quiet (howned : Owned (pipeStep dirIn p e).1)
    (hwired : Wired (pipeStep dirIn p e).1) (hends : ends dirIn p e = false)
    (hmoves : ¬Moves p e) (hheld : held (pipeStep dirIn p e).1 = held p + registered p e)
    (hquiet : calls (pipeStep dirIn p e).2 = 0)
    (hrun : ∀ short size hasCallback, e ≠ .run short size hasCallback) : Accounted dirIn p e := by
  refine ⟨howned, hwired, ?_, ?_⟩
  · rw [hquiet, hheld, Nat.zero_add]
  · refine ⟨?_, fun hover => ?_, fun _ h => absurd h hmoves, fun short size hasCallback heq => ?_⟩
    · rw [hquiet, hends, if_neg Bool.false_ne_true]
    · exact absurd (hends.symm.trans hover) Bool.false_ne_true
    · exact absurd heq (hrun short size hasCallback)

/-- A step that changes nothing. -/
theorem accounted_same (h : Owned p) (hw : Wired p) {acts : List Act}
    (hstep : pipeStep dirIn p e = (p, acts)) (hends : ends dirIn p e = false) (hmoves : ¬Moves p e)
    (htaken : registered p e = 0) (hquiet : calls acts = 0)
    (hrun : ∀ short size hasCallback, e ≠ .run short size hasCallback) : Accounted dirIn p e := by
  apply accounted_quiet
  · rw [hstep]
    exact h
  · rw [hstep]
    exact hw
  · exact hends
  · exact hmoves
  · rw [hstep, htaken, Nat.add_zero]
  · rw [hstep]
    exact hquiet
  · exact hrun

theorem accounted_alloc (h : Owned p) (hw : Wired p) (bmAttributes : Byte) (size : Half) :
    Accounted dirIn p (.alloc bmAttributes size) := by
  have hstep : Owned (uddEpAlloc bmAttributes size p).1 ∧ Wired (uddEpAlloc bmAttributes size p).1 ∧
      held (uddEpAlloc bmAttributes size p).1 = held p ∧
      calls (uddEpAlloc bmAttributes size p).2 = 0 := by
    rw [uddEpAlloc]
    simp only
    split_ifs
    · exact ⟨h, hw, rfl, rfl⟩
    · exact ⟨h, hw, rfl, rfl⟩
    · exact ⟨h, hw, rfl, rfl⟩
    · exact ⟨fun hne => absurd rfl hne, fun _ => rfl, rfl, rfl⟩
  exact accounted_quiet hstep.1 hstep.2.1 rfl id hstep.2.2.1 hstep.2.2.2 fun _ _ _ => nofun

/-- An abort calls the callback that is owed, and leaves nothing under way. -/
theorem abort_eq (p : Pipe) : (uddEpAbort p).1.armed = none ∧ (uddEpAbort p).1.job.busy = false ∧
    calls (uddEpAbort p).2 = held p := by
  rw [uddEpAbort]
  simp only
  split
  · next hbusy =>
      refine ⟨rfl, rfl, ?_⟩
      rw [held_of_busy hbusy, complete]
      simp only
      cases p.job.hasCallback <;> rfl
  · next hidle =>
      rw [Bool.not_eq_true] at hidle
      exact ⟨rfl, hidle, (held_of_idle hidle).symm⟩

theorem calls_returns (acts : List Act) (b : Bool) : calls (acts ++ [.returns b]) = calls acts := by
  rw [calls_append]
  rfl

theorem accounted_clearHalt (h : p.armed = none) : Accounted dirIn p .clearHalt := by
  have hstep : (uddEpClearHalt p).1.armed = none ∧ (uddEpClearHalt p).1.job.busy = false ∧
      calls (uddEpClearHalt p).2 = held p := by
    rw [uddEpClearHalt]
    simp only
    split
    · next hbusy =>
        refine ⟨h, rfl, ?_⟩
        rw [held_of_busy hbusy]
        cases p.job.hasCallback <;> rfl
    · next hidle =>
        rw [Bool.not_eq_true] at hidle
        exact ⟨h, hidle, (held_of_idle hidle).symm⟩
  exact accounted_ended rfl hstep.1 hstep.2.1 hstep.2.2 fun _ _ _ => nofun

theorem accounted_waitStallClear (h : Owned p) (hw : Wired p) :
    Accounted dirIn p .waitStallClear := by
  have hstep : pipeStep dirIn p .waitStallClear = uddEpWaitStallClear p := rfl
  have htaken : registered p .waitStallClear = (!p.job.busy && (p.halted || p.typed)).toNat := rfl
  have hends : ends dirIn p .waitStallClear =
      (!p.job.busy && (p.halted || p.typed) && !p.halted) := rfl
  rw [uddEpWaitStallClear] at hstep
  cases hbusy : p.job.busy with
  | true =>
      rw [if_pos hbusy] at hstep
      rw [hbusy] at htaken hends
      exact accounted_same h hw hstep hends id htaken rfl fun _ _ _ => nofun
  | false =>
      rw [if_neg (by rw [hbusy]; exact Bool.false_ne_true)] at hstep
      rw [hbusy] at htaken hends
      have hunarmed := unarmed_of_idle h hbusy
      cases hhalted : p.halted with
      | true =>
          rw [if_pos hhalted] at hstep
          rw [hhalted] at htaken hends
          apply accounted_quiet
          · rw [hstep]
            exact fun _ => rfl
          · rw [hstep]
            exact hw
          · exact hends
          · exact id
          · rw [hstep, htaken, held_of_idle hbusy]
            rfl
          · rw [hstep]
            rfl
          · exact fun _ _ _ => nofun
      | false =>
          rw [if_neg (by rw [hhalted]; exact Bool.false_ne_true)] at hstep
          rw [hhalted] at htaken hends
          cases htyped : p.typed with
          | true =>
              rw [if_pos htyped] at hstep
              rw [htyped] at htaken hends
              apply accounted_ended
              · exact hends
              · rw [hstep]
                exact hunarmed
              · rw [hstep]
                exact hbusy
              · rw [hstep, htaken, held_of_idle hbusy]
                rfl
              · exact fun _ _ _ => nofun
          | false =>
              rw [if_neg (by rw [htyped]; exact Bool.false_ne_true)] at hstep
              rw [htyped] at htaken hends
              exact accounted_same h hw hstep hends id htaken rfl fun _ _ _ => nofun

/-- A refused job changes nothing. -/
theorem accounted_refused (h : Owned p) (hw : Wired p) {short : Bool} {size : Size}
    {hasCallback : Bool} (hrefused : takesOn p (.run short size hasCallback) = false)
    (hstep : uddEpRun dirIn short size hasCallback p = (p, [.returns false])) :
    Accounted dirIn p (.run short size hasCallback) := by
  have hrun : pipeStep dirIn p (.run short size hasCallback) = (p, [.returns false]) := hstep
  have htaken : registered p (.run short size hasCallback) = 0 := by
    rw [registered, hrefused]
    rfl
  have hends : ends dirIn p (.run short size hasCallback) = false := by
    rw [ends, hrefused, Bool.false_and]
  refine ⟨hrun ▸ h, hrun ▸ hw, ?_, ?_⟩
  · rw [hrun, htaken]
    exact Nat.add_comm _ _
  · refine ⟨?_, fun hover => ?_, fun _ hmoves => ?_, fun short' size' hasCallback' heq _ => ?_⟩
    · rw [hrun, hends, if_neg Bool.false_ne_true]
      rfl
    · exact absurd (hends.symm.trans hover) Bool.false_ne_true
    · exact absurd (hrefused.symm.trans hmoves.1) Bool.false_ne_true
    · cases heq
      rw [hrun, hrefused]
      exact iff_of_false (by simp) Bool.false_ne_true

/-- A job that is taken on: it starts, and on a configured endpoint the caller is told. -/
theorem run_taken {short : Bool} {size : Size} {hasCallback : Bool} (hhalted : p.halted = false)
    (hbusy : p.job.busy = false) : ∃ r : Bool × Job × List Act,
      pipeStep dirIn p (.run short size hasCallback) =
        (p.put r.2, r.2.2 ++ [.returns r.1]) ∧ (p.typed = true → r.1 = true) ∧
      Outcome hasCallback p.typed (emptyJob dirIn short size) r.2 := by
  have hstep : pipeStep dirIn p (.run short size hasCallback) =
      uddEpRun dirIn short size hasCallback p := rfl
  rw [hstep, uddEpRun, if_neg (by rw [hhalted]; exact Bool.false_ne_true),
    if_neg (by rw [hbusy]; exact Bool.false_ne_true)]
  cases dirIn with
  | true =>
      refine ⟨_, rfl, fun htyped => ?_, outcome_runIn short size hasCallback p.job⟩
      rw [htyped]
      exact runIn_returns ..
  | false =>
      refine ⟨_, rfl, fun htyped => ?_, outcome_runOut short size hasCallback p.job⟩
      rw [htyped]
      exact runOut_returns ..

theorem accounted_taken (h : Owned p) {short : Bool} {size : Size} {hasCallback : Bool}
    (hhalted : p.halted = false) (hbusy : p.job.busy = false) :
    Accounted dirIn p (.run short size hasCallback) := by
  have htakes : takesOn p (.run short size hasCallback) = true := by
    rw [takesOn_run, hhalted, hbusy, Bool.not_false, Bool.true_and]
  have htaken : registered p (.run short size hasCallback) = hasCallback.toNat := by
    rw [registered, htakes, Bool.true_and]
  have hends : ends dirIn p (.run short size hasCallback) = emptyJob dirIn short size := by
    rw [ends, htakes, Bool.true_and]
  obtain ⟨r, hrun, hreturns, houtcome⟩ := run_taken hhalted hbusy
  obtain ⟨howned, hwired, hbalance, hnext⟩ := houtcome.put (unarmed_of_idle h hbusy)
  refine ⟨hrun ▸ howned, hrun ▸ hwired, ?_, ?_⟩
  · rw [hrun, htaken, held_of_idle hbusy, calls_returns, Nat.zero_add]
    exact hbalance
  · refine ⟨?_, fun hover => ?_, fun hmore hmoves => ?_,
      fun short' size' hasCallback' heq htyped => ?_⟩
    · rw [hrun, htaken, held_of_idle hbusy, calls_returns, hends, houtcome.called, Nat.zero_add]
      cases emptyJob dirIn short size <;> rfl
    · rw [hrun]
      exact houtcome.busy.trans (by rw [← hends, hover, Bool.not_true])
    · rw [hrun]
      exact hnext (hends.symm.trans hmore) hmoves.2
    · cases heq
      rw [hrun, htakes, hreturns htyped]
      exact iff_of_true (List.mem_append_right _ (List.mem_singleton_self _)) rfl

theorem accounted_run (h : Owned p) (hw : Wired p) (short : Bool) (size : Size)
    (hasCallback : Bool) : Accounted dirIn p (.run short size hasCallback) := by
  cases hhalted : p.halted with
  | true =>
      apply accounted_refused h hw
      · rw [takesOn_run, hhalted, Bool.not_true, Bool.false_and]
      · rw [uddEpRun, if_pos hhalted]
  | false =>
      cases hbusy : p.job.busy with
      | true =>
          apply accounted_refused h hw
          · rw [takesOn_run, hbusy, Bool.not_true, Bool.and_false]
          · rw [uddEpRun, if_neg (by rw [hhalted]; exact Bool.false_ne_true), if_pos hbusy]
      | false => exact accounted_taken h hhalted hbusy

theorem accounted_transferred (h : Owned p) (hw : Wired p) (nb : Half) :
    Accounted dirIn p (.transferred nb) := by
  cases harmed : p.armed with
  | none =>
      have hstep : pipeStep dirIn p (.transferred nb) = (p, []) := by
        rw [pipeStep, uddEpTransferProcess, harmed]
      have hends : ends dirIn p (.transferred nb) = false := by
        rw [ends, harmed]
      exact accounted_same h hw hstep hends (fun hmoves => hmoves harmed) rfl rfl
        fun _ _ _ => nofun
  | some len =>
      have hsome : p.armed ≠ none := by
        rw [harmed]
        exact Option.some_ne_none len
      have hbusy := h hsome
      obtain ⟨r, hrun, houtcome⟩ : ∃ r : Job × List Act,
          pipeStep dirIn p (.transferred nb) = (Pipe.put { p with armed := none } r, r.2) ∧
          Outcome p.job.hasCallback p.typed (lastTransfer dirIn nb len p.job) r := by
        rw [pipeStep, uddEpTransferProcess, harmed]
        cases dirIn with
        | true => exact ⟨_, rfl, outcome_transInNext nb len hbusy⟩
        | false => exact ⟨_, rfl, outcome_transOutNext nb len hbusy⟩
      obtain ⟨howned, hwired, hbalance, hnext⟩ :=
        houtcome.put (p := { p with armed := none }) rfl
      have hends : ends dirIn p (.transferred nb) = lastTransfer dirIn nb len p.job := by
        rw [ends, harmed]
      have htaken : registered p (.transferred nb) = 0 := rfl
      refine ⟨hrun ▸ howned, hrun ▸ hwired, ?_, ?_⟩
      · rw [hrun, htaken, held_of_busy hbusy, Nat.add_zero]
        exact hbalance
      · refine ⟨?_, fun hover => ?_, fun hmore _ => ?_, fun _ _ _ => nofun⟩
        · rw [hrun, htaken, held_of_busy hbusy, hends, houtcome.called, Nat.add_zero]
          cases lastTransfer dirIn nb len p.job <;> rfl
        · rw [hrun]
          exact houtcome.busy.trans (by rw [← hends, hover, Bool.not_true])
        · rw [hrun]
          exact hnext (hends.symm.trans hmore) (hw hsome)

/-- Every step on an owned endpoint is accounted for, unless it clears a halt under a
transfer. -/
theorem accounted_pipeStep (h : Owned p) (hw : Wired p) (he : ClearedIdle p e) :
    Accounted dirIn p e := by
  cases e with
  | alloc bmAttributes size => exact accounted_alloc h hw bmAttributes size
  | free =>
      obtain ⟨harmed, hidle, hcalls⟩ := abort_eq p
      exact accounted_ended rfl harmed hidle hcalls fun _ _ _ => nofun
  | run short size hasCallback => exact accounted_run h hw short size hasCallback
  | abort =>
      obtain ⟨harmed, hidle, hcalls⟩ := abort_eq p
      exact accounted_ended rfl harmed hidle hcalls fun _ _ _ => nofun
  | setHalt =>
      obtain ⟨harmed, hidle, hcalls⟩ := abort_eq { p with halted := true }
      exact accounted_ended rfl harmed hidle ((calls_returns _ _).trans hcalls) fun _ _ _ => nofun
  | clearHalt => exact accounted_clearHalt he
  | waitStallClear => exact accounted_waitStallClear h hw
  | transferred nb => exact accounted_transferred h hw nb
  | busReset =>
      exact accounted_quiet (fun hne => absurd rfl hne) (fun hne => absurd rfl hne) rfl id rfl rfl
        fun _ _ _ => nofun

/-- A halt that is cleared under a transfer takes its job away. -/
theorem owned_pipeStep_iff (h : Owned p) (hw : Wired p) (e : PipeEvent) :
    Owned (pipeStep dirIn p e).1 ↔ ClearedIdle p e := by
  constructor
  · intro howned
    cases e with
    | clearHalt =>
        by_contra harmed
        have hbusy := h harmed
        have hstep : pipeStep dirIn p .clearHalt =
            ({ p with halted := false, job := { p.job with busy := false } },
              [.callNohalt p.job.hasCallback, .returns true]) := by
          rw [pipeStep, uddEpClearHalt]
          exact if_pos hbusy
        rw [hstep] at howned
        exact absurd (howned harmed) Bool.false_ne_true
    | _ => trivial
  · exact fun he => (accounted_pipeStep h hw he).owned

end Steps

/-- The calls of callbacks in a run, and the callbacks that were taken on. -/
def callsIn (tr : List (Entry Pipe PipeEvent Act)) : ℕ := total (fun e => calls e.outputs) tr

def registeredIn (tr : List (Entry Pipe PipeEvent Act)) : ℕ :=
  total (fun e => registered e.before e.input) tr

/-- In a run of any functions and transfers, a buffer is used only by a busy job
exactly if no halt is cleared under a transfer. In such a run every callback of a job
or a wait that was taken on is called once, in the step in which its job ends, or owed
by the job that is busy; and a job that does not end goes on. -/
theorem callbacks_balance (dirIn : Bool) (evs : List PipeEvent) :
    ((∀ xs, xs.IsPrefix evs → Owned (finish (pipeStep dirIn) Pipe.init xs)) ↔
      AllSteps (pipeStep dirIn) ClearedIdle Pipe.init evs) ∧
    (AllSteps (pipeStep dirIn) ClearedIdle Pipe.init evs →
      registeredIn (trace (pipeStep dirIn) Pipe.init evs) =
          callsIn (trace (pipeStep dirIn) Pipe.init evs) +
            held (finish (pipeStep dirIn) Pipe.init evs) ∧
        AllSteps (pipeStep dirIn) (Serves dirIn) Pipe.init evs) := by
  have hinit : Owned Pipe.init ∧ Wired Pipe.init := ⟨fun h => absurd rfl h, fun h => absurd rfl h⟩
  have hkeep : ∀ p e, Owned p ∧ Wired p → ClearedIdle p e →
      Owned (pipeStep dirIn p e).1 ∧ Wired (pipeStep dirIn p e).1 := by
    intro p e hp he
    have hstep : Accounted dirIn p e := accounted_pipeStep hp.1 hp.2 he
    exact ⟨hstep.owned, hstep.wired⟩
  constructor
  · rw [forall_prefix_iff, and_iff_right hinit.1]
    exact allSteps_congr hinit (fun p e hp => owned_pipeStep_iff hp.1 hp.2 e) hkeep
  · intro hsteps
    have hbalance : held Pipe.init + registeredIn (trace (pipeStep dirIn) Pipe.init evs) =
        callsIn (trace (pipeStep dirIn) Pipe.init evs) +
          held (finish (pipeStep dirIn) Pipe.init evs) :=
      hsteps.balance hinit hkeep fun p e hp he => (accounted_pipeStep hp.1 hp.2 he).balance
    have hserves : AllSteps (pipeStep dirIn) (Serves dirIn) Pipe.init evs :=
      hsteps.of_invariant hinit hkeep fun p e hp he => (accounted_pipeStep hp.1 hp.2 he).serves
    rw [held_of_idle rfl, Nat.zero_add] at hbalance
    exact ⟨hbalance, hserves⟩

/-- A job that a halt ends, a wait for the end of the halt, a job that is sent, and one
that is under way. -/
def haltRun : List PipeEvent :=
  [.alloc 3 64, .run false 4 true, .setHalt, .waitStallClear, .clearHalt, .run false 4 true,
    .transferred 4, .run false 4 true]

theorem callbacks_balance_halt :
    callsIn (trace (pipeStep true) Pipe.init haltRun) = 3 ∧
      registeredIn (trace (pipeStep true) Pipe.init haltRun) =
        callsIn (trace (pipeStep true) Pipe.init haltRun) +
          held (finish (pipeStep true) Pipe.init haltRun) ∧
      AllSteps (pipeStep true) (Serves true) Pipe.init haltRun :=
  ⟨by decide, (callbacks_balance true haltRun).2 (by decide)⟩

-- A halt that is cleared under a transfer: its one callback is called twice.
example : calls ((trace (pipeStep true) Pipe.init
    [.alloc 3 64, .run false 4 true, .clearHalt, .transferred 4]).flatMap Entry.outputs) = 2 := by
  decide

end TempHumid.Th2.EpJobs
