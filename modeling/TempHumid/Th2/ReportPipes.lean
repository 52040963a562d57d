import TempHumid.Library.Simulation
import TempHumid.Th2.EndpointRuns

/-!
# The report endpoints

`udi_hid_generic.c` above its two interrupt endpoints: it reads reports from the endpoint
OUT, one job after the other, and sends reports over the endpoint IN, one at a time.
`udc.c` enables and frees both, and the host may halt them. A view of the pair says
whether the device listens and whether a report is under way.

## Implementation notes

The events are all requests that reach the two endpoints, `SET_CONFIGURATION`,
`SET_INTERFACE` and the endpoint halts, with the transfers of the hardware. The device
has one interface with the one setting 0, which `udi_hid_generic_getsetting` returns. A
callback that is called for a cleared halt gets no arguments, so its status is what
`r0` holds. `keep` says whether a stall request survives the allocation of an endpoint,
about which the code says nothing. `UDI_HID_GENERIC_REPORT_OUT` is empty.
-/

namespace TempHumid.Th2.EpJobs

open Machine

/-- `udi_hid_generic.c` and its endpoints. `configured` is `udc_num_configuration`. -/
structure Pipes where
  configured : Bool
  out : Pipe
  inp : Pipe
  reportInFree : Bool
  deriving DecidableEq

def Pipes.init : Pipes := ⟨false, Pipe.init, Pipe.init, false⟩

def returned (acts : List Act) : Bool := decide (acts.getLast? = some (.returns true))

/-- `udi_hid_generic_report_out_enable`. -/
def reportOutEnable (p : Pipe) : Pipe × List Act := uddEpRun false false 4 true p

/-- `udi_hid_generic_report_out_received`. -/
def reportOutReceived (status : Status) (p : Pipe) : Pipe :=
  if status = .ok then (reportOutEnable p).1 else p

/-- The endpoint OUT after the calls of its callback. -/
def answerOut (r0 : Status) (r : Pipe × List Act) : Pipe :=
  r.2.foldl (fun p a =>
    match a with
    | .callTrans status _ => reportOutReceived status p
    | .callNohalt _ => reportOutReceived r0 p
    | _ => p) r.1

/-- `udi_hid_generic_b_report_in_free` after the calls of `udi_hid_generic_report_in_sent`. -/
def answerIn (free : Bool) (acts : List Act) : Bool := free || acts.any isCall

/-- The endpoints in `udc_iface_disable`. -/
def ifaceDisable (s : Pipes) : Pipes :=
  { s with
    out := answerOut .abort (uddEpFree s.out)
    inp := (uddEpFree s.inp).1
    reportInFree := answerIn s.reportInFree (uddEpFree s.inp).2 }

/-- The endpoints in `udc_iface_enable`, up to the end of `udi_hid_generic_enable`. -/
def ifaceEnable (keep : Bool) (s : Pipes) : Pipes × List Bool :=
  let s := { s with
    out := { s.out with halted := s.out.halted && keep }
    inp := { s.inp with halted := s.inp.halted && keep } }
  let inp := uddEpAlloc 3 64 s.inp
  if returned inp.2 then
    let out := uddEpAlloc 3 64 s.out
    if returned out.2 then
      let enabled := reportOutEnable out.1
      ({ s with inp := inp.1, out := enabled.1, reportInFree := true }, [returned enabled.2])
    else ({ s with inp := inp.1, out := out.1 }, [false])
  else ({ s with inp := inp.1 }, [false])

/-- The endpoints in `udc_reset`. -/
def udcReset (s : Pipes) : Pipes :=
  if s.configured then { ifaceDisable s with configured := false } else s

/-- The endpoints in an accepted `udc_req_std_dev_set_configuration`. -/
def setConfiguration (keep : Bool) (s : Pipes) : Pipes × List Bool :=
  ifaceEnable keep { udcReset s with configured := true }

/-- The endpoints in `udc_req_std_iface_set_setting`. A setting that does not exist is
refused when the endpoints are already free. -/
def setInterface (iface setting : Byte) (keep : Bool) (s : Pipes) : Pipes × List Bool :=
  if s.configured = false ∨ iface ≠ 0 then (s, [false])
  else if setting ≠ 0 then (ifaceDisable s, [false])
  else ifaceEnable keep (ifaceDisable s)

/-- `udi_hid_generic_send_report_in`. -/
def sendReportIn (s : Pipes) : Pipes × List Bool :=
  if s.reportInFree then
    let r := uddEpRun true false 4 true s.inp
    ({ s with inp := r.1, reportInFree := !returned r.2 }, [returned r.2])
  else (s, [false])

/-- The endpoint OUT in `udc_req_std_ep_set_feature`. -/
def haltOut (p : Pipe) : Pipe :=
  answerOut .abort (uddEpSetHalt (answerOut .abort (uddEpAbort p)))

inductive ReportEvent
  | setConfiguration (keep : Bool)
  | setInterface (iface setting : Byte) (keep : Bool)
  | unconfigure
  | busReset
  | haltOut
  | haltIn
  | clearHaltOut (r0 : Status)
  | clearHaltIn
  | outTransferred (nb : Half)
  | inTransferred
  | sendReportIn
  deriving DecidableEq

/-- The size that the hardware reports for a transfer to the host. -/
def sentSize (p : Pipe) : Half := p.armed.getD 0

def reportStep : Step Pipes ReportEvent Bool
  | s, .setConfiguration keep => setConfiguration keep s
  | s, .setInterface iface setting keep => setInterface iface setting keep s
  | s, .unconfigure => (udcReset s, [true])
  | s, .busReset => (udcReset { s with out := hwReset s.out, inp := hwReset s.inp }, [])
  | s, .haltOut => ({ s with out := haltOut s.out }, [true])
  | s, .haltIn =>
      let a := uddEpAbort s.inp
      let r := uddEpSetHalt a.1
      ({ s with inp := r.1, reportInFree := answerIn s.reportInFree (a.2 ++ r.2) }, [true])
  | s, .clearHaltOut r0 => ({ s with out := answerOut r0 (uddEpClearHalt s.out) }, [true])
  | s, .clearHaltIn =>
      let r := uddEpClearHalt s.inp
      ({ s with inp := r.1, reportInFree := answerIn s.reportInFree r.2 }, [true])
  | s, .outTransferred nb =>
      ({ s with out := answerOut .ok (uddEpTransferProcess false nb s.out) }, [])
  | s, .inTransferred =>
      let r := uddEpTransferProcess true (sentSize s.inp) s.inp
      ({ s with inp := r.1, reportInFree := answerIn s.reportInFree r.2 }, [])
  | s, .sendReportIn => sendReportIn s

/-! ## The view of the pair -/

/-- What the two endpoints are for. They are `enabled` while they are allocated. -/
structure ReportView where
  configured : Bool
  enabled : Bool
  haltedOut : Bool
  haltedIn : Bool
  listening : Bool
  sending : Bool
  deriving DecidableEq

namespace ReportView

def init : ReportView := ⟨false, false, false, false, false, false⟩

/-- Without endpoints nothing is under way. -/
def closed (v : ReportView) : ReportView :=
  { v with enabled := false, listening := false, sending := false }

/-- The view without a configuration. -/
def off (v : ReportView) : ReportView := { v.closed with configured := false }

/-- The device listens at once, unless a halt has survived. -/
def opened (keep : Bool) (v : ReportView) : ReportView :=
  { v with
    enabled := true
    haltedOut := v.haltedOut && keep
    haltedIn := v.haltedIn && keep
    listening := !(v.haltedOut && keep)
    sending := false }

def step : Step ReportView ReportEvent Bool
  | v, .setConfiguration keep =>
      ({ v.opened keep with configured := true }, [!(v.haltedOut && keep)])
  | v, .setInterface iface setting keep =>
      if v.configured = false ∨ iface ≠ 0 then (v, [false])
      else if setting ≠ 0 then (v.closed, [false])
      else (v.opened keep, [!(v.haltedOut && keep)])
  | v, .unconfigure => (v.off, [true])
  | _, .busReset => (init, [])
  | v, .haltOut => ({ v with haltedOut := true, listening := false }, [true])
  | v, .haltIn => ({ v with haltedIn := true, sending := false }, [true])
  | v, .clearHaltOut _ => ({ v with haltedOut := false }, [true])
  | v, .clearHaltIn => ({ v with haltedIn := false }, [true])
  | v, .outTransferred _ => (v, [])
  | v, .inTransferred => ({ v with sending := false }, [])
  | v, .sendReportIn =>
      if v.haltedIn || v.sending then (v, [false]) else ({ v with sending := true }, [true])

end ReportView

/-- Reports are sent while the endpoint IN is allocated, and its halt is cleared while
none is under way. -/
def Orderly (s : Pipes) : ReportEvent → Prop
  | .clearHaltIn => s.inp.armed = none
  | .sendReportIn => s.inp.typed = true
  | _ => True

instance : ∀ s e, Decidable (Orderly s e)
  | s, .clearHaltIn => inferInstanceAs (Decidable (s.inp.armed = none))
  | s, .sendReportIn => inferInstanceAs (Decidable (s.inp.typed = true))
  | _, .setConfiguration _ => isTrue trivial
  | _, .setInterface _ _ _ => isTrue trivial
  | _, .unconfigure => isTrue trivial
  | _, .busReset => isTrue trivial
  | _, .haltOut => isTrue trivial
  | _, .haltIn => isTrue trivial
  | _, .clearHaltOut _ => isTrue trivial
  | _, .outTransferred _ => isTrue trivial
  | _, .inTransferred => isTrue trivial

/-- A job of the endpoint OUT is waiting for a packet. It need not be busy. -/
structure Listens (p : Pipe) : Prop where
  armed : p.armed = some 64
  halted : p.halted = false
  typed : p.typed = true
  hasCallback : p.job.hasCallback = true
  bufSize : p.job.bufSize = 4
  nbTrans : p.job.nbTrans = 0
  epSize : p.job.epSize = 64

/-- A report is under way to the host. -/
structure Sends (p : Pipe) : Prop where
  armed : p.armed = some 4
  busy : p.job.busy = true
  halted : p.halted = false
  typed : p.typed = true
  hasCallback : p.job.hasCallback = true
  bufSize : p.job.bufSize = 4
  nbTrans : p.job.nbTrans = 0
  epSize : p.job.epSize = 64
  noShort : p.job.bShortpacket = false

/-- Nothing is under way. -/
structure Rests (p : Pipe) : Prop where
  armed : p.armed = none
  busy : p.job.busy = false

/-- The endpoints are as their view says. -/
structure Shows (s : Pipes) (v : ReportView) : Prop where
  configured : s.configured = v.configured
  enabled : v.enabled = true → v.configured = true
  haltedOut : s.out.halted = v.haltedOut
  haltedIn : s.inp.halted = v.haltedIn
  typedOut : s.out.typed = v.enabled
  typedIn : s.inp.typed = v.enabled
  sizeOut : v.enabled = true → s.out.job.epSize = 64
  sizeIn : v.enabled = true → s.inp.job.epSize = 64
  outp : if v.listening then Listens s.out else Rests s.out
  inp : if v.sending then Sends s.inp else Rests s.inp
  free : v.enabled = true → s.reportInFree = !v.sending

/-! ## The endpoint OUT -/

section Out

variable {p : Pipe}

theorem uddEpAlloc_of_untyped (h : p.typed = false) :
    uddEpAlloc 3 64 p =
      ({ p with job := { p.job with epSize := 64 }, typed := true, armed := none },
        [.returns true]) := by
  rw [uddEpAlloc, if_neg (by decide), if_neg (by decide)]
  exact if_neg (by rw [h]; exact Bool.false_ne_true)

/-- A read of the report fits into the cache buffer, and waits for one packet. -/
theorem reportOutEnable_of_idle (hbusy : p.job.busy = false) (htyped : p.typed = true)
    (hsize : p.job.epSize = 64) (hhalted : p.halted = false) :
    ∃ q, reportOutEnable p = (q, [.readCache 64, .returns true]) ∧ Listens q := by
  refine ⟨{ p with
    job := { newJob false 4 true p.job with bUseOutCacheBuffer := true }, armed := some 64 }, ?_, ?_⟩
  · have hread : runOut true false 4 true p.job =
        (true, { newJob false 4 true p.job with bUseOutCacheBuffer := true }, [.readCache 64]) := by
      rw [runOut, startRead, newJob, hsize]
      rfl
    simp only [reportOutEnable, uddEpRun, Pipe.put, hhalted, hbusy, htyped, Bool.false_eq_true,
      if_false, hread]
    rfl
  · exact ⟨rfl, hhalted, htyped, rfl, rfl, rfl, hsize⟩

theorem reportOutEnable_of_halted (h : p.halted = true) :
    reportOutEnable p = (p, [.returns false]) := by
  rw [reportOutEnable, uddEpRun, if_pos h]

/-- An abort ends the reading, whether the job is busy or not. -/
theorem answerOut_abort (p : Pipe) :
    answerOut .abort (uddEpAbort p) = { p with armed := none, job := { p.job with busy := false } } := by
  rw [uddEpAbort]
  cases hbusy : p.job.busy with
  | false =>
      simp only [Bool.false_eq_true, if_false, answerOut, List.foldl_nil]
      rw [← hbusy]
  | true =>
      simp only [if_true, complete]
      cases p.job.hasCallback <;> rfl

theorem answerOut_free (p : Pipe) :
    answerOut .abort (uddEpFree p) =
      { p with armed := none, typed := false, job := { p.job with busy := false } } := by
  rw [uddEpFree, uddEpAbort]
  cases hbusy : p.job.busy with
  | false =>
      simp only [Bool.false_eq_true, if_false, answerOut, List.foldl_nil]
      rw [← hbusy]
  | true =>
      simp only [if_true, complete]
      cases p.job.hasCallback <;> rfl

theorem haltOut_eq (p : Pipe) :
    haltOut p =
      { p with armed := none, halted := true, job := { p.job with busy := false } } := by
  rw [haltOut, answerOut_abort]
  rfl

/-- A packet ends the job, and its callback starts the next one. -/
theorem Listens.transferred (h : Listens p) (nb : Half) :
    Listens (answerOut .ok (uddEpTransferProcess false nb p)) := by
  have hlimit := nb.isLt
  have hcount : (addReceived nb p.job).toNat = min nb.toNat 4 := by
    rw [addReceived_toNat (by rw [h.nbTrans]; change 0 + nb.toNat < _; omega), h.nbTrans, h.bufSize]
    exact congrArg (min · 4) (Nat.zero_add _)
  have hend : ¬(nb = 64 ∧ addReceived nb p.job ≠ p.job.bufSize) := by
    rintro ⟨hfull, hne⟩
    apply hne
    apply BitVec.eq_of_toNat_eq
    rw [hcount, hfull, h.bufSize]
    rfl
  obtain ⟨q, hq, hlistens⟩ := @reportOutEnable_of_idle
    { p with armed := none, job := { p.job with nbTrans := addReceived nb p.job, busy := false } }
    rfl h.typed h.epSize h.halted
  have hanswer : answerOut .ok (uddEpTransferProcess false nb p) = q := by
    rw [uddEpTransferProcess, h.armed]
    simp only [Bool.false_eq_true, if_false]
    rw [transOutNext_complete hend, if_pos h.hasCallback, copyCache]
    split
    · exact congrArg Prod.fst hq
    · exact congrArg Prod.fst hq
  rw [hanswer]
  exact hlistens

/-- Clearing a halt that is not there calls the callback, and the endpoint goes on
listening. -/
theorem Listens.clearHalt (h : Listens p) (r0 : Status) :
    Listens (answerOut r0 (uddEpClearHalt p)) := by
  rw [uddEpClearHalt]
  simp only
  split
  · cases r0 with
    | ok =>
        obtain ⟨q, hq, hlistens⟩ := @reportOutEnable_of_idle
          { p with halted := false, job := { p.job with busy := false } } rfl h.typed h.epSize rfl
        have hanswer : answerOut .ok
            ({ p with halted := false, job := { p.job with busy := false } },
              [.callNohalt p.job.hasCallback, .returns true]) = q := congrArg Prod.fst hq
        rw [hanswer]
        exact hlistens
    | abort => exact ⟨h.armed, rfl, h.typed, h.hasCallback, h.bufSize, h.nbTrans, h.epSize⟩
  · exact ⟨h.armed, rfl, h.typed, h.hasCallback, h.bufSize, h.nbTrans, h.epSize⟩

theorem Rests.clearHaltOut (h : Rests p) (r0 : Status) :
    answerOut r0 (uddEpClearHalt p) = { p with halted := false } := by
  rw [uddEpClearHalt]
  simp only
  rw [if_neg (by rw [h.busy]; exact Bool.false_ne_true)]
  rfl

theorem Rests.transferred (h : Rests p) (dirIn : Bool) (nb : Half) :
    uddEpTransferProcess dirIn nb p = (p, []) := by
  rw [uddEpTransferProcess, h.armed]

end Out

/-! ## The endpoint IN -/

section In

variable {p : Pipe}

theorem uddEpRun_report (hbusy : p.job.busy = false) (htyped : p.typed = true)
    (hsize : p.job.epSize = 64) (hhalted : p.halted = false) :
    ∃ q, uddEpRun true false 4 true p = (q, [.write 0 4, .returns true]) ∧ Sends q := by
  refine ⟨{ p with job := newJob false 4 true p.job, armed := some 4 }, ?_, ?_⟩
  · have hwrite : runIn true false 4 true p.job =
        (true, newJob false 4 true p.job, [.write 0 4]) := by
      rw [runIn, newJob, hsize]
      rfl
    simp only [uddEpRun, Pipe.put, hhalted, hbusy, htyped, Bool.false_eq_true, if_false, if_true,
      hwrite]
    rfl
  · exact ⟨rfl, rfl, hhalted, htyped, rfl, rfl, rfl, hsize, rfl⟩

theorem uddEpRun_of_refused (h : p.halted = true ∨ p.job.busy = true) :
    uddEpRun true false 4 true p = (p, [.returns false]) := by
  rw [uddEpRun]
  split
  · rfl
  · next hhalted => exact if_pos (h.resolve_left hhalted)

theorem Sends.abort (h : Sends p) :
    uddEpAbort p =
      ({ p with armed := none, job := { p.job with busy := false } }, [.callTrans .abort 0]) := by
  rw [uddEpAbort]
  simp only [h.busy, if_true, complete, h.hasCallback, h.nbTrans]

theorem Rests.abort (h : Rests p) : uddEpAbort p = (p, []) := by
  rw [uddEpAbort, ← h.armed]
  exact if_neg (by rw [h.busy]; exact Bool.false_ne_true)

/-- The whole report is one packet, so the job is over when it is sent. -/
theorem Sends.transferred (h : Sends p) :
    uddEpTransferProcess true (sentSize p) p =
      ({ p with armed := none, job := { p.job with nbTrans := 4, busy := false } },
        [.callTrans .ok 4]) := by
  have hlast : p.job.nbTrans + (4 : Half).setWidth 32 = p.job.bufSize := by
    rw [h.nbTrans, h.bufSize]
    rfl
  rw [uddEpTransferProcess, sentSize, h.armed]
  simp only [if_true, Option.getD_some]
  rw [transInNext_last hlast, h.noShort, h.bufSize, complete, h.hasCallback]
  rfl

theorem Rests.clearHalt (h : Rests p) :
    uddEpClearHalt p = ({ p with halted := false }, [.returns true]) := by
  rw [uddEpClearHalt]
  exact if_neg (by rw [h.busy]; exact Bool.false_ne_true)

end In

/-! ## The pair -/

section Pair

variable {s : Pipes} {v : ReportView}

theorem Shows.listens (h : Shows s v) (hl : v.listening = true) : Listens s.out := by
  have hout := h.outp
  rwa [if_pos hl] at hout

theorem Shows.restsOut (h : Shows s v) (hl : v.listening = false) : Rests s.out := by
  have hout := h.outp
  rwa [hl, if_neg Bool.false_ne_true] at hout

theorem Shows.sends (h : Shows s v) (hs : v.sending = true) : Sends s.inp := by
  have hin := h.inp
  rwa [if_pos hs] at hin

theorem Shows.restsIn (h : Shows s v) (hs : v.sending = false) : Rests s.inp := by
  have hin := h.inp
  rwa [hs, if_neg Bool.false_ne_true] at hin

/-- An endpoint is used only while it is allocated. -/
theorem Shows.closed (h : Shows s v) (hoff : v.enabled = false) : v.closed = v := by
  have hl : v.listening = false := by
    by_contra hl
    rw [Bool.not_eq_false] at hl
    exact absurd (h.typedOut.symm.trans (h.listens hl).typed) (by rw [hoff]; exact Bool.false_ne_true)
  have hs : v.sending = false := by
    by_contra hs
    rw [Bool.not_eq_false] at hs
    exact absurd (h.typedIn.symm.trans (h.sends hs).typed) (by rw [hoff]; exact Bool.false_ne_true)
  cases v
  cases hoff
  exact congrArg₂ (fun l s => ReportView.mk _ _ _ _ l s) hl.symm hs.symm

theorem Shows.off (h : Shows s v) (hoff : v.configured = false) : v.off = v := by
  have hdisabled : v.enabled = false := by
    by_contra henabled
    rw [Bool.not_eq_false] at henabled
    exact absurd (hoff.symm.trans (h.enabled henabled)) Bool.false_ne_true
  rw [ReportView.off, h.closed hdisabled, ← hoff]

/-- Endpoints that are free. -/
theorem shows_closed (hout : Rests s.out) (hin : Rests s.inp) (htypedOut : s.out.typed = false)
    (htypedIn : s.inp.typed = false) :
    Shows s ⟨s.configured, false, s.out.halted, s.inp.halted, false, false⟩ where
  configured := rfl
  enabled := fun h => absurd h Bool.false_ne_true
  haltedOut := rfl
  haltedIn := rfl
  typedOut := htypedOut
  typedIn := htypedIn
  sizeOut := fun h => absurd h Bool.false_ne_true
  sizeIn := fun h => absurd h Bool.false_ne_true
  outp := by rwa [if_neg Bool.false_ne_true]
  inp := by rwa [if_neg Bool.false_ne_true]
  free := fun h => absurd h Bool.false_ne_true

theorem uddEpFree_fst (p : Pipe) :
    (uddEpFree p).1 =
      { p with armed := none, typed := false, job := { p.job with busy := false } } := by
  rw [uddEpFree, uddEpAbort]
  cases hbusy : p.job.busy with
  | false =>
      simp only [Bool.false_eq_true, if_false]
      rw [← hbusy]
  | true => rfl

/-- Whatever the endpoints were doing, they are free after it. -/
theorem shows_ifaceDisable (s : Pipes) :
    Shows (ifaceDisable s) ⟨s.configured, false, s.out.halted, s.inp.halted, false, false⟩ := by
  rw [ifaceDisable, answerOut_free, uddEpFree_fst]
  exact shows_closed ⟨rfl, rfl⟩ ⟨rfl, rfl⟩ rfl rfl

theorem Shows.ifaceDisable (h : Shows s v) : Shows (ifaceDisable s) v.closed := by
  have hclosed := shows_ifaceDisable s
  rwa [h.configured, h.haltedOut, h.haltedIn] at hclosed

/-- The configuration changes alone, without endpoints. -/
theorem Shows.withConfigured (h : Shows s v) (hoff : v.enabled = false) (b : Bool) :
    Shows { s with configured := b } { v with configured := b } :=
  ⟨rfl, fun henabled => absurd (hoff.symm.trans henabled) Bool.false_ne_true, h.haltedOut,
    h.haltedIn, h.typedOut, h.typedIn, h.sizeOut, h.sizeIn, h.outp, h.inp, h.free⟩

theorem Shows.udcReset (h : Shows s v) : Shows (udcReset s) v.off := by
  cases hconf : v.configured with
  | false =>
      rw [EpJobs.udcReset, h.configured, hconf, h.off hconf]
      exact h
  | true =>
      rw [EpJobs.udcReset, h.configured, hconf, if_pos rfl]
      exact h.ifaceDisable.withConfigured rfl false

/-- A bus reset frees both endpoints and takes their halts away. -/
theorem Shows.busReset (h : Shows s v) : Shows (reportStep s .busReset).1 ReportView.init := by
  rw [reportStep]
  cases hconf : v.configured with
  | false =>
      have hoff := h.off hconf
      have hout := h.restsOut (congrArg ReportView.listening hoff).symm
      have hin := h.restsIn (congrArg ReportView.sending hoff).symm
      have hreset := @shows_closed { s with out := hwReset s.out, inp := hwReset s.inp }
        ⟨rfl, hout.busy⟩ ⟨rfl, hin.busy⟩ rfl rfl
      have hview : (⟨s.configured, false, false, false, false, false⟩ : ReportView) =
          ReportView.init := by
        rw [h.configured, hconf]
        rfl
      rw [EpJobs.udcReset, if_neg (by rw [h.configured, hconf]; exact Bool.false_ne_true),
        ← hview]
      exact hreset
  | true =>
      have hreset := shows_ifaceDisable { s with out := hwReset s.out, inp := hwReset s.inp }
      rw [EpJobs.udcReset, if_pos (h.configured.trans hconf)]
      exact hreset.withConfigured rfl false

/-- An endpoint that is allocated. -/
def ready (keep : Bool) (p : Pipe) : Pipe :=
  { job := { p.job with epSize := 64 }, halted := p.halted && keep, typed := true, armed := none }

theorem ifaceEnable_eq (keep : Bool) (hout : s.out.typed = false) (hin : s.inp.typed = false) :
    ifaceEnable keep s =
      (⟨s.configured, (reportOutEnable (ready keep s.out)).1, ready keep s.inp, true⟩,
        [returned (reportOutEnable (ready keep s.out)).2]) := by
  have halloc : ∀ p : Pipe, p.typed = false →
      uddEpAlloc 3 64 { p with halted := p.halted && keep } = (ready keep p, [.returns true]) :=
    fun _ h => uddEpAlloc_of_untyped h
  rw [ifaceEnable]
  simp only [halloc _ hin, halloc _ hout]
  rfl

/-- The allocation of both endpoints, and the first read of the endpoint OUT. -/
theorem Shows.ifaceEnable (h : Shows s v) (hconf : v.configured = true) (hoff : v.enabled = false)
    (keep : Bool) :
    Shows (ifaceEnable keep s).1 (v.opened keep) ∧
      (ifaceEnable keep s).2 = [!(v.haltedOut && keep)] := by
  have hclosed := h.closed hoff
  rw [ifaceEnable_eq keep (h.typedOut.trans hoff) (h.typedIn.trans hoff)]
  have hout : (ready keep s.out).halted = (v.haltedOut && keep) :=
    congrArg (· && keep) h.haltedOut
  have hin : (ready keep s.inp).halted = (v.haltedIn && keep) :=
    congrArg (· && keep) h.haltedIn
  have hidle := (h.restsOut (congrArg ReportView.listening hclosed).symm).busy
  have hrests : Rests (ready keep s.inp) :=
    ⟨rfl, (h.restsIn (congrArg ReportView.sending hclosed).symm).busy⟩
  rw [ReportView.opened]
  cases hkeep : v.haltedOut && keep with
  | true =>
      rw [hkeep] at hout
      rw [reportOutEnable_of_halted hout]
      refine ⟨?_, rfl⟩
      exact ⟨h.configured, fun _ => hconf, hout, hin, rfl, rfl, fun _ => rfl, fun _ => rfl,
        ⟨rfl, hidle⟩, hrests, fun _ => rfl⟩
  | false =>
      rw [hkeep] at hout
      obtain ⟨q, hq, hlistens⟩ := @reportOutEnable_of_idle (ready keep s.out) hidle rfl rfl hout
      rw [hq]
      refine ⟨?_, rfl⟩
      exact ⟨h.configured, fun _ => hconf, hlistens.halted, hin, hlistens.typed, rfl,
        fun _ => hlistens.epSize, fun _ => rfl, hlistens, hrests, fun _ => rfl⟩

theorem Shows.setConfiguration (h : Shows s v) (keep : Bool) :
    Shows (setConfiguration keep s).1 (v.step (.setConfiguration keep)).1 ∧
      (setConfiguration keep s).2 = (v.step (.setConfiguration keep)).2 :=
  (h.udcReset.withConfigured rfl true).ifaceEnable rfl rfl keep

/-- A setting that does not exist costs the device its endpoints. -/
theorem Shows.setInterface (h : Shows s v) (iface setting : Byte) (keep : Bool) :
    Shows (setInterface iface setting keep s).1 (v.step (.setInterface iface setting keep)).1 ∧
      (setInterface iface setting keep s).2 = (v.step (.setInterface iface setting keep)).2 := by
  rw [EpJobs.setInterface, ReportView.step, h.configured]
  split_ifs with href hset
  · exact ⟨h, rfl⟩
  · exact ⟨h.ifaceDisable, rfl⟩
  · rw [not_or, Bool.not_eq_false] at href
    exact h.ifaceDisable.ifaceEnable href.1 rfl keep

/-- The endpoint OUT changes alone. -/
theorem Shows.withOut (h : Shows s v) {p : Pipe} {w : ReportView}
    (hother : w.configured = v.configured ∧ w.enabled = v.enabled ∧ w.haltedIn = v.haltedIn ∧
      w.sending = v.sending)
    (hhalted : p.halted = w.haltedOut) (htyped : p.typed = v.enabled)
    (hsize : v.enabled = true → p.job.epSize = 64)
    (hp : if w.listening then Listens p else Rests p) : Shows { s with out := p } w := by
  obtain ⟨hconf, hon, hin, hsending⟩ := hother
  exact ⟨h.configured.trans hconf.symm, hconf ▸ hon ▸ h.enabled, hhalted, h.haltedIn.trans hin.symm,
    htyped.trans hon.symm, h.typedIn.trans hon.symm, hon ▸ hsize, hon ▸ h.sizeIn, hp,
    hsending ▸ h.inp, hon ▸ hsending ▸ h.free⟩

/-- The endpoint IN changes alone. -/
theorem Shows.withIn (h : Shows s v) {p : Pipe} {free : Bool} {w : ReportView}
    (hother : w.configured = v.configured ∧ w.enabled = v.enabled ∧ w.haltedOut = v.haltedOut ∧
      w.listening = v.listening)
    (hhalted : p.halted = w.haltedIn) (htyped : p.typed = v.enabled)
    (hsize : v.enabled = true → p.job.epSize = 64)
    (hp : if w.sending then Sends p else Rests p)
    (hfree : v.enabled = true → free = !w.sending) :
    Shows { s with inp := p, reportInFree := free } w := by
  obtain ⟨hconf, hon, hout, hlistening⟩ := hother
  exact ⟨h.configured.trans hconf.symm, hconf ▸ hon ▸ h.enabled, h.haltedOut.trans hout.symm,
    hhalted, h.typedOut.trans hon.symm, htyped.trans hon.symm, hon ▸ h.sizeOut, hon ▸ hsize,
    hlistening ▸ h.outp, hp, hon ▸ hfree⟩

theorem Shows.haltOut (h : Shows s v) :
    Shows (reportStep s .haltOut).1 (v.step .haltOut).1 := by
  rw [reportStep, haltOut_eq]
  exact h.withOut ⟨rfl, rfl, rfl, rfl⟩ rfl h.typedOut h.sizeOut ⟨rfl, rfl⟩

theorem Shows.clearHaltOut (h : Shows s v) (r0 : Status) :
    Shows (reportStep s (.clearHaltOut r0)).1 (v.step (.clearHaltOut r0)).1 := by
  rw [reportStep]
  cases hl : v.listening with
  | true =>
      have hnext := (h.listens hl).clearHalt r0
      have hconf := h.typedOut.symm.trans (h.listens hl).typed
      refine h.withOut ⟨rfl, rfl, rfl, rfl⟩ hnext.halted (hnext.typed.trans hconf.symm)
        (fun _ => hnext.epSize) ?_
      rwa [ReportView.step, if_pos hl]
  | false =>
      have hrests := h.restsOut hl
      rw [hrests.clearHaltOut]
      refine h.withOut ⟨rfl, rfl, rfl, rfl⟩ rfl h.typedOut h.sizeOut ?_
      rw [ReportView.step, if_neg (by rw [hl]; exact Bool.false_ne_true)]
      exact ⟨hrests.armed, hrests.busy⟩

theorem Shows.outTransferred (h : Shows s v) (nb : Half) :
    Shows (reportStep s (.outTransferred nb)).1 v := by
  rw [reportStep]
  cases hl : v.listening with
  | true =>
      have hnext := (h.listens hl).transferred nb
      have hconf := h.typedOut.symm.trans (h.listens hl).typed
      have hhalted := (h.listens hl).halted.symm.trans h.haltedOut
      refine h.withOut ⟨rfl, rfl, rfl, rfl⟩ (hnext.halted.trans hhalted)
        (hnext.typed.trans hconf.symm) (fun _ => hnext.epSize) ?_
      rwa [if_pos hl]
  | false =>
      rw [(h.restsOut hl).transferred]
      exact h

/-- A halt of the endpoint IN ends a report under way, and its buffer is free. -/
theorem Shows.haltIn (h : Shows s v) : Shows (reportStep s .haltIn).1 (v.step .haltIn).1 := by
  rw [reportStep]
  cases hs : v.sending with
  | true =>
      have hsends := h.sends hs
      rw [hsends.abort]
      exact h.withIn ⟨rfl, rfl, rfl, rfl⟩ rfl h.typedIn h.sizeIn ⟨rfl, rfl⟩ fun _ => Bool.or_true _
  | false =>
      have hrests := h.restsIn hs
      have hhalt : uddEpSetHalt s.inp = ({ s.inp with halted := true }, [.returns true]) := by
        rw [uddEpSetHalt, (show Rests { s.inp with halted := true } from
          ⟨hrests.armed, hrests.busy⟩).abort]
        rfl
      rw [hrests.abort]
      simp only [hhalt]
      refine h.withIn ⟨rfl, rfl, rfl, rfl⟩ rfl h.typedIn h.sizeIn ⟨hrests.armed, hrests.busy⟩ ?_
      intro hon
      rw [answerIn, h.free hon, hs]
      rfl

theorem Shows.clearHaltIn (h : Shows s v) (hidle : s.inp.armed = none) :
    Shows (reportStep s .clearHaltIn).1 (v.step .clearHaltIn).1 := by
  have hs : v.sending = false := by
    by_contra hs
    rw [Bool.not_eq_false] at hs
    exact absurd (hidle.symm.trans (h.sends hs).armed) (Option.some_ne_none _).symm
  have hrests := h.restsIn hs
  rw [reportStep, hrests.clearHalt]
  refine h.withIn ⟨rfl, rfl, rfl, rfl⟩ rfl h.typedIn h.sizeIn ?_ ?_
  · rw [ReportView.step, if_neg (by rw [hs]; exact Bool.false_ne_true)]
    exact ⟨hrests.armed, hrests.busy⟩
  · intro hon
    rw [answerIn, h.free hon]
    exact Bool.or_false _

theorem Shows.inTransferred (h : Shows s v) :
    Shows (reportStep s .inTransferred).1 (v.step .inTransferred).1 := by
  rw [reportStep]
  cases hs : v.sending with
  | true =>
      have hsends := h.sends hs
      rw [hsends.transferred]
      exact h.withIn ⟨rfl, rfl, rfl, rfl⟩ h.haltedIn h.typedIn h.sizeIn ⟨rfl, rfl⟩
        fun _ => Bool.or_true _
  | false =>
      have hrests := h.restsIn hs
      rw [hrests.transferred]
      refine h.withIn ⟨rfl, rfl, rfl, rfl⟩ h.haltedIn h.typedIn h.sizeIn hrests ?_
      intro hon
      rw [answerIn, h.free hon, hs]
      rfl

/-- A report is taken exactly if the endpoint IN is neither halted nor at work. -/
theorem Shows.sendReportIn (h : Shows s v) (htyped : s.inp.typed = true) :
    Shows (sendReportIn s).1 (v.step .sendReportIn).1 ∧
      (sendReportIn s).2 = (v.step .sendReportIn).2 := by
  have hon : v.enabled = true := h.typedIn.symm.trans htyped
  have hfree := h.free hon
  rw [EpJobs.sendReportIn, ReportView.step, hfree]
  cases hs : v.sending with
  | true =>
      rw [Bool.or_true]
      exact ⟨h, rfl⟩
  | false =>
      have hrests := h.restsIn hs
      rw [Bool.or_false]
      cases hhalted : v.haltedIn with
      | true =>
          rw [uddEpRun_of_refused (.inl (h.haltedIn.trans hhalted))]
          refine ⟨?_, rfl⟩
          rw [if_pos rfl]
          exact h.withIn ⟨rfl, rfl, rfl, rfl⟩ h.haltedIn h.typedIn h.sizeIn h.inp fun _ => by rw [hs]; rfl
      | false =>
          obtain ⟨q, hq, hsends⟩ := uddEpRun_report hrests.busy htyped (h.sizeIn hon)
            (h.haltedIn.trans hhalted)
          rw [hq]
          refine ⟨?_, rfl⟩
          exact h.withIn ⟨rfl, rfl, rfl, rfl⟩ hsends.halted
            (hsends.typed.trans hon.symm) (fun _ => hsends.epSize) hsends fun _ => rfl

end Pair

theorem lockstep_report : Lockstep reportStep ReportView.step Orderly Shows := by
  have hstep : ∀ s v e, Shows s v → Orderly s e →
      Shows (reportStep s e).1 (v.step e).1 ∧ (reportStep s e).2 = (v.step e).2 := by
    intro s v e h he
    cases e with
    | setConfiguration keep => exact h.setConfiguration keep
    | setInterface iface setting keep => exact h.setInterface iface setting keep
    | unconfigure => exact ⟨h.udcReset, rfl⟩
    | busReset => exact ⟨h.busReset, rfl⟩
    | haltOut => exact ⟨h.haltOut, rfl⟩
    | haltIn => exact ⟨h.haltIn, rfl⟩
    | clearHaltOut r0 => exact ⟨h.clearHaltOut r0, rfl⟩
    | clearHaltIn => exact ⟨h.clearHaltIn he, rfl⟩
    | outTransferred nb => exact ⟨h.outTransferred nb, rfl⟩
    | inTransferred => exact ⟨h.inTransferred, rfl⟩
    | sendReportIn => exact h.sendReportIn he
  exact ⟨fun s v e h he => (hstep s v e h he).1, fun s v e h he => (hstep s v e h he).2⟩

theorem shows_init : Shows Pipes.init ReportView.init :=
  shows_closed ⟨rfl, rfl⟩ ⟨rfl, rfl⟩ rfl rfl

/-- In every orderly run the endpoints do what their view says, and every request gets
the answer of the view. -/
theorem report_refines (evs : List ReportEvent)
    (h : AllSteps reportStep Orderly Pipes.init evs) :
    Shows (finish reportStep Pipes.init evs) (finish ReportView.step ReportView.init evs) ∧
      (trace reportStep Pipes.init evs).map Entry.outputs =
        (trace ReportView.step ReportView.init evs).map Entry.outputs :=
  ⟨lockstep_report.next.finish shows_init h, lockstep_report.trace_outputs shows_init h⟩

/-- A run with reports both ways, halts, a setting that does not exist, and a second
configuration. -/
def reportRun : List ReportEvent :=
  [.setConfiguration true, .outTransferred 4, .sendReportIn, .sendReportIn, .inTransferred,
    .haltOut, .clearHaltOut .abort, .outTransferred 4, .haltIn, .clearHaltIn, .sendReportIn,
    .setInterface 0 1 true, .outTransferred 4, .setInterface 0 0 true, .sendReportIn,
    .setConfiguration false, .outTransferred 64]

theorem report_refines_run :
    Shows (finish reportStep Pipes.init reportRun)
        (finish ReportView.step ReportView.init reportRun) ∧
      (trace reportStep Pipes.init reportRun).map Entry.outputs =
        (trace ReportView.step ReportView.init reportRun).map Entry.outputs :=
  report_refines reportRun (by decide)

/-- The events that end the reading of the endpoint OUT: a halt, the loss of the
configuration, and the request for a setting that does not exist. -/
def Silences : ReportEvent → Prop
  | .haltOut => True
  | .unconfigure => True
  | .busReset => True
  | .setInterface iface setting _ => iface = 0 ∧ setting ≠ 0
  | _ => False

/-- The events that may start it: a new configuration, and the request for the setting
that is there. -/
def Wakes : ReportEvent → Prop
  | .setConfiguration _ => True
  | .setInterface iface setting _ => iface = 0 ∧ setting = 0
  | _ => False

section Listening

variable {v : ReportView} {e : ReportEvent}

theorem listening_step (h : v.listening = true ∧ v.haltedOut = false) (he : ¬Silences e) :
    (v.step e).1.listening = true ∧ (v.step e).1.haltedOut = false := by
  obtain ⟨hl, hh⟩ := h
  have hopened : ∀ keep, (v.opened keep).listening = true ∧ (v.opened keep).haltedOut = false := by
    intro keep
    rw [ReportView.opened, hh, Bool.false_and]
    exact ⟨rfl, rfl⟩
  cases e with
  | setConfiguration keep => exact hopened keep
  | setInterface iface setting keep =>
      rw [ReportView.step]
      split_ifs with href hset
      · exact ⟨hl, hh⟩
      · exact absurd ⟨not_not.mp (not_or.mp href).2, hset⟩ he
      · exact hopened keep
  | unconfigure => exact absurd trivial he
  | busReset => exact absurd trivial he
  | haltOut => exact absurd trivial he
  | clearHaltOut r0 => exact ⟨hl, rfl⟩
  | sendReportIn =>
      rw [ReportView.step]
      split
      · exact ⟨hl, hh⟩
      · exact ⟨hl, hh⟩
  | _ => exact ⟨hl, hh⟩

theorem deaf_step (h : v.listening = false) (he : ¬Wakes e) : (v.step e).1.listening = false := by
  cases e with
  | setConfiguration keep => exact absurd trivial he
  | setInterface iface setting keep =>
      rw [ReportView.step]
      split_ifs with href hset
      · exact h
      · rfl
      · exact absurd ⟨not_not.mp (not_or.mp href).2, not_not.mp hset⟩ he
  | sendReportIn =>
      rw [ReportView.step]
      split
      · exact h
      · exact h
  | unconfigure => rfl
  | busReset => rfl
  | haltOut => rfl
  | _ => exact h

end Listening

/-- A device that listens does so until it is halted, loses its configuration or is
asked for a setting that it does not have. One that does not listen, after a halt say, is
deaf to all reports until it is configured again or asked for the setting that it has. -/
theorem out_armed_run (evs rest : List ReportEvent)
    (h : AllSteps reportStep Orderly Pipes.init (evs ++ rest)) :
    ((finish reportStep Pipes.init evs).out.armed ≠ none →
      (∀ e ∈ rest, ¬Silences e) →
      (finish reportStep Pipes.init (evs ++ rest)).out.armed = some 64) ∧
    ((finish reportStep Pipes.init evs).out.armed = none →
      (∀ e ∈ rest, ¬Wakes e) →
      (finish reportStep Pipes.init (evs ++ rest)).out.armed = none) := by
  have hmid := lockstep_report.next.finish shows_init (allSteps_append.mp h).1
  have hend := lockstep_report.next.finish shows_init h
  rw [finish_append ReportView.step] at hend
  generalize finish ReportView.step ReportView.init evs = v at hmid hend
  constructor
  · intro harmed hrest
    have hlistening : v.listening = true := by
      by_contra hl
      rw [Bool.not_eq_true] at hl
      exact harmed (hmid.restsOut hl).armed
    have hhalted : v.haltedOut = false := hmid.haltedOut.symm.trans (hmid.listens hlistening).halted
    have hsteps : AllSteps ReportView.step (fun _ e => ¬Silences e) v rest :=
      allSteps_of_forall_mem fun e he _ => hrest e he
    have hlast := hsteps.invariant (I := fun v => v.listening = true ∧ v.haltedOut = false)
      ⟨hlistening, hhalted⟩ fun _ _ => listening_step
    exact (hend.listens hlast.1).armed
  · intro hidle hrest
    have hlistening : v.listening = false := by
      by_contra hl
      rw [Bool.not_eq_false] at hl
      rw [(hmid.listens hl).armed] at hidle
      cases hidle
    have hsteps : AllSteps ReportView.step (fun _ e => ¬Wakes e) v rest :=
      allSteps_of_forall_mem fun e he _ => hrest e he
    have hlast := hsteps.invariant (I := fun v => v.listening = false) hlistening
      fun _ _ => deaf_step
    exact (hend.restsOut hlast).armed

/-- The host halts the endpoint and clears the halt: no packet is taken after that. -/
theorem out_armed_run_deaf :
    (finish reportStep Pipes.init
      ([.setConfiguration true, .haltOut] ++ [.clearHaltOut .ok, .outTransferred 4])).out.armed =
        none :=
  (out_armed_run _ _ (by decide)).2 (by decide) (by simp [Wakes])

-- A request for the setting 0 wakes it.
example : (finish reportStep Pipes.init
    [.setConfiguration true, .haltOut, .clearHaltOut .ok, .setInterface 0 0 true]).out.armed =
      some 64 := by
  decide

end TempHumid.Th2.EpJobs
