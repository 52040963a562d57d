import TempHumid.Host.Context
import TempHumid.Host.Devices

/-!
# The form of the user interface

`Form1` keeps one device. While it has none, every fifth tick of its timer looks
for devices again. A reading that is not a number makes it drop its device.

## Implementation notes

What the getters of the device return is an input of a tick. A device that wraps
an entry outside the array, or one never stored to, is `some none`. The library
throws when `libth_init` fails. The first update is the call in `Form1_Load`,
which enables the timer behind it. The labels and the log file are left out.
-/

namespace TempHumid.Host

open Machine

/-- Between `get_device` and `update` in `Form1_Load`, with the timer enabled, and
after an exception in `Form1_Load`. -/
inductive Phase
  | loading
  | ticking
  | failed
  deriving DecidableEq

/-- The variables of the form, and the next context and handle of libusb. -/
structure Form where
  d : Option (Option LibthDev)
  chkCount : BitVec 32
  phase : Phase
  nextCtx : ℕ
  nextHandle : ℕ
  deriving DecidableEq

def Form.init : Form := ⟨none, 0, .loading, 0, 0⟩

def chkInterval : BitVec 32 := 4

/-- What a call of `get_device` meets: the result of `libusb_init`, and the bus in
both passes. -/
structure Attempt where
  init : InitResult
  first : Option (List UsbDevice)
  second : Option (List UsbDevice)

/-- What an update meets: a call of `get_device`, or the two readings. -/
structure Tick where
  attempt : Attempt
  temp : Option ℤ
  humid : Option ℤ

/-- A method has run, or thrown an exception. -/
structure Ran where
  threw : Bool
  form : Form
  calls : List LibusbCall

def getDevice (a : Attempt) (s : Form) : Ran :=
  match a.init with
  | .ok =>
      let g := devicesGet (some s.nextCtx) a.first a.second s.nextHandle
      { threw := false
        form :=
          { s with
            d := match g.devices.head? with
              | some dev => some dev
              | none => s.d
            nextCtx := s.nextCtx + 1
            nextHandle := g.nextHandle }
        calls := .init s.nextCtx :: g.calls }
  | _ => ⟨true, s, []⟩

def update (t : Tick) (s : Form) : Ran :=
  match s.d with
  | none =>
      let s' := { s with chkCount := s.chkCount - 1 }
      if s.chkCount = 0 then
        let r := getDevice t.attempt s'
        -- an exception passes over the reload of the counter
        if r.threw then r else { r with form := { r.form with chkCount := chkInterval } }
      else ⟨false, s', []⟩
  | some _ =>
      -- the device is dropped without a call that closes its handle
      if t.temp = none ∨ t.humid = none then ⟨false, { s with d := none }, []⟩
      else ⟨false, s, []⟩

/-- `get_device` in `Form1_Load`. -/
def formLoad (a : Attempt) : Form × List LibusbCall :=
  let r := getDevice a Form.init
  ({ r.form with phase := if r.threw then .failed else .loading }, r.calls)

/-- The update in `Form1_Load`, or a tick. -/
def formStep : Step Form Tick LibusbCall := fun s t =>
  match s.phase with
  | .loading =>
      let r := update t s
      ({ r.form with phase := if r.threw then .failed else .ticking }, r.calls)
  | .ticking => ((update t s).form, (update t s).calls)
  | .failed => (s, [])

/-! ## The property and the condition -/

def observeCalls (calls : List LibusbCall) (en : Entry Form Tick LibusbCall) : List LibusbCall :=
  calls ++ en.outputs

/-- Every open handle is the one that the device wraps. -/
def OnlyHeld (s : Form) (calls : List LibusbCall) : Prop :=
  ∀ h, IsOpen calls h → s.d = some (some ⟨some h⟩)

def HeldAfter (p : Form × List LibusbCall) (t : Tick) : Prop :=
  OnlyHeld (formStep p.1 t).1 (p.2 ++ (formStep p.1 t).2)

/-- At most one matching device is found in both passes. -/
def StoresOne (a : Attempt) : Prop :=
  a.init = .ok → min (matchCount a.first) (matchCount a.second) ≤ 1

/-- An update without a device stores one handle at most, and an update with an
open one reads two numbers. -/
def UpdateKeeps (s : Form) (t : Tick) : Prop :=
  match s.d with
  | none => s.chkCount = 0 → StoresOne t.attempt
  | some none => True
  | some (some _) => t.temp ≠ none ∧ t.humid ≠ none

def KeepsHandle (s : Form) (t : Tick) : Prop := s.phase ≠ .failed → UpdateKeeps s t

/-- What holds between updates. -/
structure FormInv (s : Form) (calls : List LibusbCall) : Prop where
  only : OnlyHeld s calls
  filled : ∀ dev, s.d = some (some dev) → ∃ h, dev = ⟨some h⟩ ∧ IsOpen calls h
  fresh : HandlesIn calls 0 s.nextHandle

theorem formInv_init : FormInv Form.init [] where
  only := by
    rintro h ⟨hopen, -⟩
    cases hopen
  filled := by
    rintro dev (_ | _)
  fresh := ⟨by simp [opensOf], by simp [closesOf]⟩

section GetDevice

variable {a : Attempt} {s : Form} {calls : List LibusbCall}

theorem getDevice_threw (h : a.init ≠ .ok) : getDevice a s = ⟨true, s, []⟩ := by
  cases hinit : a.init with
  | ok => exact absurd hinit h
  | failedKept => simp only [getDevice, hinit]
  | failedCleared => simp only [getDevice, hinit]

/-- The handles that a call of `get_device` leaves in the array. -/
def newHandles (a : Attempt) (s : Form) : List (UsbDevice × ℕ) :=
  stored a.first a.second s.nextHandle

theorem getDevice_handlesIn (hok : a.init = .ok) :
    HandlesIn (getDevice a s).calls s.nextHandle (getDevice a s).form.nextHandle := by
  have hg := (twoPasses s.nextCtx a.first a.second s.nextHandle).handlesIn
  simp only [getDevice, hok]
  exact ⟨hg.opens, hg.closes⟩

theorem getDevice_isOpen (hok : a.init = .ok) (h : ℕ) :
    IsOpen (getDevice a s).calls h ↔ h ∈ (newHandles a s).map Prod.snd := by
  have hg := (twoPasses s.nextCtx a.first a.second s.nextHandle).isOpen_iff (h := h)
  simp only [getDevice, hok]
  exact hg

theorem getDevice_of_stored (hok : a.init = .ok) {k : UsbDevice × ℕ} {ks : List (UsbDevice × ℕ)}
    (hstored : newHandles a s = k :: ks) :
    (getDevice a s).form.d = some (some ⟨some k.2⟩) := by
  have hg := (twoPasses s.nextCtx a.first a.second s.nextHandle).head?_of_stored hstored
  simp only [getDevice, hok, hg]

theorem getDevice_of_empty (hok : a.init = .ok) (hnone : s.d = none)
    (hstored : newHandles a s = []) (dev : LibthDev) :
    (getDevice a s).form.d ≠ some (some dev) := by
  have hg := (twoPasses s.nextCtx a.first a.second s.nextHandle).head?_of_empty hstored dev
  simp only [getDevice, hok, hnone]
  split
  · next d hd =>
      intro h
      exact hg (hd.trans h)
  · simp

/-- A form without a device leaves no handle open. -/
theorem not_isOpen_of_none (hinv : FormInv s calls) (hnone : s.d = none) (h : ℕ) :
    ¬IsOpen calls h := by
  intro hopen
  cases hnone.symm.trans (hinv.only h hopen)

/-- After `get_device` the open handles are those left in the array. -/
theorem isOpen_getDevice (hinv : FormInv s calls) (hnone : s.d = none) (hok : a.init = .ok)
    (h : ℕ) : IsOpen (calls ++ (getDevice a s).calls) h ↔ h ∈ (newHandles a s).map Prod.snd := by
  rw [isOpen_append hinv.fresh (getDevice_handlesIn hok), getDevice_isOpen hok]
  exact or_iff_right (not_isOpen_of_none hinv hnone h)

theorem newHandles_length (a : Attempt) (s : Form) :
    (newHandles a s).length = min (matchCount a.first) (matchCount a.second) :=
  stored_length a.first a.second s.nextHandle

/-- `get_device` leaves no other handle open if and only if it stores one at most. -/
theorem onlyHeld_getDevice (hinv : FormInv s calls) (hnone : s.d = none) (hok : a.init = .ok) :
    OnlyHeld (getDevice a s).form (calls ++ (getDevice a s).calls) ↔
      min (matchCount a.first) (matchCount a.second) ≤ 1 := by
  rw [← newHandles_length a s]
  match hnew : newHandles a s with
  | [] =>
      refine iff_of_true (fun h hopen => ?_) (Nat.zero_le 1)
      rw [isOpen_getDevice hinv hnone hok, hnew] at hopen
      cases hopen
  | [k] =>
      refine iff_of_true (fun h hopen => ?_) le_rfl
      rw [isOpen_getDevice hinv hnone hok, hnew] at hopen
      rw [List.mem_singleton.mp hopen]
      exact getDevice_of_stored hok hnew
  | k :: k' :: ks =>
      refine iff_of_false (fun honly => ?_) (by simp)
      have hopen : IsOpen (calls ++ (getDevice a s).calls) k'.2 := by
        rw [isOpen_getDevice hinv hnone hok, hnew]
        simp
      have hsame : k.2 = k'.2 := by
        have hd := (getDevice_of_stored hok hnew).symm.trans (honly k'.2 hopen)
        simpa using hd
      have hnodup : ((newHandles a s).map Prod.snd).Nodup := kept_nodup _ _ _
      rw [hnew] at hnodup
      simp [hsame] at hnodup

theorem formInv_getDevice (hinv : FormInv s calls) (hnone : s.d = none) (hok : a.init = .ok)
    (hle : min (matchCount a.first) (matchCount a.second) ≤ 1) :
    FormInv (getDevice a s).form (calls ++ (getDevice a s).calls) where
  only := (onlyHeld_getDevice hinv hnone hok).mpr hle
  filled := by
    intro dev hdev
    match hnew : newHandles a s with
    | [] => exact absurd hdev (getDevice_of_empty hok hnone hnew dev)
    | k :: ks =>
        have hd := hdev.symm.trans (getDevice_of_stored hok hnew)
        refine ⟨k.2, Option.some.inj (Option.some.inj hd), ?_⟩
        rw [isOpen_getDevice hinv hnone hok, hnew]
        exact List.mem_cons_self
  fresh := by
    have hle : s.nextHandle ≤ (getDevice a s).form.nextHandle := by
      simp only [getDevice, hok, (twoPasses s.nextCtx a.first a.second s.nextHandle).nextHandle,
        secondNext]
      omega
    exact hinv.fresh.append (getDevice_handlesIn hok) (Nat.zero_le _) hle

end GetDevice

section Update

variable {s s' : Form} {t : Tick} {calls : List LibusbCall}

theorem onlyHeld_congr (hd : s'.d = s.d) : OnlyHeld s' calls ↔ OnlyHeld s calls := by
  rw [OnlyHeld, hd]
  exact Iff.rfl

theorem FormInv.congr (h : FormInv s calls) (hd : s'.d = s.d)
    (hnext : s'.nextHandle = s.nextHandle) : FormInv s' calls where
  only := (onlyHeld_congr hd).mpr h.only
  filled := fun dev hdev => h.filled dev (hd.symm.trans hdev)
  fresh := hnext ▸ h.fresh

/-- An update without a device counts down. -/
theorem update_wait (hnone : s.d = none) (hcount : s.chkCount ≠ 0) :
    update t s = ⟨false, { s with chkCount := s.chkCount - 1 }, []⟩ := by
  simp only [update, hnone]
  exact if_neg hcount

/-- The form that `get_device` finds in an update. -/
def Form.counted (s : Form) : Form := { s with chkCount := s.chkCount - 1 }

/-- At the end of the countdown an update looks for a device. -/
theorem update_check (hnone : s.d = none) (hcount : s.chkCount = 0)
    (hok : t.attempt.init = .ok) :
    update t s = { getDevice t.attempt s.counted with
      form := { (getDevice t.attempt s.counted).form with chkCount := chkInterval } } := by
  obtain ⟨d, chkCount, phase, nextCtx, nextHandle⟩ := s
  obtain rfl : d = none := hnone
  have hthrew (s : Form) : (getDevice t.attempt s).threw = false := by simp only [getDevice, hok]
  exact (if_pos hcount).trans (if_neg (ne_true_of_eq_false (hthrew _)))

theorem update_threw (hnone : s.d = none) (hcount : s.chkCount = 0)
    (herr : t.attempt.init ≠ .ok) : update t s = ⟨true, s.counted, []⟩ := by
  obtain ⟨d, chkCount, phase, nextCtx, nextHandle⟩ := s
  obtain rfl : d = none := hnone
  refine (if_pos hcount).trans ?_
  rw [getDevice_threw herr]
  rfl

theorem update_dropped {dev : Option LibthDev} (hd : s.d = some dev)
    (hnan : t.temp = none ∨ t.humid = none) : update t s = ⟨false, { s with d := none }, []⟩ := by
  simp only [update, hd]
  exact if_pos hnan

theorem update_shown {dev : Option LibthDev} (hd : s.d = some dev)
    (hread : ¬(t.temp = none ∨ t.humid = none)) : update t s = ⟨false, s, []⟩ := by
  simp only [update, hd]
  exact if_neg hread

/-- The branches of an update. -/
@[elab_as_elim]
theorem update_cases {motive : Ran → Prop} (t : Tick) (s : Form)
    (wait : s.d = none → s.chkCount ≠ 0 → motive ⟨false, s.counted, []⟩)
    (check : s.d = none → s.chkCount = 0 → t.attempt.init = .ok →
      motive { getDevice t.attempt s.counted with
        form := { (getDevice t.attempt s.counted).form with chkCount := chkInterval } })
    (threw : s.d = none → s.chkCount = 0 → t.attempt.init ≠ .ok → motive ⟨true, s.counted, []⟩)
    (dropped : ∀ dev, s.d = some dev → (t.temp = none ∨ t.humid = none) →
      motive ⟨false, { s with d := none }, []⟩)
    (shown : ∀ dev, s.d = some dev → ¬(t.temp = none ∨ t.humid = none) →
      motive ⟨false, s, []⟩) : motive (update t s) := by
  cases hd : s.d with
  | none =>
      by_cases hcount : s.chkCount = 0
      · by_cases hok : t.attempt.init = .ok
        · rw [update_check hd hcount hok]
          exact check hd hcount hok
        · rw [update_threw hd hcount hok]
          exact threw hd hcount hok
      · rw [update_wait hd hcount]
        exact wait hd hcount
  | some dev =>
      by_cases hnan : t.temp = none ∨ t.humid = none
      · rw [update_dropped hd hnan]
        exact dropped dev hd hnan
      · rw [update_shown hd hnan]
        exact shown dev hd hnan

/-- After an update only the device's handle is open if and only if the update keeps it. -/
theorem onlyHeld_update (hinv : FormInv s calls) :
    OnlyHeld (update t s).form (calls ++ (update t s).calls) ↔ UpdateKeeps s t := by
  refine update_cases t s ?wait ?check ?threw ?dropped ?shown
  case wait =>
    intro hd hcount
    rw [UpdateKeeps, hd, List.append_nil]
    exact iff_of_true ((onlyHeld_congr rfl).mpr hinv.only) fun hzero => absurd hzero hcount
  case check =>
    intro hd hcount hok
    have hcounted : FormInv s.counted calls := hinv.congr rfl rfl
    rw [UpdateKeeps, hd]
    refine (onlyHeld_congr rfl).trans ((onlyHeld_getDevice hcounted hd hok).trans ?_)
    exact ⟨fun hle _ _ => hle, fun hone => hone hcount hok⟩
  case threw =>
    intro hd _ hok
    rw [UpdateKeeps, hd, List.append_nil]
    exact iff_of_true ((onlyHeld_congr rfl).mpr hinv.only) fun _ hinit => absurd hinit hok
  case dropped =>
    intro dev hd hnan
    rw [UpdateKeeps, hd, List.append_nil]
    cases dev with
    | none =>
        refine iff_of_true (fun h hopen => ?_) trivial
        cases hd.symm.trans (hinv.only h hopen)
    | some dev =>
        refine iff_of_false (fun honly => ?_) (by simpa only [not_and_or, not_not] using hnan)
        obtain ⟨h, -, hopen⟩ := hinv.filled dev hd
        cases honly h hopen
  case shown =>
    intro dev hd hnan
    rw [UpdateKeeps, hd, List.append_nil]
    refine iff_of_true hinv.only ?_
    cases dev with
    | none => trivial
    | some dev => exact not_or.mp hnan

theorem formInv_update (hinv : FormInv s calls) (hkeep : UpdateKeeps s t) :
    FormInv (update t s).form (calls ++ (update t s).calls) := by
  have honly := (onlyHeld_update hinv).mpr hkeep
  revert honly
  refine update_cases t s ?wait ?check ?threw ?dropped ?shown
  case wait =>
    intro _ _ _
    rw [List.append_nil]
    exact hinv.congr rfl rfl
  case check =>
    intro hd hcount hok _
    rw [UpdateKeeps, hd] at hkeep
    have hcounted : FormInv s.counted calls := hinv.congr rfl rfl
    exact (formInv_getDevice hcounted hd hok (hkeep hcount hok)).congr rfl rfl
  case threw =>
    intro _ _ _ _
    rw [List.append_nil]
    exact hinv.congr rfl rfl
  case dropped =>
    intro dev _ _ honly
    rw [List.append_nil] at honly ⊢
    refine ⟨honly, ?_, hinv.fresh⟩
    rintro dev (_ | _)
  case shown =>
    intro _ _ _ _
    rw [List.append_nil]
    exact hinv

end Update

theorem heldAfter_iff (p : Form × List LibusbCall) (t : Tick) (hinv : FormInv p.1 p.2) :
    HeldAfter p t ↔ KeepsHandle p.1 t := by
  have honly := onlyHeld_update (t := t) hinv
  rw [HeldAfter, KeepsHandle]
  cases hphase : p.1.phase with
  | failed =>
      have hstep : formStep p.1 t = (p.1, []) := by simp only [formStep, hphase]
      rw [hstep, List.append_nil]
      exact iff_of_true hinv.only fun hne => absurd rfl hne
  | loading =>
      simp only [formStep, hphase]
      exact (onlyHeld_congr rfl).trans (honly.trans (by simp))
  | ticking =>
      simp only [formStep, hphase]
      exact honly.trans (by simp)

theorem formInv_step (p : Form × List LibusbCall) (t : Tick) (hinv : FormInv p.1 p.2)
    (hkeep : KeepsHandle p.1 t) :
    FormInv (paired formStep observeCalls p t).1.1 (paired formStep observeCalls p t).1.2 := by
  change FormInv (formStep p.1 t).1 (p.2 ++ (formStep p.1 t).2)
  rw [KeepsHandle] at hkeep
  cases hphase : p.1.phase with
  | failed =>
      have hstep : formStep p.1 t = (p.1, []) := by simp only [formStep, hphase]
      rw [hstep, List.append_nil]
      exact hinv
  | loading =>
      simp only [formStep, hphase]
      exact (formInv_update hinv (hkeep (by simp [hphase]))).congr rfl rfl
  | ticking =>
      simp only [formStep, hphase]
      exact formInv_update hinv (hkeep (by simp [hphase]))

/-- `get_device` in `Form1_Load`. -/
theorem onlyHeld_formLoad (a : Attempt) :
    OnlyHeld (formLoad a).1 (formLoad a).2 ↔ StoresOne a := by
  by_cases hok : a.init = .ok
  · have honly := onlyHeld_getDevice (a := a) formInv_init rfl hok
    refine (onlyHeld_congr rfl).trans (honly.trans ?_)
    exact ⟨fun hle _ => hle, fun hone => hone hok⟩
  · refine iff_of_true ?_ fun hinit => absurd hinit hok
    rw [formLoad, getDevice_threw hok]
    exact (onlyHeld_congr rfl).mpr formInv_init.only

theorem formInv_formLoad {a : Attempt} (hone : StoresOne a) :
    FormInv (formLoad a).1 (formLoad a).2 := by
  by_cases hok : a.init = .ok
  · exact (formInv_getDevice formInv_init rfl hok (hone hok)).congr rfl rfl
  · rw [formLoad, getDevice_threw hok]
    exact formInv_init.congr rfl rfl

/-- In a run of the form, after the load and after every update, only the handle of
the current device is open if and only if no enumeration finds a second device and
no reading of an open device fails. -/
theorem only_device_open_iff (a : Attempt) (ts : List Tick) :
    (OnlyHeld (formLoad a).1 (formLoad a).2 ∧
        AllSteps (paired formStep observeCalls) HeldAfter (formLoad a) ts) ↔
      StoresOne a ∧ AllSteps formStep KeepsHandle (formLoad a).1 ts := by
  have hpaired : AllSteps (paired formStep observeCalls) (fun p t => KeepsHandle p.1 t)
      ((formLoad a).1, (formLoad a).2) ts ↔ AllSteps formStep KeepsHandle (formLoad a).1 ts :=
    allSteps_paired_iff
  rw [onlyHeld_formLoad]
  apply and_congr_right
  intro hone
  exact (allSteps_congr (I := fun p => FormInv p.1 p.2) (formInv_formLoad hone)
    heldAfter_iff formInv_step).trans hpaired

/-- One device on the bus in both passes. -/
def oneDevice : Attempt := ⟨.ok, some [ours], some [ours]⟩

/-- A failed reading drops the device, and its handle stays open. -/
theorem failed_reading_leaks :
    (formLoad oneDevice).1.d = some (some ⟨some 1⟩) ∧
      (formStep (formLoad oneDevice).1 ⟨oneDevice, none, none⟩).1.d = none ∧
      IsOpen ((formLoad oneDevice).2 ++
        (formStep (formLoad oneDevice).1 ⟨oneDevice, none, none⟩).2) 1 ∧
      ¬AllSteps (paired formStep observeCalls) HeldAfter (formLoad oneDevice)
        [⟨oneDevice, none, none⟩] := by
  have hopen : IsOpen ((formLoad oneDevice).2 ++
      (formStep (formLoad oneDevice).1 ⟨oneDevice, none, none⟩).2) 1 := by decide
  refine ⟨by decide, by decide, hopen, ?_⟩
  rintro ⟨hheld, -⟩
  exact absurd (hheld 1 hopen) (by decide)

end TempHumid.Host
