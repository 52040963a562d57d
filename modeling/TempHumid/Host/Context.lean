import TempHumid.Library.Machine
import TempHumid.Host.Enumeration

/-!
# The context of the host library

`libth_init` stores the context that `libusb_init` creates in a global pointer,
and every other function tests that pointer. `libth_close` passes the context to
`libusb_exit` and leaves the pointer as it is, and `libth_init` overwrites it.

## Implementation notes

Contexts are numbers in the order of their creation. A failed `libusb_init` leaves
the pointer alone or clears it. A caller names a device by its position among the
devices handed out so far. The memory of a `libth_dev` is never freed.
-/

namespace TempHumid.Host

open Machine

/-- The pointer, the contexts passed to `libusb_exit`, the next context and handle
of libusb, and the devices handed out with the contexts of their handles. -/
structure Library where
  ctx : Option ℕ
  exited : List ℕ
  nextCtx : ℕ
  nextHandle : ℕ
  issued : List (LibthDev × ℕ)
  deriving DecidableEq

def Library.init : Library := ⟨none, [], 0, 0, []⟩

/-- What `libusb_init` does. -/
inductive InitResult
  | ok
  | failedKept
  | failedCleared
  deriving DecidableEq

inductive HostCall
  | init (r : InitResult)
  | getDevices (bus : Option (List UsbDevice)) (devs : Option Slots) (devsLen : ℕ)
  | getTemperature (dev : Option ℕ) (first second : Transfer)
  | getHumidity (dev : Option ℕ) (first second : Transfer)
  | close

/-- A call into libusb, or a value returned to the caller. -/
inductive HostAct
  | usb (u : LibusbCall)
  | count (n : ℕ)
  | reading (x : Option ℤ)
  deriving DecidableEq

def libthInit (r : InitResult) (s : Library) : Library × List HostAct :=
  match r with
  | .ok => ({ s with ctx := some s.nextCtx, nextCtx := s.nextCtx + 1 }, [.usb (.init s.nextCtx)])
  | .failedKept => (s, [])
  | .failedCleared => ({ s with ctx := none }, [])

/-- The devices that a call has handed out. -/
def handedOut (devsLen : ℕ) (e : Enumeration) : List LibthDev :=
  match e.devs with
  | some slots => (List.range (min devsLen e.cnt)).filterMap slots
  | none => []

def getDevicesStep (bus : Option (List UsbDevice)) (devs : Option Slots) (devsLen : ℕ)
    (s : Library) : Library × List HostAct :=
  let e := libthGetDevices s.ctx bus devs devsLen s.nextHandle
  ({ s with
      nextHandle := e.nextHandle
      issued := s.issued ++ (handedOut devsLen e).map fun d => (d, s.ctx.getD 0) },
    e.calls.map .usb ++ [.count e.cnt])

/-- The device that a caller names, `none` for `NULL`. -/
def Library.find (s : Library) (dev : Option ℕ) : Option (LibthDev × ℕ) :=
  dev.bind fun k => s.issued[k]?

/-- The transfers of a getter on handle `h`. -/
def getterTransfers (i : Fin 2) (c h : ℕ) (first : Transfer) : List LibusbCall :=
  .controlTransfer c h (getReport (reportValue i) 4) ::
    match first (getReport (reportValue i) 4) with
    | some bytes =>
        if bytes.length = 4 then [] else [.controlTransfer c h (getReport (1 <<< 8) 8)]
    | none => [.controlTransfer c h (getReport (1 <<< 8) 8)]

def getterCalls (i : Fin 2) (ctx : Option ℕ) (dev : Option (LibthDev × ℕ)) (first : Transfer) :
    List LibusbCall :=
  match ctx, dev with
  | some _, some (⟨some h⟩, c) => getterTransfers i c h first
  | _, _ => []

def getterStep (i : Fin 2) (dev : Option ℕ) (first second : Transfer) (s : Library) :
    Library × List HostAct :=
  (s, (getterCalls i s.ctx (s.find dev) first).map .usb ++
    [.reading (libthGet i s.ctx.isSome ((s.find dev).map Prod.fst) first second)])

def libthClose (s : Library) : Library × List HostAct :=
  match s.ctx with
  -- the pointer is not cleared
  | some c => ({ s with exited := s.exited ++ [c] }, [.usb (.exit c)])
  | none => (s, [])

def hostStep : Step Library HostCall HostAct := fun s call =>
  match call with
  | .init r => libthInit r s
  | .getDevices bus devs devsLen => getDevicesStep bus devs devsLen s
  | .getTemperature dev first second => getterStep ⟨0, Nat.two_pos⟩ dev first second s
  | .getHumidity dev first second => getterStep ⟨1, Nat.one_lt_two⟩ dev first second s
  | .close => libthClose s

/-! ## The property and the condition -/

/-- Whether `libth_close` has been called since the latest successful `libth_init`. -/
def observeClosed (flag : Bool) (en : Entry Library HostCall HostAct) : Bool :=
  match en.input with
  | .close => true
  | .init .ok => false
  | _ => flag

/-- A call that finds the library closed. -/
def Idle (call : HostCall) (acts : List HostAct) : Prop :=
  match call with
  | .init _ => True
  | .getDevices _ _ _ => acts = [.count 0]
  | .getTemperature _ _ _ | .getHumidity _ _ _ => acts = [.reading none]
  | .close => acts = []

/-- Every context that has been created and not passed to `libusb_exit` is in the pointer. -/
def Library.NotLost (s : Library) : Prop := ∀ c < s.nextCtx, c ∉ s.exited → s.ctx = some c

/-- No call into libusb concerns a context passed to `libusb_exit`, no context is
passed to it twice or lost, and a closed library stays idle. -/
structure Sound (p : Library × Bool) (call : HostCall) : Prop where
  notExited : ∀ u, .usb u ∈ (hostStep p.1 call).2 → u.context ∉ p.1.exited
  once : (hostStep p.1 call).1.exited.Nodup
  notLost : (hostStep p.1 call).1.NotLost
  idle : p.2 = true → Idle call (hostStep p.1 call).2

/-- The pointer holds a context in use. -/
def Library.Live (s : Library) : Prop := ∃ c, s.ctx = some c ∧ c ∉ s.exited

/-- The pointer holds a context passed to `libusb_exit`. -/
def Library.Dangling (s : Library) : Prop := ∃ c, s.ctx = some c ∧ c ∈ s.exited

/-- The pointer is set, and the named device has handle `h` of context `c`. -/
structure Library.Reaches (s : Library) (dev : Option ℕ) (h c : ℕ) : Prop where
  ctx : s.ctx ≠ none
  device : s.find dev = some (⟨some h⟩, c)

/-- The order of calls that the library copes with. -/
def Disciplined (s : Library) : HostCall → Prop
  | .init .failedKept => True
  | .init _ => ¬s.Live
  | .getDevices _ _ _ | .close => ¬s.Dangling
  | .getTemperature dev _ _ | .getHumidity dev _ _ => ∀ h c, s.Reaches dev h c → c ∉ s.exited

/-- What holds between calls. -/
structure LibraryInv (p : Library × Bool) : Prop where
  exitedLt : ∀ c ∈ p.1.exited, c < p.1.nextCtx
  ctxLt : ∀ c, p.1.ctx = some c → c < p.1.nextCtx
  ownerLt : ∀ k ∈ p.1.issued, k.2 < p.1.nextCtx
  nodup : p.1.exited.Nodup
  notLost : p.1.NotLost
  closed : p.2 = true → ¬p.1.Live

theorem libraryInv_init : LibraryInv (Library.init, false) := by
  refine ⟨?_, ?_, ?_, List.nodup_nil, ?_, ?_⟩
  · rintro c (_ | _)
  · rintro c (_ | _)
  · rintro k (_ | _)
  · rintro c (_ | _)
  · rintro (_ | _)

/-! ## One call -/

section Calls

variable {p : Library × Bool}

/-- A call that leaves the contexts alone keeps them apart. -/
theorem sound_of_frame (h : LibraryInv p) {call : HostCall}
    (hctx : (hostStep p.1 call).1.ctx = p.1.ctx)
    (hexited : (hostStep p.1 call).1.exited = p.1.exited)
    (hnext : (hostStep p.1 call).1.nextCtx = p.1.nextCtx)
    (hcalls : ∀ u, .usb u ∈ (hostStep p.1 call).2 → u.context ∉ p.1.exited)
    (hidle : p.2 = true → Idle call (hostStep p.1 call).2) : Sound p call where
  notExited := hcalls
  once := hexited ▸ h.nodup
  notLost := by
    rw [Library.NotLost, hctx, hexited, hnext]
    exact h.notLost
  idle := hidle

theorem sound_init_ok (h : LibraryInv p) : Sound p (.init .ok) ↔ ¬p.1.Live := by
  constructor
  · rintro hs ⟨c, hc, hlive⟩
    have hlt := h.ctxLt c hc
    have hnew : some p.1.nextCtx = some c := hs.notLost c (Nat.lt_succ_of_lt hlt) hlive
    rw [Option.some.inj hnew] at hlt
    exact Nat.lt_irrefl c hlt
  · intro hdead
    refine ⟨?_, h.nodup, ?_, fun _ => trivial⟩
    · intro u hu
      have hinit : u = .init p.1.nextCtx := by simpa [hostStep, libthInit] using hu
      rw [hinit]
      exact fun hmem => Nat.lt_irrefl _ (h.exitedLt _ hmem)
    · intro c hc hlive
      rcases Nat.lt_succ_iff_lt_or_eq.mp hc with hlt | rfl
      · exact absurd ⟨c, h.notLost c hlt hlive, hlive⟩ hdead
      · rfl

theorem sound_init_failedKept (h : LibraryInv p) : Sound p (.init .failedKept) :=
  sound_of_frame h rfl rfl rfl (fun u hu => by cases hu) fun _ => trivial

theorem sound_init_failedCleared (h : LibraryInv p) :
    Sound p (.init .failedCleared) ↔ ¬p.1.Live := by
  constructor
  · rintro hs ⟨c, hc, hlive⟩
    cases hs.notLost c (h.ctxLt c hc) hlive
  · intro hdead
    refine ⟨?_, h.nodup, ?_, fun _ => trivial⟩
    · intro u hu
      cases hu
    · intro c hc hlive
      exact absurd ⟨c, h.notLost c hc hlive, hlive⟩ hdead

theorem sound_getDevices (h : LibraryInv p) (bus : Option (List UsbDevice)) (devs : Option Slots)
    (devsLen : ℕ) : Sound p (.getDevices bus devs devsLen) ↔ ¬p.1.Dangling := by
  constructor
  · rintro hs ⟨c, hc, hexited⟩
    have hlisted := (libthGetDevices_enumerated c bus devs devsLen p.1.nextHandle).listed
    refine hs.notExited (.getDeviceList c) ?_ hexited
    simp only [hostStep, getDevicesStep, hc]
    exact List.mem_append_left _ (List.mem_map_of_mem hlisted)
  · intro hsafe
    cases hc : p.1.ctx with
    | none =>
        have hacts : (hostStep p.1 (.getDevices bus devs devsLen)).2 = [.count 0] := by
          simp only [hostStep, getDevicesStep, hc]
          rfl
        refine sound_of_frame h rfl rfl rfl (fun u hu => ?_) fun _ => hacts
        rw [hacts] at hu
        simp at hu
    | some c =>
        have hlive : c ∉ p.1.exited := fun hexited => hsafe ⟨c, hc, hexited⟩
        refine sound_of_frame h rfl rfl rfl (fun u hu => ?_) fun hclosed =>
          absurd ⟨c, hc, hlive⟩ (h.closed hclosed)
        have hu : u ∈ (libthGetDevices (some c) bus devs devsLen p.1.nextHandle).calls := by
          simpa [hostStep, getDevicesStep, hc] using hu
        rw [(libthGetDevices_enumerated c bus devs devsLen p.1.nextHandle).context u hu]
        exact hlive

theorem sound_close (h : LibraryInv p) : Sound p .close ↔ ¬p.1.Dangling := by
  constructor
  · rintro hs ⟨c, hc, hexited⟩
    refine hs.notExited (.exit c) ?_ hexited
    simp [hostStep, libthClose, hc]
  · intro hsafe
    cases hc : p.1.ctx with
    | none =>
        have hstep : hostStep p.1 .close = (p.1, []) := by simp only [hostStep, libthClose, hc]
        refine ⟨?_, ?_, ?_, ?_⟩ <;> rw [hstep]
        · intro u hu
          cases hu
        · exact h.nodup
        · exact h.notLost
        · exact fun _ => rfl
    | some c =>
        have hlive : c ∉ p.1.exited := fun hexited => hsafe ⟨c, hc, hexited⟩
        have hstep : hostStep p.1 .close =
            ({ p.1 with exited := p.1.exited ++ [c] }, [.usb (.exit c)]) := by
          simp only [hostStep, libthClose, hc]
        refine ⟨?_, ?_, ?_, ?_⟩ <;> rw [hstep]
        · intro u hu
          have hexit : u = .exit c := by simpa using hu
          rw [hexit]
          exact hlive
        · exact List.nodup_append.mpr ⟨h.nodup, List.nodup_singleton c, by grind⟩
        · intro c' hlt hnot
          exact h.notLost c' hlt fun hmem => hnot (List.mem_append_left _ hmem)
        · exact fun hclosed => absurd ⟨c, hc, hlive⟩ (h.closed hclosed)

/-- The transfers of a getter concern the context of the handle. -/
theorem getterTransfers_context {i : Fin 2} {c h : ℕ} {first : Transfer} {u : LibusbCall}
    (hu : u ∈ getterTransfers i c h first) : u.context = c := by
  rcases List.mem_cons.mp hu with rfl | hu
  · rfl
  · revert hu
    cases first (getReport (reportValue i) 4) with
    | none => simp +contextual [LibusbCall.context]
    | some bytes =>
        by_cases hlen : bytes.length = 4 <;> simp +contextual [hlen, LibusbCall.context]

section Getter

variable {s : Library} {dev : Option ℕ}

theorem getterStep_of_reaches {i : Fin 2} {first second : Transfer} {h c : ℕ} (hr : s.Reaches dev h c) :
    (getterStep i dev first second s).2 = (getterTransfers i c h first).map .usb ++
      [.reading (libthGet i s.ctx.isSome ((s.find dev).map Prod.fst) first second)] := by
  obtain ⟨c', hctx⟩ := Option.ne_none_iff_exists'.mp hr.ctx
  simp only [getterStep, getterCalls, hctx, hr.device]

/-- A getter without a device or a pointer returns `NAN` and calls nothing. -/
theorem getterStep_of_not_reaches (i : Fin 2) (first second : Transfer)
    (hr : ∀ h c, ¬s.Reaches dev h c) :
    (getterStep i dev first second s).2 = [.reading none] := by
  cases hctx : s.ctx with
  | none =>
      simp only [getterStep, getterCalls, hctx]
      rfl
  | some c' =>
      cases hfind : s.find dev with
      | none =>
          simp only [getterStep, getterCalls, hctx, hfind]
          rfl
      | some k =>
          obtain ⟨⟨handle⟩, c⟩ := k
          cases handle with
          | none =>
              simp only [getterStep, getterCalls, hctx, hfind]
              rfl
          | some h => exact absurd ⟨by simp [hctx], hfind⟩ (hr h c)

end Getter

/-- A getter leaves the library as it is. -/
theorem sound_of_getter (h : LibraryInv p) {call : HostCall} {i : Fin 2} {dev : Option ℕ}
    {first second : Transfer} (hcall : hostStep p.1 call = getterStep i dev first second p.1)
    (hcalls : ∀ u, .usb u ∈ (getterStep i dev first second p.1).2 → u.context ∉ p.1.exited)
    (hidle : p.2 = true → Idle call (getterStep i dev first second p.1).2) : Sound p call := by
  apply sound_of_frame h <;> rw [hcall]
  · rfl
  · rfl
  · rfl
  · exact hcalls
  · exact hidle

/-- The getters, which both run `getterStep`. -/
theorem sound_getter (h : LibraryInv p) {call : HostCall} {i : Fin 2} {dev : Option ℕ}
    {first second : Transfer} (hcall : hostStep p.1 call = getterStep i dev first second p.1)
    (hidle : Idle call = fun acts => acts = [.reading none]) :
    Sound p call ↔ ∀ h c, p.1.Reaches dev h c → c ∉ p.1.exited := by
  constructor
  · intro hs handle c hr
    have hfirst : .usb (.controlTransfer c handle (getReport (reportValue i) 4)) ∈
        (hostStep p.1 call).2 := by
      rw [hcall, getterStep_of_reaches hr]
      exact List.mem_append_left _ List.mem_cons_self
    exact hs.notExited _ hfirst
  · intro huse
    by_cases hreach : ∃ handle c, p.1.Reaches dev handle c
    · obtain ⟨handle, c, hr⟩ := hreach
      have hlive := huse handle c hr
      apply sound_of_getter h hcall
      · intro u hu
        rw [getterStep_of_reaches hr] at hu
        rw [getterTransfers_context (by simpa using hu)]
        exact hlive
      · intro hclosed
        have howner : c < p.1.nextCtx := by
          obtain ⟨k, -, hk⟩ := Option.bind_eq_some_iff.mp hr.device
          exact h.ownerLt _ (List.mem_of_getElem? hk)
        exact absurd ⟨c, h.notLost c howner hlive, hlive⟩ (h.closed hclosed)
    · have hnone := getterStep_of_not_reaches i first second
        fun handle c hr => hreach ⟨handle, c, hr⟩
      apply sound_of_getter h hcall
      · intro u hu
        rw [hnone] at hu
        simp at hu
      · intro _
        rw [hidle, hnone]

/-- A call is sound if and only if it is disciplined. -/
theorem sound_iff_disciplined (p : Library × Bool) (call : HostCall) (h : LibraryInv p) :
    Sound p call ↔ Disciplined p.1 call := by
  cases call with
  | init r =>
      cases r with
      | ok => exact sound_init_ok h
      | failedKept => exact iff_of_true (sound_init_failedKept h) trivial
      | failedCleared => exact sound_init_failedCleared h
  | getDevices bus devs devsLen => exact sound_getDevices h bus devs devsLen
  | getTemperature dev first second => exact sound_getter h rfl rfl
  | getHumidity dev first second => exact sound_getter h rfl rfl
  | close => exact sound_close h

/-- Without a context nothing is handed out. -/
theorem handedOut_none (bus : Option (List UsbDevice)) (devs : Option Slots)
    (devsLen next : ℕ) : handedOut devsLen (libthGetDevices none bus devs devsLen next) = [] := by
  cases devs with
  | none => rfl
  | some slots =>
      change (List.range (min devsLen 0)).filterMap slots = []
      rw [Nat.min_zero]
      rfl

theorem libraryInv_init_ok (h : LibraryInv p) (hs : Sound p (.init .ok)) :
    LibraryInv ((hostStep p.1 (.init .ok)).1, false) := by
  refine ⟨?_, ?_, ?_, hs.once, hs.notLost, ?_⟩
  · exact fun c hc => Nat.lt_succ_of_lt (h.exitedLt c hc)
  · rintro c hc
    rw [← Option.some.inj hc]
    exact Nat.lt_succ_self _
  · exact fun k hk => Nat.lt_succ_of_lt (h.ownerLt k hk)
  · rintro (_ | _)

theorem libraryInv_init_cleared (h : LibraryInv p) (hs : Sound p (.init .failedCleared)) :
    LibraryInv ((hostStep p.1 (.init .failedCleared)).1, p.2) := by
  refine ⟨h.exitedLt, ?_, h.ownerLt, hs.once, hs.notLost, ?_⟩
  · rintro c (_ | _)
  · rintro - ⟨c, hc, -⟩
    cases hc

theorem libraryInv_getDevices (h : LibraryInv p) {bus : Option (List UsbDevice)}
    {devs : Option Slots} {devsLen : ℕ} (hs : Sound p (.getDevices bus devs devsLen)) :
    LibraryInv ((hostStep p.1 (.getDevices bus devs devsLen)).1, p.2) := by
  refine ⟨h.exitedLt, h.ctxLt, ?_, hs.once, hs.notLost, h.closed⟩
  intro k hk
  rcases List.mem_append.mp hk with hk | hk
  · exact h.ownerLt k hk
  · obtain ⟨d, hd, rfl⟩ := List.mem_map.mp hk
    cases hc : p.1.ctx with
    | none =>
        rw [hc, handedOut_none] at hd
        cases hd
    | some c => exact h.ctxLt c hc

/-- After `libth_close` no context is in use. -/
theorem libraryInv_close (h : LibraryInv p) (hs : Sound p .close) :
    LibraryInv ((hostStep p.1 .close).1, true) := by
  have honce : (libthClose p.1).1.exited.Nodup := hs.once
  have hnotLost : (libthClose p.1).1.NotLost := hs.notLost
  change LibraryInv ((libthClose p.1).1, true)
  rw [libthClose] at honce hnotLost ⊢
  cases hc : p.1.ctx with
  | none =>
      simp only [hc] at honce hnotLost ⊢
      refine ⟨h.exitedLt, h.ctxLt, h.ownerLt, honce, hnotLost, ?_⟩
      rintro - ⟨c, hlive, -⟩
      cases hc.symm.trans hlive
  | some c =>
      simp only [hc] at honce hnotLost ⊢
      refine ⟨?_, fun c' hc' => h.ctxLt c' (hc.trans hc'), h.ownerLt, honce, hnotLost, ?_⟩
      · intro c' hc'
        rcases List.mem_append.mp hc' with hc' | hc'
        · exact h.exitedLt c' hc'
        · rw [List.mem_singleton.mp hc']
          exact h.ctxLt c hc
      · rintro - ⟨c', hc', hlive⟩
        have hsame : c = c' := Option.some.inj hc'
        exact hlive (List.mem_append_right _ (hsame ▸ List.mem_singleton_self c))

theorem libraryInv_step (p : Library × Bool) (call : HostCall) (h : LibraryInv p)
    (hd : Disciplined p.1 call) : LibraryInv (paired hostStep observeClosed p call).1 := by
  have hs := (sound_iff_disciplined p call h).mpr hd
  cases call with
  | init r =>
      cases r with
      | ok => exact libraryInv_init_ok h hs
      | failedKept => exact h
      | failedCleared => exact libraryInv_init_cleared h hs
  | getDevices bus devs devsLen => exact libraryInv_getDevices h hs
  | getTemperature dev first second => exact h
  | getHumidity dev first second => exact h
  | close => exact libraryInv_close h hs

end Calls

/-- Over every sequence of calls the library is sound if and only if the calls
are disciplined. -/
theorem lifecycle_sound_iff (calls : List HostCall) :
    AllSteps (paired hostStep observeClosed) Sound (Library.init, false) calls ↔
      AllSteps hostStep Disciplined Library.init calls := by
  have hpaired : AllSteps (paired hostStep observeClosed) (fun p call => Disciplined p.1 call)
      (Library.init, false) calls ↔ AllSteps hostStep Disciplined Library.init calls :=
    allSteps_paired_iff
  exact (allSteps_congr libraryInv_init sound_iff_disciplined libraryInv_step).trans hpaired

/-- The second of two calls of `libth_close` passes the context to `libusb_exit` again. -/
theorem second_close_exits_again :
    (trace hostStep Library.init [.init .ok, .close, .close]).map Entry.outputs =
        [[.usb (.init 0)], [.usb (.exit 0)], [.usb (.exit 0)]] ∧
      ¬AllSteps (paired hostStep observeClosed) Sound (Library.init, false)
        [.init .ok, .close, .close] := by
  refine ⟨by decide, ?_⟩
  rintro ⟨-, -, hs, -⟩
  exact hs.notExited (.exit 0) (by decide) (by decide)

end TempHumid.Host
