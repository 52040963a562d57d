import Mathlib.Logic.Function.Basic
import TempHumid.Host.Library

/-!
# The enumeration of devices

`libth_get_devices` opens every device of a known kind, hands out as many of the
matching ones as the caller has room for and closes the others, but counts all of
them.

## Implementation notes

Handles are numbers, and every successful `libusb_open` takes the next one. An
array entry is `none` until it is stored to. The calls into libusb carry the
context that they concern. `Enumerated` is the invariant of the loop.
-/

namespace TempHumid.Host

/-! ## libusb -/

structure DeviceDescriptor where
  idVendor : BitVec 16
  idProduct : BitVec 16
  iSerialNumber : Byte
  deriving DecidableEq

/-- What libusb answers about one entry of its list: the descriptor, or `none` for
an error; whether the device opens; the result of the string request, and the
string that it leaves. -/
structure UsbDevice where
  descriptor : Option DeviceDescriptor
  opens : Bool
  len : ℤ
  snum : String
  deriving DecidableEq

inductive LibusbCall
  | init (ctx : ℕ)
  | getDeviceList (ctx : ℕ)
  | getDeviceDescriptor (ctx : ℕ) (dev : UsbDevice)
  | openDevice (ctx : ℕ) (dev : UsbDevice) (h : Option ℕ)
  | getStringDescriptorAscii (ctx : ℕ) (h : ℕ) (index : Byte)
  | close (ctx : ℕ) (h : ℕ)
  | controlTransfer (ctx : ℕ) (h : ℕ) (t : ControlTransfer)
  | exit (ctx : ℕ)
  deriving DecidableEq

def LibusbCall.context : LibusbCall → ℕ
  | init c | getDeviceList c | getDeviceDescriptor c _ | openDevice c _ _ => c
  | getStringDescriptorAscii c _ _ | close c _ | controlTransfer c _ _ | exit c => c

/-- The devices opened by a list of calls, with their handles. -/
def opensOf (calls : List LibusbCall) : List (UsbDevice × ℕ) :=
  calls.filterMap fun
    | .openDevice _ dev (some h) => some (dev, h)
    | _ => none

/-- The handles closed by a list of calls. -/
def closesOf (calls : List LibusbCall) : List ℕ :=
  calls.filterMap fun
    | .close _ h => some h
    | _ => none

/-- The handle has been opened and not closed. -/
def IsOpen (calls : List LibusbCall) (h : ℕ) : Prop :=
  h ∈ (opensOf calls).map Prod.snd ∧ h ∉ closesOf calls

instance (calls : List LibusbCall) (h : ℕ) : Decidable (IsOpen calls h) :=
  inferInstanceAs (Decidable (_ ∧ _))

/-! ## `libth_get_devices` -/

def projectUrl : String := "https://github.com/jncronin/temphumid"

def isKnown (desc : DeviceDescriptor) : Bool :=
  (desc.idVendor == 0x16c0 && desc.idProduct == 0x27d9) ||
    (desc.idVendor == 0x03eb && desc.idProduct == 0x2402)

/-- An array of the caller. -/
abbrev Slots := ℕ → Option LibthDev

/-- The variables of the loop, with the next handle and the calls so far. -/
structure Enumeration where
  cnt : ℕ
  devs : Option Slots
  nextHandle : ℕ
  calls : List LibusbCall

def Enumeration.call (st : Enumeration) (u : LibusbCall) : Enumeration :=
  { st with calls := st.calls ++ [u] }

/-- The serial string is the one of the project. -/
def UsbDevice.isOurs (dev : UsbDevice) : Bool := 0 < dev.len && dev.snum == projectUrl

/-- The branch for an opened device with handle `h`. -/
def inspect (ctx devsLen h : ℕ) (st : Enumeration) (dev : UsbDevice) : Enumeration :=
  if dev.isOurs then
    match if st.cnt < devsLen then st.devs else none with
    | some slots =>
        { st with
          devs := some (Function.update slots st.cnt (some ⟨some h⟩))
          cnt := st.cnt + 1 }
    | none => { st.call (.close ctx h) with cnt := st.cnt + 1 }
  else st.call (.close ctx h)

/-- The body of the loop. -/
def visit (ctx devsLen : ℕ) (st : Enumeration) (dev : UsbDevice) : Enumeration :=
  let st := st.call (.getDeviceDescriptor ctx dev)
  match dev.descriptor with
  | some desc =>
      if isKnown desc then
        if dev.opens then
          let h := st.nextHandle
          let st := { st.call (.openDevice ctx dev (some h)) with nextHandle := h + 1 }
          let st := st.call (.getStringDescriptorAscii ctx h desc.iSerialNumber)
          inspect ctx devsLen h st dev
        else st.call (.openDevice ctx dev none)
      else st
  | none => st

/-- `bus` is the device list, or `none` for an error of `libusb_get_device_list`. -/
def libthGetDevices (ctx : Option ℕ) (bus : Option (List UsbDevice)) (devs : Option Slots)
    (devsLen nextHandle : ℕ) : Enumeration :=
  match ctx with
  | none => ⟨0, devs, nextHandle, []⟩
  | some c => (bus.getD []).foldl (visit c devsLen) ⟨0, devs, nextHandle, [.getDeviceList c]⟩

/-! ## What an enumeration does -/

def UsbDevice.isOpened (dev : UsbDevice) : Bool := dev.descriptor.any isKnown && dev.opens

def UsbDevice.isMatch (dev : UsbDevice) : Bool := dev.isOpened && dev.isOurs

section Lists

variable (next : ℕ) (L : List UsbDevice) (dev : UsbDevice)

/-- The opened devices of a list, with their handles. -/
def handles : List (UsbDevice × ℕ) := (L.filter UsbDevice.isOpened).zipIdx next

/-- The matching ones among them. -/
def matching : List (UsbDevice × ℕ) := (handles next L).filter fun k => k.1.isMatch

theorem handles_concat : handles next (L ++ [dev]) =
    handles next L ++ if dev.isOpened then [(dev, next + (handles next L).length)] else [] := by
  cases hopen : dev.isOpened <;>
    simp [handles, List.filter_append, List.zipIdx_append, hopen]

theorem matching_concat : matching next (L ++ [dev]) =
    matching next L ++ if dev.isMatch then [(dev, next + (handles next L).length)] else [] := by
  rw [matching, handles_concat, List.filter_append, ← matching]
  cases hopen : dev.isOpened <;> cases hmatch : dev.isMatch <;>
    simp_all [UsbDevice.isMatch]

theorem handle_lt {k : UsbDevice × ℕ} (hk : k ∈ handles next L) :
    next ≤ k.2 ∧ k.2 < next + (handles next L).length := by
  obtain ⟨d, h⟩ := k
  have hge := List.le_snd_of_mem_zipIdx hk
  have hlt := List.snd_lt_add_of_mem_zipIdx hk
  rw [handles, List.length_zipIdx]
  omega

/-- The devices handed out to a caller with room for `r`. -/
def kept (r : ℕ) : List (UsbDevice × ℕ) := (matching next L).take r

/-- The handles closed on the way. -/
def closed (r : ℕ) : List ℕ :=
  ((handles next L).filter fun k => k ∉ kept next L r).map Prod.snd

theorem kept_subset {r : ℕ} {k : UsbDevice × ℕ} (hk : k ∈ kept next L r) : k ∈ handles next L :=
  (List.mem_filter.mp (List.mem_of_mem_take hk)).1

/-- A handle that is yet to be given is not among the kept ones. -/
theorem fresh_not_kept (r : ℕ) : (dev, next + (handles next L).length) ∉ kept next L r := fun hk =>
  Nat.lt_irrefl _ (handle_lt next L (kept_subset next L hk)).2

theorem kept_of_not_match (r : ℕ) (hmatch : dev.isMatch = false) :
    kept next (L ++ [dev]) r = kept next L r := by
  rw [kept, matching_concat, hmatch, if_neg Bool.false_ne_true, List.append_nil, ← kept]

theorem kept_of_full {r : ℕ} (hfull : r ≤ (matching next L).length) :
    kept next (L ++ [dev]) r = kept next L r := by
  rw [kept, matching_concat, List.take_append_of_le_length hfull, ← kept]

theorem kept_of_room {r : ℕ} (hmatch : dev.isMatch = true) (hroom : (matching next L).length < r) :
    kept next (L ++ [dev]) r = kept next L r ++ [(dev, next + (handles next L).length)] := by
  rw [kept, matching_concat, hmatch, if_pos rfl, List.take_of_length_le, kept,
    List.take_of_length_le hroom.le]
  rw [List.length_append]
  exact hroom

/-- An opened device that is not kept is closed. -/
theorem closed_of_opened {r : ℕ} (hopen : dev.isOpened = true)
    (hkept : kept next (L ++ [dev]) r = kept next L r) :
    closed next (L ++ [dev]) r = closed next L r ++ [next + (handles next L).length] := by
  have hfresh := fresh_not_kept next L dev r
  rw [closed, hkept, handles_concat, hopen, if_pos rfl, List.filter_append, List.map_append,
    ← closed, List.filter_singleton, decide_eq_true hfresh]
  rfl

theorem closed_of_kept {r : ℕ} (hopen : dev.isOpened = true)
    (hkept : kept next (L ++ [dev]) r =
      kept next L r ++ [(dev, next + (handles next L).length)]) :
    closed next (L ++ [dev]) r = closed next L r := by
  rw [closed, hkept, handles_concat, hopen, if_pos rfl, List.filter_append, closed]
  have hold : (handles next L).filter (fun k => k ∉ kept next L r ++
      [(dev, next + (handles next L).length)]) =
        (handles next L).filter fun k => k ∉ kept next L r := by
    apply List.filter_congr
    intro k hk
    have hne : k ≠ (dev, next + (handles next L).length) := by
      rintro rfl
      exact Nat.lt_irrefl _ (handle_lt next L hk).2
    simp [hne]
  rw [hold]
  simp

theorem closed_of_not_opened (r : ℕ) (hopen : dev.isOpened = false) :
    closed next (L ++ [dev]) r = closed next L r := by
  have hmatch : dev.isMatch = false := by rw [UsbDevice.isMatch, hopen, Bool.false_and]
  rw [closed, kept_of_not_match next L dev r hmatch, handles_concat, hopen,
    if_neg Bool.false_ne_true, List.append_nil, ← closed]

end Lists

/-- Store the handed out handles from the start of an array. -/
def fill (ks : List (UsbDevice × ℕ)) (slots : Slots) : Slots := fun i =>
  ks[i]?.elim (slots i) fun k => some ⟨some k.2⟩

theorem fill_concat (ks : List (UsbDevice × ℕ)) (k : UsbDevice × ℕ) (slots : Slots) :
    fill (ks ++ [k]) slots =
      Function.update (fill ks slots) ks.length (some ⟨some k.2⟩) := by
  funext i
  rcases Nat.lt_trichotomy i ks.length with hlt | rfl | hgt
  · rw [Function.update_of_ne hlt.ne, fill, fill, List.getElem?_append_left hlt]
  · rw [Function.update_self, fill, List.getElem?_concat_length]
    rfl
  · rw [Function.update_of_ne hgt.ne', fill, fill, List.getElem?_eq_none hgt.le,
      List.getElem?_eq_none]
    rw [List.length_append]
    exact hgt

/-- The number of entries that the caller has room for. -/
def room (devs : Option Slots) (devsLen : ℕ) : ℕ := devs.elim 0 fun _ => devsLen

/-- What the loop has done after a prefix of the list. -/
structure Enumerated (ctx devsLen next : ℕ) (devs : Option Slots) (L : List UsbDevice)
    (st : Enumeration) : Prop where
  cnt : st.cnt = (matching next L).length
  nextHandle : st.nextHandle = next + (handles next L).length
  slots : st.devs = devs.map (fill (kept next L (room devs devsLen)))
  opens : opensOf st.calls = handles next L
  closes : closesOf st.calls = closed next L (room devs devsLen)
  context : ∀ u ∈ st.calls, u.context = ctx
  listed : .getDeviceList ctx ∈ st.calls

@[simp] theorem opensOf_append (us vs : List LibusbCall) :
    opensOf (us ++ vs) = opensOf us ++ opensOf vs := List.filterMap_append

@[simp] theorem closesOf_append (us vs : List LibusbCall) :
    closesOf (us ++ vs) = closesOf us ++ closesOf vs := List.filterMap_append

/-- The calls name handles from `lo` on and below `hi` only. -/
structure HandlesIn (calls : List LibusbCall) (lo hi : ℕ) : Prop where
  opens : ∀ k ∈ opensOf calls, lo ≤ k.2 ∧ k.2 < hi
  closes : ∀ h ∈ closesOf calls, lo ≤ h ∧ h < hi

theorem HandlesIn.append {us vs : List LibusbCall} {lo mid hi : ℕ} (hus : HandlesIn us lo mid)
    (hvs : HandlesIn vs mid hi) (hlo : lo ≤ mid) (hhi : mid ≤ hi) : HandlesIn (us ++ vs) lo hi := by
  constructor
  · intro k hk
    rw [opensOf_append] at hk
    rcases List.mem_append.mp hk with hk | hk
    · exact ⟨(hus.opens k hk).1, (hus.opens k hk).2.trans_le hhi⟩
    · exact ⟨hlo.trans (hvs.opens k hk).1, (hvs.opens k hk).2⟩
  · intro h hh
    rw [closesOf_append] at hh
    rcases List.mem_append.mp hh with hh | hh
    · exact ⟨(hus.closes h hh).1, (hus.closes h hh).2.trans_le hhi⟩
    · exact ⟨hlo.trans (hvs.closes h hh).1, (hvs.closes h hh).2⟩

/-- Later calls on later handles leave the earlier handles as they are. -/
theorem isOpen_append {us vs : List LibusbCall} {lo mid hi h : ℕ} (hus : HandlesIn us lo mid)
    (hvs : HandlesIn vs mid hi) : IsOpen (us ++ vs) h ↔ IsOpen us h ∨ IsOpen vs h := by
  have hopens : h ∈ (opensOf us).map Prod.snd → h < mid := by
    intro hmem
    obtain ⟨k, hk, rfl⟩ := List.mem_map.mp hmem
    exact (hus.opens k hk).2
  have hopens' : h ∈ (opensOf vs).map Prod.snd → mid ≤ h := by
    intro hmem
    obtain ⟨k, hk, rfl⟩ := List.mem_map.mp hmem
    exact (hvs.opens k hk).1
  have hcloses : h ∈ closesOf us → h < mid := fun hmem => (hus.closes h hmem).2
  have hcloses' : h ∈ closesOf vs → mid ≤ h := fun hmem => (hvs.closes h hmem).1
  simp only [IsOpen, opensOf_append, closesOf_append, List.map_append, List.mem_append, not_or]
  constructor
  · rintro ⟨hu | hv, hnotu, hnotv⟩
    · exact .inl ⟨hu, hnotu⟩
    · exact .inr ⟨hv, hnotv⟩
  · rintro (⟨hu, hnot⟩ | ⟨hv, hnot⟩)
    · exact ⟨.inl hu, hnot, fun hv => Nat.not_lt.mpr (hcloses' hv) (hopens hu)⟩
    · exact ⟨.inr hv, fun hu => Nat.not_lt.mpr (hopens' hv) (hcloses hu), hnot⟩

/-- The part of the loop body before the string is compared: the device has been
opened (`opened` is its handle), or passed over. -/
structure Approached (ctx : ℕ) (opened : List (UsbDevice × ℕ)) (st st' : Enumeration) : Prop where
  cnt : st'.cnt = st.cnt
  slots : st'.devs = st.devs
  nextHandle : st'.nextHandle = st.nextHandle + opened.length
  opens : opensOf st'.calls = opensOf st.calls ++ opened
  closes : closesOf st'.calls = closesOf st.calls
  context : ∀ u ∈ st'.calls, u ∈ st.calls ∨ u.context = ctx
  grows : ∀ u ∈ st.calls, u ∈ st'.calls

section Visit

variable {ctx devsLen next : ℕ} {devs : Option Slots} {L : List UsbDevice} {st st' : Enumeration}
  {dev : UsbDevice}

theorem approached_calls (ctx : ℕ) (st : Enumeration) (us : List LibusbCall)
    (hcloses : closesOf us = []) (hcontext : ∀ u ∈ us, u.context = ctx) :
    Approached ctx (opensOf us) st
      { st with nextHandle := st.nextHandle + (opensOf us).length, calls := st.calls ++ us } where
  cnt := rfl
  slots := rfl
  nextHandle := rfl
  opens := opensOf_append st.calls us
  closes := by rw [closesOf_append, hcloses, List.append_nil]
  context := fun u hu => (List.mem_append.mp hu).imp id (hcontext u)
  grows := fun _ hu => List.mem_append_left us hu

theorem visit_of_not_opened (ctx devsLen : ℕ) (st : Enumeration) (hopen : dev.isOpened = false) :
    Approached ctx [] st (visit ctx devsLen st dev) := by
  cases hdesc : dev.descriptor with
  | none =>
      simp only [visit, hdesc]
      exact approached_calls ctx st [.getDeviceDescriptor ctx dev] rfl (by simp [LibusbCall.context])
  | some desc =>
      cases hknown : isKnown desc with
      | false =>
          simp only [visit, hdesc, hknown, Bool.false_eq_true, if_false]
          exact approached_calls ctx st [.getDeviceDescriptor ctx dev] rfl
            (by simp [LibusbCall.context])
      | true =>
          have hfails : dev.opens = false := by
            simpa [UsbDevice.isOpened, hdesc, hknown] using hopen
          simp only [visit, hdesc, hknown, hfails, Bool.false_eq_true, if_true, if_false,
            Enumeration.call, List.append_assoc]
          exact approached_calls ctx st [.getDeviceDescriptor ctx dev, .openDevice ctx dev none] rfl
            (by simp [LibusbCall.context])

/-- An opened device is inspected. -/
theorem visit_of_opened (ctx devsLen : ℕ) (st : Enumeration) (hopen : dev.isOpened = true) :
    ∃ st', visit ctx devsLen st dev = inspect ctx devsLen st.nextHandle st' dev ∧
      Approached ctx [(dev, st.nextHandle)] st st' := by
  cases hdesc : dev.descriptor with
  | none => simp [UsbDevice.isOpened, hdesc] at hopen
  | some desc =>
      obtain ⟨hknown, hopens⟩ : isKnown desc = true ∧ dev.opens = true := by
        simpa [UsbDevice.isOpened, hdesc] using hopen
      refine ⟨_, ?_, approached_calls ctx st [.getDeviceDescriptor ctx dev,
        .openDevice ctx dev (some st.nextHandle),
        .getStringDescriptorAscii ctx st.nextHandle desc.iSerialNumber] rfl
        (by simp [LibusbCall.context])⟩
      simp only [visit, hdesc, hknown, hopens, if_true, Enumeration.call, List.append_assoc]
      rfl

/-- A device that is not handed out is closed. -/
theorem inspect_closed {h : ℕ} (hfull : dev.isMatch = true → room st.devs devsLen ≤ st.cnt)
    (hopen : dev.isOpened = true) : inspect ctx devsLen h st dev =
      { st with
        cnt := st.cnt + if dev.isMatch then 1 else 0
        calls := st.calls ++ [.close ctx h] } := by
  have hmatch : dev.isMatch = dev.isOurs := by rw [UsbDevice.isMatch, hopen, Bool.true_and]
  rw [hmatch] at hfull ⊢
  cases hours : dev.isOurs with
  | false => simp [inspect, hours, Enumeration.call]
  | true =>
      have hnone : (if st.cnt < devsLen then st.devs else none) = none := by
        have hfull := hfull hours
        cases hdevs : st.devs with
        | none => exact ite_self none
        | some slots =>
            rw [hdevs] at hfull
            exact if_neg (Nat.not_lt.mpr hfull)
      simp [inspect, hours, hnone, Enumeration.call]

/-- A matching device is handed out while there is room. -/
theorem inspect_stored {h : ℕ} {slots : Slots} (hmatch : dev.isMatch = true)
    (hdevs : st.devs = some slots) (hroom : st.cnt < devsLen) : inspect ctx devsLen h st dev =
      { st with
        devs := some (Function.update slots st.cnt (some ⟨some h⟩))
        cnt := st.cnt + 1 } := by
  have hours : dev.isOurs = true := (Bool.and_eq_true_iff.mp hmatch).2
  simp [inspect, hours, hdevs, hroom]

theorem handles_opened (h : Enumerated ctx devsLen next devs L st) (hopen : dev.isOpened = true) :
    handles next (L ++ [dev]) = handles next L ++ [(dev, st.nextHandle)] := by
  rw [handles_concat, hopen, if_pos rfl, ← h.nextHandle]

theorem Approached.context_eq {opened : List (UsbDevice × ℕ)} (ha : Approached ctx opened st st')
    (h : ∀ u ∈ st.calls, u.context = ctx) : ∀ u ∈ st'.calls, u.context = ctx := fun u hu =>
  (ha.context u hu).elim (h u) id

/-- The step for a device that is handed out. -/
theorem enumerated_stored (h : Enumerated ctx devsLen next devs L st)
    (ha : Approached ctx [(dev, st.nextHandle)] st st') (hopen : dev.isOpened = true)
    (hmatch : dev.isMatch = true) (hroom : st.cnt < room devs devsLen) :
    Enumerated ctx devsLen next devs (L ++ [dev])
      (inspect ctx devsLen st.nextHandle st' dev) := by
  cases devs with
  | none => exact absurd hroom (Nat.not_lt_zero _)
  | some slots =>
      have hlt : (matching next L).length < devsLen := h.cnt ▸ hroom
      have hkept := kept_of_room next L dev hmatch hlt
      have hlength : (kept next L devsLen).length = st.cnt := by
        rw [kept, List.length_take, Nat.min_eq_right hlt.le, h.cnt]
      have hhandles := handles_opened h hopen
      have hcnt : st'.cnt < devsLen := ha.cnt.trans_lt hroom
      rw [inspect_stored hmatch (ha.slots.trans h.slots) hcnt]
      constructor
      case cnt =>
        rw [matching_concat, hmatch, if_pos rfl, List.length_append, ← h.cnt, ← ha.cnt]
        rfl
      case nextHandle =>
        rw [hhandles, List.length_append, ← Nat.add_assoc, ← h.nextHandle]
        exact ha.nextHandle
      case slots =>
        change _ = some (fill (kept next (L ++ [dev]) devsLen) slots)
        rw [hkept, ← h.nextHandle, fill_concat, hlength, ha.cnt]
        rfl
      case opens => exact ha.opens.trans (by rw [h.opens, hhandles])
      case closes =>
        change closesOf st'.calls = closed next (L ++ [dev]) devsLen
        rw [ha.closes, h.closes, closed_of_kept next L dev hopen hkept]
        rfl
      case context => exact ha.context_eq h.context
      case listed => exact ha.grows _ h.listed

/-- The step for a device that is opened and closed again. -/
theorem enumerated_closed (h : Enumerated ctx devsLen next devs L st)
    (ha : Approached ctx [(dev, st.nextHandle)] st st') (hopen : dev.isOpened = true)
    (hfull : dev.isMatch = true → room devs devsLen ≤ st.cnt) :
    Enumerated ctx devsLen next devs (L ++ [dev])
      (inspect ctx devsLen st.nextHandle st' dev) := by
  have hroom : room st'.devs devsLen = room devs devsLen := by
    rw [ha.slots, h.slots]
    cases devs <;> rfl
  have hkept : kept next (L ++ [dev]) (room devs devsLen) = kept next L (room devs devsLen) := by
    cases hmatch : dev.isMatch with
    | false => exact kept_of_not_match next L dev _ hmatch
    | true => exact kept_of_full next L dev (h.cnt ▸ hfull hmatch)
  have hhandles := handles_opened h hopen
  have hfull' : dev.isMatch = true → room st'.devs devsLen ≤ st'.cnt := fun hmatch =>
    hroom.trans_le ((hfull hmatch).trans_eq ha.cnt.symm)
  rw [inspect_closed hfull' hopen]
  constructor
  case cnt =>
    rw [matching_concat, List.length_append, ← h.cnt, ← ha.cnt]
    cases dev.isMatch <;> rfl
  case nextHandle =>
    rw [hhandles, List.length_append, ← Nat.add_assoc, ← h.nextHandle]
    exact ha.nextHandle
  case slots => exact (ha.slots.trans h.slots).trans (by rw [hkept])
  case opens =>
    rw [opensOf_append, ha.opens, h.opens, hhandles]
    exact List.append_nil _
  case closes =>
    rw [closesOf_append, ha.closes, h.closes, closed_of_opened next L dev hopen hkept,
      ← h.nextHandle]
    rfl
  case context =>
    intro u hu
    rcases List.mem_append.mp hu with hu | hu
    · exact ha.context_eq h.context u hu
    · rw [List.mem_singleton.mp hu]
      rfl
  case listed => exact List.mem_append_left _ (ha.grows _ h.listed)

/-- The step for a device that is passed over. -/
theorem enumerated_passed (h : Enumerated ctx devsLen next devs L st)
    (ha : Approached ctx [] st st') (hopen : dev.isOpened = false) :
    Enumerated ctx devsLen next devs (L ++ [dev]) st' := by
  have hmatch : dev.isMatch = false := by rw [UsbDevice.isMatch, hopen, Bool.false_and]
  have hhandles : handles next (L ++ [dev]) = handles next L := by
    rw [handles_concat, hopen, if_neg Bool.false_ne_true, List.append_nil]
  have hmatching : matching next (L ++ [dev]) = matching next L := by
    rw [matching, hhandles, ← matching]
  constructor
  case cnt => rw [hmatching, ← h.cnt, ha.cnt]
  case nextHandle =>
    rw [hhandles, ← h.nextHandle]
    exact ha.nextHandle
  case slots => rw [kept_of_not_match next L dev _ hmatch, ← h.slots, ha.slots]
  case opens => rw [ha.opens, h.opens, hhandles, List.append_nil]
  case closes => rw [ha.closes, h.closes, closed_of_not_opened next L dev _ hopen]
  case context => exact ha.context_eq h.context
  case listed => exact ha.grows _ h.listed

theorem enumerated_concat (h : Enumerated ctx devsLen next devs L st) (dev : UsbDevice) :
    Enumerated ctx devsLen next devs (L ++ [dev]) (visit ctx devsLen st dev) := by
  cases hopen : dev.isOpened with
  | false => exact enumerated_passed h (visit_of_not_opened ctx devsLen st hopen) hopen
  | true =>
      obtain ⟨st', hvisit, ha⟩ := visit_of_opened ctx devsLen st hopen
      rw [hvisit]
      by_cases hkeep : dev.isMatch = true ∧ st.cnt < room devs devsLen
      · exact enumerated_stored h ha hopen hkeep.1 hkeep.2
      · apply enumerated_closed h ha hopen
        intro hmatch
        exact Nat.le_of_not_lt fun hlt => hkeep ⟨hmatch, hlt⟩

end Visit

/-- The loop over the whole list. -/
theorem enumerated (ctx devsLen next : ℕ) (devs : Option Slots) (L : List UsbDevice) :
    Enumerated ctx devsLen next devs L
      (L.foldl (visit ctx devsLen) ⟨0, devs, next, [.getDeviceList ctx]⟩) := by
  induction L using List.reverseRecOn with
  | nil =>
      refine ⟨rfl, rfl, ?_, rfl, rfl, by simp [LibusbCall.context], List.mem_singleton_self _⟩
      have hnone : kept next [] (room devs devsLen) = [] := List.take_nil
      rw [hnone]
      cases devs <;> rfl
  | append_singleton L dev ih =>
      rw [List.foldl_append]
      exact enumerated_concat ih dev

/-- A call with a live context. -/
theorem libthGetDevices_enumerated (ctx : ℕ) (bus : Option (List UsbDevice))
    (devs : Option Slots) (devsLen next : ℕ) :
    Enumerated ctx devsLen next devs (bus.getD [])
      (libthGetDevices (some ctx) bus devs devsLen next) :=
  enumerated ctx devsLen next devs (bus.getD [])

section Handles

variable (next : ℕ) (L : List UsbDevice) (r : ℕ)

theorem handles_nodup : ((handles next L).map Prod.snd).Nodup := by
  rw [handles, List.zipIdx_map_snd]
  exact List.nodup_range'

theorem kept_sublist : List.Sublist (kept next L r) (handles next L) :=
  (List.take_sublist r _).trans List.filter_sublist

theorem kept_nodup : ((kept next L r).map Prod.snd).Nodup :=
  (handles_nodup next L).sublist ((kept_sublist next L r).map Prod.snd)

/-- A handle that is handed out is left open. -/
theorem kept_not_closed {k : UsbDevice × ℕ} (hk : k ∈ kept next L r) :
    k.2 ∉ closed next L r := by
  intro hclosed
  obtain ⟨k', hk', heq⟩ := List.mem_map.mp hclosed
  obtain ⟨hmem, hnot⟩ := List.mem_filter.mp hk'
  have hsame : k' = k :=
    List.inj_on_of_nodup_map (handles_nodup next L) hmem (kept_subset next L hk) heq
  rw [hsame] at hnot
  exact of_decide_eq_true hnot hk

/-- The matching devices of a list. -/
theorem matching_map_fst : (matching next L).map Prod.fst = L.filter UsbDevice.isMatch := by
  induction L using List.reverseRecOn with
  | nil => rfl
  | append_singleton L dev ih =>
      rw [matching_concat, List.map_append, ih, List.filter_append]
      cases hmatch : dev.isMatch <;> simp [hmatch]

theorem matching_length : (matching next L).length = (L.filter UsbDevice.isMatch).length := by
  rw [← matching_map_fst next L, List.length_map]

end Handles

end TempHumid.Host
