import TempHumid.Host.Enumeration

/-!
# The handles of an enumeration

What a call of `libth_get_devices` opens, stores, leaves open and closes, as
properties of its calls into libusb alone.
-/

namespace TempHumid.Host

/-- The entries that a call goes through. There are none without a context, and none
when libusb has no list. -/
def entries (ctx : Option ℕ) (bus : Option (List UsbDevice)) : List UsbDevice :=
  ctx.elim [] fun _ => bus.getD []

/-- The matching devices opened by a list of calls, with their handles. -/
def matched (calls : List LibusbCall) : List (UsbDevice × ℕ) :=
  (opensOf calls).filter fun k => k.1.isMatch

/-- The books of a call for a list of entries `L`. -/
structure Accounts (L : List UsbDevice) (devs : Option Slots) (devsLen : ℕ)
    (st : Enumeration) : Prop where
  cnt : st.cnt = (L.filter UsbDevice.isMatch).length
  opened : (opensOf st.calls).map Prod.fst = L.filter UsbDevice.isOpened
  distinct : ((opensOf st.calls).map Prod.snd).Nodup
  found : (matched st.calls).map Prod.fst = L.filter UsbDevice.isMatch
  leftOpen : ∀ h, IsOpen st.calls h ↔
    h ∈ ((matched st.calls).take (min (room devs devsLen) st.cnt)).map Prod.snd
  closedOnce : ∀ h ∈ (opensOf st.calls).map Prod.snd, ¬ IsOpen st.calls h →
    (closesOf st.calls).count h = 1
  closedOpened : ∀ h ∈ closesOf st.calls, h ∈ (opensOf st.calls).map Prod.snd
  unstored : devs = none → st.devs = none
  stored : ∀ slots, devs = some slots → ∃ slots', st.devs = some slots' ∧
    (∀ i < min devsLen st.cnt, ∃ k, (matched st.calls)[i]? = some k ∧
      slots' i = some ⟨some k.2⟩) ∧
    ∀ i, min devsLen st.cnt ≤ i → slots' i = slots i

section Handles

variable (next : ℕ) (L : List UsbDevice)

theorem handles_map_fst : (handles next L).map Prod.fst = L.filter UsbDevice.isOpened :=
  List.zipIdx_map_fst next _

theorem kept_eq_take_min (r : ℕ) :
    kept next L r = (matching next L).take (min r (matching next L).length) :=
  List.take_eq_take_min

theorem mem_closed {r h : ℕ} : h ∈ closed next L r ↔
    h ∈ (handles next L).map Prod.snd ∧ h ∉ (kept next L r).map Prod.snd := by
  constructor
  · intro hclosed
    refine ⟨(List.filter_sublist.map Prod.snd).subset hclosed, ?_⟩
    intro hkept
    obtain ⟨k, hk, rfl⟩ := List.mem_map.mp hkept
    exact kept_not_closed next L r hk hclosed
  · rintro ⟨hopen, hnot⟩
    obtain ⟨k, hk, rfl⟩ := List.mem_map.mp hopen
    apply List.mem_map_of_mem
    apply List.mem_filter.mpr
    exact ⟨hk, decide_eq_true fun hkept => hnot (List.mem_map_of_mem hkept)⟩

theorem closed_nodup (r : ℕ) : (closed next L r).Nodup :=
  (handles_nodup next L).sublist (List.filter_sublist.map Prod.snd)

end Handles

section Accounts

variable {next devsLen : ℕ} {L : List UsbDevice} {devs : Option Slots} {st : Enumeration}

theorem matched_eq (hopens : opensOf st.calls = handles next L) :
    matched st.calls = matching next L := by
  rw [matched, hopens, ← matching]

theorem isOpen_iff_kept {r : ℕ} (hopens : opensOf st.calls = handles next L)
    (hcloses : closesOf st.calls = closed next L r) (h : ℕ) :
    IsOpen st.calls h ↔ h ∈ (kept next L r).map Prod.snd := by
  rw [IsOpen, hopens, hcloses, mem_closed]
  constructor
  · rintro ⟨hopen, hnot⟩
    by_contra hkept
    exact hnot ⟨hopen, hkept⟩
  · intro hkept
    exact ⟨((kept_sublist next L r).map Prod.snd).subset hkept, fun hclosed => hclosed.2 hkept⟩

/-- The array after the call, entry by entry. -/
theorem fill_kept (slots : Slots) (i : ℕ) :
    (i < min devsLen (matching next L).length → ∃ k, (matching next L)[i]? = some k ∧
      fill (kept next L devsLen) slots i = some ⟨some k.2⟩) ∧
    (min devsLen (matching next L).length ≤ i →
      fill (kept next L devsLen) slots i = slots i) := by
  have hlength : (kept next L devsLen).length = min devsLen (matching next L).length :=
    List.length_take
  constructor
  · intro hlt
    obtain ⟨hroom, hmatch⟩ := Nat.lt_min.mp hlt
    refine ⟨_, List.getElem?_eq_getElem hmatch, ?_⟩
    rw [fill, kept, List.getElem?_take_of_lt hroom, List.getElem?_eq_getElem hmatch]
    rfl
  · intro hge
    rw [fill, List.getElem?_eq_none (hlength.trans_le hge)]
    rfl

theorem accounts_of (hcnt : st.cnt = (matching next L).length)
    (hslots : st.devs = devs.map (fill (kept next L (room devs devsLen))))
    (hopens : opensOf st.calls = handles next L)
    (hcloses : closesOf st.calls = closed next L (room devs devsLen)) :
    Accounts L devs devsLen st := by
  have hmatched := matched_eq hopens
  have hopenIff := isOpen_iff_kept hopens hcloses
  constructor
  case cnt => rw [hcnt, matching_length]
  case opened => rw [hopens, handles_map_fst]
  case distinct =>
    rw [hopens]
    exact handles_nodup next L
  case found => rw [hmatched, matching_map_fst]
  case leftOpen =>
    intro h
    rw [hopenIff, hmatched, hcnt, ← kept_eq_take_min]
  case closedOnce =>
    intro h hopen hnot
    rw [hopens] at hopen
    rw [hopenIff] at hnot
    rw [hcloses]
    exact List.count_eq_one_of_mem (closed_nodup next L _) ((mem_closed next L).mpr ⟨hopen, hnot⟩)
  case closedOpened =>
    intro h hclosed
    rw [hcloses] at hclosed
    rw [hopens]
    exact ((mem_closed next L).mp hclosed).1
  case unstored =>
    rintro rfl
    exact hslots
  case stored =>
    rintro slots rfl
    rw [hmatched, hcnt]
    exact ⟨_, hslots, fun i => (fill_kept slots i).1, fun i => (fill_kept slots i).2⟩

end Accounts

/-- Every call keeps its books: it counts the matching entries whatever the caller has
room for, hands out the first of them in order, and closes each other handle once. -/
theorem libthGetDevices_accounts (ctx : Option ℕ) (bus : Option (List UsbDevice))
    (devs : Option Slots) (devsLen next : ℕ) :
    Accounts (entries ctx bus) devs devsLen (libthGetDevices ctx bus devs devsLen next) := by
  cases ctx with
  | none =>
      -- no call at all: the loop over no entries has done as much
      have h := enumerated 0 devsLen next devs []
      exact accounts_of h.cnt h.slots h.opens h.closes
  | some ctx =>
      have h := libthGetDevices_enumerated ctx bus devs devsLen next
      exact accounts_of h.cnt h.slots h.opens h.closes

end TempHumid.Host
