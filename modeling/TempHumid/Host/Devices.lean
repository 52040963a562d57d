import TempHumid.Host.Enumeration

/-!
# The two passes of `LibTempHumid::Devices`

The first enumeration yields the size of the array, the second one fills it, and
the loop reads as many entries as the second one has counted. Devices that arrive
in between are counted without an entry.
-/

namespace TempHumid.Host

/-- What `Devices::get` works with: the size of its array, the bound of its loop,
the array, and the calls into libusb. -/
structure DevicesGet where
  size : ℕ
  count : ℕ
  buf : Slots
  nextHandle : ℕ
  calls : List LibusbCall

/-- A new array. -/
def newSlots : Slots := fun _ => none

def devicesGet (ctx : Option ℕ) (first second : Option (List UsbDevice)) (nextHandle : ℕ) :
    DevicesGet :=
  let e₁ := libthGetDevices ctx first none 0 nextHandle
  let e₂ := libthGetDevices ctx second (some newSlots) e₁.cnt e₁.nextHandle
  { size := e₁.cnt
    -- all the matches of the second pass, not the entries stored
    count := e₂.cnt
    buf := e₂.devs.getD newSlots
    nextHandle := e₂.nextHandle
    calls := e₁.calls ++ e₂.calls }

/-- The list of devices: entries outside the array or never stored to are `none`. -/
def DevicesGet.devices (g : DevicesGet) : List (Option LibthDev) :=
  (List.range g.count).map fun i => if i < g.size then g.buf i else none

/-- The entry holds a handle that is open, of a matching device. -/
def DevicesGet.Wraps (g : DevicesGet) (i : ℕ) : Prop :=
  ∃ k ∈ opensOf g.calls, k.1.isMatch = true ∧ k.2 ∉ closesOf g.calls ∧ g.buf i = some ⟨some k.2⟩

/-- Every entry read lies in the array and wraps a handle of its own. -/
structure DevicesGet.Safe (g : DevicesGet) : Prop where
  inside : ∀ i < g.count, i < g.size
  wraps : ∀ i < g.count, g.Wraps i
  once : ∀ i < g.count, ∀ j < g.count, g.buf i = g.buf j → i = j

/-- The number of matching devices on the bus. -/
def matchCount (bus : Option (List UsbDevice)) : ℕ :=
  ((bus.getD []).filter UsbDevice.isMatch).length

section Pass

variable (c : ℕ) (first second : Option (List UsbDevice)) (next : ℕ)

/-- The first handle of the second pass. -/
def secondNext : ℕ := next + (handles next (first.getD [])).length

/-- The handles in the array. -/
def stored : List (UsbDevice × ℕ) :=
  kept (secondNext first next) (second.getD []) (matchCount first)

/-- Both passes with a live context. -/
structure TwoPasses (g : DevicesGet) : Prop where
  size : g.size = matchCount first
  count : g.count = matchCount second
  buf : g.buf = fill (stored first second next) newSlots
  nextHandle : g.nextHandle =
    secondNext first next + (handles (secondNext first next) (second.getD [])).length
  opens : opensOf g.calls =
    handles next (first.getD []) ++ handles (secondNext first next) (second.getD [])
  closes : closesOf g.calls = (handles next (first.getD [])).map Prod.snd ++
    closed (secondNext first next) (second.getD []) (matchCount first)
  context : ∀ u ∈ g.calls, u.context = c

theorem twoPasses : TwoPasses c first second next (devicesGet (some c) first second next) := by
  have h₁ := libthGetDevices_enumerated c first none 0 next
  have hsize : (libthGetDevices (some c) first none 0 next).cnt = matchCount first :=
    h₁.cnt.trans (matching_length next (first.getD []))
  have h₂ := libthGetDevices_enumerated c second (some newSlots) (matchCount first)
    (secondNext first next)
  have hget : devicesGet (some c) first second next =
      let e₁ := libthGetDevices (some c) first none 0 next
      let e₂ := libthGetDevices (some c) second (some newSlots) (matchCount first)
        (secondNext first next)
      ⟨matchCount first, e₂.cnt, e₂.devs.getD newSlots, e₂.nextHandle, e₁.calls ++ e₂.calls⟩ := by
    simp only [devicesGet, hsize, h₁.nextHandle]
    rfl
  have hclosed : closed next (first.getD []) 0 = (handles next (first.getD [])).map Prod.snd := by
    rw [closed, List.filter_eq_self.mpr]
    intro k _
    exact decide_eq_true (List.not_mem_nil)
  rw [hget]
  constructor
  case size => rfl
  case count => exact h₂.cnt.trans (matching_length _ _)
  case buf => exact congrArg (fun s => s.getD newSlots) h₂.slots
  case nextHandle => exact h₂.nextHandle
  case opens => rw [opensOf_append, h₁.opens, h₂.opens]
  case closes =>
    rw [closesOf_append, h₁.closes, h₂.closes]
    exact congrArg (fun l => l ++ _) hclosed
  case context =>
    intro u hu
    exact (List.mem_append.mp hu).elim (h₁.context u) (h₂.context u)

/-- As many handles are in the array as both passes have counted. -/
theorem stored_length :
    (stored first second next).length = min (matchCount first) (matchCount second) := by
  rw [stored, kept, List.length_take, matching_length, matchCount, matchCount]

variable {c first second next}

section Entries

variable {g : DevicesGet} (hg : TwoPasses c first second next g)
include hg

theorem TwoPasses.buf_of_lt {i : ℕ} (hi : i < (stored first second next).length) :
    g.buf i = some ⟨some ((stored first second next)[i]).2⟩ := by
  rw [hg.buf, fill, List.getElem?_eq_getElem hi]
  rfl

/-- A handle in the array is open. -/
theorem TwoPasses.not_closed {k : UsbDevice × ℕ} (hk : k ∈ stored first second next) :
    k.2 ∉ closesOf g.calls := by
  rw [hg.closes, List.mem_append]
  rintro (hfirst | hsecond)
  · obtain ⟨k', hk', heq⟩ := List.mem_map.mp hfirst
    have hold := (handle_lt next _ hk').2
    have hnew := (handle_lt (secondNext first next) _ (kept_subset _ _ hk)).1
    rw [secondNext] at hnew
    omega
  · exact kept_not_closed _ _ _ hk hsecond

theorem TwoPasses.wraps {i : ℕ} (hi : i < (stored first second next).length) : g.Wraps i := by
  have hmem : (stored first second next)[i] ∈ stored first second next := List.getElem_mem hi
  refine ⟨_, ?_, ?_, hg.not_closed hmem, hg.buf_of_lt hi⟩
  · rw [hg.opens]
    exact List.mem_append_right _ (kept_subset _ _ hmem)
  · exact (List.mem_filter.mp (List.mem_of_mem_take hmem)).2

theorem TwoPasses.once {i j : ℕ} (hi : i < (stored first second next).length)
    (hj : j < (stored first second next).length) (heq : g.buf i = g.buf j) : i = j := by
  rw [hg.buf_of_lt hi, hg.buf_of_lt hj] at heq
  have hsame : ((stored first second next)[i]).2 = ((stored first second next)[j]).2 := by
    simpa using heq
  have hnodup := kept_nodup (secondNext first next) (second.getD []) (matchCount first)
  have hentry : (stored first second next)[i] = (stored first second next)[j] :=
    List.inj_on_of_nodup_map hnodup (List.getElem_mem hi) (List.getElem_mem hj) hsame
  exact (List.Nodup.getElem_inj_iff hnodup.of_map).mp hentry

/-- The first device wraps the first handle of the array. -/
theorem TwoPasses.head?_of_stored {k : UsbDevice × ℕ} {ks : List (UsbDevice × ℕ)}
    (hstored : stored first second next = k :: ks) :
    g.devices.head? = some (some ⟨some k.2⟩) := by
  have hlength := stored_length first second next
  rw [hstored, List.length_cons] at hlength
  have hcount : g.count ≠ 0 := by
    rw [hg.count]
    omega
  have hsize : 0 < g.size := by
    rw [hg.size]
    omega
  have hbuf : g.buf 0 = some ⟨some k.2⟩ := by
    rw [hg.buf, hstored]
    rfl
  rw [DevicesGet.devices, List.head?_map, List.head?_range, if_neg hcount, Option.map_some,
    if_pos hsize, hbuf]

/-- Without a handle in the array no device wraps one. -/
theorem TwoPasses.head?_of_empty (hstored : stored first second next = []) (dev : LibthDev) :
    g.devices.head? ≠ some (some dev) := by
  rw [DevicesGet.devices, List.head?_map, List.head?_range]
  split
  · simp
  · have hbuf : g.buf 0 = none := by
      rw [hg.buf, hstored]
      rfl
    simp [hbuf]

/-- The handles of the array are the ones left open. -/
theorem TwoPasses.isOpen_iff {h : ℕ} :
    IsOpen g.calls h ↔ h ∈ (stored first second next).map Prod.snd := by
  rw [IsOpen, hg.opens, hg.closes, List.map_append, List.mem_append, List.mem_append, not_or]
  constructor
  · rintro ⟨hfirst | hsecond, hnot, hopen⟩
    · exact absurd hfirst hnot
    · obtain ⟨k, hk, rfl⟩ := List.mem_map.mp hsecond
      refine List.mem_map_of_mem ?_
      by_contra hkept
      exact hopen (List.mem_map_of_mem (List.mem_filter.mpr ⟨hk, decide_eq_true hkept⟩))
  · intro hmem
    obtain ⟨k, hk, rfl⟩ := List.mem_map.mp hmem
    have hnot := hg.not_closed hk
    rw [hg.closes, List.mem_append, not_or] at hnot
    exact ⟨.inr (List.mem_map_of_mem (kept_subset _ _ hk)), hnot⟩

theorem TwoPasses.handlesIn : HandlesIn g.calls next g.nextHandle := by
  have hbound : ∀ k ∈ opensOf g.calls, next ≤ k.2 ∧ k.2 < g.nextHandle := by
    intro k hk
    rw [hg.opens, List.mem_append] at hk
    rw [hg.nextHandle]
    rcases hk with hk | hk
    · have h := handle_lt next _ hk
      rw [secondNext]
      omega
    · have h := handle_lt (secondNext first next) _ hk
      have hnext : next ≤ secondNext first next := Nat.le_add_right _ _
      omega
  refine ⟨hbound, ?_⟩
  intro h hclosed
  have hopened : h ∈ (opensOf g.calls).map Prod.snd := by
    rw [hg.closes, List.mem_append] at hclosed
    rw [hg.opens, List.map_append, List.mem_append]
    refine hclosed.imp id fun hclosed => ?_
    obtain ⟨k, hk, rfl⟩ := List.mem_map.mp hclosed
    exact List.mem_map_of_mem (List.mem_filter.mp hk).1
  obtain ⟨k, hk, rfl⟩ := List.mem_map.mp hopened
  exact hbound k hk

end Entries

end Pass

/-- The two passes are safe if and only if no more devices match in the second one. -/
theorem devicesGet_safe_iff (ctx : Option ℕ) (first second : Option (List UsbDevice)) (next : ℕ) :
    (devicesGet ctx first second next).Safe ↔ ctx = none ∨ matchCount second ≤ matchCount first := by
  cases ctx with
  | none =>
      have hcount : (devicesGet none first second next).count = 0 := rfl
      simp only [true_or, iff_true]
      constructor <;> simp [hcount]
  | some c =>
      have hg := twoPasses c first second next
      simp only [reduceCtorEq, false_or]
      constructor
      · intro hsafe
        by_contra hmore
        have hinside := hsafe.inside (matchCount first) (by rw [hg.count]; omega)
        rw [hg.size] at hinside
        exact Nat.lt_irrefl _ hinside
      · intro hle
        have hlt {i : ℕ} (hi : i < (devicesGet (some c) first second next).count) :
            i < (stored first second next).length := by
          rw [hg.count] at hi
          rw [stored_length]
          omega
        constructor
        case inside =>
          intro i hi
          rw [hg.count] at hi
          rw [hg.size]
          omega
        case wraps => exact fun i hi => hg.wraps (hlt hi)
        case once => exact fun i hi j hj heq => hg.once (hlt hi) (hlt hj) heq

/-- A device of the project. -/
def ours : UsbDevice := ⟨some ⟨0x03eb, 0x2402, 3⟩, true, 37, projectUrl⟩

/-- A device that arrives between the two passes is read from outside the array. -/
theorem arrival_read_outside :
    (devicesGet (some 0) (some []) (some [ours]) 0).size = 0 ∧
      (devicesGet (some 0) (some []) (some [ours]) 0).devices = [none] ∧
      ¬(devicesGet (some 0) (some []) (some [ours]) 0).Safe := by
  refine ⟨by decide, by decide, fun h => ?_⟩
  exact absurd (h.inside 0 (by decide)) (by decide)

end TempHumid.Host
