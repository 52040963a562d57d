import TempHumid.Th2.Descriptors

/-!
# Endpoints of a configuration over a run

What requests and bus resets do to the endpoints, on any descriptor whose
interfaces have a single setting, and the walk through the descriptor of this
device with what `udi_hid.c` reads behind the interface found.

## Implementation notes

A driver is known by what its functions do to the set of allocated endpoints.
-/

namespace TempHumid.Th2.Walk

open Records (Record encode Holds)

/-- What the functions of a driver do to the allocated endpoints. -/
structure Tracks {σ : Type*} (drv : Driver σ) (Allocated : Byte → σ → Prop) : Prop where
  alloc : ∀ a attributes size s b,
    Allocated b (drv.epAlloc a attributes size s).2 → Allocated b s ∨ b = a
  free : ∀ a s b, Allocated b (drv.epFree a s) → Allocated b s ∧ b ≠ a
  enable : ∀ i s b, Allocated b (drv.enable i s).2 → Allocated b s
  disable : ∀ i s b, Allocated b (drv.disable i s) → Allocated b s
  getsetting : ∀ i s, drv.getsetting i s = 0

/-- What changes the configuration: the two requests that reach it, and the reset of
the bus. -/
inductive Event
  | setConfiguration (n : Byte)
  | setInterface (iface setting : Byte)
  | busReset
  deriving DecidableEq

structure Udc (σ : Type*) where
  numConfiguration : Byte
  state : State σ

section Code

variable {σ : Type*} (drv : Driver σ) (mem : ℕ → Byte) (desc fuel : ℕ)

/-- `udc_req_std_dev_set_configuration` behind its checks of length and address, with
one configuration. -/
def setConfiguration (n : Byte) (u : Udc σ) : Option (Udc σ) :=
  if 1 < n then some u
  else
    match udcReset drv mem desc fuel u.numConfiguration u.state with
    | none => none
    | some s =>
        if n = 0 then some ⟨0, s⟩
        else
          (enableFrom drv mem desc fuel n (List.range (bNumInterfaces mem desc).toNat) s).map
            fun r => ⟨n, r.2⟩

/-- `udc_req_std_iface_set_setting` behind its check of the length. -/
def setInterface (iface setting : Byte) (u : Udc σ) : Option (Udc σ) :=
  if u.numConfiguration = 0 then some u
  else
    match udcIfaceDisable drv mem desc fuel u.numConfiguration iface u.state with
    | none => none
    | some (false, s) => some { u with state := s }
    | some (true, s) =>
        (udcIfaceEnable drv mem desc fuel u.numConfiguration iface setting s).map
          fun r => { u with state := r.2 }

def udcStep : Event → Udc σ → Option (Udc σ)
  | .setConfiguration n, u => setConfiguration drv mem desc fuel n u
  | .setInterface iface setting, u => setInterface drv mem desc fuel iface setting u
  | .busReset, u =>
      (udcReset drv mem desc fuel u.numConfiguration u.state).map fun s => ⟨0, s⟩

def udcRun : List Event → Udc σ → Option (Udc σ)
  | [], u => some u
  | e :: es, u => (udcStep drv mem desc fuel e u).bind (udcRun es)

end Code

section Invariant

variable {σ : Type*} (c : Config) {drv : Driver σ} {Allocated : Byte → σ → Prop}

theorem tracks_uddDriver : Tracks uddDriver fun b s => b ∈ s where
  alloc := by
    intro a attributes size s b h
    change b ∈ (listAlloc a attributes size s).2 at h
    rw [listAlloc] at h
    split at h
    · exact .inl h
    · split at h
      · exact .inl h
      · exact (List.mem_cons.mp h).symm
  free := by
    intro a s b h
    have hkept := List.mem_filter.mp h
    exact ⟨hkept.1, by simpa using hkept.2⟩
  enable := fun _ _ _ h => h
  disable := fun _ _ _ h => h
  getsetting := fun _ _ => rfl

/-- An endpoint of an interface that the configuration has. -/
def Config.HasEndpoint (c : Config) (b : Byte) : Prop :=
  ∃ iface i, iface < c.numInterfaces ∧ c.find iface 0 = some i ∧ ∃ e ∈ i.endpoints, e.address = b

theorem allocated_allocAll (hdrv : Tracks drv Allocated) (es : List Endpoint) (s : σ) (b : Byte)
    (h : Allocated b (allocAll drv es s).2) : Allocated b s ∨ ∃ e ∈ es, e.address = b := by
  induction es generalizing s with
  | nil => exact .inl h
  | cons e es ih =>
      have hstep : Allocated b (drv.epAlloc e.address e.attributes e.maxPacketSize s).2 →
          Allocated b s ∨ ∃ e' ∈ e :: es, e'.address = b := by
        intro hfirst
        obtain hbefore | rfl := hdrv.alloc _ _ _ _ _ hfirst
        · exact .inl hbefore
        · exact .inr ⟨e, List.mem_cons_self, rfl⟩
      rw [allocAll] at h
      split at h
      · obtain hfirst | ⟨e', he', hb⟩ := ih _ h
        · exact hstep hfirst
        · exact .inr ⟨e', List.mem_cons_of_mem _ he', hb⟩
      · exact hstep h

theorem allocated_freeAll (hdrv : Tracks drv Allocated) (es : List Endpoint) (s : σ) (b : Byte)
    (h : Allocated b (freeAll drv es s)) : Allocated b s ∧ ∀ e ∈ es, e.address ≠ b := by
  induction es generalizing s with
  | nil => exact ⟨h, fun e he => absurd he List.not_mem_nil⟩
  | cons e es ih =>
      obtain ⟨hfirst, hrest⟩ := ih _ h
      obtain ⟨hbefore, hne⟩ := hdrv.free _ _ _ hfirst
      refine ⟨hbefore, ?_⟩
      intro e' he'
      cases he' with
      | head => exact hne.symm
      | tail _ he' => exact hrest e' he'

/-- Every interface of the list of interfaces that a search returns is in the list. -/
theorem find_setting {iface setting : Byte} {i : Interface}
    (hsingle : ∀ i ∈ interfaces c.records, i.setting = 0) (h : c.find iface setting = some i) :
    setting = 0 := by
  rw [Config.find] at h
  have htest := List.find?_some h
  have hmatch : i.number = iface ∧ i.setting = setting := by simpa using htest
  exact hmatch.2.symm.trans (hsingle i (List.mem_of_find?_eq_some h))

theorem allocated_enable (hdrv : Tracks drv Allocated)
    (hsingle : ∀ i ∈ interfaces c.records, i.setting = 0) (n iface setting : Byte) (s : σ)
    (b : Byte) (h : Allocated b (c.enable drv n iface setting s).2) :
    Allocated b s ∨ c.HasEndpoint b := by
  rw [Config.enable] at h
  by_cases hrefused : n = 0 ∨ c.numInterfaces ≤ iface
  · rw [if_pos hrefused] at h
    exact .inl h
  · rw [if_neg hrefused] at h
    cases hfind : c.find iface setting with
    | none =>
        rw [hfind] at h
        exact .inl h
    | some i =>
        have hhas : ∀ e ∈ i.endpoints, e.address = b → c.HasEndpoint b := by
          intro e he hb
          have hzero := find_setting c hsingle hfind
          subst hzero
          exact ⟨iface, i, BitVec.not_le.mp fun hle => hrefused (.inr hle), hfind, e, he, hb⟩
        have hall : Allocated b (allocAll drv i.endpoints s).2 → Allocated b s ∨ c.HasEndpoint b := by
          intro h
          obtain hbefore | ⟨e, he, hb⟩ := allocated_allocAll hdrv _ _ _ h
          · exact .inl hbefore
          · exact .inr (hhas e he hb)
        rw [hfind] at h
        simp only at h
        split at h
        · exact hall (hdrv.enable _ _ _ h)
        · exact hall h

/-- Disabling an interface leaves none of its endpoints allocated. -/
theorem allocated_disable (hdrv : Tracks drv Allocated) {n iface : Byte}
    (hsome : ¬(n = 0 ∨ c.numInterfaces ≤ iface)) (s : σ) (b : Byte)
    (h : Allocated b (c.disable drv n iface s).2) :
    Allocated b s ∧ ∀ i, c.find iface 0 = some i → ∀ e ∈ i.endpoints, e.address ≠ b := by
  rw [Config.disable, if_neg hsome, hdrv.getsetting] at h
  cases hfind : c.find iface 0 with
  | none =>
      rw [hfind] at h
      exact ⟨h, fun i hi => by cases hi⟩
  | some i =>
      rw [hfind] at h
      obtain ⟨hbefore, hfreed⟩ := allocated_freeAll hdrv _ _ _ (hdrv.disable _ _ _ h)
      refine ⟨hbefore, ?_⟩
      rintro j hj
      cases hj
      exact hfreed

theorem allocated_disable_imp (hdrv : Tracks drv Allocated) (n iface : Byte) (s : σ) (b : Byte)
    (h : Allocated b (c.disable drv n iface s).2) : Allocated b s := by
  by_cases hsome : n = 0 ∨ c.numInterfaces ≤ iface
  · rw [Config.disable, if_pos hsome] at h
    exact h
  · exact (allocated_disable c hdrv hsome s b h).1

/-- The loop of `udc_reset` leaves no endpoint of the interfaces it passes allocated. -/
theorem allocated_disableAll (hdrv : Tracks drv Allocated) {n : Byte} (hn : n ≠ 0) (is : List ℕ)
    (s : σ) (b : Byte)
    (h : Allocated b (is.foldl (fun s i => (c.disable drv n (BitVec.ofNat 8 i) s).2) s)) :
    Allocated b s ∧ ∀ k ∈ is, BitVec.ofNat 8 k < c.numInterfaces →
      ∀ i, c.find (BitVec.ofNat 8 k) 0 = some i → ∀ e ∈ i.endpoints, e.address ≠ b := by
  induction is generalizing s with
  | nil => exact ⟨h, fun k hk => absurd hk List.not_mem_nil⟩
  | cons k is ih =>
      obtain ⟨hfirst, hrest⟩ := ih _ h
      refine ⟨allocated_disable_imp c hdrv _ _ _ _ hfirst, ?_⟩
      intro k' hk'
      cases hk' with
      | head =>
          intro hlt
          have hsome : ¬(n = 0 ∨ c.numInterfaces ≤ BitVec.ofNat 8 k) := by
            rintro (hzero | hle)
            · exact hn hzero
            · exact BitVec.not_le.mpr hlt hle
          exact (allocated_disable c hdrv hsome s b hfirst).2
      | tail _ hk' => exact hrest k' hk'

/-- After `udc_reset` none of the endpoints of the configuration is allocated. -/
theorem allocated_reset (hdrv : Tracks drv Allocated) {n : Byte} (s : σ)
    (hinv : ∀ b, Allocated b s → n ≠ 0 ∧ c.HasEndpoint b) (b : Byte) :
    ¬Allocated b (c.reset drv n s) := by
  intro h
  rw [Config.reset] at h
  by_cases hn : n = 0
  · rw [if_pos hn] at h
    exact (hinv b h).1 hn
  · rw [if_neg hn] at h
    obtain ⟨hbefore, hfreed⟩ := allocated_disableAll c hdrv hn _ _ _ h
    obtain ⟨-, iface, i, hlt, hfind, e, he, hb⟩ := hinv b hbefore
    have hname : BitVec.ofNat 8 iface.toNat = iface := BitVec.ofNat_toNat 8 iface
    have hmem : iface.toNat ∈ List.range c.numInterfaces.toNat :=
      List.mem_range.mpr (BitVec.lt_def.mp hlt)
    have hnone := hfreed iface.toNat hmem
    rw [hname] at hnone
    exact hnone hlt i hfind e he hb

theorem allocated_enableAll (hdrv : Tracks drv Allocated)
    (hsingle : ∀ i ∈ interfaces c.records, i.setting = 0) (n : Byte) (is : List ℕ) (s : σ)
    (b : Byte) (h : Allocated b (c.enableAll drv n is s).2) : Allocated b s ∨ c.HasEndpoint b := by
  induction is generalizing s with
  | nil => exact .inl h
  | cons i is ih =>
      rw [Config.enableAll] at h
      split at h
      · obtain hfirst | hhas := ih _ h
        · exact allocated_enable c hdrv hsingle n _ 0 s b hfirst
        · exact .inr hhas
      · exact allocated_enable c hdrv hsingle n _ 0 s b h

/-- Only a configured device has endpoints allocated, and only those of its
descriptor. -/
def Released (c : Config) (Allocated : Byte → σ → Prop) (u : Udc σ) : Prop :=
  ∀ b, Allocated b u.state.inner → u.numConfiguration ≠ 0 ∧ c.HasEndpoint b

variable {mem : ℕ → Byte} {desc fuel : ℕ}

theorem udcStep_released (hdrv : Tracks drv Allocated)
    (hsingle : ∀ i ∈ interfaces c.records, i.setting = 0)
    (hmem : Holds mem desc (encode c.records)) (hfuel : c.records.length < fuel) (e : Event)
    (u : Udc σ) (hu : Released c Allocated u) :
    ∃ v, udcStep drv mem desc fuel e u = some v ∧ Released c Allocated v := by
  obtain ⟨henable, hdisable, ⟨p, hreset⟩, -⟩ :=
    walk_refines c drv hmem hfuel u.numConfiguration u.state
  have hnone := allocated_reset c hdrv u.state.inner hu
  cases e with
  | busReset =>
      refine ⟨⟨0, p, _⟩, by rw [udcStep, hreset]; rfl, ?_⟩
      exact fun b hb => absurd hb (hnone b)
  | setConfiguration n =>
      rw [udcStep, setConfiguration, hreset]
      by_cases hbig : 1 < n
      · exact ⟨u, if_pos hbig, hu⟩
      · rw [if_neg hbig]
        by_cases hzero : n = 0
        · exact ⟨_, if_pos hzero, fun b hb => absurd hb (hnone b)⟩
        · obtain ⟨-, -, -, q, hall⟩ := walk_refines c drv hmem hfuel n
            ⟨p, c.reset drv u.numConfiguration u.state.inner⟩
          simp only
          rw [if_neg hzero, hall]
          refine ⟨_, rfl, ?_⟩
          intro b hb
          obtain hbefore | hhas := allocated_enableAll c hdrv hsingle n _ _ b hb
          · exact absurd hbefore (hnone b)
          · exact ⟨hzero, hhas⟩
  | setInterface iface setting =>
      rw [udcStep, setInterface]
      by_cases hzero : u.numConfiguration = 0
      · exact ⟨u, if_pos hzero, hu⟩
      · obtain ⟨q, hq⟩ := hdisable iface
        have hkept : ∀ b, Allocated b (c.disable drv u.numConfiguration iface u.state.inner).2 →
            u.numConfiguration ≠ 0 ∧ c.HasEndpoint b :=
          fun b hb => hu b (allocated_disable_imp c hdrv _ _ _ _ hb)
        rw [if_neg hzero, hq]
        cases hone : c.disable drv u.numConfiguration iface u.state.inner with
        | mk ok inner =>
            rw [hone] at hkept
            cases ok with
            | false => exact ⟨_, rfl, hkept⟩
            | true =>
                obtain ⟨r, hr⟩ := udcIfaceEnable_eq c drv hmem hfuel u.numConfiguration iface
                  setting ⟨q, inner⟩
                simp only
                rw [hr]
                refine ⟨_, rfl, ?_⟩
                intro b hb
                obtain hbefore | hhas := allocated_enable c hdrv hsingle _ _ _ _ b hb
                · exact hkept b hbefore
                · exact ⟨hzero, hhas⟩

/-- In every run of requests and bus resets over any descriptor with single settings
the searches end, and an endpoint is allocated only while the device is configured and
only if its descriptor names it. -/
theorem udcRun_released (hdrv : Tracks drv Allocated)
    (hsingle : ∀ i ∈ interfaces c.records, i.setting = 0)
    (hmem : Holds mem desc (encode c.records)) (hfuel : c.records.length < fuel)
    (es : List Event) (u : Udc σ) (hu : ∀ b, ¬Allocated b u.state.inner) :
    ∃ v, udcRun drv mem desc fuel es u = some v ∧
      ∀ b, Allocated b v.state.inner → v.numConfiguration ≠ 0 ∧ c.HasEndpoint b := by
  have hstart : Released c Allocated u := fun b hb => absurd hb (hu b)
  clear hu
  induction es generalizing u with
  | nil => exact ⟨u, rfl, hstart⟩
  | cons e es ih =>
      obtain ⟨v, hv, hreleased⟩ := udcStep_released c hdrv hsingle hmem hfuel e u hstart
      rw [udcRun, hv]
      exact ih v hreleased

theorem udcRun_released_device :
    ∃ v, udcRun uddDriver deviceMem 0 6
        [.setConfiguration 1, .setInterface 0 1, .setConfiguration 1, .busReset] ⟨0, 0, []⟩ = some v ∧
      ∀ b, b ∈ v.state.inner → v.numConfiguration ≠ 0 ∧ udcDesc.HasEndpoint b :=
  udcRun_released udcDesc tracks_uddDriver (by decide) holds_deviceMem (by decide) _ _
    fun _ => List.not_mem_nil

end Invariant

/-! ## The descriptor of this device -/

section Device

theorem interfaces_udcDesc : interfaces udcDesc.records = [⟨0, 0, hidEndpoints⟩] := by decide

theorem find_udcDesc (iface setting : Byte) :
    udcDesc.find iface setting =
      if 0 = iface ∧ 0 = setting then some ⟨0, 0, hidEndpoints⟩ else none := by
  rw [Config.find, interfaces_udcDesc, List.find?_cons]
  by_cases h : 0 = iface ∧ 0 = setting
  · rw [if_pos h, decide_eq_true h]
  · rw [if_neg h, decide_eq_false h]
    rfl

/-- `udi_hid_reqstdifaceget_descriptor`, with the address and size of its payload. -/
def udiHidReqstdifacegetDescriptor (mem : ℕ → Byte) (ptrIface report : ℕ) (req : SetupReq) :
    Option (ℕ × Half) :=
  let hid := ptrIface + 9
  if 0x21 ≠ mem (hid + 1) then none
  else if 0x21 = req.valueHigh then some (hid, minSize req.wLength ((mem hid).setWidth 16))
  else if mem (hid + 6) = req.valueHigh then
    some (report, minSize req.wLength (le16 (mem (hid + 7)) (mem (hid + 8))))
  else none

/-- What the driver answers while the only interface is enabled. -/
def hwOf {σ : Type*} (drv : Driver σ) (s : σ) : Hw where
  epAlloc := (allocAll drv hidEndpoints s).1
  epRun := (drv.enable 0 (allocAll drv hidEndpoints s).2).1

theorem valueHigh_eq (req : SetupReq) (k : Byte) :
    k = req.valueHigh ↔ req.wValue >>> 8 = k.setWidth 16 := by
  have hsmall : (req.wValue >>> 8).toNat < 2 ^ 8 := by
    rw [BitVec.toNat_ushiftRight, Nat.shiftRight_eq_div_pow]
    have hbound := req.wValue.isLt
    omega
  have hk := k.isLt
  rw [SetupReq.valueHigh, ← BitVec.toNat_inj, ← BitVec.toNat_inj, BitVec.toNat_setWidth,
    BitVec.toNat_setWidth, Nat.mod_eq_of_lt hsmall, Nat.mod_eq_of_lt (by omega)]
  exact eq_comm

variable {σ : Type*} (drv : Driver σ) {mem : ℕ → Byte} {desc fuel : ℕ}

/-- Behind the interface descriptor lies the HID descriptor. -/
theorem hid_reply (hmem : Holds mem desc (encode udcDesc.records)) (report : ℕ) (v : Usb) :
    udiHidReqstdifacegetDescriptor mem (desc + 9) report v.req =
      if (Th2.udiHidReqstdifacegetDescriptor v).1 then
        some (if (Th2.udiHidReqstdifacegetDescriptor v).2.payload = .hidDesc then desc + 18
          else report, (Th2.udiHidReqstdifacegetDescriptor v).2.payloadSize)
      else none := by
  have hhid : Holds mem (desc + 18) hidRecord.bytes := hmem.tail.tail.record
  have hlen : mem (desc + 18) = 9 := hhid 0 (by decide)
  have hkind : mem (desc + 18 + 1) = 0x21 := hhid.kind
  have hreport : mem (desc + 18 + 6) = 0x22 := hhid.body (show 4 < 7 by decide)
  have hlow : mem (desc + 18 + 7) = 53 := hhid.body (show 5 < 7 by decide)
  have hhigh : mem (desc + 18 + 8) = 0 := hhid.body (show 6 < 7 by decide)
  have h21 := valueHigh_eq v.req 0x21
  have h22 := valueHigh_eq v.req 0x22
  rw [udiHidReqstdifacegetDescriptor, Th2.udiHidReqstdifacegetDescriptor]
  rw [hlen, hkind, hreport, hlow, hhigh, if_neg (not_not_intro rfl)]
  by_cases hfirst : v.req.wValue >>> 8 = 0x21
  · rw [if_pos (h21.mpr hfirst), if_pos hfirst]
    rfl
  · rw [if_neg fun h => hfirst (h21.mp h), if_neg hfirst]
    by_cases hsecond : v.req.wValue >>> 8 = 0x22
    · rw [if_pos (h22.mpr hsecond), if_pos hsecond]
      rfl
    · rw [if_neg fun h => hsecond (h22.mp h), if_neg hsecond]
      rfl

/-- On the descriptor of this device the walk in memory is what the request handlers
are modelled with: the only interface with its only setting, its two endpoints, and the
HID descriptor behind it. -/
theorem device_walk (hmem : Holds mem desc (encode udcDesc.records)) (hfuel : 5 < fuel)
    (u : Usb) (iface setting : Byte) (s : State σ) :
    (∃ ptr, udcUpdateIfaceDesc mem desc fuel u.numConfiguration iface setting s.udcPtrIface =
        some (Th2.udcUpdateIfaceDesc iface setting u, ptr) ∧
      (Th2.udcUpdateIfaceDesc iface setting u = true → ∀ (report : ℕ) (v : Usb),
        udiHidReqstdifacegetDescriptor mem ptr report v.req =
          if (Th2.udiHidReqstdifacegetDescriptor v).1 then
            some (if (Th2.udiHidReqstdifacegetDescriptor v).2.payload = .hidDesc then desc + 18
              else report, (Th2.udiHidReqstdifacegetDescriptor v).2.payloadSize)
          else none)) ∧
    ∃ t, udcIfaceEnable drv mem desc fuel u.numConfiguration iface setting s =
      some ((Th2.udcIfaceEnable (hwOf drv s.inner) iface setting u).1, t) := by
  have hrefuse : (u.numConfiguration = 0 ∨ udcDesc.numInterfaces ≤ iface) →
      Th2.udcUpdateIfaceDesc iface setting u = false := by
    rintro (hzero | hle)
    · simp [Th2.udcUpdateIfaceDesc, hzero]
    · have hlt : ¬(iface < deviceNbInterface) := BitVec.not_lt.mpr hle
      simp [Th2.udcUpdateIfaceDesc, hlt]
  have haccept : ¬(u.numConfiguration = 0 ∨ udcDesc.numInterfaces ≤ iface) →
      0 = iface ∧ Th2.udcUpdateIfaceDesc iface setting u = decide (0 = setting) := by
    intro h
    have hlt : iface < deviceNbInterface := BitVec.not_le.mp fun hle => h (.inr hle)
    have hzero : 0 = iface := by
      apply BitVec.eq_of_toNat_eq
      have hnat := BitVec.lt_def.mp hlt
      exact (Nat.lt_one_iff.mp hnat).symm
    refine ⟨hzero, ?_⟩
    have hsetting : (setting == 0) = decide (0 = setting) :=
      Bool.eq_iff_iff.mpr (by rw [beq_iff_eq, decide_eq_true_iff]; exact eq_comm)
    have hn : decide (u.numConfiguration ≠ 0) = true := decide_eq_true fun hn => h (.inl hn)
    rw [Th2.udcUpdateIfaceDesc, hn, decide_eq_true hlt, hsetting]
    rfl
  by_cases h : u.numConfiguration = 0 ∨ udcDesc.numInterfaces ≤ iface
  · have hfalse := hrefuse h
    obtain ⟨t, ht⟩ :=
      udcIfaceEnable_eq udcDesc drv hmem hfuel u.numConfiguration iface setting s
    constructor
    · refine ⟨s.udcPtrIface, ?_, fun htrue => absurd (hfalse.symm.trans htrue) Bool.false_ne_true⟩
      rw [udcUpdateIfaceDesc_refused udcDesc hmem h, hfalse]
    · rw [ht, Config.enable, if_pos h, Th2.udcIfaceEnable, hfalse]
      exact ⟨_, rfl⟩
  · obtain ⟨hiface, htrue⟩ := haccept h
    subst hiface
    obtain ⟨t, ht⟩ := udcIfaceEnable_eq udcDesc drv hmem hfuel u.numConfiguration 0 setting s
    have hwalk := udcUpdateIfaceDesc_eq udcDesc hmem hfuel h setting s.udcPtrIface
    rw [find_udcDesc] at hwalk
    rw [Config.enable, if_neg h, find_udcDesc] at ht
    by_cases hsetting : 0 = setting
    · subst hsetting
      rw [if_pos ⟨rfl, rfl⟩] at hwalk ht
      rw [decide_eq_true rfl] at htrue
      constructor
      · refine ⟨desc + 9, hwalk.trans ?_, fun _ report v => hid_reply hmem report v⟩
        rw [htrue]
        rfl
      · change _ = some
          ((if (allocAll drv hidEndpoints s.inner).1 then
              drv.enable 0 (allocAll drv hidEndpoints s.inner).2
            else allocAll drv hidEndpoints s.inner).1, (_ : State σ)) at ht
        rw [ht, Th2.udcIfaceEnable, htrue, hwOf]
        cases hall : allocAll drv hidEndpoints s.inner with
        | mk ok inner =>
            cases ok with
            | false => exact ⟨_, rfl⟩
            | true => exact ⟨_, rfl⟩
    · have hno : ¬((0 : Byte) = 0 ∧ 0 = setting) := fun h => hsetting h.2
      rw [if_neg hno] at hwalk ht
      rw [decide_eq_false hsetting] at htrue
      constructor
      · refine ⟨udcDesc.place desc 0 setting, hwalk.trans ?_,
          fun hf => absurd (htrue.symm.trans hf) Bool.false_ne_true⟩
        rw [htrue]
        rfl
      · rw [ht, Th2.udcIfaceEnable, htrue]
        exact ⟨_, rfl⟩

theorem device_walk_configured :
    (∃ ptr, udcUpdateIfaceDesc deviceMem 0 6 1 0 0 0 = some (true, ptr) ∧
      (true = true → ∀ (report : ℕ) (v : Usb),
        udiHidReqstdifacegetDescriptor deviceMem ptr report v.req =
          if (Th2.udiHidReqstdifacegetDescriptor v).1 then
            some (if (Th2.udiHidReqstdifacegetDescriptor v).2.payload = .hidDesc then 0 + 18
              else report, (Th2.udiHidReqstdifacegetDescriptor v).2.payloadSize)
          else none)) ∧
    ∃ t, udcIfaceEnable uddDriver deviceMem 0 6 1 0 0 ⟨0, []⟩ = some (true, t) :=
  device_walk uddDriver holds_deviceMem (by decide) { Usb.init with numConfiguration := 1 } 0 0
    ⟨0, []⟩

end Device

end TempHumid.Th2.Walk
