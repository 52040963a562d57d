import TempHumid.Library.Records
import TempHumid.Th2.Setup

/-!
# The walk through the configuration descriptor

`udc_update_iface_desc`, `udc_next_desc_in_iface`, `udc_iface_enable`,
`udc_iface_disable` and `udc_reset` of `udc.c`, on a descriptor in memory. They
find their way by the lengths in the descriptor alone.

## Implementation notes

`desc` is the address in `udc_ptr_conf->desc`. The endpoint driver and the
interfaces are parameters. Every search takes the same fuel. `none` is a search
that has run out of it.
-/

namespace TempHumid.Th2.Walk

open Records (Record scan search encode Holds)

def dtInterface : Byte := 4
def dtEndpoint : Byte := 5

def le16 (lo hi : Byte) : Half := hi ++ lo

/-- `udd_ep_alloc`, `udd_ep_free` and the functions in `udi_apis`. -/
structure Driver (σ : Type*) where
  epAlloc : Byte → Byte → Half → σ → Bool × σ
  epFree : Byte → σ → σ
  enable : Byte → σ → Bool × σ
  disable : Byte → σ → σ
  getsetting : Byte → σ → Byte

/-- The pointer `udc_ptr_iface`, and the state of the driver and the interfaces. -/
structure State (σ : Type*) where
  udcPtrIface : ℕ
  inner : σ

section Code

variable {σ : Type*} (drv : Driver σ) (mem : ℕ → Byte) (desc : ℕ) (fuel : ℕ)

def bNumInterfaces : Byte := mem (desc + 4)

def udcGetEofConf : ℕ := desc + (le16 (mem (desc + 2)) (mem (desc + 3))).toNat

/-- The test in the loop of `udc_next_desc_in_iface`: the end of the interface, or
the descriptor looked for. -/
def nextStop (id : Byte) (p : ℕ) : Option (Option ℕ) :=
  if dtInterface = mem (p + 1) then some none
  else if id = mem (p + 1) then some (some p)
  else none

/-- The inner `none` is `NULL`. -/
def udcNextDescInIface (p : ℕ) (id : Byte) : Option (Option ℕ) :=
  (scan mem (udcGetEofConf mem desc) (nextStop mem id) fuel (p + (mem p).toNat)).map
    fun r => r.1.join

def ifaceStop (iface setting : Byte) (p : ℕ) : Option Unit :=
  if dtInterface = mem (p + 1) ∧ iface = mem (p + 2) ∧ setting = mem (p + 3) then some ()
  else none

def udcUpdateIfaceDesc (numConfiguration iface setting : Byte) (ptr : ℕ) : Option (Bool × ℕ) :=
  if 0 = numConfiguration then some (false, ptr)
  else if bNumInterfaces mem desc ≤ iface then some (false, ptr)
  else
    (scan mem (udcGetEofConf mem desc) (ifaceStop mem iface setting) fuel desc).map
      fun r => (r.1.isSome, r.2)

/-- The loop over the endpoints in `udc_iface_enable`, from the descriptor at `p` on. -/
def allocLoop : ℕ → ℕ → σ → Option (Bool × σ)
  | 0, _, _ => none
  | n + 1, p, s =>
      match udcNextDescInIface mem desc fuel p dtEndpoint with
      | none => none
      | some none => some (true, s)
      | some (some q) =>
          let r := drv.epAlloc (mem (q + 2)) (mem (q + 3)) (le16 (mem (q + 4)) (mem (q + 5))) s
          if r.1 then allocLoop n q r.2 else some (false, r.2)

def udcIfaceEnable (numConfiguration iface setting : Byte) (s : State σ) :
    Option (Bool × State σ) :=
  match udcUpdateIfaceDesc mem desc fuel numConfiguration iface setting s.udcPtrIface with
  | none => none
  | some (false, ptr) => some (false, ⟨ptr, s.inner⟩)
  | some (true, ptr) =>
      match allocLoop drv mem desc fuel fuel ptr s.inner with
      | none => none
      | some (false, inner) => some (false, ⟨ptr, inner⟩)
      | some (true, inner) => some ((drv.enable iface inner).1, ⟨ptr, (drv.enable iface inner).2⟩)

/-- The loop over the endpoints in `udc_iface_disable`. -/
def freeLoop : ℕ → ℕ → σ → Option σ
  | 0, _, _ => none
  | n + 1, p, s =>
      match udcNextDescInIface mem desc fuel p dtEndpoint with
      | none => none
      | some none => some s
      | some (some q) => freeLoop n q (drv.epFree (mem (q + 2)) s)

def udcIfaceDisable (numConfiguration iface : Byte) (s : State σ) : Option (Bool × State σ) :=
  match udcUpdateIfaceDesc mem desc fuel numConfiguration iface 0 s.udcPtrIface with
  | none => none
  | some (false, ptr) => some (false, ⟨ptr, s.inner⟩)
  | some (true, ptr) =>
      match udcUpdateIfaceDesc mem desc fuel numConfiguration iface
          (drv.getsetting iface s.inner) ptr with
      | none => none
      | some (false, ptr) => some (false, ⟨ptr, s.inner⟩)
      | some (true, ptr) =>
          match freeLoop drv mem desc fuel fuel ptr s.inner with
          | none => none
          | some inner => some (true, ⟨ptr, drv.disable iface inner⟩)

/-- The loop of `udc_reset`, which does not look at the results. -/
def disableFrom (numConfiguration : Byte) : List ℕ → State σ → Option (State σ)
  | [], s => some s
  | i :: is, s =>
      match udcIfaceDisable drv mem desc fuel numConfiguration (BitVec.ofNat 8 i) s with
      | none => none
      | some (_, s) => disableFrom numConfiguration is s

/-- The part of `udc_reset` that concerns the interfaces. -/
def udcReset (numConfiguration : Byte) (s : State σ) : Option (State σ) :=
  if numConfiguration ≠ 0 then
    disableFrom drv mem desc fuel numConfiguration
      (List.range (bNumInterfaces mem desc).toNat) s
  else some s

/-- The loop at the end of `udc_req_std_dev_set_configuration`. -/
def enableFrom (numConfiguration : Byte) : List ℕ → State σ → Option (Bool × State σ)
  | [], s => some (true, s)
  | i :: is, s =>
      match udcIfaceEnable drv mem desc fuel numConfiguration (BitVec.ofNat 8 i) 0 s with
      | none => none
      | some (false, s) => some (false, s)
      | some (true, s) => enableFrom numConfiguration is s

end Code

/-! ## The descriptor as a sequence of records -/

/-- A configuration descriptor whose lengths are right and whose interface and
endpoint descriptors have all their fields. -/
structure Config where
  header : Record
  rest : List Record
  isConfiguration : header.kind = 2
  headerFields : 3 ≤ header.body.length
  totalLength : (le16 (header.body.getD 0 0) (header.body.getD 1 0)).toNat =
    (encode (header :: rest)).length
  fields : ∀ r ∈ rest, (r.kind = dtInterface → 2 ≤ r.body.length) ∧
    (r.kind = dtEndpoint → 4 ≤ r.body.length)

namespace Config

def records (c : Config) : List Record := c.header :: c.rest

def numInterfaces (c : Config) : Byte := c.header.body.getD 2 0

end Config

structure Endpoint where
  address : Byte
  attributes : Byte
  maxPacketSize : Half
  deriving DecidableEq

def Endpoint.ofRecord (r : Record) : Endpoint where
  address := r.body.getD 0 0
  attributes := r.body.getD 1 0
  maxPacketSize := le16 (r.body.getD 2 0) (r.body.getD 3 0)

/-- The endpoints in the records behind an interface descriptor, up to the next one. -/
def endpoints : List Record → List Endpoint
  | [] => []
  | r :: rs =>
      if r.kind = dtInterface then []
      else if r.kind = dtEndpoint then Endpoint.ofRecord r :: endpoints rs
      else endpoints rs

/-- Allocation in order, up to the first endpoint that is refused. -/
def allocAll {σ : Type*} (drv : Driver σ) : List Endpoint → σ → Bool × σ
  | [], s => (true, s)
  | e :: es, s =>
      let r := drv.epAlloc e.address e.attributes e.maxPacketSize s
      if r.1 then allocAll drv es r.2 else (false, r.2)

def freeAll {σ : Type*} (drv : Driver σ) (es : List Endpoint) (s : σ) : σ :=
  es.foldl (fun s e => drv.epFree e.address s) s

/-- An interface descriptor with the endpoints that belong to it. -/
structure Interface where
  number : Byte
  setting : Byte
  endpoints : List Endpoint
  deriving DecidableEq

def interfaces : List Record → List Interface
  | [] => []
  | r :: rs =>
      if r.kind = dtInterface then
        ⟨r.body.getD 0 0, r.body.getD 1 0, endpoints rs⟩ :: interfaces rs
      else interfaces rs

namespace Config

variable {σ : Type*} (c : Config) (drv : Driver σ)

def find (iface setting : Byte) : Option Interface :=
  (interfaces c.records).find? fun i => decide (i.number = iface ∧ i.setting = setting)

/-- `udc_iface_enable` without its pointers. -/
def enable (numConfiguration iface setting : Byte) (s : σ) : Bool × σ :=
  if numConfiguration = 0 ∨ c.numInterfaces ≤ iface then (false, s)
  else
    match c.find iface setting with
    | none => (false, s)
    | some i =>
        let r := allocAll drv i.endpoints s
        if r.1 then drv.enable iface r.2 else r

/-- `udc_iface_disable` without its pointers. -/
def disable (numConfiguration iface : Byte) (s : σ) : Bool × σ :=
  if numConfiguration = 0 ∨ c.numInterfaces ≤ iface then (false, s)
  else
    match c.find iface 0, c.find iface (drv.getsetting iface s) with
    | some _, some i => (true, drv.disable iface (freeAll drv i.endpoints s))
    | _, _ => (false, s)

/-- `udc_reset` without its pointers. -/
def reset (numConfiguration : Byte) (s : σ) : σ :=
  if numConfiguration = 0 then s
  else
    (List.range c.numInterfaces.toNat).foldl
      (fun s i => (c.disable drv numConfiguration (BitVec.ofNat 8 i) s).2) s

/-- The setting 0 of these interfaces in order, up to the first failure. -/
def enableAll (numConfiguration : Byte) : List ℕ → σ → Bool × σ
  | [], s => (true, s)
  | i :: is, s =>
      let r := c.enable drv numConfiguration (BitVec.ofNat 8 i) 0 s
      if r.1 then enableAll numConfiguration is r.2 else (false, r.2)

end Config

/-! ## The descriptor of this device -/

def confRecord : Record := ⟨2, [41, 0, 1, 1, 0, 0xc0, 50], by decide⟩
def ifaceRecord : Record := ⟨4, [0, 0, 2, 3, 0, 0, 0], by decide⟩
def hidRecord : Record := ⟨0x21, [0x11, 0x01, 0, 1, 0x22, 53, 0], by decide⟩
def epInRecord : Record := ⟨5, [0x81, 3, 64, 0, 4], by decide⟩
def epOutRecord : Record := ⟨5, [0x02, 3, 64, 0, 4], by decide⟩

/-- `udc_desc` of `udi_hid_generic_desc.c`. -/
def udcDesc : Config where
  header := confRecord
  rest := [ifaceRecord, hidRecord, epInRecord, epOutRecord]
  isConfiguration := rfl
  headerFields := by decide
  totalLength := by decide
  fields := by decide

def hidEndpoints : List Endpoint := [⟨0x81, 3, 64⟩, ⟨0x02, 3, 64⟩]

/-- A driver that keeps the allocated endpoints in a list. It refuses what
`udd_ep_alloc` refuses: an endpoint that is too large, and a control endpoint. -/
def listAlloc (a attributes : Byte) (size : Half) (s : List Byte) : Bool × List Byte :=
  if 1023 < size then (false, s)
  else if attributes &&& 3 = 0 then (false, s)
  else (true, a :: s)

def uddDriver : Driver (List Byte) where
  epAlloc := listAlloc
  epFree := fun a s => s.filter fun b => decide (b ≠ a)
  enable := fun _ s => (true, s)
  disable := fun _ s => s
  getsetting := fun _ _ => 0

/-- A memory with the descriptor at its beginning. -/
def deviceMem (p : ℕ) : Byte := (encode udcDesc.records).getD p 0

theorem holds_deviceMem : Holds deviceMem 0 (encode udcDesc.records) := by
  intro i _
  rw [Nat.zero_add]
  rfl

/-! ## The searches -/

section Searches

/-- The test of `udc_update_iface_desc` on a record. -/
def findIface (iface setting : Byte) : ℕ → Record → Option Unit := fun _ r =>
  if dtInterface = r.kind ∧ iface = r.body.getD 0 0 ∧ setting = r.body.getD 1 0 then some ()
  else none

/-- The test of `udc_next_desc_in_iface` on a record. -/
def findNext (id : Byte) : ℕ → Record → Option (Option ℕ) := fun p r =>
  if dtInterface = r.kind then some none else if id = r.kind then some (some p) else none

variable {mem : ℕ → Byte} {desc fuel : ℕ}

theorem nextStop_eq (id : Byte) {p : ℕ} {r : Record} (hmem : Holds mem p r.bytes) :
    nextStop mem id p = findNext id p r := by
  rw [nextStop, findNext, hmem.kind]

theorem ifaceStop_eq (iface setting : Byte) {p : ℕ} {r : Record} (hmem : Holds mem p r.bytes)
    (hfields : r.kind = dtInterface → 2 ≤ r.body.length) :
    ifaceStop mem iface setting p = findIface iface setting p r := by
  rw [ifaceStop, findIface, hmem.kind]
  by_cases hkind : dtInterface = r.kind
  · have hlen := hfields hkind.symm
    have hnumber : mem (p + 2) = r.body.getD 0 0 := hmem.body (by omega)
    have hsetting : mem (p + 3) = r.body.getD 1 0 := hmem.body (by omega)
    rw [hnumber, hsetting]
  · rw [if_neg fun h => hkind h.1, if_neg fun h => hkind h.1]

/-- The records of an interface are unchanged by others before them. -/
theorem endpoints_of_passed {before rs : List Record}
    (h : ∀ x ∈ before, ∃ q, findNext dtEndpoint q x = none) :
    endpoints (before ++ rs) = endpoints rs := by
  induction before with
  | nil => rfl
  | cons x before ih =>
      obtain ⟨q, hq⟩ := h x List.mem_cons_self
      have hkind : x.kind ≠ dtInterface ∧ x.kind ≠ dtEndpoint := by
        rw [findNext] at hq
        split at hq
        · cases hq
        · next hiface =>
            split at hq
            · cases hq
            · next hep => exact ⟨fun h => hiface h.symm, fun h => hep h.symm⟩
      rw [← ih fun y hy => h y (List.mem_cons_of_mem _ hy), List.cons_append, endpoints,
        if_neg hkind.1, if_neg hkind.2]

theorem endpoints_cons_interface {r : Record} (rs : List Record) (h : dtInterface = r.kind) :
    endpoints (r :: rs) = [] := if_pos h.symm

theorem endpoints_cons_endpoint {r : Record} (rs : List Record) (h : dtEndpoint = r.kind) :
    endpoints (r :: rs) = Endpoint.ofRecord r :: endpoints rs := by
  have hne : r.kind ≠ dtInterface := by
    rw [← h]
    decide
  rw [endpoints, if_neg hne, if_pos h.symm]

/-- One call of `udc_next_desc_in_iface` from a record finds the next endpoint of the
interface, or that there is none. -/
theorem udcNextDescInIface_eq {p : ℕ} {r : Record} {rs : List Record}
    (hmem : Holds mem p (encode (r :: rs)))
    (heof : udcGetEofConf mem desc = p + (encode (r :: rs)).length) (hn : rs.length < fuel) :
    (udcNextDescInIface mem desc fuel p dtEndpoint = some none ∧ endpoints rs = []) ∨
      ∃ q e after, udcNextDescInIface mem desc fuel p dtEndpoint = some (some q) ∧
        endpoints rs = Endpoint.ofRecord e :: endpoints after ∧ e ∈ rs ∧ e.kind = dtEndpoint ∧
        after.length < rs.length ∧ (∀ x ∈ after, x ∈ rs) ∧ Holds mem q (encode (e :: after)) ∧
        udcGetEofConf mem desc = q + (encode (e :: after)).length := by
  have hend : udcGetEofConf mem desc = p + r.size + (encode rs).length := by
    rw [heof, Records.encode_cons, List.length_append, Record.length_bytes, Nat.add_assoc]
  have hscan := Records.scan_encode fuel (p + r.size) rs hmem.tail
    (fun q x _ hx => nextStop_eq dtEndpoint hx) hn
  have hwalk : udcNextDescInIface mem desc fuel p dtEndpoint =
      some ((search (findNext dtEndpoint) (p + r.size) rs).1.map Prod.fst).join := by
    rw [udcNextDescInIface, hmem.record.length, hend, hscan]
    rfl
  cases hfound : (search (findNext dtEndpoint) (p + r.size) rs).1 with
  | none =>
      left
      have hnone : endpoints (rs ++ []) = endpoints [] :=
        endpoints_of_passed (Records.search_none hfound).1
      rw [List.append_nil] at hnone
      exact ⟨by rw [hwalk, hfound]; rfl, hnone⟩
  | some found =>
      obtain ⟨stop, after⟩ := found
      obtain ⟨before, e, hsplit, hpassed, hstop, hheld, hlast⟩ :=
        Records.search_some hmem.tail hfound
      have hrest : endpoints rs = endpoints (e :: after) := by
        rw [hsplit, endpoints_of_passed hpassed]
      rw [hfound] at hwalk
      rw [findNext] at hstop
      split at hstop
      · next hiface =>
          left
          cases hstop
          exact ⟨hwalk, hrest.trans (endpoints_cons_interface after hiface)⟩
      · split at hstop
        · next hep =>
            right
            cases hstop
            refine ⟨_, e, after, hwalk, hrest.trans (endpoints_cons_endpoint after hep), ?_,
              hep.symm, ?_, ?_, hheld, hend.trans hlast.symm⟩
            · rw [hsplit]
              exact List.mem_append_right _ List.mem_cons_self
            · rw [hsplit, List.length_append, List.length_cons]
              omega
            · intro x hx
              rw [hsplit]
              exact List.mem_append_right _ (List.mem_cons_of_mem _ hx)
        · cases hstop

/-- The fields that the loops read from an endpoint descriptor. -/
theorem endpoint_fields {q : ℕ} {e : Record} (hmem : Holds mem q e.bytes)
    (hlen : 4 ≤ e.body.length) :
    mem (q + 2) = (Endpoint.ofRecord e).address ∧
      mem (q + 3) = (Endpoint.ofRecord e).attributes ∧
      le16 (mem (q + 4)) (mem (q + 5)) = (Endpoint.ofRecord e).maxPacketSize := by
  have h0 : mem (q + 2) = e.body.getD 0 0 := hmem.body (by omega)
  have h1 : mem (q + 3) = e.body.getD 1 0 := hmem.body (by omega)
  have h2 : mem (q + 4) = e.body.getD 2 0 := hmem.body (by omega)
  have h3 : mem (q + 5) = e.body.getD 3 0 := hmem.body (by omega)
  exact ⟨h0, h1, by rw [h2, h3]; rfl⟩

variable {σ : Type*} (drv : Driver σ)

/-- The loop of `udc_iface_enable` allocates the endpoints of the interface in order. -/
theorem allocLoop_eq (n p : ℕ) (r : Record) (rs : List Record) (s : σ)
    (hmem : Holds mem p (encode (r :: rs)))
    (heof : udcGetEofConf mem desc = p + (encode (r :: rs)).length)
    (hfields : ∀ x ∈ rs, x.kind = dtEndpoint → 4 ≤ x.body.length)
    (hn : rs.length < n) (hfuel : rs.length < fuel) :
    allocLoop drv mem desc fuel n p s = some (allocAll drv (endpoints rs) s) := by
  induction n generalizing p r rs s with
  | zero => exact absurd hn (Nat.not_lt_zero _)
  | succ n ih =>
      rw [allocLoop]
      obtain ⟨hwalk, hnone⟩ | ⟨q, e, after, hwalk, heps, he, hkind, hshort, hsub, hheld, hlast⟩ :=
        udcNextDescInIface_eq hmem heof hfuel
      · rw [hwalk, hnone]
        rfl
      · obtain ⟨haddress, hattributes, hsize⟩ := endpoint_fields hheld.record (hfields e he hkind)
        rw [hwalk, heps, allocAll]
        simp only
        rw [haddress, hattributes, hsize]
        split
        · exact ih q e after _ hheld hlast (fun x hx => hfields x (hsub x hx)) (by omega) (by omega)
        · rfl

/-- The loop of `udc_iface_disable` frees them. -/
theorem freeLoop_eq (n p : ℕ) (r : Record) (rs : List Record) (s : σ)
    (hmem : Holds mem p (encode (r :: rs)))
    (heof : udcGetEofConf mem desc = p + (encode (r :: rs)).length)
    (hfields : ∀ x ∈ rs, x.kind = dtEndpoint → 4 ≤ x.body.length)
    (hn : rs.length < n) (hfuel : rs.length < fuel) :
    freeLoop drv mem desc fuel n p s = some (freeAll drv (endpoints rs) s) := by
  induction n generalizing p r rs s with
  | zero => exact absurd hn (Nat.not_lt_zero _)
  | succ n ih =>
      rw [freeLoop]
      obtain ⟨hwalk, hnone⟩ | ⟨q, e, after, hwalk, heps, he, hkind, hshort, hsub, hheld, hlast⟩ :=
        udcNextDescInIface_eq hmem heof hfuel
      · rw [hwalk, hnone]
        rfl
      · obtain ⟨haddress, -, -⟩ := endpoint_fields hheld.record (hfields e he hkind)
        rw [hwalk, heps]
        simp only
        rw [haddress]
        exact ih q e after _ hheld hlast (fun x hx => hfields x (hsub x hx)) (by omega) (by omega)

/-- The abstract list of interfaces is searched by the same test. -/
theorem find_interfaces (iface setting : Byte) (p : ℕ) (rs : List Record) :
    (interfaces rs).find? (fun i => decide (i.number = iface ∧ i.setting = setting)) =
      (search (findIface iface setting) p rs).1.map fun r => ⟨iface, setting, endpoints r.2⟩ := by
  induction rs generalizing p with
  | nil => rfl
  | cons r rs ih =>
      rw [interfaces, search, findIface]
      by_cases hkind : r.kind = dtInterface
      · rw [if_pos hkind]
        by_cases hmatch : r.body.getD 0 0 = iface ∧ r.body.getD 1 0 = setting
        · have hhead : decide (r.body.getD 0 0 = iface ∧ r.body.getD 1 0 = setting) = true :=
            decide_eq_true hmatch
          rw [List.find?_cons, hhead, if_pos ⟨hkind.symm, hmatch.1.symm, hmatch.2.symm⟩, hmatch.1,
            hmatch.2]
          rfl
        · have hhead : decide (r.body.getD 0 0 = iface ∧ r.body.getD 1 0 = setting) = false :=
            decide_eq_false hmatch
          rw [List.find?_cons, hhead, if_neg fun h => hmatch ⟨h.2.1.symm, h.2.2.symm⟩]
          exact ih _
      · rw [if_neg hkind, if_neg fun h => hkind h.1.symm]
        exact ih _

end Searches

/-! ## The walk refines the abstract operations -/

section Refinement

variable {σ : Type*} (c : Config) (drv : Driver σ) {mem : ℕ → Byte} {desc fuel : ℕ}

/-- Where `udc_update_iface_desc` leaves `udc_ptr_iface`. -/
def Config.place (c : Config) (desc : ℕ) (iface setting : Byte) : ℕ :=
  (search (findIface iface setting) desc c.records).2

include c

theorem eof_eq (hmem : Holds mem desc (encode c.records)) :
    udcGetEofConf mem desc = desc + (encode c.records).length := by
  have hlen := c.headerFields
  have h0 : mem (desc + 2) = c.header.body.getD 0 0 := hmem.record.body (by omega)
  have h1 : mem (desc + 3) = c.header.body.getD 1 0 := hmem.record.body (by omega)
  rw [udcGetEofConf, h0, h1, c.totalLength]
  rfl

theorem interfaceFields : ∀ r ∈ c.records, r.kind = dtInterface → 2 ≤ r.body.length := by
  intro r hr hkind
  cases hr with
  | head => exact absurd (hkind.symm.trans c.isConfiguration) (by decide)
  | tail _ hr => exact (c.fields r hr).1 hkind

theorem endpointFields : ∀ r ∈ c.records, r.kind = dtEndpoint → 4 ≤ r.body.length := by
  intro r hr hkind
  cases hr with
  | head => exact absurd (hkind.symm.trans c.isConfiguration) (by decide)
  | tail _ hr => exact (c.fields r hr).2 hkind

theorem bNumInterfaces_eq (hmem : Holds mem desc (encode c.records)) :
    bNumInterfaces mem desc = c.numInterfaces := by
  have hlen := c.headerFields
  exact hmem.record.body (show 2 < c.header.body.length by omega)

/-- Outside of a configuration, and for an interface that it does not have, nothing is
searched. -/
theorem udcUpdateIfaceDesc_refused (hmem : Holds mem desc (encode c.records))
    {numConfiguration iface : Byte} (h : numConfiguration = 0 ∨ c.numInterfaces ≤ iface)
    (setting : Byte) (ptr : ℕ) :
    udcUpdateIfaceDesc mem desc fuel numConfiguration iface setting ptr = some (false, ptr) := by
  rw [udcUpdateIfaceDesc]
  by_cases hzero : 0 = numConfiguration
  · exact if_pos hzero
  · have hbound : bNumInterfaces mem desc ≤ iface := by
      rw [bNumInterfaces_eq c hmem]
      exact h.resolve_left fun h => hzero h.symm
    rw [if_neg hzero, if_pos hbound]

theorem udcUpdateIfaceDesc_eq (hmem : Holds mem desc (encode c.records))
    (hfuel : c.records.length < fuel) {numConfiguration iface : Byte}
    (h : ¬(numConfiguration = 0 ∨ c.numInterfaces ≤ iface)) (setting : Byte) (ptr : ℕ) :
    udcUpdateIfaceDesc mem desc fuel numConfiguration iface setting ptr =
      some ((c.find iface setting).isSome, c.place desc iface setting) := by
  have hzero : ¬(0 = numConfiguration) := fun hz => h (.inl hz.symm)
  have hbound : ¬(bNumInterfaces mem desc ≤ iface) := by
    rw [bNumInterfaces_eq c hmem]
    exact fun hb => h (.inr hb)
  have hscan := Records.scan_encode fuel desc c.records hmem
    (fun q r hr hq => ifaceStop_eq iface setting hq (interfaceFields c r hr)) hfuel
  rw [udcUpdateIfaceDesc, if_neg hzero, if_neg hbound, eof_eq c hmem, hscan, Config.find,
    find_interfaces iface setting desc, Option.map_some, Option.isSome_map, Option.isSome_map]
  rfl

/-- Where an interface has been found, the endpoint loops find its endpoints. -/
theorem loops_eq (hmem : Holds mem desc (encode c.records)) (hfuel : c.records.length < fuel)
    {iface setting : Byte} {i : Interface} (hfind : c.find iface setting = some i) (s : σ) :
    allocLoop drv mem desc fuel fuel (c.place desc iface setting) s =
        some (allocAll drv i.endpoints s) ∧
      freeLoop drv mem desc fuel fuel (c.place desc iface setting) s =
        some (freeAll drv i.endpoints s) := by
  rw [Config.find, find_interfaces iface setting desc] at hfind
  obtain ⟨⟨u, after⟩, hfound, hi⟩ := Option.map_eq_some_iff.mp hfind
  obtain ⟨before, r, hsplit, -, -, hheld, hlast⟩ := Records.search_some hmem hfound
  have heof : udcGetEofConf mem desc =
      c.place desc iface setting + (encode (r :: after)).length :=
    (eof_eq c hmem).trans hlast.symm
  have hshort : after.length < c.records.length := by
    rw [hsplit, List.length_append, List.length_cons]
    omega
  have hfields : ∀ x ∈ after, x.kind = dtEndpoint → 4 ≤ x.body.length := by
    intro x hx
    apply endpointFields c x
    rw [hsplit]
    exact List.mem_append_right _ (List.mem_cons_of_mem _ hx)
  subst hi
  exact ⟨allocLoop_eq drv fuel _ r after s hheld heof hfields (hshort.trans hfuel)
      (hshort.trans hfuel),
    freeLoop_eq drv fuel _ r after s hheld heof hfields (hshort.trans hfuel)
      (hshort.trans hfuel)⟩

theorem udcIfaceEnable_eq (hmem : Holds mem desc (encode c.records))
    (hfuel : c.records.length < fuel) (numConfiguration iface setting : Byte) (s : State σ) :
    ∃ ptr, udcIfaceEnable drv mem desc fuel numConfiguration iface setting s =
      some ((c.enable drv numConfiguration iface setting s.inner).1,
        ⟨ptr, (c.enable drv numConfiguration iface setting s.inner).2⟩) := by
  rw [udcIfaceEnable, Config.enable]
  by_cases h : numConfiguration = 0 ∨ c.numInterfaces ≤ iface
  · rw [udcUpdateIfaceDesc_refused c hmem h, if_pos h]
    exact ⟨_, rfl⟩
  · rw [udcUpdateIfaceDesc_eq c hmem hfuel h, if_neg h]
    refine ⟨c.place desc iface setting, ?_⟩
    cases hfind : c.find iface setting with
    | none => rfl
    | some i =>
        simp only [Option.isSome_some]
        rw [(loops_eq c drv hmem hfuel hfind s.inner).1]
        cases hall : allocAll drv i.endpoints s.inner with
        | mk ok inner => cases ok <;> rfl

theorem udcIfaceDisable_eq (hmem : Holds mem desc (encode c.records))
    (hfuel : c.records.length < fuel) (numConfiguration iface : Byte) (s : State σ) :
    ∃ ptr, udcIfaceDisable drv mem desc fuel numConfiguration iface s =
      some ((c.disable drv numConfiguration iface s.inner).1,
        ⟨ptr, (c.disable drv numConfiguration iface s.inner).2⟩) := by
  rw [udcIfaceDisable, Config.disable]
  by_cases h : numConfiguration = 0 ∨ c.numInterfaces ≤ iface
  · rw [udcUpdateIfaceDesc_refused c hmem h, if_pos h]
    exact ⟨_, rfl⟩
  · rw [udcUpdateIfaceDesc_eq c hmem hfuel h, if_neg h]
    cases hfirst : c.find iface 0 with
    | none => exact ⟨_, rfl⟩
    | some first =>
        simp only [Option.isSome_some]
        rw [udcUpdateIfaceDesc_eq c hmem hfuel h]
        cases hfind : c.find iface (drv.getsetting iface s.inner) with
        | none => exact ⟨_, rfl⟩
        | some i =>
            simp only [Option.isSome_some]
            rw [(loops_eq c drv hmem hfuel hfind s.inner).2]
            exact ⟨_, rfl⟩

theorem disableFrom_eq (hmem : Holds mem desc (encode c.records))
    (hfuel : c.records.length < fuel) (numConfiguration : Byte) (is : List ℕ) (s : State σ) :
    ∃ ptr, disableFrom drv mem desc fuel numConfiguration is s =
      some ⟨ptr, is.foldl
        (fun s i => (c.disable drv numConfiguration (BitVec.ofNat 8 i) s).2) s.inner⟩ := by
  induction is generalizing s with
  | nil => exact ⟨s.udcPtrIface, rfl⟩
  | cons i is ih =>
      obtain ⟨ptr, hstep⟩ :=
        udcIfaceDisable_eq c drv hmem hfuel numConfiguration (BitVec.ofNat 8 i) s
      rw [disableFrom, hstep]
      exact ih _

theorem enableFrom_eq (hmem : Holds mem desc (encode c.records))
    (hfuel : c.records.length < fuel) (numConfiguration : Byte) (is : List ℕ) (s : State σ) :
    ∃ ptr, enableFrom drv mem desc fuel numConfiguration is s =
      some ((c.enableAll drv numConfiguration is s.inner).1,
        ⟨ptr, (c.enableAll drv numConfiguration is s.inner).2⟩) := by
  induction is generalizing s with
  | nil => exact ⟨s.udcPtrIface, rfl⟩
  | cons i is ih =>
      obtain ⟨ptr, hstep⟩ :=
        udcIfaceEnable_eq c drv hmem hfuel numConfiguration (BitVec.ofNat 8 i) 0 s
      rw [enableFrom, hstep, Config.enableAll]
      cases hone : c.enable drv numConfiguration (BitVec.ofNat 8 i) 0 s.inner with
      | mk ok inner =>
          cases ok with
          | false => exact ⟨ptr, rfl⟩
          | true => exact ih ⟨ptr, inner⟩

end Refinement

/-- Wherever the descriptor lies in memory, the walk by its lengths ends within as many
steps as it has descriptors, and enables, disables, resets and configures exactly what
the list of its interfaces and their endpoints says. -/
theorem walk_refines {σ : Type*} (c : Config) (drv : Driver σ) {mem : ℕ → Byte} {desc fuel : ℕ}
    (hmem : Holds mem desc (encode c.records)) (hfuel : c.records.length < fuel)
    (numConfiguration : Byte) (s : State σ) :
    (∀ iface setting, ∃ ptr,
      udcIfaceEnable drv mem desc fuel numConfiguration iface setting s =
        some ((c.enable drv numConfiguration iface setting s.inner).1,
          ⟨ptr, (c.enable drv numConfiguration iface setting s.inner).2⟩)) ∧
    (∀ iface, ∃ ptr, udcIfaceDisable drv mem desc fuel numConfiguration iface s =
      some ((c.disable drv numConfiguration iface s.inner).1,
        ⟨ptr, (c.disable drv numConfiguration iface s.inner).2⟩)) ∧
    (∃ ptr, udcReset drv mem desc fuel numConfiguration s =
      some ⟨ptr, c.reset drv numConfiguration s.inner⟩) ∧
    (∃ ptr, enableFrom drv mem desc fuel numConfiguration
        (List.range (bNumInterfaces mem desc).toNat) s =
      some ((c.enableAll drv numConfiguration (List.range c.numInterfaces.toNat) s.inner).1,
        ⟨ptr, (c.enableAll drv numConfiguration (List.range c.numInterfaces.toNat)
          s.inner).2⟩)) := by
  refine ⟨fun iface setting => udcIfaceEnable_eq c drv hmem hfuel numConfiguration iface setting s,
    fun iface => udcIfaceDisable_eq c drv hmem hfuel numConfiguration iface s, ?_, ?_⟩
  · rw [udcReset, bNumInterfaces_eq c hmem, Config.reset]
    by_cases hzero : numConfiguration = 0
    · rw [if_neg (not_not_intro hzero), if_pos hzero]
      exact ⟨s.udcPtrIface, rfl⟩
    · rw [if_pos hzero, if_neg hzero]
      exact disableFrom_eq c drv hmem hfuel numConfiguration _ s
  · rw [bNumInterfaces_eq c hmem]
    exact enableFrom_eq c drv hmem hfuel numConfiguration _ s

theorem walk_refines_device :
    (∀ iface setting, ∃ ptr, udcIfaceEnable uddDriver deviceMem 0 6 1 iface setting ⟨0, []⟩ =
      some ((udcDesc.enable uddDriver 1 iface setting []).1,
        ⟨ptr, (udcDesc.enable uddDriver 1 iface setting []).2⟩)) ∧
    (∀ iface, ∃ ptr, udcIfaceDisable uddDriver deviceMem 0 6 1 iface ⟨0, []⟩ =
      some ((udcDesc.disable uddDriver 1 iface []).1,
        ⟨ptr, (udcDesc.disable uddDriver 1 iface []).2⟩)) ∧
    (∃ ptr, udcReset uddDriver deviceMem 0 6 1 ⟨0, []⟩ = some ⟨ptr, udcDesc.reset uddDriver 1 []⟩) ∧
    (∃ ptr, enableFrom uddDriver deviceMem 0 6 1 (List.range 1) ⟨0, []⟩ =
      some (true, ⟨ptr, [0x02, 0x81]⟩)) :=
  walk_refines udcDesc uddDriver holds_deviceMem (by decide) 1 ⟨0, []⟩

end TempHumid.Th2.Walk
