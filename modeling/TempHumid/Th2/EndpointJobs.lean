import TempHumid.Library.Machine
import TempHumid.Library.Packets
import TempHumid.Library.Words
import TempHumid.Th2.Setup

/-!
# Jobs of the interrupt endpoints

`udd_ep_run`, `udd_ep_trans_in_next` and `udd_ep_trans_out_next` of
`usb_device_udd.c`, for one of the endpoints that have a job.

## Implementation notes

A job knows its buffer by offsets. `configured` is the test of the endpoint type in
`usb_device_endpoint_write_buffer_job` and `usb_device_endpoint_read_buffer_job`,
which do nothing without it. The hardware cuts a transfer into packets of the size in
its `PCKSIZE` register, to which `udd_ep_alloc` rounds the size of the endpoint up. It
reports as many bytes sent as a write asks for, and fills a read up to its size or to
the first short packet.
-/

namespace TempHumid.Th2.EpJobs

open Packets (cut fill)

/-- `iram_size_t`. -/
abbrev Size := BitVec 32

inductive Status
  | ok
  | abort
  deriving DecidableEq

/-- `udd_ep_job_t`. The callback is there or `NULL`. -/
structure Job where
  hasCallback : Bool
  bufSize : Size
  nbTrans : Size
  epSize : Half
  busy : Bool
  bShortpacket : Bool
  bUseOutCacheBuffer : Bool
  deriving DecidableEq

/-- What a job does: transfers started on the hardware, the copy from the cache buffer,
calls of the callback, and the value returned. The callback for a cleared halt is
called without a test for `NULL`. -/
inductive Act
  | write (off : Size) (len : Half)
  | read (off : Size) (len : Half)
  | readCache (len : Half)
  | copyCache (off len : Size)
  | callTrans (status : Status) (nb : Size)
  | callNohalt (hasCallback : Bool)
  | returns (b : Bool)
  deriving DecidableEq

/-- `UDD_ENDPOINT_MAX_TRANS`. -/
def maxTrans : Half := 8191

/-- The packet size that `udd_ep_alloc` programs for a `MaxEndpointSize`. A larger
endpoint is refused. -/
def packetSize (maxEndpointSize : Half) : Option ℕ :=
  if maxEndpointSize ≤ 8 then some 8
  else if maxEndpointSize ≤ 16 then some 16
  else if maxEndpointSize ≤ 32 then some 32
  else if maxEndpointSize ≤ 64 then some 64
  else if maxEndpointSize ≤ 128 then some 128
  else if maxEndpointSize ≤ 256 then some 256
  else if maxEndpointSize ≤ 512 then some 512
  else if maxEndpointSize ≤ 1023 then some 1023
  else none

/-- The largest transfer of whole packets. -/
def maxBlock (epSize : Half) : Half := maxTrans - maxTrans % epSize

/-- The size of the next IN transfer. `next_trans` has 16 bits. -/
def nextIn (epSize : Half) (left : Size) : Half :=
  let next := left.setWidth 16
  if maxTrans < next then maxBlock epSize else next

/-- The size of the next OUT transfer, which is a number of whole packets. -/
def nextOut (epSize : Half) (left : Size) : Half :=
  let next := left.setWidth 16
  if maxTrans < next then maxBlock epSize else next - next % epSize

def start (configured : Bool) (a : Act) : List Act := if configured then [a] else []

/-- The end of a job. -/
def complete (status : Status) (j : Job) : Job × List Act :=
  ({ j with busy := false }, if j.hasCallback then [.callTrans status j.nbTrans] else [])

section Code

variable (configured : Bool)

def uddEpTransInNext (sent : Half) (j : Job) : Job × List Act :=
  let j := { j with nbTrans := j.nbTrans + sent.setWidth 32 }
  if j.nbTrans ≠ j.bufSize then
    let next := nextIn j.epSize (j.bufSize - j.nbTrans)
    ({ j with bShortpacket := j.bShortpacket && decide (0 = next % j.epSize) },
      start configured (.write j.nbTrans next))
  else if j.bShortpacket then
    ({ j with bShortpacket := false }, start configured (.write j.nbTrans 0))
  else complete .ok j

/-- The copy at the beginning of `udd_ep_trans_out_next`. -/
def copyCache (j : Job) : List Act :=
  if j.bUseOutCacheBuffer then [.copyCache j.nbTrans (j.bufSize % j.epSize.setWidth 32)] else []

/-- A transfer into the buffer, or one packet into the cache buffer. -/
def startRead (off : Size) (next : Half) (j : Job) : Job × List Act :=
  if next < j.epSize then
    ({ j with bUseOutCacheBuffer := true }, start configured (.readCache j.epSize))
  else (j, start configured (.read off next))

/-- The number of bytes received, cut at the size of the buffer. -/
def addReceived (received : Half) (j : Job) : Size :=
  let nb := j.nbTrans + received.setWidth 32
  if j.bufSize < nb then j.bufSize else nb

def uddEpTransOutNext (received outBufferSize : Half) (j : Job) : Job × List Act :=
  let copied := copyCache j
  let j := { j with nbTrans := addReceived received j }
  let r :=
    if received = outBufferSize ∧ j.nbTrans ≠ j.bufSize then
      startRead configured j.nbTrans (nextOut j.epSize (j.bufSize - j.nbTrans)) j
    else complete .ok j
  (r.1, copied ++ r.2)

/-- A new job, as `udd_ep_run` sets it up. -/
def newJob (short : Bool) (size : Size) (hasCallback : Bool) (j : Job) : Job where
  hasCallback := hasCallback
  bufSize := size
  nbTrans := 0
  epSize := j.epSize
  busy := true
  bShortpacket := short
  bUseOutCacheBuffer := false

/-- `udd_ep_run` on an endpoint IN, once it is neither halted nor busy. -/
def runIn (short : Bool) (size : Size) (hasCallback : Bool) (j : Job) : Bool × Job × List Act :=
  let j := newJob short size hasCallback j
  if 0 ≠ size then
    let next := nextIn j.epSize size
    (configured, { j with bShortpacket := short && decide (0 = next % j.epSize) },
      start configured (.write 0 next))
  else if short then
    (configured, { j with bShortpacket := false }, start configured (.write 0 0))
  else (true, complete .ok j)

/-- `udd_ep_run` on an endpoint OUT, once it is neither halted nor busy. -/
def runOut (short : Bool) (size : Size) (hasCallback : Bool) (j : Job) : Bool × Job × List Act :=
  let j := newJob short size hasCallback j
  if 0 ≠ size then (configured, startRead configured 0 (nextOut j.epSize size) j)
  else (true, complete .ok j)

end Code

/-! ## Sizes -/

section Sizes

variable {epSize : Half}

theorem packetSize_mem {n : ℕ} (h : packetSize epSize = some n) :
    n ∈ [8, 16, 32, 64, 128, 256, 512, 1023] := by
  rw [packetSize] at h
  split_ifs at h <;> cases h <;> decide

theorem packetSize_pos {n : ℕ} (h : packetSize epSize = some n) : 0 < n := by
  have hall : ∀ n ∈ [8, 16, 32, 64, 128, 256, 512, 1023], 0 < n := by decide
  exact hall n (packetSize_mem h)

theorem packetSize_le {n : ℕ} (h : packetSize epSize = some n) : n ≤ 1023 := by
  have hall : ∀ n ∈ [8, 16, 32, 64, 128, 256, 512, 1023], n ≤ 1023 := by decide
  exact hall n (packetSize_mem h)

/-- Between two of these sizes the packets are larger than the endpoint says. -/
example : packetSize 10 = some 16 := rfl

theorem maxBlock_toNat (epSize : Half) :
    (maxBlock epSize).toNat = 8191 - 8191 % epSize.toNat := by
  have hmax : maxTrans.toNat = 8191 := rfl
  have hle : maxTrans % epSize ≤ maxTrans := by
    rw [BitVec.le_def, BitVec.toNat_umod]
    exact Nat.mod_le _ _
  rw [maxBlock, BitVec.toNat_sub_of_le hle, BitVec.toNat_umod, hmax]

/-- A largest block consists of whole packets. -/
theorem dvd_maxBlock (epSize : Half) : epSize.toNat ∣ (maxBlock epSize).toNat := by
  rw [maxBlock_toNat]
  exact Nat.dvd_sub_mod 8191

theorem le_maxBlock (hsmall : epSize.toNat ≤ 8191) : epSize.toNat ≤ (maxBlock epSize).toNat := by
  rw [maxBlock_toNat]
  obtain hzero | hpos := Nat.eq_zero_or_pos epSize.toNat
  · rw [hzero]
  · have hdiv := Nat.div_add_mod 8191 epSize.toNat
    have hone : 1 ≤ 8191 / epSize.toNat := (Nat.le_div_iff_mul_le hpos).mpr (by omega)
    have hprod := Nat.mul_le_mul_left epSize.toNat hone
    omega

theorem left_toNat {left : Size} (h : left.toNat < 2 ^ 16) :
    (left.setWidth 16).toNat = left.toNat := by
  rw [BitVec.toNat_setWidth, Nat.mod_eq_of_lt h]

/-- While less than 2^16 bytes are left, an IN transfer takes them all or a largest
block. -/
theorem nextIn_of_lt {left : Size} (h : left.toNat < 2 ^ 16) :
    nextIn epSize left = if 8191 < left.toNat then maxBlock epSize else left.setWidth 16 := by
  have hmax : maxTrans.toNat = 8191 := rfl
  rw [nextIn]
  simp only [BitVec.lt_def, left_toNat h, hmax]

/-- The 16 bits of a transfer never count more than is left, and leave all above. -/
theorem nextIn_le (ep : Half) (left : Size) : (nextIn ep left).toNat ≤ left.toNat % 2 ^ 16 := by
  have hmax : maxTrans.toNat = 8191 := rfl
  have hlow : (left.setWidth 16).toNat = left.toNat % 2 ^ 16 := BitVec.toNat_setWidth _ _
  rw [nextIn]
  simp only [BitVec.lt_def, hlow, hmax]
  split
  · next h =>
      rw [maxBlock_toNat]
      omega
  · exact Nat.le_of_eq hlow

end Sizes

/-! ## A transfer to the host -/

section In

/-- The actions of a job after `n` answers of the hardware: every write is reported with
the size that it asked for. -/
def sendAll : ℕ → Job × List Act → List Act
  | 0, r => r.2
  | n + 1, r =>
      match r.2 with
      | [.write off len] => .write off len :: sendAll n (uddEpTransInNext true len r.1)
      | _ => r.2

/-- The packets on the bus, of the size in `PCKSIZE`. A write of nothing is an empty
packet. -/
def busPackets (pckSize : ℕ) (buf : List Byte) : List Act → List (List Byte)
  | [] => []
  | .write off len :: as =>
      (if len = 0 then [[]] else cut pckSize ((buf.drop off.toNat).take len.toNat)) ++
        busPackets pckSize buf as
  | _ :: as => busPackets pckSize buf as

/-- The calls of the callback. -/
def reports : List Act → List (Status × Size)
  | [] => []
  | .callTrans status nb :: as => (status, nb) :: reports as
  | _ :: as => reports as

/-- The empty packet that ends a transfer of whole packets on request. -/
def zlp (short : Bool) (epSize size : ℕ) : List (List Byte) :=
  if short = true ∧ epSize ∣ size then [[]] else []

theorem sendAll_write (n : ℕ) (j : Job) (off : Size) (len : Half) :
    sendAll (n + 1) (j, [.write off len]) =
      .write off len :: sendAll n (uddEpTransInNext true len j) := rfl

theorem transInNext_more {configured : Bool} {sent : Half} {j : Job}
    (h : j.nbTrans + sent.setWidth 32 ≠ j.bufSize) :
    uddEpTransInNext configured sent j =
      ({ j with
          nbTrans := j.nbTrans + sent.setWidth 32,
          bShortpacket := j.bShortpacket &&
            decide (0 = nextIn j.epSize (j.bufSize - (j.nbTrans + sent.setWidth 32)) % j.epSize) },
        start configured (.write (j.nbTrans + sent.setWidth 32)
          (nextIn j.epSize (j.bufSize - (j.nbTrans + sent.setWidth 32))))) := if_pos h

theorem transInNext_last {configured : Bool} {sent : Half} {j : Job}
    (h : j.nbTrans + sent.setWidth 32 = j.bufSize) :
    uddEpTransInNext configured sent j =
      if j.bShortpacket then
        ({ j with nbTrans := j.bufSize, bShortpacket := false },
          start configured (.write j.bufSize 0))
      else complete .ok { j with nbTrans := j.bufSize } := by
  rw [uddEpTransInNext, h]
  exact if_neg (not_not_intro rfl)

/-- Without a write nothing more happens. -/
theorem sendAll_complete (n : ℕ) (status : Status) (j : Job) :
    sendAll n (complete status j) = (complete status j).2 := by
  cases n with
  | zero => rfl
  | succ n =>
      rw [sendAll, complete]
      cases j.hasCallback <;> rfl

/-- What remains when all bytes are sent: the empty packet if it is still wanted, then
the callback. -/
theorem sendAll_last (n : ℕ) (buf : List Byte) (j : Job) (len : Half)
    (hsent : j.nbTrans + len.setWidth 32 = j.bufSize) (hcall : j.hasCallback = true) :
    busPackets j.epSize.toNat buf (sendAll (n + 1) (uddEpTransInNext true len j)) =
        (if j.bShortpacket then [[]] else []) ∧
      reports (sendAll (n + 1) (uddEpTransInNext true len j)) = [(.ok, j.bufSize)] := by
  have hdone : ∀ j' : Job, j'.hasCallback = true → ∀ m,
      busPackets j.epSize.toNat buf (sendAll m (complete .ok j')) = [] ∧
        reports (sendAll m (complete .ok j')) = [(.ok, j'.nbTrans)] := by
    intro j' hcall' m
    rw [sendAll_complete, complete]
    simp only [hcall', if_true]
    exact ⟨rfl, rfl⟩
  rw [transInNext_last hsent]
  cases j.bShortpacket with
  | false => exact hdone { j with nbTrans := j.bufSize, bShortpacket := false } hcall (n + 1)
  | true =>
      have hsame : j.bufSize + (0 : Half).setWidth 32 = j.bufSize := BitVec.add_zero _
      simp only [if_true]
      rw [start, if_pos rfl, sendAll_write, transInNext_last hsame]
      obtain ⟨hpackets, hreports⟩ := hdone { j with nbTrans := j.bufSize, bShortpacket := false } hcall n
      constructor
      · exact congrArg ([[]] ++ ·) hpackets
      · exact hreports

/-- A size that is left after whole packets ends with a whole packet exactly if the
transfer does. -/
theorem zlp_of_left {short : Bool} {epSize size done : ℕ} {len : Half} {ep : Half}
    (hep : ep.toNat = epSize) (hdone : epSize ∣ done) (hsize : done + len.toNat = size) :
    (if (short && decide (0 = len % ep)) = true then [[]] else []) = zlp short epSize size := by
  have hzero : (0 = len % ep) ↔ epSize ∣ size := by
    rw [← hsize, Nat.dvd_add_right hdone, Nat.dvd_iff_mod_eq_zero, ← hep, ← BitVec.toNat_umod,
      ← BitVec.toNat_inj]
    exact eq_comm
  rw [zlp]
  simp only [Bool.and_eq_true, decide_eq_true_eq, hzero]

/-- A job before its next write, with `r` bytes left. -/
structure Writing (buf : List Byte) (short : Bool) (j : Job) (r : ℕ) : Prop where
  hasCallback : j.hasCallback = true
  bufSize : j.bufSize.toNat = buf.length
  left : j.nbTrans.toNat + r = buf.length
  whole : j.epSize.toNat ∣ j.nbTrans.toNat
  flag : j.bShortpacket =
    (short && decide (0 = nextIn j.epSize (j.bufSize - j.nbTrans) % j.epSize))

/-- The job puts the rest of its buffer on the bus and calls its callback once. -/
def Emits (buf : List Byte) (short : Bool) (j : Job) : Prop :=
  ∃ n, ∀ m ≥ n,
    busPackets j.epSize.toNat buf
        (sendAll m (j, [.write j.nbTrans (nextIn j.epSize (j.bufSize - j.nbTrans))])) =
      cut j.epSize.toNat (buf.drop j.nbTrans.toNat) ++ zlp short j.epSize.toNat buf.length ∧
    reports (sendAll m (j, [.write j.nbTrans (nextIn j.epSize (j.bufSize - j.nbTrans))])) =
      [(.ok, j.bufSize)]

section Writing

variable {buf : List Byte} {short : Bool} {j : Job} {r : ℕ}

theorem Writing.rest (h : Writing buf short j r) : (j.bufSize - j.nbTrans).toNat = r := by
  have hsize := h.bufSize
  have hleft := h.left
  rw [BitVec.toNat_sub_of_le (by rw [BitVec.le_def]; omega)]
  omega

theorem Writing.length_drop (h : Writing buf short j r) :
    (buf.drop j.nbTrans.toNat).length = r := by
  have hleft := h.left
  rw [List.length_drop]
  omega

theorem Writing.add (h : Writing buf short j r) (hbuf : buf.length < 2 ^ 16) {len : Half}
    (hlen : len.toNat ≤ r) :
    (j.nbTrans + len.setWidth 32).toNat = j.nbTrans.toNat + len.toNat := by
  have hleft := h.left
  rw [BitVec.toNat_add, BitVec.toNat_setWidth]
  omega

/-- The job after a write of whole packets. -/
def Job.written (j : Job) : Job :=
  { j with
    nbTrans := j.nbTrans + (maxBlock j.epSize).setWidth 32,
    bShortpacket := j.bShortpacket && decide
      (0 = nextIn j.epSize (j.bufSize - (j.nbTrans + (maxBlock j.epSize).setWidth 32)) %
        j.epSize) }

theorem Job.written_hasCallback (j : Job) : j.written.hasCallback = j.hasCallback := by
  rw [Job.written]

theorem Job.written_bufSize (j : Job) : j.written.bufSize = j.bufSize := by
  rw [Job.written]

theorem Job.written_epSize (j : Job) : j.written.epSize = j.epSize := by
  rw [Job.written]

/-- The largest block is written before the rest. -/
theorem Writing.block (h : Writing buf short j r) (hbuf : buf.length < 2 ^ 16)
    (hbig : 8191 < r) :
    nextIn j.epSize (j.bufSize - j.nbTrans) = maxBlock j.epSize ∧
      (j.nbTrans + (maxBlock j.epSize).setWidth 32).toNat =
        j.nbTrans.toNat + (maxBlock j.epSize).toNat ∧
      Writing buf short j.written (r - (maxBlock j.epSize).toNat) := by
  have hrest := h.rest
  have hleft := h.left
  have hblock : (maxBlock j.epSize).toNat ≤ 8191 := by
    rw [maxBlock_toNat]
    exact Nat.sub_le _ _
  have hsum := h.add hbuf (show (maxBlock j.epSize).toNat ≤ r by omega)
  have hnext : nextIn j.epSize (j.bufSize - j.nbTrans) = maxBlock j.epSize := by
    rw [nextIn_of_lt (by omega), hrest, if_pos hbig]
  have hflag : j.bShortpacket = short := by
    have hmod : (0 : Half) = maxBlock j.epSize % j.epSize := by
      apply BitVec.eq_of_toNat_eq
      rw [BitVec.toNat_umod]
      exact (Nat.mod_eq_zero_of_dvd (dvd_maxBlock j.epSize)).symm
    rw [h.flag, hnext, decide_eq_true hmod, Bool.and_true]
  refine ⟨hnext, hsum, ?_, ?_, ?_, ?_, ?_⟩
  · rw [Job.written_hasCallback, h.hasCallback]
  · rw [Job.written_bufSize, h.bufSize]
  · simp only [Job.written, hsum]
    omega
  · simp only [Job.written, hsum]
    exact Nat.dvd_add h.whole (dvd_maxBlock j.epSize)
  · simp only [Job.written, hflag]

theorem Writing.emits_block (h : Writing buf short j r) (hbuf : buf.length < 2 ^ 16)
    (hep : 0 < j.epSize.toNat) (hsmall : j.epSize.toNat ≤ 8191) (hbig : 8191 < r)
    (hrest : Emits buf short j.written) : Emits buf short j := by
  obtain ⟨hnext, hsum, hwritten⟩ := h.block hbuf hbig
  have hfull := le_maxBlock hsmall
  have hblock : (maxBlock j.epSize).toNat ≤ 8191 := by
    rw [maxBlock_toNat]
    exact Nat.sub_le _ _
  have hne : j.nbTrans + (maxBlock j.epSize).setWidth 32 ≠ j.bufSize := by
    intro heq
    have hleft := hwritten.left
    simp only [Job.written, heq, h.bufSize] at hleft
    omega
  have hnonzero : maxBlock j.epSize ≠ 0 := by
    intro hzero
    rw [hzero] at hfull
    exact absurd hfull (Nat.not_le_of_lt hep)
  obtain ⟨k, hk⟩ := dvd_maxBlock j.epSize
  have htake : ((buf.drop j.nbTrans.toNat).take (maxBlock j.epSize).toNat).length =
      j.epSize.toNat * k := by
    rw [List.length_take, h.length_drop, ← hk]
    omega
  obtain ⟨n, hn⟩ := hrest
  refine ⟨n + 1, fun m hm => ?_⟩
  obtain ⟨m, rfl⟩ := Nat.exists_eq_succ_of_ne_zero (show m ≠ 0 by omega)
  obtain ⟨hpackets, hreports⟩ := hn m (Nat.le_of_succ_le_succ hm)
  simp only [Job.written] at hpackets hreports
  rw [hnext, sendAll_write, transInNext_more hne, start, if_pos rfl]
  constructor
  · rw [busPackets, if_neg hnonzero, hpackets, hsum, ← List.drop_drop, ← List.append_assoc,
      ← Packets.cut_append hep k _ htake, List.take_append_drop]
  · exact hreports

theorem Writing.emits_last (h : Writing buf short j r) (hbuf : buf.length < 2 ^ 16)
    (hpos : 0 < r) (hsmall : r ≤ 8191) : Emits buf short j := by
  have hleft := h.left
  have hrest := h.rest
  have hlen : ((j.bufSize - j.nbTrans).setWidth 16).toNat = r := by
    rw [left_toNat (by omega), hrest]
  have hnext : nextIn j.epSize (j.bufSize - j.nbTrans) =
      (j.bufSize - j.nbTrans).setWidth 16 := by
    rw [nextIn_of_lt (by omega), hrest, if_neg (Nat.not_lt_of_le hsmall)]
  have hsent : j.nbTrans + ((j.bufSize - j.nbTrans).setWidth 16).setWidth 32 = j.bufSize := by
    apply BitVec.eq_of_toNat_eq
    rw [h.add hbuf (Nat.le_of_eq hlen), hlen, h.bufSize, hleft]
  have hnonzero : (j.bufSize - j.nbTrans).setWidth 16 ≠ 0 := by
    intro hzero
    rw [hzero] at hlen
    exact absurd hlen (Nat.ne_of_lt hpos)
  refine ⟨2, fun m hm => ?_⟩
  obtain ⟨m, rfl⟩ := Nat.exists_eq_add_of_le hm
  obtain ⟨hpackets, hreports⟩ := sendAll_last m buf j _ hsent h.hasCallback
  rw [hnext, Nat.add_comm, sendAll_write]
  constructor
  · rw [busPackets, if_neg hnonzero, hpackets, hlen, List.take_of_length_le h.length_drop.le,
      h.flag, hnext, zlp_of_left rfl h.whole (by rw [hlen, hleft])]
  · exact hreports

/-- The rest of a transfer, from a write of the next block on. The induction is on the
number of bytes left. -/
theorem Writing.emits (h : Writing buf short j r) (hbuf : buf.length < 2 ^ 16)
    (hep : 0 < j.epSize.toNat) (hsmall : j.epSize.toNat ≤ 8191) (hpos : 0 < r) :
    Emits buf short j := by
  induction r using Nat.strong_induction_on generalizing j with
  | _ r ih =>
      by_cases hbig : 8191 < r
      · have hwritten := (h.block hbuf hbig).2.2
        have hfull := le_maxBlock hsmall
        have hblock : (maxBlock j.epSize).toNat ≤ 8191 := by
          rw [maxBlock_toNat]
          exact Nat.sub_le _ _
        apply h.emits_block hbuf hep hsmall hbig
        apply ih (r - (maxBlock j.epSize).toNat) (by omega) hwritten
        · rw [Job.written_epSize]
          exact hep
        · rw [Job.written_epSize]
          exact hsmall
        · omega
      · exact h.emits_last hbuf hpos (Nat.le_of_not_lt hbig)

end Writing

/-- From 2^16 bytes left on, the 16 bits of the next size leave a multiple of 2^16 for
ever. -/
theorem sendAll_never (m : ℕ) (j : Job) (off : Size) (len : Half)
    (hleft : 2 ^ 16 + len.toNat ≤ (j.bufSize - j.nbTrans).toNat) :
    reports (sendAll m (j, [.write off len])) = [] := by
  induction m generalizing j off len with
  | zero => rfl
  | succ m ih =>
      have hless : (j.bufSize - (j.nbTrans + len.setWidth 32)).toNat =
          (j.bufSize - j.nbTrans).toNat - len.toNat := by
        have hlen : (len.setWidth 32).toNat = len.toNat := by
          rw [BitVec.toNat_setWidth]
          omega
        have hle : len.setWidth 32 ≤ j.bufSize - j.nbTrans := by
          rw [BitVec.le_def, hlen]
          omega
        rw [sub_add_eq_sub_sub, BitVec.toNat_sub_of_le hle, hlen]
      have hmore : j.nbTrans + len.setWidth 32 ≠ j.bufSize := by
        intro h
        rw [h, BitVec.sub_self] at hless
        change 0 = _ at hless
        omega
      have hnext := nextIn_le j.epSize (j.bufSize - (j.nbTrans + len.setWidth 32))
      rw [sendAll_write, transInNext_more hmore, start, if_pos rfl]
      apply ih
      simp only
      omega

theorem runIn_zero (configured short hasCallback : Bool) (j : Job) :
    runIn configured short 0 hasCallback j =
      if short then
        (configured, { newJob short 0 hasCallback j with bShortpacket := false },
          start configured (.write 0 0))
      else (true, complete .ok (newJob short 0 hasCallback j)) := by
  rw [runIn]
  exact if_neg (not_not_intro rfl)

theorem runIn_pos (configured short hasCallback : Bool) {size : Size} (h : 0 ≠ size) (j : Job) :
    runIn configured short size hasCallback j =
      (configured,
        { newJob short size hasCallback j with
          bShortpacket := short && decide (0 = nextIn j.epSize size % j.epSize) },
        start configured (.write 0 (nextIn j.epSize size))) := by
  rw [runIn]
  exact if_pos h

/-- A job IN of less than 2^16 bytes puts its buffer on the bus, cut at the endpoint
size, with an empty packet behind whole packets if that was asked for. -/
theorem runIn_packets {buf : List Byte} (hlow : buf.length < 2 ^ 16) (short : Bool) {j : Job}
    (hep : 0 < j.epSize.toNat) (hsmall : j.epSize.toNat ≤ 8191) :
    ∃ n, ∀ m ≥ n,
      busPackets j.epSize.toNat buf
          (sendAll m (runIn true short (BitVec.ofNat 32 buf.length) true j).2) =
        cut j.epSize.toNat buf ++ zlp short j.epSize.toNat buf.length ∧
      reports (sendAll m (runIn true short (BitVec.ofNat 32 buf.length) true j).2) =
        [(.ok, BitVec.ofNat 32 buf.length)] := by
  by_cases hzero : buf = []
  · subst hzero
    have hdvd : j.epSize.toNat ∣ ([] : List Byte).length := Nat.dvd_zero _
    have hsize : BitVec.ofNat 32 ([] : List Byte).length = 0 := rfl
    rw [hsize, runIn_zero]
    cases short with
    | false =>
        refine ⟨0, fun m _ => ?_⟩
        rw [if_neg Bool.false_ne_true, sendAll_complete]
        exact ⟨by simp [zlp, busPackets, complete, newJob], rfl⟩
    | true =>
        refine ⟨2, fun m hm => ?_⟩
        obtain ⟨m, rfl⟩ := Nat.exists_eq_add_of_le hm
        obtain ⟨hpackets, hreports⟩ := sendAll_last m []
          { newJob true 0 true j with bShortpacket := false } 0 rfl rfl
        rw [if_pos rfl, Nat.add_comm, start, if_pos rfl, sendAll_write]
        constructor
        · rw [busPackets, if_pos rfl, zlp, if_pos ⟨rfl, hdvd⟩, Packets.cut_nil]
          exact congrArg ([[]] ++ ·) hpackets
        · exact hreports
  · have htotal : (BitVec.ofNat 32 buf.length).toNat = buf.length := by
      rw [BitVec.toNat_ofNat]
      omega
    have hpos : 0 < buf.length := List.length_pos_iff.mpr hzero
    have hne : 0 ≠ BitVec.ofNat 32 buf.length := by
      intro h
      rw [← h] at htotal
      exact absurd htotal (Nat.ne_of_lt hpos)
    have hfresh : Writing buf short
        { newJob short (BitVec.ofNat 32 buf.length) true j with
          bShortpacket := short && decide
            (0 = nextIn j.epSize (BitVec.ofNat 32 buf.length) % j.epSize) } buf.length :=
      ⟨rfl, htotal, Nat.zero_add _, Nat.dvd_zero _, by simp only [newJob, sub_zero]⟩
    obtain ⟨n, hn⟩ := hfresh.emits hlow hep hsmall hpos
    rw [runIn_pos true short true hne, start, if_pos rfl]
    simp only [newJob, sub_zero] at hn ⊢
    exact ⟨n, hn⟩

/-- On an endpoint whose size the hardware has, a job IN of less than 2^16 bytes puts
its buffer on the bus, packet by packet, and calls its callback once with the whole
size. From 2^16 bytes on it never ends. -/
theorem inTransfer_packets (buf : List Byte) (hbuf : buf.length < 2 ^ 32) (short : Bool) (j : Job)
    {pckSize : ℕ} (hpck : packetSize j.epSize = some pckSize) (hexact : j.epSize.toNat = pckSize) :
    (buf.length < 2 ^ 16 → ∃ n, ∀ m ≥ n,
      busPackets pckSize buf (sendAll m (runIn true short (BitVec.ofNat 32 buf.length) true j).2) =
        cut pckSize buf ++ zlp short pckSize buf.length ∧
      reports (sendAll m (runIn true short (BitVec.ofNat 32 buf.length) true j).2) =
        [(.ok, BitVec.ofNat 32 buf.length)]) ∧
    (2 ^ 16 ≤ buf.length → ∀ m,
      reports (sendAll m (runIn true short (BitVec.ofNat 32 buf.length) true j).2) = []) := by
  have hep := packetSize_pos hpck
  have hsmall := packetSize_le hpck
  subst hexact
  constructor
  · intro hlow
    exact runIn_packets hlow short hep (hsmall.trans (by decide))
  · intro hhigh m
    have htotal : (BitVec.ofNat 32 buf.length).toNat = buf.length := by
      rw [BitVec.toNat_ofNat, Nat.mod_eq_of_lt hbuf]
    have hne : 0 ≠ BitVec.ofNat 32 buf.length := by
      intro h
      rw [← h] at htotal
      change 0 = _ at htotal
      omega
    have hnext := nextIn_le j.epSize (BitVec.ofNat 32 buf.length)
    rw [runIn_pos true short true hne, start, if_pos rfl]
    apply sendAll_never
    simp only [newJob, sub_zero]
    omega

/-- The job of an interrupt endpoint of 8 bytes before its first transfer. -/
def idleJob : Job := ⟨false, 0, 0, 8, false, false, false⟩

/-- Two whole packets, and the empty one behind them. -/
theorem inTransfer_packets_two :
    ∃ n, ∀ m ≥ n,
      busPackets 8 (List.replicate 16 1)
          (sendAll m (runIn true true (BitVec.ofNat 32 16) true idleJob).2) =
        cut 8 (List.replicate 16 1) ++ [[]] ∧
      reports (sendAll m (runIn true true (BitVec.ofNat 32 16) true idleJob).2) =
        [(.ok, 16)] :=
  (inTransfer_packets (List.replicate 16 1) (by decide) true idleJob rfl rfl).1 (by decide)

/-- Jobs IN that ask for a short packet are told apart by a host that knows none of
their lengths, if the hardware has the size of the endpoint. -/
theorem inTransfers_received (bufs : List (List Byte)) (hlow : ∀ buf ∈ bufs, buf.length < 2 ^ 16)
    (j : Job) {pckSize : ℕ} (hpck : packetSize j.epSize = some pckSize)
    (hexact : j.epSize.toNat = pckSize) (ps : List (List Byte)) :
    ∃ n, ∀ m ≥ n,
      Packets.receiveEach pckSize bufs.length
          (bufs.flatMap (fun buf => busPackets pckSize buf
            (sendAll m (runIn true true (BitVec.ofNat 32 buf.length) true j).2)) ++ ps) =
        some (bufs, ps) := by
  have hep := packetSize_pos hpck
  have hsmall := (packetSize_le hpck).trans (show 1023 ≤ 8191 by decide)
  subst hexact
  have hall : ∃ n, ∀ m ≥ n, ∀ buf ∈ bufs,
      busPackets j.epSize.toNat buf
          (sendAll m (runIn true true (BitVec.ofNat 32 buf.length) true j).2) =
        cut j.epSize.toNat buf ++ if j.epSize.toNat ∣ buf.length then [[]] else [] := by
    clear ps
    induction bufs with
    | nil => exact ⟨0, fun m _ buf h => absurd h List.not_mem_nil⟩
    | cons buf bufs ih =>
        obtain ⟨n, hn⟩ := ih fun b hb => hlow b (List.mem_cons_of_mem _ hb)
        obtain ⟨n', hn'⟩ := runIn_packets (hlow buf List.mem_cons_self) true hep hsmall
        refine ⟨max n n', fun m hm b hb => ?_⟩
        obtain hhead | htail := List.mem_cons.mp hb
        · rw [hhead, (hn' m (le_of_max_le_right hm)).1, zlp]
          simp only [true_and]
        · exact hn m (le_of_max_le_left hm) b htail
  obtain ⟨n, hn⟩ := hall
  refine ⟨n, fun m hm => ?_⟩
  rw [List.flatMap_congr fun buf hmem => hn m hm buf hmem]
  exact Packets.receiveEach_cut hep bufs ps

/-- Transfers of one, two and no packets. -/
theorem inTransfers_received_three :
    ∃ n, ∀ m ≥ n,
      Packets.receiveEach 8 3
          (([[1], List.replicate 16 1, []] : List (List Byte)).flatMap (fun buf =>
            busPackets 8 buf
              (sendAll m (runIn true true (BitVec.ofNat 32 buf.length) true idleJob).2)) ++ []) =
        some ([[1], List.replicate 16 1, []], []) :=
  inTransfers_received [[1], List.replicate 16 1, []] (by decide) idleJob rfl rfl []

end In

/-! ## A transfer from the host -/

section Out

/-- The user's buffer, and the cache buffer of the endpoint. -/
structure Mem where
  buf : List Byte
  cache : List Byte

/-- What the hardware does with the data of a read. -/
def store (m : Mem) (data : List Byte) : Act → Mem
  | .read off _ => { m with buf := Words.splice m.buf off.toNat data }
  | .readCache _ => { m with cache := Words.splice m.cache 0 data }
  | _ => m

/-- The `memcpy` from the cache buffer. -/
def copy (m : Mem) : Act → Mem
  | .copyCache off len =>
      { m with buf := Words.splice m.buf off.toNat (m.cache.take len.toNat) }
  | _ => m

/-- What a job has done goes before what it does next. -/
def after (acts : List Act) (r : Mem × List Act × List (List Byte)) :
    Mem × List Act × List (List Byte) :=
  (r.1, acts ++ r.2.1, r.2.2)

/-- A job after at most `n` reads, on the packets that the host sends: the memory, all
that the job has done, and the packets that are left. `none` is a job that waits. -/
def receiveAll (pckSize : ℕ) :
    ℕ → Job × List Act → Mem → List (List Byte) → Option (Mem × List Act × List (List Byte))
  | 0, _, _, _ => none
  | n + 1, (j, acts), m, ps =>
      let m := acts.foldl copy m
      match acts.getLast? with
      | some (.read off len) =>
          (fill pckSize len.toNat [] ps).bind fun r =>
            (receiveAll pckSize n (uddEpTransOutNext true (BitVec.ofNat 16 r.1.length) len j)
              (store m r.1 (.read off len)) r.2).map (after acts)
      | some (.readCache len) =>
          (fill pckSize len.toNat [] ps).bind fun r =>
            (receiveAll pckSize n (uddEpTransOutNext true (BitVec.ofNat 16 r.1.length) len j)
              (store m r.1 (.readCache len)) r.2).map (after acts)
      | _ => some (m, acts, ps)

theorem nextOut_toNat {epSize : Half} {left : Size} (h : left.toNat < 2 ^ 16) :
    (nextOut epSize left).toNat =
      if 8191 < left.toNat then 8191 - 8191 % epSize.toNat
      else left.toNat - left.toNat % epSize.toNat := by
  have hmax : maxTrans.toNat = 8191 := rfl
  rw [nextOut]
  simp only [BitVec.lt_def, left_toNat h, hmax]
  split
  · exact maxBlock_toNat epSize
  · have hle : left.setWidth 16 % epSize ≤ left.setWidth 16 := by
      rw [BitVec.le_def, BitVec.toNat_umod]
      exact Nat.mod_le _ _
    rw [BitVec.toNat_sub_of_le hle, BitVec.toNat_umod, left_toNat h]

/-- A job has ended with the host's data. Of all that it has done, `report` keeps the
calls of the callback. -/
structure Received (size : ℕ) (data : List Byte) (m : Mem) (acts : List Act) : Prop where
  report : reports acts = [(.ok, BitVec.ofNat 32 (min data.length size))]
  length_buf : m.buf.length = size
  length_cache : m.cache.length = 64
  prefix_buf : m.buf.take (min data.length size) = data.take size

theorem take_splice {α : Type*} (mem data : List α) {off : ℕ} (h : off ≤ mem.length) {n : ℕ}
    (hn : n ≤ data.length) :
    (Words.splice mem off data).take (off + n) = mem.take off ++ data.take n := by
  have hlen : (mem.take off).length = off := by rw [List.length_take, Nat.min_eq_left h]
  rw [Words.splice, List.append_assoc, List.take_append, hlen, Nat.add_sub_cancel_left,
    List.take_of_length_le (by rw [hlen]; exact Nat.le_add_right off n),
    List.take_append_of_le_length hn]

theorem addReceived_toNat {received : Half} {j : Job}
    (h : j.nbTrans.toNat + received.toNat < 2 ^ 32) :
    (addReceived received j).toNat = min (j.nbTrans.toNat + received.toNat) j.bufSize.toNat := by
  have hwide : (received.setWidth 32).toNat = received.toNat := by
    rw [BitVec.toNat_setWidth]
    omega
  have hsum : (j.nbTrans + received.setWidth 32).toNat = j.nbTrans.toNat + received.toNat := by
    rw [BitVec.toNat_add, hwide, Nat.mod_eq_of_lt h]
  rw [addReceived]
  split
  · next hlt =>
      rw [BitVec.lt_def, hsum] at hlt
      exact (Nat.min_eq_right hlt.le).symm
  · next hge =>
      rw [BitVec.lt_def, hsum] at hge
      rw [hsum]
      exact (Nat.min_eq_left (Nat.le_of_not_lt hge)).symm

theorem transOutNext_complete {configured : Bool} {received outSize : Half} {j : Job}
    (h : ¬(received = outSize ∧ addReceived received j ≠ j.bufSize)) :
    uddEpTransOutNext configured received outSize j =
      ({ j with nbTrans := addReceived received j, busy := false },
        copyCache j ++
          if j.hasCallback then [.callTrans .ok (addReceived received j)] else []) := by
  rw [uddEpTransOutNext]
  simp only
  rw [if_neg h]
  rfl

theorem transOutNext_more {configured : Bool} {received outSize : Half} {j : Job}
    (h : received = outSize ∧ addReceived received j ≠ j.bufSize)
    (hcache : j.bUseOutCacheBuffer = false) :
    uddEpTransOutNext configured received outSize j =
      startRead configured (addReceived received j)
        (nextOut j.epSize (j.bufSize - addReceived received j))
        { j with nbTrans := addReceived received j } := by
  rw [uddEpTransOutNext, copyCache, hcache]
  simp only
  rw [if_pos h]
  rfl

/-- A read is no call of the callback. -/
theorem Received.after_read {size : ℕ} {data : List Byte} {m : Mem} {acts : List Act}
    (h : Received size data m acts) (off : Size) (len : Half) :
    Received size data m (.read off len :: acts) :=
  ⟨h.report, h.length_buf, h.length_cache, h.prefix_buf⟩

/-- A read that goes on. -/
theorem receiveAll_read {epSize : ℕ} {len : Half} {ps ps' : List (List Byte)} {data : List Byte}
    (h : fill epSize len.toNat [] ps = some (data, ps')) (n : ℕ) (j : Job) (off : Size) (m : Mem) :
    receiveAll epSize (n + 1) (j, [.read off len]) m ps =
      (receiveAll epSize n (uddEpTransOutNext true (BitVec.ofNat 16 data.length) len j)
        { m with buf := Words.splice m.buf off.toNat data } ps').map (after [.read off len]) := by
  rw [receiveAll]
  simp only [List.foldl_cons, List.foldl_nil, copy, List.getLast?_singleton]
  rw [h]
  rfl

/-- A read that waits. -/
theorem receiveAll_read_none {epSize : ℕ} {len : Half} {ps : List (List Byte)}
    (h : fill epSize len.toNat [] ps = none) (j : Job) (off : Size) (m : Mem) (n : ℕ) :
    receiveAll epSize n (j, [.read off len]) m ps = none := by
  cases n with
  | zero => rfl
  | succ n =>
      rw [receiveAll]
      simp only [List.foldl_cons, List.foldl_nil, copy, List.getLast?_singleton]
      rw [h]
      rfl

/-- A job waits as long as its packets do not give it an outcome, and then ends with it. -/
structure Delivers (pckSize size : ℕ) (job : Job × List Act) (m : Mem) (ps : List (List Byte))
    (outcome : Option (List Byte × List (List Byte))) : Prop where
  waits : outcome = none → ∀ n, receiveAll pckSize n job m ps = none
  ends : ∀ data rest, outcome = some (data, rest) → ∃ n, ∀ k ≥ n, ∃ m' acts,
    receiveAll pckSize k job m ps = some (m', acts, rest) ∧ Received size data m' acts

section Delivers

variable {pckSize size : ℕ} {job : Job × List Act} {m : Mem} {data : List Byte}
  {ps rest : List (List Byte)}

theorem Delivers.waiting (h : ∀ n, receiveAll pckSize n job m ps = none) :
    Delivers pckSize size job m ps none := by
  constructor
  · exact fun _ => h
  · intro data rest hnone
    cases hnone

theorem Delivers.ending (n : ℕ) (h : ∀ k, ∃ m' acts,
      receiveAll pckSize (k + n) job m ps = some (m', acts, rest) ∧ Received size data m' acts) :
    Delivers pckSize size job m ps (some (data, rest)) := by
  constructor
  · intro hnone
    cases hnone
  · intro data' rest' hsome
    cases hsome
    refine ⟨n, fun k hk => ?_⟩
    obtain ⟨k, rfl⟩ := Nat.exists_eq_add_of_le hk
    rw [Nat.add_comm n k]
    exact h k

/-- A read, and what the job does after it. -/
theorem Delivers.read {len : Half} {j : Job} {off : Size}
    {outcome : Option (List Byte × List (List Byte))}
    (hfill : fill pckSize len.toNat [] ps = some (data, rest))
    (h : Delivers pckSize size (uddEpTransOutNext true (BitVec.ofNat 16 data.length) len j)
      { m with buf := Words.splice m.buf off.toNat data } rest outcome) :
    Delivers pckSize size (j, [.read off len]) m ps outcome := by
  constructor
  · intro hnone n
    cases n with
    | zero => rfl
    | succ n =>
        rw [receiveAll_read hfill, h.waits hnone n]
        rfl
  · intro all left hsome
    obtain ⟨n, hn⟩ := h.ends all left hsome
    refine ⟨n + 1, fun k hk => ?_⟩
    obtain ⟨k, rfl⟩ := Nat.exists_eq_add_of_le hk
    obtain ⟨m', acts, heq, hreceived⟩ := hn (n + k) (Nat.le_add_right n k)
    refine ⟨m', .read off len :: acts, ?_, hreceived.after_read off len⟩
    rw [Nat.add_right_comm, receiveAll_read hfill, heq]
    rfl

end Delivers

/-- A job before its next read. `done` is what it has put into the buffer. -/
structure Reading (size : ℕ) (j : Job) (m : Mem) (done : List Byte) : Prop where
  hasCallback : j.hasCallback = true
  bufSize : j.bufSize.toNat = size
  whole : j.epSize.toNat ∣ j.nbTrans.toNat
  direct : j.bUseOutCacheBuffer = false
  length_buf : m.buf.length = size
  length_cache : m.cache.length = 64
  take_buf : m.buf.take j.nbTrans.toNat = done
  length_done : done.length = j.nbTrans.toNat

section Reading

variable {size : ℕ} {j : Job} {m : Mem} {done data : List Byte}

theorem ofNat_toNat {n : ℕ} (h : n < 2 ^ 16) : (BitVec.ofNat 16 n).toNat = n := by
  rw [BitVec.toNat_ofNat, Nat.mod_eq_of_lt h]

theorem Reading.count (h : Reading size j m done) (hlow : size < 2 ^ 16) {n : ℕ}
    (hn : n < 2 ^ 16) (hle : done.length ≤ size) :
    (addReceived (BitVec.ofNat 16 n) j).toNat = min (done.length + n) size := by
  have hdone := h.length_done
  rw [addReceived_toNat (by rw [ofNat_toNat hn]; omega), ofNat_toNat hn, h.bufSize, hdone]

/-- What is read behind the bytes in the buffer stands behind them. -/
theorem Reading.splice (h : Reading size j m done) (hfit : done.length + data.length ≤ size) :
    (Words.splice m.buf j.nbTrans.toNat data).length = size ∧
      (Words.splice m.buf j.nbTrans.toNat data).take (done.length + data.length) =
        done ++ data := by
  have hbuf := h.length_buf
  rw [h.length_done] at hfit ⊢
  constructor
  · rw [Words.splice_length (by omega), hbuf]
  · rw [take_splice _ _ (by omega) (Nat.le_refl _), h.take_buf, List.take_length]

/-- The job after a read that does not fill its buffer. -/
theorem Reading.next (h : Reading size j m done) (hlow : size < 2 ^ 16)
    (hfit : done.length + data.length ≤ size) (hwhole : j.epSize.toNat ∣ data.length) :
    Reading size { j with nbTrans := addReceived (BitVec.ofNat 16 data.length) j }
      { m with buf := Words.splice m.buf j.nbTrans.toNat data } (done ++ data) := by
  have hcount := h.count hlow (show data.length < 2 ^ 16 by omega) (by omega)
  rw [Nat.min_eq_left hfit] at hcount
  obtain ⟨hlength, htake⟩ := h.splice hfit
  refine ⟨h.hasCallback, h.bufSize, ?_, h.direct, hlength, h.length_cache, ?_, ?_⟩
  · simp only [hcount, h.length_done]
    exact Nat.dvd_add h.whole hwhole
  · simp only [hcount]
    exact htake
  · simp only [hcount, List.length_append]

/-- The end of a job whose last packet has gone into the buffer. -/
theorem Reading.received (h : Reading size j m done) (hlow : size < 2 ^ 16)
    (hfit : done.length + data.length ≤ size) :
    Received size (done ++ data) { m with buf := Words.splice m.buf j.nbTrans.toNat data }
      [.callTrans .ok (addReceived (BitVec.ofNat 16 data.length) j)] := by
  have hcount := h.count hlow (show data.length < 2 ^ 16 by omega) (by omega)
  obtain ⟨hlength, htake⟩ := h.splice hfit
  have hmin : min (done ++ data).length size = done.length + data.length := by
    rw [List.length_append, Nat.min_eq_left hfit]
  have hnb : addReceived (BitVec.ofNat 16 data.length) j =
      BitVec.ofNat 32 (done.length + data.length) := by
    apply BitVec.eq_of_toNat_eq
    rw [hcount, BitVec.toNat_ofNat]
    omega
  constructor
  · rw [hmin, hnb]
    rfl
  · exact hlength
  · exact h.length_cache
  · rw [hmin, htake, List.take_of_length_le (by rw [List.length_append]; exact hfit)]

/-- The bytes behind the last whole packet of the buffer. -/
theorem Reading.rest (h : Reading size j m done) {r : ℕ} (hleft : done.length + r = size)
    (hshort : r < j.epSize.toNat) : (j.bufSize % j.epSize.setWidth 32).toNat = r := by
  obtain ⟨k, hk⟩ := h.whole
  have hwide : (j.epSize.setWidth 32).toNat = j.epSize.toNat := by
    rw [BitVec.toNat_setWidth]
    omega
  rw [BitVec.toNat_umod, h.bufSize, hwide, ← hleft, h.length_done, hk, Nat.mul_add_mod,
    Nat.mod_eq_of_lt hshort]

/-- The buffer gets as much of the packet in the cache buffer as it has room for. -/
theorem Reading.cached_received (h : Reading size j m done) {r : ℕ} (hleft : done.length + r = size)
    {p : List Byte} (hp : p.length ≤ 64) (hr : r ≤ 64) (off len : Size) :
    Received size (done ++ p)
      ⟨Words.splice m.buf j.nbTrans.toNat ((Words.splice m.cache 0 p).take r),
        Words.splice m.cache 0 p⟩
      [.readCache j.epSize, .copyCache off len,
        .callTrans .ok (BitVec.ofNat 32 (min (done ++ p).length size))] := by
  have hlen := h.length_done
  have hbuf := h.length_buf
  have hnew : (Words.splice m.cache 0 p).length = 64 := by
    rw [Words.splice_length (by rw [h.length_cache]; omega), h.length_cache]
  have hcopied : ((Words.splice m.cache 0 p).take r).length = r := by
    rw [List.length_take, hnew]
    omega
  have hmin : min (done ++ p).length size = j.nbTrans.toNat + min p.length r := by
    rw [List.length_append, hlen]
    omega
  have hpacket : ((Words.splice m.cache 0 p).take r).take (min p.length r) = p.take r := by
    rw [List.take_take, Nat.min_eq_left (Nat.min_le_right _ _), Words.splice, List.take_zero,
      List.nil_append, List.take_append_of_le_length (Nat.min_le_left _ _), List.take_eq_take_iff]
    omega
  constructor
  · rfl
  · rw [Words.splice_length (by rw [hcopied]; omega), hbuf]
  · exact hnew
  · rw [hmin, take_splice _ _ (by omega) (by rw [hcopied]; exact Nat.min_le_right _ _),
      h.take_buf, hpacket, ← hleft, List.take_append,
      List.take_of_length_le (Nat.le_add_right _ _), Nat.add_sub_cancel_left]

/-- The last packet of a buffer that does not end with a whole packet. -/
theorem Reading.cached (h : Reading size j m done) (hlow : size < 2 ^ 16)
    (hcache : j.epSize.toNat ≤ 64) {r : ℕ} (hleft : done.length + r = size)
    (hshort : r < j.epSize.toNat) {p : List Byte} (hp : p.length ≤ j.epSize.toNat)
    (ps : List (List Byte)) (n : ℕ) :
    ∃ m' acts, receiveAll j.epSize.toNat (n + 2)
        ({ j with bUseOutCacheBuffer := true }, [.readCache j.epSize]) m (p :: ps) =
          some (m', acts, ps) ∧ Received size (done ++ p) m' acts := by
  have hplen := ofNat_toNat (show p.length < 2 ^ 16 by omega)
  have hcount : (addReceived (BitVec.ofNat 16 p.length)
      { j with bUseOutCacheBuffer := true }).toNat = min (done.length + p.length) size :=
    h.count hlow (by omega) (by omega)
  have hnb : addReceived (BitVec.ofNat 16 p.length) { j with bUseOutCacheBuffer := true } =
      BitVec.ofNat 32 (min (done ++ p).length size) := by
    apply BitVec.eq_of_toNat_eq
    rw [hcount, BitVec.toNat_ofNat, List.length_append]
    omega
  -- A whole packet goes beyond the buffer, so the count is cut and the job is over.
  have hend : ¬(BitVec.ofNat 16 p.length = j.epSize ∧
      addReceived (BitVec.ofNat 16 p.length) { j with bUseOutCacheBuffer := true } ≠
        j.bufSize) := by
    rintro ⟨hwholep, hne⟩
    have hfull := congrArg BitVec.toNat hwholep
    rw [hplen] at hfull
    apply hne
    apply BitVec.eq_of_toNat_eq
    rw [hcount, h.bufSize]
    omega
  have hfill : fill j.epSize.toNat j.epSize.toNat [] (p :: ps) = some (p, ps) := by
    rw [fill, List.nil_append]
    apply if_pos
    omega
  refine ⟨_, _, ?_, h.cached_received hleft (hp.trans hcache) (by omega) j.nbTrans
    (j.bufSize % j.epSize.setWidth 32)⟩
  rw [receiveAll]
  simp only [List.foldl_cons, List.foldl_nil, copy, List.getLast?_singleton]
  rw [hfill, Option.bind_some, transOutNext_complete hend, hnb, copyCache]
  simp only [if_true, h.hasCallback]
  rw [receiveAll]
  simp only [List.cons_append, List.nil_append, List.foldl_cons, List.foldl_nil, copy, store,
    List.getLast?_cons_cons, List.getLast?_singleton, h.rest hleft hshort]
  rfl

/-- A read into the buffer takes whole packets, as many as there is room for. -/
theorem nextOut_block {ep : Half} (hep : 0 < ep.toNat) (hsmall : ep.toNat ≤ 8191) {left : Size}
    (hlow : left.toNat < 2 ^ 16) (hle : ep.toNat ≤ left.toNat) :
    ep.toNat ∣ (nextOut ep left).toNat ∧ ep.toNat ≤ (nextOut ep left).toNat ∧
      (nextOut ep left).toNat ≤ left.toNat := by
  have hone : 1 ≤ left.toNat / ep.toNat := (Nat.le_div_iff_mul_le hep).mpr (by omega)
  have hprod := Nat.mul_le_mul_left ep.toNat hone
  have hdiv := Nat.div_add_mod left.toNat ep.toNat
  have hmax := le_maxBlock hsmall
  rw [maxBlock_toNat] at hmax
  rw [nextOut_toNat hlow]
  split
  · exact ⟨Nat.dvd_sub_mod 8191, hmax, by omega⟩
  · exact ⟨Nat.dvd_sub_mod left.toNat, by omega, Nat.sub_le _ _⟩

/-- The bytes that are still to come. -/
theorem Reading.left (h : Reading size j m done) {r : ℕ} (hleft : done.length + r = size) :
    (j.bufSize - j.nbTrans).toNat = r := by
  have hlen := h.length_done
  have hbufSize := h.bufSize
  rw [BitVec.toNat_sub_of_le (by rw [BitVec.le_def]; omega)]
  omega

/-- Less than a packet is left: it goes through the cache buffer. -/
theorem Reading.delivers_cached (h : Reading size j m done) (hlow : size < 2 ^ 16)
    (hcache : j.epSize.toNat ≤ 64) {r : ℕ} (hleft : done.length + r = size)
    (hshort : r < j.epSize.toNat) (ps : List (List Byte))
    (hps : ∀ p ∈ ps, p.length ≤ j.epSize.toNat) :
    Delivers j.epSize.toNat size
      (startRead true j.nbTrans (nextOut j.epSize (j.bufSize - j.nbTrans)) j) m ps
      (fill j.epSize.toNat size done ps) := by
  have hrest := h.left hleft
  have hlast : nextOut j.epSize (j.bufSize - j.nbTrans) < j.epSize := by
    rw [BitVec.lt_def, nextOut_toNat (by omega), hrest, if_neg (by omega),
      Nat.mod_eq_of_lt hshort, Nat.sub_self]
    exact Nat.zero_lt_of_lt hshort
  rw [startRead, if_pos hlast, start, if_pos rfl]
  cases ps with
  | nil =>
      apply Delivers.waiting
      intro n
      cases n <;> rfl
  | cons p ps =>
      have hfill : fill j.epSize.toNat size done (p :: ps) = some (done ++ p, ps) := by
        rw [fill]
        apply if_pos
        rw [List.length_append]
        omega
      rw [hfill]
      apply Delivers.ending 2
      intro k
      exact h.cached hlow hcache hleft hshort (hps p List.mem_cons_self) ps k

/-- The receiver takes a block of whole packets first, and then what follows it. -/
theorem Reading.fill_block (h : Reading size j m done) {len : ℕ} (hlen : 0 < len)
    (hwhole : j.epSize.toNat ∣ len) (hroom : done.length + len ≤ size) (ps : List (List Byte))
    (hps : ∀ p ∈ ps, p.length ≤ j.epSize.toNat) :
    fill j.epSize.toNat size done ps =
      (fill j.epSize.toNat len [] ps).bind fun got =>
        if done.length + len ≤ (done ++ got.1).length ∧ (done ++ got.1).length < size then
          fill j.epSize.toNat size (done ++ got.1) got.2
        else some (done ++ got.1, got.2) := by
  obtain ⟨a, ha⟩ := hwhole
  obtain ⟨b, hb⟩ := h.whole
  have hdone := h.length_done
  have hfirst : done.length + len = j.epSize.toNat * (b + a) := by
    rw [Nat.mul_add, ← hb, ← ha, hdone]
  have hshift := Packets.fill_append (n := j.epSize.toNat) len done [] ps
  rw [List.append_nil] at hshift
  rw [Packets.fill_split hfirst hroom done ps hps ⟨b, hdone.trans hb⟩ (by omega), hshift,
    Option.bind_map]
  rfl

/-- A read of whole packets into the buffer, if a transfer delivers what is left behind it. -/
theorem Reading.delivers_block (h : Reading size j m done) (hlow : size < 2 ^ 16) {len : Half}
    (hlen : 0 < len.toNat) (hwhole : j.epSize.toNat ∣ len.toNat)
    (hroom : done.length + len.toNat ≤ size) (ps : List (List Byte))
    (hps : ∀ p ∈ ps, p.length ≤ j.epSize.toNat)
    (hrest : ∀ data ps', data.length = len.toNat → (∀ p ∈ ps', p.length ≤ j.epSize.toNat) →
      done.length + len.toNat < size →
      Delivers j.epSize.toNat size
        (startRead true (addReceived (BitVec.ofNat 16 data.length) j)
          (nextOut j.epSize (j.bufSize - addReceived (BitVec.ofNat 16 data.length) j))
          { j with nbTrans := addReceived (BitVec.ofNat 16 data.length) j })
        { m with buf := Words.splice m.buf j.nbTrans.toNat data } ps'
        (fill j.epSize.toNat size (done ++ data) ps')) :
    Delivers j.epSize.toNat size (j, [.read j.nbTrans len]) m ps
      (fill j.epSize.toNat size done ps) := by
  rw [h.fill_block hlen hwhole hroom ps hps]
  cases hblk : fill j.epSize.toNat len.toNat [] ps with
  | none => exact Delivers.waiting (receiveAll_read_none hblk j j.nbTrans m)
  | some got =>
      obtain ⟨data, ps'⟩ := got
      obtain ⟨a, ha⟩ := hwhole
      have hdata : data.length ≤ len.toNat :=
        Packets.length_fill_le ha hps ⟨0, rfl⟩ (by change 0 < _; omega) hblk
      have hps' : ∀ p ∈ ps', p.length ≤ j.epSize.toNat :=
        fun p hp => hps p ((Packets.suffix_of_fill hblk).subset hp)
      have hfit : done.length + data.length ≤ size := by omega
      have hcount := h.count hlow (show data.length < 2 ^ 16 by omega) (by omega)
      -- The code goes on exactly if the block is full and leaves room in the buffer.
      have hall : (BitVec.ofNat 16 data.length = len ∧
          addReceived (BitVec.ofNat 16 data.length) j ≠ j.bufSize) ↔
          (done.length + len.toNat ≤ (done ++ data).length ∧ (done ++ data).length < size) := by
        rw [← BitVec.toNat_inj, ofNat_toNat (by omega), Ne, ← BitVec.toNat_inj, hcount,
          h.bufSize, List.length_append]
        omega
      rw [Option.bind_some]
      by_cases hmore : BitVec.ofNat 16 data.length = len ∧
          addReceived (BitVec.ofNat 16 data.length) j ≠ j.bufSize
      · have hsize : data.length = len.toNat := by
          rw [← hmore.1, ofNat_toNat (by omega)]
        have hless := (hall.mp hmore).2
        rw [List.length_append, hsize] at hless
        rw [if_pos (hall.mp hmore)]
        apply Delivers.read hblk
        rw [transOutNext_more hmore h.direct]
        exact hrest data ps' hsize hps' hless
      · rw [if_neg (mt hall.mpr hmore)]
        apply Delivers.ending 2
        intro k
        refine ⟨_, _, ?_, (h.received hlow hfit).after_read j.nbTrans len⟩
        rw [receiveAll_read hblk, transOutNext_complete hmore, copyCache, h.direct, h.hasCallback]
        rfl

/-- The rest of a transfer, from the next read on. The induction is on the number of
bytes for which the buffer has room. -/
theorem Reading.delivers (hlow : size < 2 ^ 16) (r : ℕ) (h : Reading size j m done)
    (hep : 0 < j.epSize.toNat) (hcache : j.epSize.toNat ≤ 64) (ps : List (List Byte))
    (hps : ∀ p ∈ ps, p.length ≤ j.epSize.toNat) (hleft : done.length + r = size) (hpos : 0 < r) :
    Delivers j.epSize.toNat size
      (startRead true j.nbTrans (nextOut j.epSize (j.bufSize - j.nbTrans)) j) m ps
      (fill j.epSize.toNat size done ps) := by
  induction r using Nat.strong_induction_on generalizing j m done ps with
  | _ r ih =>
      have hrest := h.left hleft
      by_cases hshort : r < j.epSize.toNat
      · exact h.delivers_cached hlow hcache hleft hshort ps hps
      · obtain ⟨hwhole, hfull, hroom⟩ := nextOut_block hep (by omega)
          (show (j.bufSize - j.nbTrans).toNat < 2 ^ 16 by omega) (by omega)
        have hlong : ¬nextOut j.epSize (j.bufSize - j.nbTrans) < j.epSize := by
          rw [BitVec.lt_def]
          exact Nat.not_lt_of_le hfull
        rw [startRead, if_neg hlong, start, if_pos rfl]
        generalize nextOut j.epSize (j.bufSize - j.nbTrans) = len at hwhole hfull hroom
        apply h.delivers_block hlow (by omega) hwhole (by omega) ps hps
        intro data ps' hdata hps' hless
        have hnext := h.next hlow (show done.length + data.length ≤ size by omega)
          (by rw [hdata]; exact hwhole)
        apply ih (r - len.toNat) (by omega) hnext hep hcache ps' hps'
        · rw [List.length_append, hdata]
          omega
        · omega

end Reading

/-- A read of nothing ends at once. Otherwise a job OUT of less than 2^16 bytes waits as
long as its packets neither fill the buffer nor end with a short one. When they do, it
has called its callback once in all, with the bytes that the buffer had room for, which
are in the buffer, and the packets behind are left for the next job. The endpoint has
one of the sizes of the hardware, and one packet fits into the cache buffer. -/
theorem outTransfer_received (m : Mem) (hlow : m.buf.length < 2 ^ 16) (hcache : m.cache.length = 64)
    (short : Bool) (j : Job) {pckSize : ℕ} (hpck : packetSize j.epSize = some pckSize)
    (hexact : j.epSize.toNat = pckSize) (hcache64 : pckSize ≤ 64)
    (ps : List (List Byte)) (hps : ∀ p ∈ ps, p.length ≤ pckSize) :
    (m.buf = [] → ∀ n,
      receiveAll pckSize (n + 1) (runOut true short (BitVec.ofNat 32 m.buf.length) true j).2
        m ps = some (m, [.callTrans .ok 0], ps)) ∧
    (m.buf ≠ [] →
      (fill pckSize m.buf.length [] ps = none → ∀ n,
        receiveAll pckSize n (runOut true short (BitVec.ofNat 32 m.buf.length) true j).2
          m ps = none) ∧
      ∀ data rest, fill pckSize m.buf.length [] ps = some (data, rest) →
        ∃ n, ∀ k ≥ n, ∃ m' acts,
          receiveAll pckSize k (runOut true short (BitVec.ofNat 32 m.buf.length) true j).2
            m ps = some (m', acts, rest) ∧ Received m.buf.length data m' acts) := by
  have hep := packetSize_pos hpck
  subst hexact
  have htotal : (BitVec.ofNat 32 m.buf.length).toNat = m.buf.length := by
    rw [BitVec.toNat_ofNat]
    omega
  constructor
  · intro hnil n
    rw [hnil]
    rfl
  · intro hne
    have hpos := List.length_pos_iff.mpr hne
    have hsize : 0 ≠ BitVec.ofNat 32 m.buf.length := by
      intro h
      rw [← h] at htotal
      exact absurd htotal (Nat.ne_of_lt hpos)
    have hfresh : Reading m.buf.length (newJob short (BitVec.ofNat 32 m.buf.length) true j) m [] :=
      ⟨rfl, htotal, Nat.dvd_zero _, rfl, rfl, hcache, rfl, rfl⟩
    have hdelivers := Reading.delivers hlow m.buf.length hfresh hep hcache64 ps hps
      (Nat.zero_add _) hpos
    have hrun : (runOut true short (BitVec.ofNat 32 m.buf.length) true j).2 =
        startRead true 0 (nextOut j.epSize (BitVec.ofNat 32 m.buf.length))
          (newJob short (BitVec.ofNat 32 m.buf.length) true j) := by
      rw [runOut, if_pos hsize]
      rfl
    rw [hrun]
    simp only [newJob, sub_zero] at hdelivers ⊢
    exact ⟨hdelivers.waits, hdelivers.ends⟩

/-- A buffer of ten bytes gets a whole packet and the beginning of the next one. -/
theorem outTransfer_received_ten :
    ∃ n, ∀ k ≥ n, ∃ m' acts,
      receiveAll 8 k (runOut true false (BitVec.ofNat 32 10) true idleJob).2
          ⟨List.replicate 10 0, List.replicate 64 0⟩
          [List.replicate 8 1, List.replicate 8 2, [3]] = some (m', acts, [[3]]) ∧
        Received 10 (List.replicate 8 1 ++ List.replicate 8 2) m' acts :=
  ((outTransfer_received ⟨List.replicate 10 0, List.replicate 64 0⟩ (by decide) (by decide) false
    idleJob rfl rfl (by decide) [List.replicate 8 1, List.replicate 8 2, [3]]
    (by decide)).2 (by decide)).2 _ _ (by decide)

end Out

end TempHumid.Th2.EpJobs
