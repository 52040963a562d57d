import TempHumid.Th2.Decode

/-!
# Torn DAC writes

The two data bytes of a DAC write are taken from the shared code in two
activations. A summary of the history keeps the transaction on the bus: its
address, the data bytes sent, and the codes held at its instants. The pair of
bytes belongs to one held code unless a calibration tick replaces the code
between the two bytes.
-/

namespace TempHumid.Th2

open Machine

/-- The values of `tdac_val` and `hdac_val` at one instant. -/
structure Codes where
  tdac : Word
  hdac : Word
  deriving DecidableEq

def codes (s : Firmware) : Codes := ⟨s.tdacVal, s.hdacVal⟩

/-- The two DACs. -/
inductive Dac
  | dac0
  | dac1
  deriving DecidableEq

instance (P : Dac → Prop) [DecidablePred P] : Decidable (∃ d, P d) :=
  decidable_of_iff (P .dac0 ∨ P .dac1)
    ⟨fun h => h.elim (⟨.dac0, ·⟩) (⟨.dac1, ·⟩),
      fun ⟨d, h⟩ => match d with
        | .dac0 => .inl h
        | .dac1 => .inr h⟩

def Dac.addr : Dac → Byte
  | .dac0 => i2cAddrTdac
  | .dac1 => i2cAddrHdac

def Dac.code : Dac → Codes → Word
  | .dac0, c => c.tdac
  | .dac1, c => c.hdac

def highByte (code : Word) : Byte := toByte (code >>> 8)
def lowByte (code : Word) : Byte := toByte (code &&& 0xff)

/-- A transaction: its address, the data bytes sent so far and the codes held
at its instants, latest first. -/
structure Transfer where
  target : Byte
  sent : List Byte
  held : List Codes
  deriving DecidableEq

def transferAct (t : Option Transfer) : Act → Option Transfer
  | .addr a => some ⟨a, [], []⟩
  | .write b => t.map fun x => { x with sent := x.sent ++ [b] }
  | .stop => none
  | _ => t

def hold (c : Codes) (t : Option Transfer) : Option Transfer :=
  t.map fun x => { x with held := c :: x.held }

def transferStep (t : Option Transfer) (en : Entry Firmware Event Act) : Option Transfer :=
  hold (codes en.after) (en.outputs.foldl transferAct t)

/-- The transaction on the bus after a list of activations. -/
def transfer (evs : List Event) : Option Transfer :=
  watch transferStep none (trace step init evs)

/-- The code of the DAC at some instant of the transaction has these two bytes. -/
def Transfer.Holds (x : Transfer) (d : Dac) (b₁ b₂ : Byte) : Prop :=
  ∃ c ∈ x.held, b₁ = highByte (d.code c) ∧ b₂ = lowByte (d.code c)

/-- A DAC transaction that has sent its two data bytes is not torn. -/
def Whole (t : Option Transfer) : Prop :=
  ∀ x ∈ t, ∀ d : Dac, x.target = d.addr → ∀ b₁ b₂, x.sent = [b₁, b₂] → x.Holds d b₁ b₂

/-- The DAC that a state addresses, and the number of data bytes sent. -/
def slot : I2CState → Option (Dac × ℕ)
  | .dac0Write => some (.dac0, 0)
  | .dac0Write2 => some (.dac0, 1)
  | .dac0Write3 => some (.dac0, 2)
  | .dac1Write => some (.dac1, 0)
  | .dac1Write2 => some (.dac1, 1)
  | .dac1Write3 => some (.dac1, 2)
  | .idle | .hihRequest | .hihReceive => none

/-- A calibration tick between the two data bytes changes both bytes of the
code, and neither starts a read nor a request that would cut the write off. -/
def Tears (s : Firmware) (e : Event) : Prop :=
  e = .tick false ∧ ¬ReadDue s ∧ ¬PollDue s ∧
    ∃ d : Dac, slot s.state = some (d, 1) ∧
      highByte (d.code (codes s)) ≠ highByte (calibLevel (s.curTick + 1)) ∧
      lowByte (d.code (codes s)) ≠ lowByte (calibLevel (s.curTick + 1))

instance (s : Firmware) (e : Event) : Decidable (Tears s e) :=
  inferInstanceAs (Decidable (e = .tick false ∧ ¬ReadDue s ∧ ¬PollDue s ∧
    ∃ d : Dac, slot s.state = some (d, 1) ∧
      highByte (d.code (codes s)) ≠ highByte (calibLevel (s.curTick + 1)) ∧
      lowByte (d.code (codes s)) ≠ lowByte (calibLevel (s.curTick + 1))))

/-! ## The invariant -/

/-- Between the two data bytes: the first byte belongs to a held code that
agrees with the present one in the low byte, and a code that has moved on
since the first byte is a calibration level. -/
structure Joined (s : Firmware) (d : Dac) (x : Transfer) (b : Byte) : Prop where
  holds : x.Holds d b (lowByte (d.code (codes s)))
  moved : b = highByte (d.code (codes s)) ∨ ∃ tick, d.code (codes s) = calibLevel tick

/-- In a state of the DAC writes the transaction is the one of that state. -/
def InSlot (s : Firmware) (t : Option Transfer) : Prop :=
  ∀ d k, slot s.state = some (d, k) → ∃ x, t = some x ∧ x.target = d.addr ∧
    x.sent.length = k ∧ ∀ b, x.sent = [b] → Joined s d x b

structure DacInv (s : Firmware) (t : Option Transfer) : Prop where
  index : s.bytesRead ≤ 3
  whole : Whole t
  inSlot : InSlot s t

theorem dacInv_init : DacInv init none where
  index := Nat.zero_le 3
  whole x hx := by cases hx
  inSlot d k hslot := by cases hslot

section Transfer

variable {x : Transfer} {c : Codes} {d : Dac} {b₁ b₂ : Byte}

theorem Transfer.Holds.hold (h : x.Holds d b₁ b₂) :
    ({ x with held := c :: x.held } : Transfer).Holds d b₁ b₂ := by
  obtain ⟨c', hc', hbytes⟩ := h
  exact ⟨c', List.mem_cons_of_mem c hc', hbytes⟩

theorem holds_now (x : Transfer) (c : Codes) (d : Dac) :
    ({ x with held := c :: x.held } : Transfer).Holds d (highByte (d.code c))
      (lowByte (d.code c)) :=
  ⟨c, List.mem_cons_self, rfl, rfl⟩

/-- Another instant of the transaction keeps it whole. -/
theorem Whole.hold {t : Option Transfer} (h : Whole t) : Whole (Th2.hold c t) := by
  cases t with
  | none => exact h
  | some x =>
      rintro y hy d hd b₁ b₂ hsent
      obtain rfl : { x with held := c :: x.held } = y := Option.some.inj hy
      exact (h x rfl d hd b₁ b₂ hsent).hold

/-- A transaction that has sent fewer than two bytes is whole. -/
theorem whole_of_length (h : x.sent.length < 2) : Whole (some x) := by
  intro y hy d hd b₁ b₂ hsent
  obtain rfl : x = y := Option.some.inj hy
  rw [hsent] at h
  exact absurd h (by simp)

end Transfer

/-- Two calibration levels agree in both bytes or differ in both. -/
theorem calibLevel_eq_of_high {t₁ t₂ : Word}
    (h : highByte (calibLevel t₁) = highByte (calibLevel t₂)) :
    calibLevel t₁ = calibLevel t₂ := by
  revert h
  unfold calibLevel
  split <;> split <;> decide

section Step

variable {s : Firmware} {t : Option Transfer}

/-- An address of a sensor transaction starts no DAC write. -/
theorem dacInv_of_sensor {s' : Firmware} {a : Byte} (hi : s'.bytesRead ≤ 3)
    (hs : slot s'.state = none) : DacInv s' (hold (codes s') (some ⟨a, [], []⟩)) where
  index := hi
  whole := whole_of_length (by simp)
  inSlot d k hslot := by
    rw [hs] at hslot
    cases hslot

/-- The address of a DAC starts its transaction. -/
theorem dacInv_of_dacAddr {s' : Firmware} {d : Dac} (hi : s'.bytesRead ≤ 3)
    (hs : slot s'.state = some (d, 0)) :
    DacInv s' (hold (codes s') (some ⟨d.addr, [], []⟩)) where
  index := hi
  whole := whole_of_length (by simp)
  inSlot d' k hslot := by
    rw [hs] at hslot
    cases hslot
    exact ⟨_, rfl, rfl, rfl, fun b hb => by cases hb⟩

/-- Without a transaction there is nothing to show. -/
theorem dacInv_of_none {s' : Firmware} (hi : s'.bytesRead ≤ 3) (hs : slot s'.state = none) :
    DacInv s' (hold (codes s') none) where
  index := hi
  whole x hx := by cases hx
  inSlot d k hslot := by
    rw [hs] at hslot
    cases hslot

/-- An activation that touches neither the bus nor the codes of the write in
progress keeps the invariant. -/
theorem DacInv.same {s' : Firmware} (h : DacInv s t) (hi : s'.bytesRead ≤ 3)
    (hs : s'.state = s.state) (hc : codes s' = codes s) : DacInv s' (hold (codes s') t) where
  index := hi
  whole := h.whole.hold
  inSlot d k hslot := by
    rw [hs] at hslot
    obtain ⟨x, rfl, htarget, hlength, hjoined⟩ := h.inSlot d k hslot
    refine ⟨_, rfl, htarget, hlength, fun b hb => ?_⟩
    obtain ⟨hholds, hmoved⟩ := hjoined b hb
    constructor
    · rw [hc]
      exact hholds.hold
    · rwa [hc]

/-- The first data byte is the high byte of the present code. -/
theorem DacInv.first {s' : Firmware} {d : Dac} (h : DacInv s t)
    (hs : slot s.state = some (d, 0)) (hi : s'.bytesRead ≤ 3)
    (hs' : slot s'.state = some (d, 1)) (hc : codes s' = codes s) :
    DacInv s' (hold (codes s') (transferAct t (.write (highByte (d.code (codes s)))))) := by
  obtain ⟨x, rfl, htarget, hlength, -⟩ := h.inSlot d 0 hs
  have hnil : x.sent = [] := List.length_eq_zero_iff.mp hlength
  refine ⟨hi, whole_of_length (by simp [hnil]), ?_⟩
  intro d' k hslot
  rw [hs'] at hslot
  cases hslot
  refine ⟨_, rfl, htarget, by simp [hnil], ?_⟩
  intro b hb
  obtain rfl : highByte (d.code (codes s)) = b := by simpa [hnil] using hb
  rw [← hc]
  exact ⟨holds_now _ _ d, .inl rfl⟩

/-- The second data byte is the low byte of the present code, so the pair
belongs to the code that the first byte was joined with. -/
theorem DacInv.second {s' : Firmware} {d : Dac} (h : DacInv s t)
    (hs : slot s.state = some (d, 1)) (hi : s'.bytesRead ≤ 3)
    (hs' : slot s'.state = some (d, 2)) :
    DacInv s' (hold (codes s') (transferAct t (.write (lowByte (d.code (codes s)))))) := by
  obtain ⟨x, rfl, htarget, hlength, hjoined⟩ := h.inSlot d 1 hs
  obtain ⟨b, hb⟩ := List.length_eq_one_iff.mp hlength
  have hwhole : Whole (transferAct (some x) (.write (lowByte (d.code (codes s))))) := by
    intro y hy d' hd' b₁ b₂ hsent
    obtain rfl : { x with sent := x.sent ++ [lowByte (d.code (codes s))] } = y :=
      Option.some.inj hy
    obtain rfl : d = d' := by
      cases d <;> cases d' <;> first | rfl | exact absurd (htarget.symm.trans hd') (by decide)
    obtain ⟨rfl, rfl⟩ : b = b₁ ∧ lowByte (d.code (codes s)) = b₂ := by simpa [hb] using hsent
    exact (hjoined b hb).holds
  refine ⟨hi, hwhole.hold, ?_⟩
  intro d' k hslot
  rw [hs'] at hslot
  cases hslot
  exact ⟨_, rfl, htarget, by simp [hb], fun b' hb' => by simp [hb] at hb'⟩

/-- A calibration tick that agrees with the code in one of the two bytes leaves
the first byte joined. -/
theorem Joined.calibrate {d : Dac} {x : Transfer} {b : Byte} (h : Joined s d x b) {level : Word}
    (hlevel : ∃ tick, level = calibLevel tick)
    (hagree : highByte (d.code (codes s)) = highByte level ∨
      lowByte (d.code (codes s)) = lowByte level) {s' : Firmware}
    (hc : d.code (codes s') = level) :
    Joined s' d { x with held := codes s' :: x.held } b := by
  have hlow (hlow : lowByte (d.code (codes s)) = lowByte level) :
      Joined s' d { x with held := codes s' :: x.held } b := by
    refine ⟨?_, .inr (hc ▸ hlevel)⟩
    rw [hc, ← hlow]
    exact h.holds.hold
  rcases hagree with hhigh | hagree
  · rcases h.moved with hb | ⟨t₁, ht₁⟩
    · refine ⟨?_, .inr (hc ▸ hlevel)⟩
      rw [hb, hhigh, ← hc]
      exact holds_now x (codes s') d
    · -- the code was a level already, and levels that share a byte are equal
      obtain ⟨t₂, rfl⟩ := hlevel
      rw [ht₁] at hhigh
      have heq := calibLevel_eq_of_high hhigh
      exact hlow (by rw [ht₁, heq])
  · exact hlow hagree

/-- A tick that touches no transaction. -/
theorem DacInv.tick_quiet (h : DacInv s t) (released : Bool) (hr : ¬ReadDue s) (hp : ¬PollDue s)
    (hsteady : ¬Tears s (.tick released)) :
    DacInv (step s (.tick released)).1 (hold (codes (step s (.tick released)).1) t) := by
  have hindex := bytesRead_step h.index (.tick released)
  have hstate : (step s (.tick released)).1.state = s.state := by
    simp only [step, tc1Handler_eq, if_neg hr, if_neg hp]
  obtain ⟨-, htdac, hhdac⟩ := tick_codes s released
  cases released with
  | true => exact h.same hindex hstate (by rw [codes, htdac, hhdac]; rfl)
  | false =>
      have hcode (d : Dac) : d.code (codes (step s (.tick false)).1) =
          calibLevel (s.curTick + 1) := by
        cases d with
        | dac0 => exact htdac
        | dac1 => exact hhdac
      refine ⟨hindex, h.whole.hold, ?_⟩
      intro d k hslot
      rw [hstate] at hslot
      obtain ⟨x, rfl, htarget, hlength, hjoined⟩ := h.inSlot d k hslot
      refine ⟨_, rfl, htarget, hlength, fun b hb => ?_⟩
      obtain rfl : 1 = k := by rw [← hlength, show x.sent = [b] from hb, List.length_singleton]
      apply (hjoined b hb).calibrate ⟨_, rfl⟩ _ (hcode d)
      by_contra hboth
      rw [not_or] at hboth
      exact hsteady ⟨rfl, hr, hp, d, hslot, hboth⟩

theorem DacInv.tick (h : DacInv s t) (released : Bool) (hsteady : ¬Tears s (.tick released)) :
    DacInv (step s (.tick released)).1 (transferStep t (entry step s (.tick released))) := by
  have hindex := bytesRead_step h.index (.tick released)
  by_cases hp : PollDue s
  · have hslot : slot (step s (.tick released)).1.state = none := by
      simp only [step, tc1Handler_eq, if_pos hp, slot]
    have ht : (step s (.tick released)).2.foldl transferAct t = some ⟨i2cAddrHih, [], []⟩ := by
      simp only [step, tc1Handler_eq, if_pos hp]
      by_cases hr : ReadDue s <;> simp only [hr, if_true, if_false] <;> rfl
    rw [transferStep, entry, ht]
    exact dacInv_of_sensor hindex hslot
  · by_cases hr : ReadDue s
    · have hslot : slot (step s (.tick released)).1.state = none := by
        simp only [step, tc1Handler_eq, if_neg hp, if_pos hr, slot]
      have ht : (step s (.tick released)).2.foldl transferAct t = some ⟨slaR, [], []⟩ := by
        simp only [step, tc1Handler_eq, if_neg hp, if_pos hr]
        rfl
      rw [transferStep, entry, ht]
      exact dacInv_of_sensor hindex hslot
    · have ht : (step s (.tick released)).2.foldl transferAct t = t := by
        simp only [step, tc1Handler_eq, if_neg hp, if_neg hr]
        rfl
      rw [transferStep, entry, ht]
      exact h.tick_quiet released hr hp hsteady

theorem DacInv.mb (h : DacInv s t) :
    DacInv (step s .mb).1 (transferStep t (entry step s .mb)) := by
  have hindex := bytesRead_step h.index .mb
  simp only [transferStep, entry]
  simp only [step] at hindex ⊢
  cases hs : s.state with
  | idle =>
      rw [mb_unexpected (.inl hs)] at hindex ⊢
      exact h.same hindex rfl rfl
  | hihReceive =>
      rw [mb_unexpected (.inr hs)] at hindex ⊢
      exact h.same hindex rfl rfl
  | hihRequest =>
      rw [mb_hihRequest hs] at hindex ⊢
      exact dacInv_of_none hindex (congrArg slot hs)
  | dac0Write =>
      rw [mb_dac0Write hs] at hindex ⊢
      exact h.first (d := .dac0) (congrArg slot hs) hindex rfl rfl
  | dac0Write2 =>
      rw [mb_dac0Write2 hs] at hindex ⊢
      exact h.second (d := .dac0) (congrArg slot hs) hindex rfl
  | dac0Write3 =>
      rw [mb_dac0Write3 hs] at hindex ⊢
      exact dacInv_of_dacAddr (d := .dac1) hindex rfl
  | dac1Write =>
      rw [mb_dac1Write hs] at hindex ⊢
      exact h.first (d := .dac1) (congrArg slot hs) hindex rfl rfl
  | dac1Write2 =>
      rw [mb_dac1Write2 hs] at hindex ⊢
      exact h.second (d := .dac1) (congrArg slot hs) hindex rfl
  | dac1Write3 =>
      rw [mb_dac1Write3 hs] at hindex ⊢
      exact dacInv_of_none hindex rfl

theorem DacInv.sb (h : DacInv s t) (b : Byte) (released : Bool) :
    DacInv (step s (.sb b released)).1 (transferStep t (entry step s (.sb b released))) := by
  have hindex := bytesRead_step h.index (.sb b released)
  simp only [transferStep, entry]
  simp only [step] at hindex ⊢
  rcases sb_cases s h.index with hs | ⟨hs, h2⟩ | ⟨hs, h3⟩
  · rw [sb_unexpected b released hs] at hindex ⊢
    exact h.same hindex rfl rfl
  · rw [sb_early b released hs h2] at hindex ⊢
    exact h.same hindex rfl rfl
  · rw [sb_last b released hs h3] at hindex ⊢
    exact dacInv_of_dacAddr (d := .dac0) hindex rfl

theorem dacInv_step (h : DacInv s t) {e : Event} (hsteady : ¬Tears s e) :
    DacInv (step s e).1 (transferStep t (entry step s e)) := by
  cases e with
  | tick released => exact h.tick released hsteady
  | mb => exact h.mb
  | sb b released => exact h.sb b released

end Step

/-- In a run in which no calibration tick falls between the two data bytes of a
DAC write and changes both bytes of its code, no DAC write is torn. -/
theorem dac_write_whole (evs : List Event) (h : AllSteps step (fun s e => ¬Tears s e) init evs) :
    Whole (transfer evs) := by
  have hpaired : AllSteps (paired step transferStep) (fun p e => ¬Tears p.1 e) (init, none) evs :=
    allSteps_paired_iff.mpr h
  have hinv := hpaired.invariant (I := fun p => DacInv p.1 p.2) dacInv_init
    fun p e hp hsteady => dacInv_step hp hsteady
  rw [finish_paired] at hinv
  exact hinv.whole

/-- A frame that carries 25.00 degrees, whose code is `0x7ff`. -/
def roomFrame : Frame := ⟨0, 0, 100, 216⟩

/-- Without a press the two bytes are those of the code. -/
theorem dac_write_room : ∃ x, transfer (firstRead roomFrame true ++ [.mb, .mb]) = some x ∧
    x.Holds .dac0 0x07 0xff := by
  have hsent : (transfer (firstRead roomFrame true ++ [.mb, .mb])).map Transfer.sent =
      some [0x07, 0xff] := by decide +kernel
  have htarget : (transfer (firstRead roomFrame true ++ [.mb, .mb])).map Transfer.target =
      some i2cAddrTdac := by decide +kernel
  have hwhole := dac_write_whole (firstRead roomFrame true ++ [.mb, .mb]) (by decide +kernel)
  obtain ⟨x, hx, hs⟩ := Option.map_eq_some_iff.mp hsent
  rw [hx] at htarget hwhole
  exact ⟨x, hx, hwhole x rfl .dac0 (Option.some.inj htarget) _ _ hs⟩

/-- The switch is pressed at the tick between the two bytes: `0x7ff` and the
level 0 are held, `0x0700` is sent, and the next event ends the write. -/
theorem dac_write_torn :
    ¬Whole (transfer (firstRead roomFrame true ++ [.mb, .tick false, .mb])) ∧
      .stop ∈ (step (run (firstRead roomFrame true ++ [.mb, .tick false, .mb])) .mb).2 := by
  have ht : transfer (firstRead roomFrame true ++ [.mb, .tick false, .mb]) =
      some ⟨i2cAddrTdac, [0x07, 0x00], [⟨0, 0⟩, ⟨0, 0⟩, ⟨0x7ff, 0⟩, ⟨0x7ff, 0⟩]⟩ := by
    decide +kernel
  refine ⟨?_, by decide +kernel⟩
  rw [ht]
  intro h
  obtain ⟨c, hc, hhigh, hlow⟩ := h _ rfl .dac0 rfl 0x07 0x00 rfl
  simp only [List.mem_cons, List.not_mem_nil, or_false] at hc
  rcases hc with rfl | rfl | rfl | rfl <;> revert hhigh hlow <;> decide

end TempHumid.Th2
