import Mathlib.Data.BitVec
import Mathlib.Data.List.Basic

/-!
# A fragment of the AVR instruction set

The working registers that a routine may use freely, the carry flag, the data memory,
the stack pointer and a program counter. A program is a list of instructions of one
word each, its labels are places in this list.

## Implementation notes

The other flags are left out: the branches of the fragment read the carry only. A
run that leaves the program without a return has no result. The memory does not hold
the registers: data addresses below `0x20` are `r0` to `r31` and those up to `0x5f`
the I/O registers, and neither a block nor a stack lies there. A return address is the
word address of an instruction in the flash memory, in two bytes. No interrupt comes in
between.
-/

namespace TempHumid.AvrCore

abbrev Byte := BitVec 8
abbrev Addr := BitVec 16

inductive Reg
  | r18 | r19 | r20 | r21 | r22 | r23 | r24 | r25 | r26 | r27
  deriving DecidableEq

/-- The stack pointer, the place of the program in the flash memory, and the calls of
the program that are open. -/
structure Frame where
  sp : Addr
  origin : Addr
  depth : ℕ

structure Cpu where
  r18 : Byte
  r19 : Byte
  r20 : Byte
  r21 : Byte
  r22 : Byte
  r23 : Byte
  r24 : Byte
  r25 : Byte
  r26 : Byte
  r27 : Byte
  carry : Bool
  mem : Addr → Byte
  frame : Frame
  pc : ℕ

def Cpu.get (c : Cpu) : Reg → Byte
  | .r18 => c.r18 | .r19 => c.r19 | .r20 => c.r20 | .r21 => c.r21 | .r22 => c.r22
  | .r23 => c.r23 | .r24 => c.r24 | .r25 => c.r25 | .r26 => c.r26 | .r27 => c.r27

def Cpu.set (c : Cpu) (v : Byte) : Reg → Cpu
  | .r18 => { c with r18 := v }
  | .r19 => { c with r19 := v }
  | .r20 => { c with r20 := v }
  | .r21 => { c with r21 := v }
  | .r22 => { c with r22 := v }
  | .r23 => { c with r23 := v }
  | .r24 => { c with r24 := v }
  | .r25 => { c with r25 := v }
  | .r26 => { c with r26 := v }
  | .r27 => { c with r27 := v }

/-- The pointer register `X`. -/
def Cpu.x (c : Cpu) : Addr := c.r27 ++ c.r26

/-- The pointer register `X`, one further. -/
def Cpu.incX (c : Cpu) : Cpu :=
  { c with r26 := (c.x + 1).setWidth 8, r27 := ((c.x + 1) >>> 8).setWidth 8 }

/-- The register pair in which a word is returned. -/
def Cpu.result (c : Cpu) : BitVec 16 := c.r25 ++ c.r24

inductive Instr
  | mov (d s : Reg)
  | movw (d s : Reg × Reg)
  | ldi (d : Reg) (k : Byte)
  | clr (d : Reg)
  | eor (d s : Reg)
  | andi (d : Reg) (k : Byte)
  | com (d : Reg)
  | swap (d : Reg)
  | inc (d : Reg)
  | lsr (d : Reg)
  | ror (d : Reg)
  | cp (d s : Reg)
  | subi (d : Reg) (k : Byte)
  | ldX (d : Reg)
  | stX (s : Reg)
  | rjmp (target : ℕ)
  | brsh (target : ℕ)
  | brcs (target : ℕ)
  | rcall (target : ℕ)
  | ret
  deriving DecidableEq

/-- What a call pushes. -/
def Cpu.returnAddr (c : Cpu) : Addr := c.frame.origin + BitVec.ofNat 16 (c.pc + 1)

/-- The low byte is pushed first, to the higher address. -/
def Cpu.push (c : Cpu) (a : Addr) : Cpu :=
  { c with
    mem := fun p => if p = c.frame.sp then a.setWidth 8
      else if p = c.frame.sp - 1 then (a >>> 8).setWidth 8 else c.mem p
    frame := { c.frame with sp := c.frame.sp - 2, depth := c.frame.depth + 1 } }

/-- The address on top of the stack. -/
def Cpu.top (c : Cpu) : Addr := c.mem (c.frame.sp + 1) ++ c.mem (c.frame.sp + 2)

def Cpu.pop (c : Cpu) : Cpu :=
  { c with frame := { c.frame with sp := c.frame.sp + 2, depth := c.frame.depth - 1 } }

def lsrByte (b : Byte) : Byte := b >>> 1

def rorByte (carry : Bool) (b : Byte) : Byte := (if carry then 0x80 else 0) ||| b >>> 1

def swapByte (b : Byte) : Byte := b <<< 4 ||| b >>> 4

theorem getLsbD_rorByte (k : Bool) (b : Byte) {i : ℕ} (hi : i < 8) :
    (rorByte k b).getLsbD i = if i = 7 then k else b.getLsbD (i + 1) := by
  have hall : ∀ k : Bool, ∀ b : Byte, ∀ i < 8,
      (rorByte k b).getLsbD i = if i = 7 then k else b.getLsbD (i + 1) := by decide +kernel
  exact hall k b i hi

/-- The effect of an instruction beside the step to the next one. -/
def exec (c : Cpu) : Instr → Cpu
  | .mov d s => c.set (c.get s) d
  | .movw d s => (c.set (c.get s.1) d.1).set (c.get s.2) d.2
  | .ldi d k => c.set k d
  | .clr d => c.set 0 d
  | .eor d s => c.set (c.get d ^^^ c.get s) d
  | .andi d k => c.set (c.get d &&& k) d
  | .com d => { c.set (~~~ c.get d) d with carry := true }
  | .swap d => c.set (swapByte (c.get d)) d
  | .inc d => c.set (c.get d + 1) d
  | .lsr d => { c.set (lsrByte (c.get d)) d with carry := (c.get d).getLsbD 0 }
  | .ror d => { c.set (rorByte c.carry (c.get d)) d with carry := (c.get d).getLsbD 0 }
  | .cp d s => { c with carry := decide (c.get d < c.get s) }
  | .subi d k => { c.set (c.get d - k) d with carry := decide (c.get d < k) }
  | .ldX d => c.incX.set (c.mem c.x) d
  | .stX s => { c.incX with mem := fun a => if a = c.x then c.get s else c.mem a }
  | .rjmp _ => c
  | .brsh _ => c
  | .brcs _ => c
  | .rcall _ => c.push c.returnAddr
  | .ret => c.pop

/-- The place of the next instruction. -/
def next (c : Cpu) : Instr → ℕ
  | .rjmp target => target
  | .brsh target => if c.carry then c.pc + 1 else target
  | .brcs target => if c.carry then target else c.pc + 1
  | .rcall target => target
  | .ret => (c.top - c.frame.origin).toNat
  | _ => c.pc + 1

def exec1 (c : Cpu) (i : Instr) : Cpu := { exec c i with pc := next c i }

section Runs

variable (prog : List Instr)

/-- At most `n` instructions, up to the return to the caller of the program. -/
def run : ℕ → Cpu → Option Cpu
  | 0, _ => none
  | n + 1, c =>
      match prog[c.pc]? with
      | none => none
      | some .ret => if c.frame.depth = 0 then some c else run n (exec1 c .ret)
      | some i => run n (exec1 c i)

/-- Exactly `n` instructions, without a return to the caller of the program. -/
def steps : ℕ → Cpu → Option Cpu
  | 0, c => some c
  | n + 1, c =>
      match prog[c.pc]? with
      | none => none
      | some .ret => if c.frame.depth = 0 then none else steps n (exec1 c .ret)
      | some i => steps n (exec1 c i)

/-- The program gets from one state to another. -/
def Reaches (c d : Cpu) : Prop := ∃ n, steps prog n c = some d

/-- The program returns to its caller in the second state. -/
def Returns (c d : Cpu) : Prop := ∃ n, run prog n c = some d

variable {prog} {b c d : Cpu}

/-- An instruction that does not leave the program. -/
theorem steps_succ {n : ℕ} {i : Instr} (hi : prog[c.pc]? = some i)
    (hin : i = .ret → c.frame.depth ≠ 0) : steps prog (n + 1) c = steps prog n (exec1 c i) := by
  simp only [steps, hi]
  cases i with
  | ret => exact if_neg (hin rfl)
  | _ => rfl

theorem run_succ {n : ℕ} {i : Instr} (hi : prog[c.pc]? = some i)
    (hin : i = .ret → c.frame.depth ≠ 0) : run prog (n + 1) c = run prog n (exec1 c i) := by
  simp only [run, hi]
  cases i with
  | ret => exact if_neg (hin rfl)
  | _ => rfl

/-- The first instruction of a run that goes on. -/
theorem exists_of_steps {n : ℕ} (h : steps prog (n + 1) c = some d) :
    ∃ i, prog[c.pc]? = some i ∧ (i = .ret → c.frame.depth ≠ 0) ∧
      steps prog n (exec1 c i) = some d := by
  cases hi : prog[c.pc]? with
  | none =>
      simp only [steps, hi] at h
      cases h
  | some i =>
      have hin : i = .ret → c.frame.depth ≠ 0 := by
        rintro rfl hdepth
        simp only [steps, hi, if_pos hdepth] at h
        cases h
      exact ⟨i, rfl, hin, steps_succ hi hin ▸ h⟩

/-- A run is at its return, or goes on. -/
theorem ret_or_of_run {n : ℕ} (h : run prog (n + 1) c = some d) :
    (prog[c.pc]? = some .ret ∧ c.frame.depth = 0 ∧ c = d) ∨
      ∃ i, prog[c.pc]? = some i ∧ (i = .ret → c.frame.depth ≠ 0) ∧
        run prog n (exec1 c i) = some d := by
  cases hi : prog[c.pc]? with
  | none =>
      simp only [run, hi] at h
      cases h
  | some i =>
      by_cases hin : i = .ret → c.frame.depth ≠ 0
      · exact .inr ⟨i, rfl, hin, run_succ hi hin ▸ h⟩
      · obtain ⟨rfl, hdepth⟩ := not_forall.mp hin
        rw [not_not] at hdepth
        simp only [run, hi, if_pos hdepth] at h
        exact .inl ⟨rfl, hdepth, Option.some.inj h⟩

theorem steps_add (m n : ℕ) (h : steps prog m b = some c) :
    steps prog (m + n) b = steps prog n c := by
  induction m generalizing b with
  | zero =>
      rw [Nat.zero_add]
      exact congrArg (steps prog n) (Option.some.inj h)
  | succ m ih =>
      obtain ⟨i, hi, hin, hrest⟩ := exists_of_steps h
      rw [Nat.succ_add, steps_succ hi hin]
      exact ih hrest

theorem Reaches.trans (hbc : Reaches prog b c) (hcd : Reaches prog c d) : Reaches prog b d := by
  obtain ⟨m, hm⟩ := hbc
  obtain ⟨n, hn⟩ := hcd
  exact ⟨m + n, (steps_add m n hm).trans hn⟩

/-- What a program does before a return does not matter for the return. -/
theorem Reaches.returns (hbc : Reaches prog b c) (hcd : Returns prog c d) : Returns prog b d := by
  obtain ⟨m, hm⟩ := hbc
  obtain ⟨n, hn⟩ := hcd
  refine ⟨m + n, ?_⟩
  induction m generalizing b with
  | zero =>
      rw [Nat.zero_add]
      exact (congrArg (run prog n) (Option.some.inj hm)).trans hn
  | succ m ih =>
      obtain ⟨i, hi, hin, hrest⟩ := exists_of_steps hm
      rw [Nat.succ_add, run_succ hi hin]
      exact ih hrest

theorem returns_of_ret (h : prog[c.pc]? = some .ret) (hdepth : c.frame.depth = 0) :
    Returns prog c c :=
  ⟨1, by simp only [run, h, if_pos hdepth]⟩

end Runs

section Pointer

variable (mem : Addr → Byte)

/-- The `n` bytes from an address on, in the order in which `ld` with an increment
reads them. -/
def bytes (p : Addr) : ℕ → List Byte
  | 0 => []
  | n + 1 => mem p :: bytes (p + 1) n

@[simp] theorem length_bytes (p : Addr) (n : ℕ) : (bytes mem p n).length = n := by
  induction n generalizing p with
  | zero => rfl
  | succ n ih => rw [bytes, List.length_cons, ih]

theorem add_one_add_ofNat (p : Addr) (i : ℕ) :
    p + 1 + BitVec.ofNat 16 i = p + BitVec.ofNat 16 (i + 1) := by
  have hone : (1 : Addr) = BitVec.ofNat 16 1 := rfl
  rw [BitVec.add_assoc, hone, ← BitVec.ofNat_add, Nat.add_comm]

theorem add_ofNat_add_one (p : Addr) (i : ℕ) :
    p + BitVec.ofNat 16 i + 1 = p + BitVec.ofNat 16 (i + 1) := by
  rw [BitVec.add_assoc]
  exact congrArg (p + ·) (BitVec.ofNat_add i 1).symm

theorem bytes_add (p : Addr) (m n : ℕ) :
    bytes mem p (m + n) = bytes mem p m ++ bytes mem (p + BitVec.ofNat 16 m) n := by
  induction m generalizing p with
  | zero => simp [bytes]
  | succ m ih =>
      rw [Nat.succ_add, bytes, ih, add_one_add_ofNat, bytes, List.cons_append]

/-- Bytes away from a store are the ones before it. -/
theorem bytes_congr {mem mem' : Addr → Byte} (p : Addr) (n : ℕ)
    (h : ∀ i < n, mem (p + BitVec.ofNat 16 i) = mem' (p + BitVec.ofNat 16 i)) :
    bytes mem p n = bytes mem' p n := by
  induction n generalizing p with
  | zero => rfl
  | succ n ih =>
      have hhead : mem p = mem' p := by simpa using h 0 (Nat.succ_pos n)
      rw [bytes, bytes, hhead]
      congr 1
      apply ih
      intro i hi
      rw [add_one_add_ofNat]
      exact h (i + 1) (Nat.succ_lt_succ hi)

/-- A word is its two halves. -/
theorem append_halves (a : BitVec 16) : (a >>> 8).setWidth 8 ++ a.setWidth 8 = a := by
  apply BitVec.eq_of_getLsbD_eq
  intro i hi
  rw [BitVec.getLsbD_append]
  by_cases h : i < 8
  · simp [h]
  · simp [h, show 8 + (i - 8) = i by omega, show i - 8 < 8 by omega]

/-- Halving a word into its high byte. -/
theorem append_ushiftRight (h l : Byte) : (h ++ l) >>> 8 = (0 : Byte) ++ h := by
  apply BitVec.eq_of_getLsbD_eq
  intro i hi
  rw [BitVec.getLsbD_ushiftRight, BitVec.getLsbD_append, BitVec.getLsbD_append]
  by_cases h8 : i < 8
  · simp [h8]
  · simp [h8, BitVec.getLsbD_of_ge h i (by omega)]

@[simp] theorem x_incX (c : Cpu) : c.incX.x = c.x + 1 := append_halves (c.x + 1)

end Pointer

section Calls

variable {prog rest : List Instr} {c d : Cpu}

/-- The same state inside `k` more calls. -/
def Cpu.deeper (k : ℕ) (c : Cpu) : Cpu :=
  { c with frame := { c.frame with depth := c.frame.depth + k } }

@[simp] theorem set_frame (c : Cpu) (v : Byte) (r : Reg) : (c.set v r).frame = c.frame := by
  cases r <;> rfl

@[simp] theorem incX_frame (c : Cpu) : c.incX.frame = c.frame := rfl

@[simp] theorem deeper_set (k : ℕ) (c : Cpu) (v : Byte) (r : Reg) :
    (c.deeper k).set v r = (c.set v r).deeper k := by
  cases r <;> rfl

@[simp] theorem deeper_get (k : ℕ) (c : Cpu) (r : Reg) : (c.deeper k).get r = c.get r := by
  cases r <;> rfl

/-- Inside calls an instruction works alike, unless it returns from the program. -/
theorem exec1_deeper (k : ℕ) (c : Cpu) {i : Instr} (h : i = .ret → c.frame.depth ≠ 0) :
    exec1 (c.deeper k) i = (exec1 c i).deeper k := by
  cases i with
  | ret =>
      have hdepth : c.frame.depth + k - 1 = c.frame.depth - 1 + k := by
        have hne := h rfl
        omega
      simp only [exec1, exec, next, Cpu.pop, Cpu.top, Cpu.deeper, hdepth]
  | rcall target =>
      have hdepth : c.frame.depth + k + 1 = c.frame.depth + 1 + k := Nat.add_right_comm _ _ _
      simp only [exec1, exec, next, Cpu.push, Cpu.returnAddr, Cpu.deeper, hdepth]
      rfl
  | ldX d =>
      have hload : (c.deeper k).incX.set (c.mem c.x) d = (c.incX.set (c.mem c.x) d).deeper k :=
        deeper_set k c.incX _ d
      exact congrArg (fun e => { e with pc := c.pc + 1 }) hload
  | _ =>
      simp only [exec1, exec, deeper_set, deeper_get]
      rfl

/-- A return of a program is a step of a program that begins with it and calls it. -/
theorem Returns.deeper (h : Returns prog c d) (rest : List Instr) (k : ℕ) :
    Reaches (prog ++ rest) (c.deeper k) (d.deeper k) ∧ (prog ++ rest)[d.pc]? = some .ret ∧
      d.frame.depth = 0 := by
  obtain ⟨n, hn⟩ := h
  induction n generalizing c with
  | zero => cases hn
  | succ n ih =>
      obtain ⟨hret, hdepth, rfl⟩ | ⟨i, hi, hin, hrest⟩ := ret_or_of_run hn
      · refine ⟨⟨0, rfl⟩, ?_, hdepth⟩
        exact List.getElem?_append_left (List.getElem?_eq_some_iff.mp hret).1 ▸ hret
      · obtain ⟨⟨m, hm⟩, hend⟩ := ih hrest
        have hi' : (prog ++ rest)[(c.deeper k).pc]? = some i :=
          List.getElem?_append_left (List.getElem?_eq_some_iff.mp hi).1 ▸ hi
        have hin' : i = .ret → (c.deeper k).frame.depth ≠ 0 :=
          fun heq => Nat.ne_of_gt (Nat.lt_of_lt_of_le (Nat.pos_of_ne_zero (hin heq))
            (Nat.le_add_right _ k))
        refine ⟨⟨m + 1, ?_⟩, hend⟩
        rw [steps_succ hi' hin', exec1_deeper k c hin, hm]

/-- A return within the program. -/
theorem reaches_ret (h : prog[c.pc]? = some .ret) (hdepth : c.frame.depth ≠ 0) :
    Reaches prog c { c.pop with pc := (c.top - c.frame.origin).toNat } :=
  ⟨1, steps_succ h fun _ => hdepth⟩

/-- Only calls and returns move the stack pointer. -/
theorem frame_exec1 (c : Cpu) {i : Instr} (hcall : ∀ t, i ≠ .rcall t) (hret : i ≠ .ret) :
    (exec1 c i).frame = c.frame := by
  cases i with
  | rcall t => exact absurd rfl (hcall t)
  | ret => exact absurd rfl hret
  | _ => simp [exec1, exec]

/-- A program without calls leaves the stack pointer alone. -/
theorem Returns.frame_eq (hprog : ∀ t, .rcall t ∉ prog) (hdepth : c.frame.depth = 0)
    (h : Returns prog c d) : d.frame = c.frame := by
  obtain ⟨n, hn⟩ := h
  induction n generalizing c with
  | zero => cases hn
  | succ n ih =>
      obtain ⟨-, -, rfl⟩ | ⟨i, hi, hin, hrest⟩ := ret_or_of_run hn
      · rfl
      · have hcall : ∀ t, i ≠ .rcall t := by
          rintro t rfl
          exact hprog t (List.mem_of_getElem? hi)
        have hframe := frame_exec1 c hcall fun heq => hin heq hdepth
        exact (ih (hframe ▸ hdepth) hrest).trans hframe

/-- The state in which a called routine begins. -/
def Cpu.enter (c : Cpu) (target : ℕ) : Cpu :=
  { c.push c.returnAddr with
    pc := target
    frame := { c.frame with sp := c.frame.sp - 2, depth := 0 } }

/-- The call rule. A routine at the start of the program comes back behind its call, if
it makes no calls of its own and leaves the two bytes of the return address alone. -/
theorem Returns.comes_back {target : ℕ} (hcall : (prog ++ rest)[c.pc]? = some (.rcall target))
    (hpc : c.pc + 1 < 2 ^ 16) (hprog : ∀ t, .rcall t ∉ prog)
    (h : Returns prog (c.enter target) d)
    (hlow : d.mem c.frame.sp = c.returnAddr.setWidth 8)
    (hhigh : d.mem (c.frame.sp - 1) = (c.returnAddr >>> 8).setWidth 8) :
    Reaches (prog ++ rest) c { d with frame := c.frame, pc := c.pc + 1 } := by
  have hframe : d.frame = (c.enter target).frame := h.frame_eq hprog rfl
  obtain ⟨hbody, hret, -⟩ := h.deeper rest (c.frame.depth + 1)
  have hentry : Reaches (prog ++ rest) c ((c.enter target).deeper (c.frame.depth + 1)) := by
    refine ⟨1, (steps_succ hcall fun heq => nomatch heq).trans (congrArg some ?_)⟩
    simp only [exec1, exec, next, Cpu.enter, Cpu.push, Cpu.deeper, Nat.zero_add]
  have htwo : c.frame.sp - 2 + 2 = c.frame.sp := BitVec.sub_add_cancel _ _
  have htop : (d.deeper (c.frame.depth + 1)).top = c.returnAddr := by
    have hone : c.frame.sp - 2 + 1 = c.frame.sp - 1 := by bv_omega
    have hbytes : (d.deeper (c.frame.depth + 1)).top =
        d.mem (d.frame.sp + 1) ++ d.mem (d.frame.sp + 2) := rfl
    rw [hbytes, hframe]
    change d.mem (c.frame.sp - 2 + 1) ++ d.mem (c.frame.sp - 2 + 2) = c.returnAddr
    rw [hone, htwo, hlow, hhigh, append_halves]
  have hback : ((d.deeper (c.frame.depth + 1)).top -
      (d.deeper (c.frame.depth + 1)).frame.origin).toNat = c.pc + 1 := by
    have horigin : (d.deeper (c.frame.depth + 1)).frame.origin = c.frame.origin := by
      change d.frame.origin = _
      rw [hframe]
      rfl
    rw [htop, horigin, Cpu.returnAddr, BitVec.add_comm, BitVec.add_sub_cancel,
      BitVec.toNat_ofNat, Nat.mod_eq_of_lt hpc]
  have hpop : (d.deeper (c.frame.depth + 1)).pop.frame = c.frame := by
    change Frame.mk (d.frame.sp + 2) d.frame.origin (d.frame.depth + (c.frame.depth + 1) - 1) = _
    rw [hframe]
    change Frame.mk (c.frame.sp - 2 + 2) c.frame.origin (0 + (c.frame.depth + 1) - 1) = _
    rw [htwo, Nat.zero_add, Nat.add_sub_cancel]
  have hleave : { (d.deeper (c.frame.depth + 1)).pop with pc := c.pc + 1 } =
      { d with frame := c.frame, pc := c.pc + 1 } :=
    congrArg (fun f => { d with frame := f, pc := c.pc + 1 }) hpop
  have hlast := reaches_ret (c := d.deeper (c.frame.depth + 1)) hret (Nat.succ_ne_zero _)
  rw [hback, hleave] at hlast
  exact hentry.trans (hbody.trans hlast)

end Calls

end TempHumid.AvrCore
