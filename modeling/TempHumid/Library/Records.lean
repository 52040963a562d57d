import Mathlib.Data.List.Basic
import Mathlib.Data.List.GetD
import Mathlib.Data.BitVec

/-!
# Length-prefixed records in a memory

A record starts with its own length and a kind. A table is a sequence of records,
one after the other, and a search steps from one to the next by adding the length
it finds. It knows nothing of the table but its end.

## Implementation notes

A record carries the bound on its length. A search takes fuel, because a length of
zero would keep it in place for ever.
-/

namespace TempHumid.Records

abbrev Byte := BitVec 8

/-- A record without its length byte, short enough for it. -/
structure Record where
  kind : Byte
  body : List Byte
  short : body.length + 2 < 2 ^ 8

namespace Record

def size (r : Record) : ℕ := r.body.length + 2

def bytes (r : Record) : List Byte := BitVec.ofNat 8 r.size :: r.kind :: r.body

@[simp] theorem length_bytes (r : Record) : r.bytes.length = r.size := rfl

end Record

def encode (rs : List Record) : List Byte := rs.flatMap Record.bytes

@[simp] theorem encode_nil : encode [] = [] := rfl

@[simp] theorem encode_cons (r : Record) (rs : List Record) :
    encode (r :: rs) = r.bytes ++ encode rs := rfl

section Memory

variable {mem : ℕ → Byte}

/-- The memory holds these bytes from a place on. -/
def Holds (mem : ℕ → Byte) (p : ℕ) (bs : List Byte) : Prop :=
  ∀ i < bs.length, mem (p + i) = bs.getD i 0

theorem Holds.left {p : ℕ} {xs ys : List Byte} (h : Holds mem p (xs ++ ys)) : Holds mem p xs := by
  intro i hi
  rw [h i (by rw [List.length_append]; omega), List.getD_append _ _ _ _ hi]

theorem Holds.right {p : ℕ} {xs ys : List Byte} (h : Holds mem p (xs ++ ys)) :
    Holds mem (p + xs.length) ys := by
  intro i hi
  have hplace : p + xs.length + i = p + (xs.length + i) := Nat.add_assoc _ _ _
  rw [hplace, h _ (by rw [List.length_append]; omega),
    List.getD_append_right _ _ _ _ (Nat.le_add_right _ _), Nat.add_sub_cancel_left]

theorem Holds.record {p : ℕ} {r : Record} {rs : List Record} (h : Holds mem p (encode (r :: rs))) :
    Holds mem p r.bytes := h.left

theorem Holds.tail {p : ℕ} {r : Record} {rs : List Record} (h : Holds mem p (encode (r :: rs))) :
    Holds mem (p + r.size) (encode rs) := h.right

/-- The first byte of a record is its length. -/
theorem Holds.length {p : ℕ} {r : Record} (h : Holds mem p r.bytes) : (mem p).toNat = r.size := by
  have hfirst : mem p = BitVec.ofNat 8 r.size := h 0 (Nat.succ_pos _)
  rw [hfirst, BitVec.toNat_ofNat]
  exact Nat.mod_eq_of_lt r.short

theorem Holds.kind {p : ℕ} {r : Record} (h : Holds mem p r.bytes) : mem (p + 1) = r.kind :=
  h 1 (Nat.succ_lt_succ (Nat.succ_pos _))

/-- A byte of the body is found two places further. -/
theorem Holds.body {p : ℕ} {r : Record} (h : Holds mem p r.bytes) {i : ℕ}
    (hi : i < r.body.length) : mem (p + (i + 2)) = r.body.getD i 0 :=
  h (i + 2) (Nat.add_lt_add_right hi 2)

end Memory

section Search

variable {β : Type*}

/-- A search up to `eof`: what it stops with, if anything, and where it ends. -/
def scan (mem : ℕ → Byte) (eof : ℕ) (stop : ℕ → Option β) : ℕ → ℕ → Option (Option β × ℕ)
  | 0, _ => none
  | n + 1, p =>
      if p < eof then
        match stop p with
        | some b => some (some b, p)
        | none => scan mem eof stop n (p + (mem p).toNat)
      else some (none, p)

/-- The same search in the sequence of records, with the records after the one found. -/
def search (f : ℕ → Record → Option β) : ℕ → List Record → Option (β × List Record) × ℕ
  | p, [] => (none, p)
  | p, r :: rs =>
      match f p r with
      | some b => (some (b, rs), p)
      | none => search f (p + r.size) rs

variable {mem : ℕ → Byte} {stop : ℕ → Option β} {f : ℕ → Record → Option β}

/-- A search in memory is one in the sequence of records: it ends, never leaves the
table, and looks at each record once. -/
theorem scan_encode (n p : ℕ) (rs : List Record) (hmem : Holds mem p (encode rs))
    (hstop : ∀ q, ∀ r ∈ rs, Holds mem q r.bytes → stop q = f q r) (hn : rs.length < n) :
    scan mem (p + (encode rs).length) stop n p =
      some ((search f p rs).1.map Prod.fst, (search f p rs).2) := by
  induction rs generalizing n p with
  | nil =>
      obtain ⟨n, rfl⟩ := Nat.exists_eq_succ_of_ne_zero (Nat.ne_of_gt hn)
      rw [scan, encode_nil, List.length_nil, Nat.add_zero, if_neg (Nat.lt_irrefl p), search]
      rfl
  | cons r rs ih =>
      obtain ⟨n, rfl⟩ := Nat.exists_eq_succ_of_ne_zero (Nat.ne_of_gt (Nat.zero_lt_of_lt hn))
      have hlen : (encode (r :: rs)).length = r.size + (encode rs).length := by
        rw [encode_cons, List.length_append, Record.length_bytes]
      have hsize : 0 < r.size := Nat.succ_pos _
      have hinside : p < p + (encode (r :: rs)).length := by omega
      rw [scan, if_pos hinside, search, hstop p r List.mem_cons_self hmem.record]
      cases f p r with
      | some b => rfl
      | none =>
          simp only
          rw [hmem.record.length, hlen, ← Nat.add_assoc]
          apply ih
          · exact hmem.tail
          · exact fun q r hr => hstop q r (List.mem_cons_of_mem _ hr)
          · exact Nat.lt_of_succ_lt_succ hn

/-- A search that finds nothing has passed every record. -/
theorem search_none {p : ℕ} {rs : List Record} (h : (search f p rs).1 = none) :
    (∀ r ∈ rs, ∃ q, f q r = none) ∧ (search f p rs).2 = p + (encode rs).length := by
  induction rs generalizing p with
  | nil => exact ⟨fun r hr => absurd hr List.not_mem_nil, rfl⟩
  | cons r rs ih =>
      rw [search] at h ⊢
      cases hf : f p r with
      | some b => rw [hf] at h; cases h
      | none =>
          rw [hf] at h
          obtain ⟨hpassed, hend⟩ := ih h
          constructor
          · intro q hq
            cases hq with
            | head => exact ⟨p, hf⟩
            | tail _ hq => exact hpassed q hq
          · simp only
            rw [hend, encode_cons, List.length_append, Record.length_bytes, Nat.add_assoc]

/-- Where a search has found something, a record lies in memory, and behind it the
records that are left. -/
theorem search_some {p : ℕ} {rs after : List Record} {b : β} (hmem : Holds mem p (encode rs))
    (h : (search f p rs).1 = some (b, after)) :
    ∃ before r, rs = before ++ r :: after ∧ (∀ x ∈ before, ∃ q, f q x = none) ∧
      f (search f p rs).2 r = some b ∧ Holds mem (search f p rs).2 (encode (r :: after)) ∧
      (search f p rs).2 + (encode (r :: after)).length = p + (encode rs).length := by
  induction rs generalizing p with
  | nil => cases h
  | cons r rs ih =>
      rw [search] at h ⊢
      cases hf : f p r with
      | some c =>
          rw [hf] at h
          cases h
          exact ⟨[], r, rfl, fun x hx => absurd hx List.not_mem_nil, hf, hmem, rfl⟩
      | none =>
          rw [hf] at h
          obtain ⟨before, q, hsplit, hpassed, hfound, hq, hend⟩ := ih hmem.tail h
          refine ⟨r :: before, q, congrArg (r :: ·) hsplit, ?_, hfound, hq, ?_⟩
          · intro x hx
            cases hx with
            | head => exact ⟨p, hf⟩
            | tail _ hx => exact hpassed x hx
          · simp only
            rw [hend, encode_cons, List.length_append, Record.length_bytes, Nat.add_assoc]

end Search

end TempHumid.Records
