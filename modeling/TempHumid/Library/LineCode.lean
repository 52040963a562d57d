import TempHumid.Library.Machine

/-!
# Bit stuffing and NRZI

A line has two levels. A zero bit changes the level and a one keeps it, and a zero is
stuffed in after every `n` ones in a row, so that the level changes often enough.

## Implementation notes

`run` counts the ones since the last zero, and `prev` is the level before the bits.
The receiver is a machine over the levels, its outputs are the bits that it reads.
-/

namespace TempHumid.LineCode

open Machine

/-- The level of one bit. -/
def level (prev b : Bool) : Bool := prev == b

/-- The levels for a sequence of bits. -/
def levels : Bool → List Bool → List Bool
  | _, [] => []
  | prev, b :: bs => level prev b :: levels (level prev b) bs

/-- The bits that are sent for a sequence of bits. -/
def stuff (n : ℕ) : ℕ → List Bool → List Bool
  | _, [] => []
  | run, b :: bs =>
      if b then
        if run + 1 = n then true :: false :: stuff n 0 bs else true :: stuff n (run + 1) bs
      else false :: stuff n 0 bs

/-- The levels for a sequence of bits with stuffed zeros. -/
def encode (n run : ℕ) (prev : Bool) (bs : List Bool) : List Bool := levels prev (stuff n run bs)

/-- The ones since the last zero, stuffed or not. -/
def runAfter (n : ℕ) : ℕ → List Bool → ℕ
  | run, [] => run
  | run, b :: bs => runAfter n (if b then if run + 1 = n then 0 else run + 1 else 0) bs

/-- The level on the line behind a sequence of bits. -/
def levelAfter (n run : ℕ) (prev : Bool) (bs : List Bool) : Bool :=
  (stuff n run bs).foldl level prev

/-- The levels that are due to a sender with any run, with the stuffed zero that a full
run calls for. -/
def due (n run : ℕ) (prev : Bool) (bs : List Bool) : List Bool :=
  if run = n then (!prev) :: encode n 0 (!prev) bs else encode n run prev bs

/-- What a receiver knows of the line. -/
structure Receiver where
  run : ℕ
  prev : Bool

/-- A level is a bit, or it is a stuffed zero and dropped. -/
def read (n : ℕ) : Step Receiver Bool Bool := fun v l =>
  if v.run = n then (⟨0, l⟩, [])
  else (⟨if level v.prev l then v.run + 1 else 0, l⟩, [level v.prev l])

section Levels

@[simp] theorem level_true (prev : Bool) : level prev true = prev := by cases prev <;> rfl

@[simp] theorem level_false (prev : Bool) : level prev false = !prev := by cases prev <;> rfl

/-- A bit is read back from the level before it and its own. -/
@[simp] theorem level_level (prev b : Bool) : level prev (level prev b) = b := by
  cases prev <;> cases b <;> rfl

@[simp] theorem level_self (prev : Bool) : level prev prev = true := by cases prev <;> rfl

theorem levels_append (prev : Bool) (as bs : List Bool) :
    levels prev (as ++ bs) = levels prev as ++ levels (as.foldl level prev) bs := by
  induction as generalizing prev with
  | nil => rfl
  | cons a as ih => exact congrArg (level prev a :: ·) (ih (level prev a))

end Levels

section Encode

variable {n run : ℕ} {prev : Bool} {bs : List Bool}

@[simp] theorem encode_nil : encode n run prev [] = [] := rfl

@[simp] theorem encode_zero :
    encode n run prev (false :: bs) = (!prev) :: encode n 0 (!prev) bs := by
  rw [encode, stuff, if_neg Bool.false_ne_true, levels, level_false]
  rfl

theorem encode_one (h : run + 1 ≠ n) :
    encode n run prev (true :: bs) = prev :: encode n (run + 1) prev bs := by
  rw [encode, stuff, if_pos rfl, if_neg h, levels, level_true]
  rfl

theorem encode_stuffed (h : run + 1 = n) :
    encode n run prev (true :: bs) = prev :: (!prev) :: encode n 0 (!prev) bs := by
  rw [encode, stuff, if_pos rfl, if_pos h, levels, level_true, levels, level_false]
  rfl

theorem encode_cons (hn : 0 < n) (b : Bool) : encode n run prev (b :: bs) =
    level prev b :: due n (if b then run + 1 else 0) (level prev b) bs := by
  cases b with
  | false =>
      rw [level_false, if_neg Bool.false_ne_true, encode_zero, due, if_neg (Nat.ne_of_lt hn)]
  | true =>
      rw [level_true, if_pos rfl, due]
      split
      case isTrue hfull => exact encode_stuffed hfull
      case isFalse hne => exact encode_one hne

theorem stuff_append (n run : ℕ) (as bs : List Bool) :
    stuff n run (as ++ bs) = stuff n run as ++ stuff n (runAfter n run as) bs := by
  induction as generalizing run with
  | nil => rfl
  | cons a as ih =>
      cases a with
      | false => exact congrArg (false :: ·) (ih 0)
      | true =>
          rw [List.cons_append, stuff, stuff, runAfter, if_pos rfl, if_pos rfl, if_pos rfl]
          split
          · rw [ih]
            rfl
          · rw [ih]
            rfl

/-- A sequence of bits may be sent in two parts. -/
theorem encode_append (n run : ℕ) (prev : Bool) (as bs : List Bool) :
    encode n run prev (as ++ bs) = encode n run prev as ++
      encode n (runAfter n run as) (levelAfter n run prev as) bs := by
  rw [encode, stuff_append, levels_append]
  rfl

/-- No run of ones reaches the length at which a zero is stuffed in. -/
theorem runAfter_lt (hn : 0 < n) (bs : List Bool) : ∀ {run : ℕ}, run < n → runAfter n run bs < n := by
  induction bs with
  | nil => exact fun h => h
  | cons b bs ih =>
      intro run h
      rw [runAfter]
      apply ih
      split
      · split
        · exact hn
        · omega
      · exact hn

end Encode

section Read

variable {n : ℕ} {v : Receiver} {l : Bool}

theorem read_stuffed (h : v.run = n) : read n v l = (⟨0, l⟩, []) := if_pos h

theorem read_bit (h : v.run < n) :
    read n v l = (⟨if level v.prev l then v.run + 1 else 0, l⟩, [level v.prev l]) :=
  if_neg (Nat.ne_of_lt h)

/-- Whatever is sent is received, and the receiver is left with the run and the level
of the sender. -/
theorem read_encode (bs : List Bool) : ∀ (run : ℕ) (prev : Bool), run < n →
    outputs (read n) ⟨run, prev⟩ (encode n run prev bs) = bs ∧
      finish (read n) ⟨run, prev⟩ (encode n run prev bs) =
        ⟨runAfter n run bs, levelAfter n run prev bs⟩ := by
  induction bs with
  | nil => exact fun _ _ _ => ⟨rfl, rfl⟩
  | cons b bs ih =>
      intro run prev hrun
      have hzero : (0 : ℕ) < n := Nat.lt_of_le_of_lt (Nat.zero_le run) hrun
      cases b with
      | false =>
          have hread : read n ⟨run, prev⟩ (!prev) = (⟨0, !prev⟩, [false]) := by
            rw [← level_false, read_bit hrun, level_level, if_neg Bool.false_ne_true]
          obtain ⟨hout, hfinish⟩ := ih 0 (!prev) hzero
          rw [encode_zero, outputs_cons, finish_cons, hread, hout, hfinish]
          refine ⟨rfl, ?_⟩
          rw [runAfter, if_neg Bool.false_ne_true, levelAfter, levelAfter, stuff,
            if_neg Bool.false_ne_true, List.foldl_cons, level_false]
      | true =>
          have hread : read n ⟨run, prev⟩ prev = (⟨run + 1, prev⟩, [true]) := by
            rw [read_bit hrun, level_self, if_pos rfl]
          by_cases hfull : run + 1 = n
          · obtain ⟨hout, hfinish⟩ := ih 0 (!prev) hzero
            rw [encode_stuffed hfull, outputs_cons, finish_cons, outputs_cons, finish_cons, hread,
              read_stuffed hfull, hout, hfinish]
            refine ⟨rfl, ?_⟩
            rw [runAfter, if_pos rfl, if_pos hfull, levelAfter, levelAfter, stuff, if_pos rfl,
              if_pos hfull, List.foldl_cons, level_true, List.foldl_cons, level_false]
          · obtain ⟨hout, hfinish⟩ := ih (run + 1) prev (by omega)
            rw [encode_one hfull, outputs_cons, finish_cons, hread, hout, hfinish]
            refine ⟨rfl, ?_⟩
            rw [runAfter, if_pos rfl, if_neg hfull, levelAfter, levelAfter, stuff, if_pos rfl,
              if_neg hfull, List.foldl_cons, level_true]

/-- A zero bit makes good for a receiver that has counted the ones before it wrong. -/
theorem read_encode_zero (run run' m : ℕ) (prev : Bool) (bs : List Bool) (hrun : run + m < n)
    (hrun' : run' + m < n) :
    outputs (read n) ⟨run', prev⟩ (encode n run prev (List.replicate m true ++ false :: bs)) =
        List.replicate m true ++ false :: bs ∧
      finish (read n) ⟨run', prev⟩ (encode n run prev (List.replicate m true ++ false :: bs)) =
        ⟨runAfter n 0 bs, levelAfter n 0 (!prev) bs⟩ := by
  induction m generalizing run run' with
  | zero =>
      have hread : read n ⟨run', prev⟩ (!prev) = (⟨0, !prev⟩, [false]) := by
        rw [← level_false, read_bit hrun', level_level, if_neg Bool.false_ne_true]
      have hzero : 0 < n := Nat.lt_of_le_of_lt (Nat.zero_le _) hrun
      obtain ⟨hout, hfinish⟩ := read_encode bs 0 (!prev) hzero
      rw [List.replicate_zero, List.nil_append, encode_zero, outputs_cons, finish_cons, hread, hout,
        hfinish]
      exact ⟨rfl, rfl⟩
  | succ m ih =>
      have hread : read n ⟨run', prev⟩ prev = (⟨run' + 1, prev⟩, [true]) := by
        have hlt : run' < n := by omega
        rw [read_bit hlt, level_self, if_pos rfl]
      obtain ⟨hout, hfinish⟩ := ih (run + 1) (run' + 1) (by omega) (by omega)
      rw [List.replicate_succ, List.cons_append, encode_one (by omega), outputs_cons, finish_cons,
        hread, hout, hfinish]
      exact ⟨rfl, rfl⟩

end Read

end TempHumid.LineCode
