import Mathlib.Data.List.Basic
import Mathlib.Algebra.Order.Ring.Nat

/-!
# Transfers in packets

A transfer is cut into packets of one size. Only its last packet may be shorter,
and a shorter packet, possibly an empty one, ends a transfer for a receiver that
does not know its length.

## Implementation notes

The size of a packet is positive where it matters. `cut` with size zero cuts as
with size one.
-/

namespace TempHumid.Packets

variable {α : Type*}

/-- The packets of a transfer. There is none for an empty one. -/
def cut (n : ℕ) : List α → List (List α)
  | [] => []
  | x :: xs => (x :: xs.take (n - 1)) :: cut n (xs.drop (n - 1))
termination_by xs => xs.length
decreasing_by
  rw [List.length_drop, List.length_cons]
  omega

/-- What a receiver takes: packets up to the first one that is shorter than `n`, or up
to `limit` bytes. `none` is a receiver that still waits. -/
def fill (n limit : ℕ) : List α → List (List α) → Option (List α × List (List α))
  | _, [] => none
  | acc, p :: ps =>
      if p.length < n ∨ limit ≤ (acc ++ p).length then some (acc ++ p, ps)
      else fill n limit (acc ++ p) ps

/-- A receiver that knows no length. -/
def receive (n : ℕ) : List α → List (List α) → Option (List α × List (List α))
  | _, [] => none
  | acc, p :: ps => if p.length < n then some (acc ++ p, ps) else receive n (acc ++ p) ps

section Cut

@[simp] theorem cut_nil (n : ℕ) : cut n ([] : List α) = [] := by rw [cut]

theorem cut_cons (n : ℕ) (x : α) (xs : List α) :
    cut n (x :: xs) = (x :: xs.take (n - 1)) :: cut n (xs.drop (n - 1)) := by rw [cut]

/-- A nonempty transfer begins with a packet. -/
theorem cut_of_ne_nil {n : ℕ} (hn : 0 < n) {xs : List α} (h : xs ≠ []) :
    cut n xs = xs.take n :: cut n (xs.drop n) := by
  obtain ⟨n, rfl⟩ := Nat.exists_eq_succ_of_ne_zero (Nat.ne_of_gt hn)
  cases xs with
  | nil => exact absurd rfl h
  | cons x xs => rw [cut_cons, List.take_succ_cons, List.drop_succ_cons]; rfl

theorem cut_of_length_le {n : ℕ} (hn : 0 < n) {xs : List α} (h : xs ≠ []) (hle : xs.length ≤ n) :
    cut n xs = [xs] := by
  rw [cut_of_ne_nil hn h, List.take_of_length_le hle, List.drop_of_length_le hle, cut_nil]

/-- A transfer may be handed on in blocks of whole packets. -/
theorem cut_append {n : ℕ} (hn : 0 < n) (k : ℕ) : ∀ {xs : List α} (ys : List α),
    xs.length = n * k → cut n (xs ++ ys) = cut n xs ++ cut n ys := by
  induction k with
  | zero =>
      intro xs ys hlen
      rw [List.eq_nil_of_length_eq_zero hlen, List.nil_append, cut_nil, List.nil_append]
  | succ k ih =>
      intro xs ys hlen
      have hle : n ≤ xs.length := by
        rw [hlen]
        exact Nat.le_mul_of_pos_right n (Nat.succ_pos k)
      have hne : xs ≠ [] := List.ne_nil_of_length_pos (Nat.lt_of_lt_of_le hn hle)
      have hrest : (xs.drop n).length = n * k := by
        rw [List.length_drop, hlen, Nat.mul_succ, Nat.add_sub_cancel]
      rw [cut_of_ne_nil hn hne, cut_of_ne_nil hn (List.append_ne_nil_of_left_ne_nil hne ys),
        List.take_append_of_le_length hle, List.drop_append_of_le_length hle, ih ys hrest,
        List.cons_append]

end Cut

section Receive

variable {n : ℕ}

/-- A full packet is kept, and the receiver goes on. -/
theorem receive_of_full {acc p : List α} (ps : List (List α)) (h : p.length = n) :
    receive n acc (p :: ps) = receive n (acc ++ p) ps := by
  rw [receive, if_neg (Nat.not_lt_of_le (Nat.le_of_eq h.symm))]

/-- With an empty packet behind a transfer of whole packets, a receiver finds the end
of every transfer by itself, and loses nothing of the next one. -/
theorem receive_cut (hn : 0 < n) (xs : List α) (acc : List α) (ps : List (List α)) :
    receive n acc (cut n xs ++ (if n ∣ xs.length then [[]] else []) ++ ps) =
      some (acc ++ xs, ps) := by
  induction hlen : xs.length using Nat.strong_induction_on generalizing xs acc with
  | _ m ih =>
      subst hlen
      by_cases h : xs = []
      · subst h
        rw [cut_nil, List.length_nil, if_pos (Nat.dvd_zero n), List.nil_append,
          List.singleton_append, receive, if_pos (by rwa [List.length_nil])]
      · by_cases hlt : xs.length < n
        · have hnot : ¬n ∣ xs.length :=
            Nat.not_dvd_of_pos_of_lt (List.length_pos_iff.mpr h) hlt
          rw [cut_of_length_le hn h hlt.le, if_neg hnot, List.append_nil, List.singleton_append,
            receive, if_pos hlt]
        · have hge := Nat.le_of_not_lt hlt
          have htake : (xs.take n).length = n := by
            rw [List.length_take, Nat.min_eq_left hge]
          have hdvd : n ∣ xs.length ↔ n ∣ (xs.drop n).length := by
            rw [List.length_drop]
            constructor
            · exact fun h => Nat.dvd_sub h (Nat.dvd_refl n)
            · intro h
              rw [← Nat.sub_add_cancel hge]
              exact Nat.dvd_add h (Nat.dvd_refl n)
          have hless : (xs.drop n).length < xs.length := by
            rw [List.length_drop]
            omega
          rw [cut_of_ne_nil hn h, List.cons_append, List.cons_append, receive_of_full _ htake]
          simp only [hdvd]
          rw [ih _ hless _ _ rfl, List.append_assoc, List.take_append_drop]

/-- A receiver of one transfer after another. -/
def receiveEach (n : ℕ) : ℕ → List (List α) → Option (List (List α) × List (List α))
  | 0, ps => some ([], ps)
  | k + 1, ps =>
      (receive n [] ps).bind fun r =>
        (receiveEach n k r.2).map fun rs => (r.1 :: rs.1, rs.2)

/-- Transfers that are sent one after another are told apart. -/
theorem receiveEach_cut (hn : 0 < n) (xss : List (List α)) (ps : List (List α)) :
    receiveEach n xss.length
        (xss.flatMap (fun xs => cut n xs ++ if n ∣ xs.length then [[]] else []) ++ ps) =
      some (xss, ps) := by
  induction xss with
  | nil => rfl
  | cons xs xss ih =>
      rw [List.length_cons, receiveEach, List.flatMap_cons, List.append_assoc,
        receive_cut hn, Option.bind_some, ih, Option.map_some, List.nil_append]

end Receive

section Fill

variable {n : ℕ}

/-- What a receiver has already does not matter for what it takes. -/
theorem fill_append (limit : ℕ) (a acc : List α) (ps : List (List α)) :
    fill n (a.length + limit) (a ++ acc) ps =
      (fill n limit acc ps).map fun r => (a ++ r.1, r.2) := by
  induction ps generalizing acc with
  | nil => rfl
  | cons p ps ih =>
      have hlen : a.length + limit ≤ (a ++ acc ++ p).length ↔ limit ≤ (acc ++ p).length := by
        simp only [List.length_append]
        omega
      rw [fill, fill]
      simp only [hlen]
      split
      · rw [Option.map_some, List.append_assoc]
      · rw [List.append_assoc, ih]

/-- A receiver leaves the packets behind the one at which it stops. -/
theorem suffix_of_fill {limit : ℕ} {acc : List α} {ps : List (List α)}
    {r : List α × List (List α)} (h : fill n limit acc ps = some r) : r.2 <:+ ps := by
  induction ps generalizing acc with
  | nil => cases h
  | cons p ps ih =>
      rw [fill] at h
      split at h
      · cases h
        exact List.suffix_cons p ps
      · exact (ih h).trans (List.suffix_cons p ps)

/-- A limit of whole packets is not exceeded. -/
theorem length_fill_le {limit k : ℕ} (hlimit : limit = n * k) {acc : List α}
    {ps : List (List α)} (hle : ∀ p ∈ ps, p.length ≤ n) (hacc : ∃ j, acc.length = n * j)
    (hless : acc.length < limit) {r : List α × List (List α)} (h : fill n limit acc ps = some r) :
    r.1.length ≤ limit := by
  induction ps generalizing acc with
  | nil => cases h
  | cons p ps ih =>
      have hp := hle p List.mem_cons_self
      obtain ⟨j, hj⟩ := hacc
      have hinside : (acc ++ p).length ≤ limit := by
        have hjk : j < k := by
          apply Nat.lt_of_mul_lt_mul_left
          rw [← hj, ← hlimit]
          exact hless
        have hstep := Nat.mul_le_mul_left n hjk
        rw [Nat.mul_succ] at hstep
        rw [List.length_append, hj, hlimit]
        omega
      rw [fill] at h
      split at h
      · cases h
        exact hinside
      · next hmore =>
          have hfull : p.length = n := by omega
          apply ih (fun q hq => hle q (List.mem_cons_of_mem _ hq)) ?_ ?_ h
          · exact ⟨j + 1, by rw [List.length_append, hj, hfull, Nat.mul_succ]⟩
          · omega

/-- A receiver of a long transfer may take it in two blocks, the first one of whole
packets. -/
theorem fill_split {first limit k : ℕ} (hfirst : first = n * k) (hlimit : first ≤ limit)
    (acc : List α) (ps : List (List α)) (hle : ∀ p ∈ ps, p.length ≤ n)
    (hacc : ∃ j, acc.length = n * j) (hless : acc.length < first) :
    fill n limit acc ps =
      (fill n first acc ps).bind fun r =>
        if first ≤ r.1.length ∧ r.1.length < limit then fill n limit r.1 r.2 else some r := by
  induction ps generalizing acc with
  | nil => rfl
  | cons p ps ih =>
      have hp := hle p List.mem_cons_self
      rw [fill, fill]
      by_cases hshort : p.length < n
      · obtain ⟨j, hj⟩ := hacc
        have hinside : (acc ++ p).length < first := by
          have hjk : j < k := by
            apply Nat.lt_of_mul_lt_mul_left
            rw [← hj, ← hfirst]
            exact hless
          have hstep : n * j + n ≤ n * k := by
            rw [← Nat.mul_succ]
            exact Nat.mul_le_mul_left n hjk
          rw [List.length_append, hj, hfirst]
          omega
        rw [if_pos (.inl hshort), if_pos (.inl hshort), Option.bind_some,
          if_neg fun h => Nat.not_le_of_lt hinside h.1]
      · have hfull : p.length = n := Nat.le_antisymm hp (Nat.le_of_not_lt hshort)
        by_cases hend : first ≤ (acc ++ p).length
        · have hblock : p.length < n ∨ first ≤ (acc ++ p).length := .inr hend
          rw [if_pos hblock, Option.bind_some]
          by_cases hall : limit ≤ (acc ++ p).length
          · rw [if_pos (.inr hall), if_neg fun h => Nat.not_lt_of_le hall h.2]
          · rw [if_neg fun h => h.elim hshort hall, if_pos ⟨hend, Nat.lt_of_not_le hall⟩]
        · have hmore : ¬limit ≤ (acc ++ p).length := fun h => hend (hlimit.trans h)
          rw [if_neg fun h => h.elim hshort hmore, if_neg fun h => h.elim hshort hend]
          apply ih _ (fun q hq => hle q (List.mem_cons_of_mem _ hq))
          · obtain ⟨j, hj⟩ := hacc
            exact ⟨j + 1, by rw [List.length_append, hj, hfull, Nat.mul_succ]⟩
          · exact Nat.lt_of_not_le hend

end Fill

end TempHumid.Packets
