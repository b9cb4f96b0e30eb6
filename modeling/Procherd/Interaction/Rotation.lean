-- SUMMARY: Round robin over indices: the first eligible index from a start on, and that no index which stays eligible is passed over for a whole round.
import Mathlib.Data.Nat.ModEq

/-!
# Rotation

A rotation serves one eligible index a turn and starts the next search behind it.
Which indices are eligible may change from turn to turn. How far an index is
ahead of the start decreases with every turn that serves another one.
-/

namespace Rotation

/-- The first of `0 … n - 1`, from `start` on and around, that satisfies `p`. -/
def next (n : Nat) (p : Nat → Bool) (start : Nat) : Option Nat :=
  ((List.range n).map fun offset => (start + offset) % n).find? p

variable {n start i j : Nat} {p : Nat → Bool}

theorem next_eq_some : next n p start = some j ↔
    ∃ offset < n, (start + offset) % n = j ∧ p j ∧ ∀ k < offset, ¬ p ((start + k) % n) := by
  simp only [next, List.find?_map, Option.map_eq_some_iff, List.find?_range_eq_some,
    Function.comp_apply, List.mem_range, Bool.not_eq_true, Bool.not_eq_eq_eq_not, Bool.not_true]
  constructor
  · rintro ⟨offset, ⟨hp, hn, hbefore⟩, rfl⟩
    exact ⟨offset, hn, rfl, hp, hbefore⟩
  · rintro ⟨offset, hn, rfl, hp, hbefore⟩
    exact ⟨offset, ⟨hp, hn, hbefore⟩, rfl⟩

/-- The index found is one of the `n`, and it is eligible. -/
theorem next_spec (h : next n p start = some j) : j < n ∧ p j := by
  obtain ⟨offset, hn, rfl, hp, -⟩ := next_eq_some.mp h
  exact ⟨Nat.mod_lt _ (Nat.zero_lt_of_lt hn), hp⟩

/-! ## Turns -/

/-- Turns one after the other, each by what was eligible and what was served,
    from one start to another. -/
inductive Turns (n : Nat) : Nat → List ((Nat → Bool) × Nat) → Nat → Prop where
  | nil {start : Nat} : Turns n start [] start
  | cons {start stop j : Nat} {p : Nat → Bool} {turns : List ((Nat → Bool) × Nat)} :
      next n p start = some j → Turns n (j + 1) turns stop → Turns n start ((p, j) :: turns) stop

theorem Turns.stop_le {stop : Nat} {turns : List ((Nat → Bool) × Nat)}
    (h : Turns n start turns stop) (hstart : start ≤ n) : stop ≤ n := by
  induction h with
  | nil => exact hstart
  | cons hnext _ ih => exact ih (next_spec hnext).1

/-- Every index is some steps ahead of the start. -/
theorem exists_ahead (h : i < n) (start : Nat) : ∃ ahead < n, (start + ahead) % n = i := by
  have hn : 0 < n := Nat.zero_lt_of_lt h
  refine ⟨(i + (n - start % n)) % n, Nat.mod_lt _ hn, ?_⟩
  have hstart : start % n ≤ n := (Nat.mod_lt _ hn).le
  calc (start + (i + (n - start % n)) % n) % n
      = (start % n + (i + (n - start % n))) % n := by rw [Nat.add_mod_mod, Nat.mod_add_mod]
    _ = (i + n) % n := by rw [show start % n + (i + (n - start % n)) = i + n by omega]
    _ = i := by rw [Nat.add_mod_right, Nat.mod_eq_of_lt h]

/-- A turn that serves another index brings the start closer to an eligible one. -/
theorem closer {ahead : Nat} (h : next n p start = some j) (hahead : ahead < n)
    (hi : (start + ahead) % n = i) (hp : p i) (hne : j ≠ i) :
    ∃ ahead' < ahead, (j + 1 + ahead') % n = i := by
  obtain ⟨offset, -, rfl, -, hbefore⟩ := next_eq_some.mp h
  have hlt : offset < ahead := by
    rcases Nat.lt_trichotomy offset ahead with hlt | rfl | hlt
    · exact hlt
    · exact absurd hi hne
    · exact absurd (hi ▸ hp) (hbefore ahead hlt)
  refine ⟨ahead - offset - 1, by omega, ?_⟩
  rw [Nat.add_assoc, Nat.mod_add_mod, ← hi]
  congr 1
  omega

/-- An index that stays eligible is served within as many turns as it is ahead. -/
theorem Turns.served_ahead {stop ahead : Nat} {turns : List ((Nat → Bool) × Nat)}
    (h : Turns n start turns stop) (hahead : ahead < n) (hi : (start + ahead) % n = i)
    (hp : ∀ turn ∈ turns, turn.1 i) (hlength : ahead < turns.length) :
    i ∈ turns.map Prod.snd := by
  induction h generalizing ahead with
  | nil => exact absurd hlength (Nat.not_lt_zero ahead)
  | @cons start stop j p turns hnext _ ih =>
    have ⟨hhead, hrest⟩ := List.forall_mem_cons.mp hp
    by_cases hne : j = i
    · exact hne ▸ List.mem_cons_self
    obtain ⟨ahead', hlt, hi'⟩ := closer hnext hahead hi hhead hne
    rw [List.length_cons] at hlength
    exact List.mem_cons_of_mem _ (ih (by omega) hi' hrest (by omega))

/-- Of `n` turns in a row, one serves a given index that stays eligible. -/
theorem Turns.served {stop : Nat} {turns : List ((Nat → Bool) × Nat)} (h : Turns n start turns stop)
    (hi : i < n) (hp : ∀ turn ∈ turns, turn.1 i) (hlength : n ≤ turns.length) :
    i ∈ turns.map Prod.snd := by
  obtain ⟨ahead, hahead, hmod⟩ := exists_ahead hi start
  exact h.served_ahead hahead hmod hp (by omega)

end Rotation
