-- SUMMARY: Crockford's base 32: the digits of a number, and reading them back in either case.
import Mathlib.Data.List.GetD
import Mathlib.Tactic.Ring

/-!
# Crockford's base 32

The encoding of a number in a given number of digits, most significant first.
The decoder ignores the case of a digit.
-/

namespace Crockford

def alphabet : List Char := "0123456789ABCDEFGHJKMNPQRSTVWXYZ".toList

/-- The `n` low digits of a value, the highest first. -/
def digits : Nat → Nat → List Char
  | 0, _ => []
  | n + 1, value => alphabet.getD (value / 32 ^ n % 32) '0' :: digits n value

/-- Continue the reading of a number with the digits that follow. -/
def decode (text : List Char) (value : Nat) : Option Nat :=
  text.foldlM (fun value c =>
    let digit := alphabet.idxOf c.toUpper
    if digit < 32 then some (32 * value + digit) else none) value

theorem length_digits (n value : Nat) : (digits n value).length = n := by
  induction n with
  | zero => rfl
  | succ n ih => exact congrArg (· + 1) ih

theorem digit_mem (d : Nat) : alphabet.getD (d % 32) '0' ∈ alphabet := by
  have hd : d % 32 < alphabet.length := Nat.mod_lt _ (by decide)
  rw [List.getD_eq_getElem _ _ hd]
  exact List.getElem_mem hd

theorem mem_alphabet_of_mem_digits {n value : Nat} {c : Char} (h : c ∈ digits n value) :
    c ∈ alphabet := by
  induction n with
  | zero => cases h
  | succ n ih =>
    rcases List.mem_cons.mp h with rfl | h
    · exact digit_mem _
    · exact ih h

theorem idxOf_digit (d : Nat) : alphabet.idxOf (alphabet.getD (d % 32) '0').toUpper = d % 32 := by
  have hall : ∀ i < 32, alphabet.idxOf (alphabet.getD i '0').toUpper = i := by decide
  exact hall _ (Nat.mod_lt _ (by decide))

theorem decode_digits (n value high : Nat) :
    decode (digits n value) high = some (32 ^ n * high + value % 32 ^ n) := by
  induction n generalizing high with
  | zero => simp [digits, decode, Nat.mod_one]
  | succ n ih =>
    have hdigit : value / 32 ^ n % 32 < 32 := Nat.mod_lt _ (by decide)
    rw [digits, decode, List.foldlM_cons]
    simp only [idxOf_digit, if_pos hdigit, Option.bind_eq_bind, Option.bind_some]
    refine (ih _).trans (congrArg some ?_)
    rw [pow_succ, Nat.mod_mul]
    ring

end Crockford
