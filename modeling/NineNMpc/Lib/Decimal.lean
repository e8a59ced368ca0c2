-- SUMMARY: Numerals in a radix and their padding on the right with zeros: values, lengths, and which numbers have the same padded numeral.
import Mathlib.Data.Nat.Digits.Defs

/-!
# Numerals padded on the right

`Nat.toDigits` writes a number with its leading digit first. Zeros behind it multiply it by
powers of the radix, so a padded numeral does not tell a number from its multiples by these.
-/

namespace Nat

variable {b i j k m n w : Nat}

theorem toDigits_mul_pow (hb : 1 < b) (hn : 0 < n) :
    toDigits b (n * b ^ k) = toDigits b n ++ List.replicate k '0' := by
  induction k with
  | zero => simp
  | succ k ih =>
    have hpos : 0 < n * b ^ k := Nat.mul_pos hn (Nat.pow_pos (by omega))
    have hshift : n * b ^ (k + 1) = b * (n * b ^ k) + 0 := by
      rw [Nat.pow_succ, ← Nat.mul_assoc, Nat.mul_comm, Nat.add_zero]
    rw [hshift, ← toDigits_append_toDigits hb hpos (by omega), ih, toDigits_zero, List.append_assoc,
      ← List.replicate_succ']

/-- The numeral has a character for each digit, and `0` has one although it has no digits. -/
theorem length_toDigits (hb : 1 < b) (hn : 0 < n) : (toDigits b n).length = (digits b n).length := by
  induction n using Nat.strongRecOn with
  | _ n ih =>
    rw [toDigits_eq_if hb, digits_def' hb hn]
    split
    · next hlt => simp [Nat.div_eq_of_lt hlt]
    · next hle =>
      have hdiv := ih (n / b) (Nat.div_lt_self hn hb) (Nat.div_pos (by omega) (by omega))
      simp [hdiv]

/-! ## Padding -/

/-- The value of a padded numeral. -/
theorem ofDigitChars_toDigits_append (hb : 1 < b) (hb' : b ≤ 10) :
    ofDigitChars b (toDigits b n ++ List.replicate k '0') 0 = n * b ^ k := by
  rw [ofDigitChars_append, ofDigitChars_toDigits hb hb', ofDigitChars_replicate_zero, Nat.mul_comm]

theorem eq_mul_pow_of_mul_pow_eq (hb : 0 < b) (h : n * b ^ i = m * b ^ j) :
    ∃ k, m = n * b ^ k ∨ n = m * b ^ k := by
  rcases Nat.le_total j i with hle | hle
  · refine ⟨i - j, .inl (Nat.eq_of_mul_eq_mul_right (Nat.pow_pos hb : 0 < b ^ j) ?_)⟩
    rw [Nat.mul_assoc, ← Nat.pow_add, Nat.sub_add_cancel hle, h]
  · refine ⟨j - i, .inr (Nat.eq_of_mul_eq_mul_right (Nat.pow_pos hb : 0 < b ^ i) ?_)⟩
    rw [Nat.mul_assoc, ← Nat.pow_add, Nat.sub_add_cancel hle, h]

/-- A padded numeral gives its number up to powers of the radix. -/
theorem eq_mul_pow_of_append_eq (hb : 1 < b) (hb' : b ≤ 10)
    (h : toDigits b n ++ List.replicate i '0' = toDigits b m ++ List.replicate j '0') :
    ∃ k, m = n * b ^ k ∨ n = m * b ^ k := by
  refine eq_mul_pow_of_mul_pow_eq (i := i) (j := j) (by omega) ?_
  rw [← ofDigitChars_toDigits_append hb hb', h, ofDigitChars_toDigits_append hb hb']

/-- The powers are indeed lost, as long as the width is enough. -/
theorem rightpad_toDigits_mul_pow (hb : 1 < b) (hn : 0 < n)
    (hw : (toDigits b (n * b ^ k)).length ≤ w) :
    (toDigits b (n * b ^ k)).rightpad w '0' = (toDigits b n).rightpad w '0' := by
  rw [toDigits_mul_pow hb hn] at hw ⊢
  simp only [List.length_append, List.length_replicate] at hw
  simp only [List.rightpad, List.length_append, List.length_replicate, List.append_assoc,
    List.replicate_append_replicate]
  congr 2
  omega

end Nat
