-- SUMMARY: Binary search for the end of an initial segment of the natural numbers.
import Mathlib.Order.Basic

/-! # Binary search for the end of an initial segment -/

/-- Search the half-open interval from `low` to `hi` for the first number that fails `p`. -/
def bisect (p : Nat → Bool) : (fuel low hi : Nat) → Nat
  | 0, _, hi => hi
  | fuel + 1, low, hi =>
    if low < hi then
      let mid := (low + hi - 1) / 2
      if p mid then bisect p fuel (mid + 1) hi else bisect p fuel low mid
    else hi

/-- The search ends at `m` if inside the interval `p` says exactly who is below `m`. -/
theorem bisect_eq {p : Nat → Bool} {m fuel low hi : Nat}
    (hp : ∀ k, low ≤ k → k < hi → (p k = true ↔ k < m)) (hlow : low ≤ m) (hhi : m ≤ hi)
    (hfuel : hi - low ≤ fuel) : bisect p fuel low hi = m := by
  induction fuel generalizing low hi with
  | zero =>
    rw [bisect]
    omega
  | succ fuel ih =>
    rw [bisect]
    split
    case isFalse h => omega
    case isTrue h =>
      have hmid : low ≤ (low + hi - 1) / 2 ∧ (low + hi - 1) / 2 < hi := by omega
      have hmem := hp _ hmid.1 hmid.2
      dsimp only
      split
      case isTrue hp' =>
        apply ih
        · intro k hk hk'
          exact hp k (by omega) hk'
        · have := hmem.mp hp'
          omega
        · exact hhi
        · omega
      case isFalse hp' =>
        have hm : m ≤ (low + hi - 1) / 2 := by
          by_contra hlt
          exact hp' (hmem.mpr (by omega))
        apply ih
        · intro k hk hk'
          exact hp k hk (by omega)
        · exact hlow
        · exact hm
        · omega
