-- SUMMARY: Cutting a list into a given number of slices of one size, the inverse of concatenating equal blocks, and selecting entries by their indices.
import Mathlib.Data.List.Basic

/-! # Slices of equal size and selections -/

namespace List

variable {α : Type*}

/-- The `n` slices `l[i*v .. i*v+v]`, for `i = 0, …, n-1`. -/
def slices (v n : Nat) (l : List α) : List (List α) :=
  (List.range n).map fun i => (l.drop (i * v)).take v

@[simp] theorem slices_zero {v : Nat} {l : List α} : slices v 0 l = [] := rfl

theorem slices_succ {v n : Nat} {l : List α} :
    slices v (n + 1) l = l.take v :: slices v n (l.drop v) := by
  simp only [slices, List.range_succ_eq_map, List.map_cons, List.map_map, List.drop_drop]
  refine congrArg₂ List.cons (by simp) (List.map_congr_left fun i _ => ?_)
  simp only [Function.comp_apply]
  rw [show (i.succ) * v = v + i * v by rw [Nat.succ_mul]; omega]

@[simp] theorem length_slices {v n : Nat} {l : List α} : (slices v n l).length = n := by simp [slices]

/-- Slices of a list that is long enough are full. -/
theorem length_of_mem_slices {v n : Nat} {l b : List α} (hlen : n * v ≤ l.length)
    (hb : b ∈ slices v n l) : b.length = v := by
  obtain ⟨i, hi, rfl⟩ := List.mem_map.mp hb
  have hle : (i + 1) * v ≤ n * v := Nat.mul_le_mul_right v (List.mem_range.mp hi)
  rw [Nat.succ_mul] at hle
  rw [List.length_take, List.length_drop]
  omega

/-- What the slices leave over is behind them. -/
theorem flatten_slices {v n : Nat} {l : List α} : (slices v n l).flatten = l.take (n * v) := by
  induction n generalizing l with
  | zero => simp
  | succ n ih => rw [slices_succ, List.flatten_cons, ih, ← List.take_add, Nat.succ_mul, Nat.add_comm]

theorem length_flatten_of_uniform {v : Nat} {bs : List (List α)} (h : ∀ b ∈ bs, b.length = v) :
    bs.flatten.length = bs.length * v := by
  induction bs with
  | nil => simp
  | cons b bs ih =>
    have hb : b.length = v := h b (by simp)
    have hbs := ih fun c hc => h c (by simp [hc])
    simp only [List.flatten_cons, List.length_append, List.length_cons, hb, hbs, Nat.succ_mul]
    omega

/-- Slicing undoes the concatenation of blocks of one size. -/
theorem slices_flatten {v : Nat} {bs : List (List α)} (h : ∀ b ∈ bs, b.length = v) :
    slices v bs.length bs.flatten = bs := by
  induction bs with
  | nil => rfl
  | cons b bs ih =>
    have hb : b.length = v := h b (by simp)
    rw [List.length_cons, slices_succ, List.flatten_cons, List.take_left' hb, List.drop_left' hb,
      ih fun c hc => h c (by simp [hc])]

/-- Taking the indices of the entries that satisfy `q` filters the list by `q`. -/
theorem mapM_getElem?_filter_range {l : List α} {p : Nat → Bool} {q : α → Bool}
    (h : ∀ i a, l[i]? = some a → p i = q a) :
    ((List.range l.length).filter p).mapM (fun i => l[i]?) = some (l.filter q) := by
  induction l generalizing p with
  | nil => rfl
  | cons a l ih =>
    have ha : p 0 = q a := h 0 a rfl
    have htl := ih (p := fun i => p (i + 1)) fun i b hb => h (i + 1) b (by simpa using hb)
    have hfilter : (List.range (a :: l).length).filter p =
        (if p 0 then [0] else []) ++ ((List.range l.length).filter fun i => p (i + 1)).map (· + 1) := by
      rw [List.length_cons, List.range_succ_eq_map, List.filter_cons, List.filter_map]
      cases p 0 <;> rfl
    rw [hfilter, List.mapM_append, List.mapM_map]
    have hshift : ((fun i => (a :: l)[i]?) ∘ fun i => i + 1) = fun i => l[i]? := by
      funext i
      simp
    rw [hshift, htl]
    cases hq : q a with
    | true => simp [ha, hq]
    | false => simp [ha, hq]

/-- Where every entry has an image, none is left out. -/
theorem filterMap_eq_of_mapM_eq_some {β : Type*} {f : α → Option β} {l : List α} {l' : List β}
    (h : l.mapM f = some l') : l.filterMap f = l' := by
  induction l generalizing l' with
  | nil => simpa using h
  | cons a l ih =>
    rw [List.mapM_cons] at h
    obtain ⟨b, hb, h⟩ := Option.bind_eq_some_iff.mp h
    obtain ⟨bs, hbs, h⟩ := Option.bind_eq_some_iff.mp h
    rw [List.filterMap_cons_some hb, ih hbs]
    simpa using h

/-- A loop over the indexes of a list. -/
theorem flatMap_range_length {β : Type*} {f : α → List β} {g : Nat → List β} {l : List α}
    (h : ∀ k a, l[k]? = some a → g k = f a) : (List.range l.length).flatMap g = l.flatMap f := by
  induction l generalizing g with
  | nil => rfl
  | cons a l ih =>
    have htail : (List.range l.length).flatMap (g ∘ Nat.succ) = l.flatMap f :=
      ih fun k b hb => h (k + 1) b hb
    rw [List.length_cons, List.range_succ_eq_map, List.flatMap_cons, List.flatMap_map, h 0 a rfl,
      List.flatMap_cons, ← htail]
    rfl

end List
