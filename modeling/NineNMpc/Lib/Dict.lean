-- SUMMARY: Dictionaries in insertion order: setting a key, and what a list of settings leaves.
import Mathlib.Data.List.Nodup

/-! # Dictionaries -/

structure Dict (κ α : Type) where
  entries : List (κ × α) := []
  nodup : (entries.map (·.1)).Nodup := by simp

namespace Dict

variable {κ α : Type} {d : Dict κ α} {k k' : κ} {a : α} {l : List (κ × α)}

def keys (d : Dict κ α) : List κ := d.entries.map (·.1)

theorem map_fst_update [DecidableEq κ] :
    (l.map fun e => if e.1 = k then (k, a) else e).map (·.1) = l.map (·.1) := by
  rw [List.map_map]
  refine List.map_congr_left fun e _ => ?_
  simp only [Function.comp_apply]
  split
  · next h => exact h.symm
  · rfl

variable [DecidableEq κ]

def get? (d : Dict κ α) (k : κ) : Option α := (d.entries.find? (·.1 = k)).map (·.2)

/-- An entry that exists keeps its place. -/
def set (d : Dict κ α) (k : κ) (a : α) : Dict κ α :=
  if h : k ∈ d.keys then
    { entries := d.entries.map fun e => if e.1 = k then (k, a) else e
      nodup := by
        rw [map_fst_update]
        exact d.nodup }
  else
    { entries := d.entries ++ [(k, a)]
      nodup := by
        rw [List.map_append]
        exact d.nodup.append (by simp) (by simpa [keys] using h) }

theorem get?_isSome : (d.get? k).isSome = true ↔ k ∈ d.keys := by
  simp [get?, keys]

theorem find?_update (h : k ∈ l.map (·.1)) :
    (l.map fun e => if e.1 = k then (k, a) else e).find? (·.1 = k) = some (k, a) := by
  induction l with
  | nil => simp at h
  | cons e l ih =>
    rw [List.map_cons]
    by_cases he : e.1 = k
    · simp [he]
    · rw [if_neg he, List.find?_cons_of_neg (by simpa using he)]
      exact ih ((List.mem_cons.mp h).resolve_left (Ne.symm he))

theorem find?_update_ne (hne : k' ≠ k) :
    (l.map fun e => if e.1 = k then (k, a) else e).find? (·.1 = k') = l.find? (·.1 = k') := by
  induction l with
  | nil => rfl
  | cons e l ih =>
    rw [List.map_cons, List.find?_cons, List.find?_cons, ih]
    by_cases he : e.1 = k
    · have hk : ¬ k = k' := Ne.symm hne
      simp [he, hk]
    · rw [if_neg he]

theorem get?_set : (d.set k a).get? k' = if k' = k then some a else d.get? k' := by
  unfold set
  split
  · next h =>
    by_cases hk : k' = k
    · subst hk
      rw [if_pos rfl, get?, find?_update h]
      rfl
    · rw [if_neg hk, get?, find?_update_ne hk]
      rfl
  · next h =>
    rw [get?, List.find?_append]
    by_cases hk : k' = k
    · subst hk
      have hnone : d.entries.find? (·.1 = k') = none := by
        rw [List.find?_eq_none]
        exact fun e he heq => h (List.mem_map.mpr ⟨e, he, by simpa using heq⟩)
      simp [hnone]
    · have hk' : ¬ k = k' := Ne.symm hk
      simp [get?, hk, hk']

/-! ## Many settings -/

def setAll (d : Dict κ α) (l : List (κ × α)) : Dict κ α := l.foldl (fun d e => d.set e.1 e.2) d

@[simp] theorem setAll_nil : d.setAll [] = d := rfl

@[simp] theorem setAll_cons {e : κ × α} : d.setAll (e :: l) = (d.set e.1 e.2).setAll l := rfl

theorem setAll_append {l' : List (κ × α)} : d.setAll (l ++ l') = (d.setAll l).setAll l' :=
  List.foldl_append

/-- The last setting of a key wins. -/
theorem get?_setAll :
    (d.setAll l).get? k = ((l.filter (·.1 = k)).getLast?.map (·.2)).or (d.get? k) := by
  induction l generalizing d with
  | nil => rfl
  | cons e l ih =>
    rw [setAll_cons, ih, get?_set]
    by_cases he : e.1 = k
    · rw [List.filter_cons_of_pos (by simpa using he), if_pos he.symm, List.getLast?_cons]
      cases (l.filter (·.1 = k)).getLast? <;> rfl
    · rw [List.filter_cons_of_neg (by simpa using he), if_neg (Ne.symm he)]

theorem keys_set :
    (d.set k a).keys = if k ∈ d.keys then d.keys else d.keys ++ [k] := by
  by_cases h : k ∈ d.keys
  · rw [if_pos h, set, dif_pos h]
    exact map_fst_update
  · rw [if_neg h, set, dif_neg h, keys, List.map_append]
    rfl

/-- New keys come in the order of their first settings. -/
theorem keys_setAll [BEq κ] [LawfulBEq κ] :
    (d.setAll l).keys = d.keys ++ ((l.map (·.1)).removeAll d.keys).eraseDups := by
  induction l generalizing d with
  | nil => simp
  | cons e l ih =>
    rw [setAll_cons, ih, keys_set, List.map_cons, List.cons_removeAll]
    split
    · next h => simp [h]
    · next h =>
      have hremove : (l.map (·.1)).removeAll (d.keys ++ [e.1]) =
          ((l.map (·.1)).removeAll d.keys).filter fun k => !k == e.1 := by
        simp only [List.removeAll, List.filter_filter]
        refine List.filter_congr fun k _ => ?_
        simp [Bool.and_comm, beq_eq_decide]
      rw [hremove, List.append_assoc]
      simp [h, List.eraseDups_cons]

end Dict

theorem List.eraseDups_map {α β : Type*} [BEq α] [LawfulBEq α] [BEq β] [LawfulBEq β] {f : α → β}
    (hf : Function.Injective f) (l : List α) : (l.map f).eraseDups = l.eraseDups.map f := by
  induction hn : l.length using Nat.strongRecOn generalizing l with
  | ind n ih =>
    cases l with
    | nil => rfl
    | cons a l =>
      have hlt : (l.filter fun b => !b == a).length < n := by
        rw [← hn, List.length_cons]
        exact Nat.lt_succ_of_le (List.length_filter_le ..)
      have hcomp : (fun b => !b == f a) ∘ f = fun b => !b == a := by
        funext b
        simp [hf.eq_iff]
      rw [List.map_cons, List.eraseDups_cons, List.eraseDups_cons, List.filter_map, hcomp,
        ih _ hlt _ rfl, List.map_cons]
