-- SUMMARY: Lists cut into buckets by an index, the rows of one list whose key the other has, and their computation bucket by bucket.
import Mathlib.Data.List.Perm.Basic
import Mathlib.Data.List.Nodup
import Mathlib.Data.Nat.ModEq

/-! # Buckets -/

/-- Two moduli give one bucket exactly to the numbers whose remainder modulo their least common
    multiple is below both. -/
theorem Nat.mod_eq_mod_iff_mod_lcm_lt {d n m : Nat} (hn : 0 < n) (hm : 0 < m) :
    d % n = d % m ↔ d % Nat.lcm n m < min n m := by
  constructor
  · intro h
    have hlt : d % n < min n m := lt_min (Nat.mod_lt d hn) (h ▸ Nat.mod_lt d hm)
    have hleft : d ≡ d % n [MOD n] := (Nat.mod_modEq d n).symm
    have hright : d ≡ d % n [MOD m] := by
      rw [h]
      exact (Nat.mod_modEq d m).symm
    have hlcm : d ≡ d % n [MOD Nat.lcm n m] := Nat.mod_lcm hleft hright
    have hle : n ≤ Nat.lcm n m := Nat.le_of_dvd (Nat.lcm_pos hn hm) (Nat.dvd_lcm_left n m)
    rw [hlcm, Nat.mod_eq_of_lt (lt_of_lt_of_le (Nat.mod_lt d hn) hle)]
    exact hlt
  · intro h
    have hleft : d % n = d % Nat.lcm n m := by
      rw [← Nat.mod_mod_of_dvd d (Nat.dvd_lcm_left n m),
        Nat.mod_eq_of_lt (lt_of_lt_of_le h (min_le_left n m))]
    have hright : d % m = d % Nat.lcm n m := by
      rw [← Nat.mod_mod_of_dvd d (Nat.dvd_lcm_right n m),
        Nat.mod_eq_of_lt (lt_of_lt_of_le h (min_le_right n m))]
    rw [hleft, hright]

namespace List

variable {α β κ : Type*}

/-! ## Bucketing -/

/-- `bs` are `n` buckets of `l`: the `i`-th has the entries of index `i`, in any order. -/
structure Bucketing (index : α → Nat) (n : Nat) (l : List α) (bs : List (List α)) : Prop where
  length : bs.length = n
  perm : ∀ i < n, (bs.getD i []).Perm (l.filter fun a => index a = i)

theorem flatMap_filter_perm {index : α → Nat} {l : List α} (n : Nat) :
    ((List.range n).flatMap fun i => l.filter fun a => index a = i).Perm
      (l.filter fun a => index a < n) := by
  induction n with
  | zero => simp
  | succ n ih =>
    rw [List.range_succ, List.flatMap_append, List.flatMap_singleton]
    have hsplit := List.filter_append_perm (fun a => decide (index a < n))
      (l.filter fun a => index a < n + 1)
    rw [List.filter_filter, List.filter_filter] at hsplit
    have hlow : (l.filter fun a => decide (index a < n) && decide (index a < n + 1)) =
        l.filter fun a => index a < n := by
      refine List.filter_congr fun a _ => ?_
      by_cases h : index a < n
      · simp [h, Nat.lt_succ_of_lt h]
      · simp [h]
    have hhigh : (l.filter fun a => !decide (index a < n) && decide (index a < n + 1)) =
        l.filter fun a => index a = n := by
      refine List.filter_congr fun a _ => ?_
      by_cases h : index a = n
      · simp [h]
      · have : index a < n + 1 ↔ index a < n := by omega
        simp [h, this]
    rw [hlow, hhigh] at hsplit
    exact (ih.append_right _).trans hsplit

theorem flatten_eq_flatMap_getD {bs : List (List α)} {n : Nat} (h : bs.length = n) :
    bs.flatten = (List.range n).flatMap fun i => bs.getD i [] := by
  rw [List.flatMap_def]
  congr 1
  refine List.ext_getElem (by simp [h]) fun i hi _ => ?_
  simp [hi]

namespace Bucketing

variable {index : α → Nat} {index' : β → Nat} {n : Nat} {l : List α} {l' : List β}
  {bs : List (List α)} {bs' : List (List β)}

/-- Every entry is in exactly one bucket. -/
theorem flatten_perm (h : Bucketing index n l bs) (hlt : ∀ a ∈ l, index a < n) :
    bs.flatten.Perm l := by
  rw [flatten_eq_flatMap_getD h.length]
  have hbuckets := List.Perm.flatMap_left (List.range n) fun i hi => h.perm i (List.mem_range.mp hi)
  have hall : (l.filter fun a => index a < n) = l :=
    List.filter_eq_self.mpr fun a ha => by simpa using hlt a ha
  exact hall ▸ hbuckets.trans (flatMap_filter_perm n)

theorem index_eq (h : Bucketing index n l bs) {i : Nat} {a : α} (hi : i < n)
    (ha : a ∈ bs.getD i []) : a ∈ l ∧ index a = i := by
  simpa using (h.perm i hi).mem_iff.mp ha

theorem congr {index₂ : α → Nat} (h : Bucketing index n l bs)
    (heq : ∀ a ∈ l, index a = index₂ a) : Bucketing index₂ n l bs := by
  refine ⟨h.length, fun i hi => (h.perm i hi).trans (List.Perm.of_eq ?_)⟩
  exact List.filter_congr fun a ha => by rw [heq a ha]

theorem mem_bucket (h : Bucketing index n l bs) {a : α} (hlt : index a < n) (ha : a ∈ l) :
    a ∈ bs.getD (index a) [] := by
  rw [(h.perm (index a) hlt).mem_iff]
  simpa using ha

theorem lt_of_mem (h : Bucketing index n l bs) {i : Nat} {a : α} (ha : a ∈ bs.getD i []) :
    i < n := by
  by_contra hge
  have hnone : bs[i]? = none := List.getElem?_eq_none (by rw [h.length]; omega)
  rw [List.getD_eq_getElem?_getD, hnone] at ha
  cases ha

end Bucketing

/-- Blocks that repeat no entry have each of their entries in exactly one of them. -/
theorem existsUnique_of_nodup_flatMap {l : List α} {g : α → List β} {b : β}
    (h : (l.flatMap g).Nodup) (hb : b ∈ l.flatMap g) :
    ∃! i : Nat, ∃ a, l[i]? = some a ∧ b ∈ g a := by
  obtain ⟨a, ha, hba⟩ := List.mem_flatMap.mp hb
  obtain ⟨i, hi, rfl⟩ := List.getElem_of_mem ha
  refine ⟨i, ⟨l[i], List.getElem?_eq_getElem hi, hba⟩, ?_⟩
  rintro j ⟨c, hc, hbc⟩
  obtain ⟨hj, rfl⟩ := List.getElem?_eq_some_iff.mp hc
  have hdisjoint := List.pairwise_iff_getElem.mp (List.nodup_flatMap.mp h).2
  obtain hlt | heq | hgt := Nat.lt_trichotomy i j
  · exact absurd hbc (hdisjoint i j hi hj hlt hba)
  · exact heq.symm
  · exact absurd hba (hdisjoint j i hj hi hgt hbc)

/-! ## Rows with a key of the other side -/

/-- The entries of `l` whose key some entry of `l'` has. -/
def semijoin [DecidableEq κ] (key : α → κ) (key' : β → κ) (l : List α) (l' : List β) : List α :=
  l.filter fun a => key a ∈ l'.map key'

variable [DecidableEq κ] {key : α → κ} {key' : β → κ}

theorem Perm.semijoin {l₁ l₂ : List α} {l₁' l₂' : List β} (h : l₁.Perm l₂) (h' : l₁'.Perm l₂') :
    (semijoin key key' l₁ l₁').Perm (semijoin key key' l₂ l₂') := by
  unfold List.semijoin
  have hkeys : (fun a => decide (key a ∈ l₁'.map key')) = fun a => decide (key a ∈ l₂'.map key') := by
    funext a
    simp only [(h'.map key').mem_iff]
  rw [hkeys]
  exact h.filter _

/-- When equal keys have equal indices, the join of two buckets is the bucket of the join. -/
theorem Bucketing.semijoin_bucket {index : α → Nat} {index' : β → Nat} {n : Nat} {l : List α}
    {l' : List β} {bs : List (List α)} {bs' : List (List β)} (h : Bucketing index n l bs)
    (h' : Bucketing index' n l' bs') (hkey : ∀ a ∈ l, ∀ b ∈ l', key a = key' b → index a = index' b)
    {i : Nat} (hi : i < n) : (semijoin key key' (bs.getD i []) (bs'.getD i [])).Perm
      ((semijoin key key' l l').filter fun a => index a = i) := by
  refine ((h.perm i hi).semijoin (h'.perm i hi)).trans (List.Perm.of_eq ?_)
  unfold List.semijoin
  rw [List.filter_filter, List.filter_filter]
  refine List.filter_congr fun a ha => ?_
  by_cases hai : index a = i
  · have hmem : key a ∈ (l'.filter fun b => index' b = i).map key' ↔ key a ∈ l'.map key' := by
      simp only [List.mem_map, List.mem_filter, decide_eq_true_eq]
      constructor
      · rintro ⟨b, ⟨hb, -⟩, hkb⟩
        exact ⟨b, hb, hkb⟩
      · rintro ⟨b, hb, hkb⟩
        exact ⟨b, ⟨hb, (hkey a ha b hb hkb.symm).symm.trans hai⟩, hkb⟩
    simp [hai, hmem]
  · simp [hai]

/-- When equal keys have equal indices, the buckets can be joined one by one. -/
theorem Bucketing.semijoin_perm {index : α → Nat} {index' : β → Nat} {n : Nat} {l : List α}
    {l' : List β} {bs : List (List α)} {bs' : List (List β)} (h : Bucketing index n l bs)
    (h' : Bucketing index' n l' bs') (hlt : ∀ a ∈ l, index a < n)
    (hkey : ∀ a ∈ l, ∀ b ∈ l', key a = key' b → index a = index' b) :
    (List.zipWith (semijoin key key') bs bs').flatten.Perm (semijoin key key' l l') := by
  have hzip : (List.zipWith (semijoin key key') bs bs').flatten =
      (List.range n).flatMap fun i => semijoin key key' (bs.getD i []) (bs'.getD i []) := by
    rw [List.flatMap_def]
    congr 1
    refine List.ext_getElem (by simp [h.length, h'.length]) fun i hi _ => ?_
    have hi₁ : i < bs.length := by simp at hi; omega
    have hi₂ : i < bs'.length := by simp at hi; omega
    simp [hi₁, hi₂]
  rw [hzip]
  have hflat := List.Perm.flatMap_left (List.range n) fun i hi =>
    h.semijoin_bucket h' hkey (List.mem_range.mp hi)
  have hall : ((semijoin key key' l l').filter fun a => index a < n) = semijoin key key' l l' := by
    refine List.filter_eq_self.mpr fun a ha => ?_
    simpa using hlt a (List.mem_of_mem_filter ha)
  exact hall ▸ hflat.trans (flatMap_filter_perm n)

end List
