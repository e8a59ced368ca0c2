-- SUMMARY: The number of buckets that each party computes from its own CPUs and command line, and exactly when two parties put a common id into blocks of one number.
import NineNMpc.Psi.CsvHash

/-!
# Launching a party

The main program of `psi_actors.py`, as far as it decides the number of buckets, and
`repartition_by_hash` for any integer that it may be given. With `--buckets=0` a party
takes its own degree of parallelism; nothing is exchanged with the other party. A
negative number of buckets has moduli in `(n, 0]` and no boundaries, so everything is
in one block.
-/

namespace Psi.Repartition

variable {φ ρ σ : Type}

/-! ## The command line -/

/-- What the number of buckets is computed from; `cpu` is the variable `CPU`, if it is set. -/
structure Launch where
  cpu : Option Int := none
  parallels : Int := 0
  buckets : Int := 0

inductive LaunchError where
  | zeroDivisionError
  | hash (e : PyError)
deriving DecidableEq

namespace Launch

def cpuCount (l : Launch) : Int := l.cpu.getD 1

def nParallels (l : Launch) : Int :=
  let n := if l.parallels = 0 then l.cpuCount else l.parallels
  if n > l.cpuCount then l.cpuCount else n

/-- `cpu_count / n_parallels` is computed before the number of buckets. -/
def actualBuckets (l : Launch) : Except LaunchError Int :=
  if l.nParallels = 0 then .error .zeroDivisionError
  else .ok (if l.buckets = 0 then l.nParallels else l.buckets)

end Launch

/-! ## Any number of buckets -/

/-- A value of `pa.int16()` that is not positive. -/
def toInt16OfNonpos (v : Int) : Except PyError Int :=
  if -32768 ≤ v then .ok v else .error .arrowInvalid

/-- `repartition_by_hash` for an integer. -/
def repartitionByHashInt (H : Hasher φ) (op : SimpleSortOp) (idOf : ρ → PyValue φ)
    (dataTable : List ρ) : Int → Except PyError (List (List (HashedRow ρ)))
  | .ofNat partitionNum => repartitionByHash H op idOf dataTable partitionNum
  | .negSucc k => do
    let dataTable ← addHashColumn H idOf dataTable 0
    let dataTable ← dataTable.mapM fun x => do
      let hashedMod ← toInt16OfNonpos (Int.fmod (digestNat x.hashed) (.negSucc k))
      return { x with hashedMod := some hashedMod }
    return op.execute (fun x => x.hashedMod.getD 0) [] dataTable

/-- The blocks a party makes of its table in single-file mode. -/
def Launch.repartition (l : Launch) (H : Hasher φ) (op : SimpleSortOp) (idOf : ρ → PyValue φ)
    (dataTable : List ρ) : Except LaunchError (List (List (HashedRow ρ))) := do
  let bucketNum ← l.actualBuckets
  match repartitionByHashInt H op idOf dataTable bucketNum with
  | .ok blocks => .ok blocks
  | .error e => .error (.hash e)

/-- An id that both sides have is in blocks of one number. -/
def SameBlock (idL : ρ → PyValue φ) (idR : σ → PyValue φ) (bl : List (List (HashedRow ρ)))
    (br : List (List (HashedRow σ))) : Prop :=
  ∀ i j, ∀ x ∈ bl.getD i [], ∀ y ∈ br.getD j [], idL x.row = idR y.row → i = j

/-- The number of blocks that a number of buckets makes. -/
def blockCount (n : Int) : Nat := max n.toNat 1

/-! ## The block of an id -/

variable {H : Hasher φ} {op op' : SimpleSortOp} {idOf : ρ → PyValue φ} {typ typ' : IdType}
  {df : List ρ}

theorem hashed_eq_digest {t : List (HashedRow ρ)} {n : Nat} (h : Hashable H typ idOf df)
    (ht : addHashColumn H idOf df n = .ok t) :
    t.map (·.row) = df ∧ ∀ x ∈ t, x.hashed = digest H typ (idOf x.row) := by
  obtain ⟨hrows, typ', hhead, hhash⟩ := addHashColumn_ok ht
  refine ⟨hrows, fun x hx => ?_⟩
  obtain ⟨row, rest, hdf⟩ := List.exists_cons_of_ne_nil h.ne_nil
  have htyp : typ' = typ := by
    have hhead := hhead (idOf row) (by simp [hdf])
    rw [h.idType row (by simp [hdf]), Option.some.injEq] at hhead
    exact hhead.symm
  obtain ⟨b, hb, hx⟩ := hhash x hx
  rw [hx, digest, ← htyp, hb]
  rfl

/-- The column of the moduli. -/
theorem hashedMod_eq {t : List (HashedRow ρ)} {n : Nat} (hn : n ≠ 0)
    (ht : addHashColumn H idOf df n = .ok t) :
    ∀ x ∈ t, x.hashedMod = some ((digestNat x.hashed % n : Nat) : Int) := by
  unfold addHashColumn at ht
  split at ht
  case h_1 => cases ht
  case h_2 =>
    split at ht
    case h_1 => cases ht
    case h_2 =>
      obtain ⟨hashedId, -, ht⟩ := Except.bind_eq_ok_iff.mp ht
      dsimp only at ht
      rw [if_neg hn] at ht
      obtain ⟨hashedMod, hmod, ht⟩ := Except.bind_eq_ok_iff.mp ht
      have hall := List.forall₂_of_mapM_eq_ok hmod
      obtain rfl := Except.ok.inj ht
      intro x hx
      obtain ⟨i, hi, rfl⟩ := List.getElem_of_mem hx
      simp only [List.length_zipWith, List.length_zip] at hi
      have hget := hall.get (i := i) (by omega) (by omega)
      simp only [List.get_eq_getElem, toInt16] at hget
      split at hget
      case isTrue =>
        simpa [Except.map] using (Except.ok.inj hget).symm
      case isFalse => cases hget

theorem blockCount_pos (n : Int) : 0 < blockCount n := by
  unfold blockCount
  omega

/-- The blocks are the buckets of the ids by their digests. -/
theorem repartitionByHashInt_blocks {n : Int} {blocks : List (List (HashedRow ρ))}
    (h : Hashable H typ idOf df) (hn : n ≠ 0)
    (hok : repartitionByHashInt H op idOf df n = .ok blocks) :
    ∃ t, t.map (·.row) = df ∧ List.Bucketing (fun x => bucket H typ (blockCount n) (idOf x.row))
      (blockCount n) t blocks := by
  cases n with
  | ofNat n =>
    have hn : n ≠ 0 := fun h0 => hn (by simp [h0])
    have hcount : blockCount (.ofNat n) = n := by
      simp only [blockCount, Int.ofNat_eq_natCast, Int.toNat_natCast]
      omega
    obtain ⟨t, ht, hok⟩ := Except.bind_eq_ok_iff.mp hok
    rw [if_neg hn] at hok
    obtain rfl := Except.ok.inj hok
    obtain ⟨hrows, hhashed⟩ := hashed_eq_digest h ht
    have hmod := hashedMod_eq hn ht
    have hop := op.bucketing (fun x : HashedRow ρ => x.hashedMod.getD 0) (boundaries n) t
    rw [length_boundaries (by omega)] at hop
    refine ⟨t, hrows, ?_⟩
    rw [hcount]
    refine hop.congr fun x hx => ?_
    rw [hmod x hx, Option.getD_some, countP_boundaries (Nat.mod_lt _ (by omega)), hhashed x hx]
    rfl
  | negSucc k =>
    have hcount : blockCount (.negSucc k) = 1 := rfl
    obtain ⟨t, ht, hok⟩ := Except.bind_eq_ok_iff.mp hok
    obtain ⟨t', ht', hok⟩ := Except.bind_eq_ok_iff.mp hok
    obtain rfl := Except.ok.inj hok
    obtain ⟨hrows, -⟩ := hashed_eq_digest h ht
    -- Only the column of the moduli is added.
    have hrows' : t'.map (·.row) = t.map (·.row) := by
      refine List.map_eq_of_mapM_eq_ok ht' fun x y hxy => ?_
      obtain ⟨_, -, hxy⟩ := Except.bind_eq_ok_iff.mp hxy
      obtain rfl := Except.ok.inj hxy
      rfl
    refine ⟨t', hrows'.trans hrows, ?_⟩
    rw [hcount]
    refine (op.bucketing (fun x : HashedRow ρ => x.hashedMod.getD 0) [] t').congr fun x _ => ?_
    simp [bucket, Nat.mod_one]

/-! ## Two parties -/

variable {p q : Launch} {left : List ρ} {right : List σ} {idL : ρ → PyValue φ}
  {idR : σ → PyValue φ} {bl : List (List (HashedRow ρ))} {br : List (List (HashedRow σ))}

/-- With `--buckets=0` the number of buckets is the party's own degree of parallelism. -/
theorem Launch.repartition_ok (hbuckets : p.buckets = 0)
    (hok : p.repartition H op idOf df = .ok bl) :
    p.nParallels ≠ 0 ∧ repartitionByHashInt H op idOf df p.nParallels = .ok bl := by
  obtain ⟨bucketNum, hnum, hok⟩ := Except.bind_eq_ok_iff.mp hok
  unfold Launch.actualBuckets at hnum
  split at hnum
  case isTrue => cases hnum
  case isFalse hne =>
    obtain rfl := Except.ok.inj hnum
    refine ⟨hne, ?_⟩
    split at hok
    case h_1 blocks hblocks =>
      obtain rfl := Except.ok.inj hok
      exact hblocks
    case h_2 => cases hok

/-- Two bucketings put equal ids into blocks of one number if and only if both moduli give one
    remainder to the digest of every common id. -/
theorem sameBlock_iff {n m : Nat} {tl : List (HashedRow ρ)} {tr : List (HashedRow σ)}
    (hn : 0 < n) (hm : 0 < m)
    (hbl : List.Bucketing (fun x => bucket H typ n (idL x.row)) n tl bl)
    (hbr : List.Bucketing (fun y => bucket H typ' m (idR y.row)) m tr br) :
    SameBlock idL idR bl br ↔ ∀ x ∈ tl, ∀ y ∈ tr, idL x.row = idR y.row →
      bucket H typ n (idL x.row) = bucket H typ' m (idR y.row) := by
  constructor
  · intro hsame x hx y hy hid
    exact hsame _ _ x (hbl.mem_bucket (bucket_lt hn) hx) y (hbr.mem_bucket (bucket_lt hm) hy) hid
  · intro h i j x hx y hy hid
    obtain ⟨hxl, hi⟩ := hbl.index_eq (hbl.lt_of_mem hx) hx
    obtain ⟨hyr, hj⟩ := hbr.index_eq (hbr.lt_of_mem hy) hy
    rw [← hi, ← hj]
    exact h x hxl y hyr hid

/-- Two parties started with `--buckets=0` put the ids that both have into blocks of one number if
    and only if the digest of each, modulo the least common multiple of their two numbers of
    blocks, is below the smaller one; with equal numbers they always do. -/
theorem launch_sameBlock_iff (hp : p.buckets = 0) (hq : q.buckets = 0)
    (hleft : Hashable H typ idL left) (hright : Hashable H typ' idR right)
    (hbl : p.repartition H op idL left = .ok bl) (hbr : q.repartition H op' idR right = .ok br) :
    (SameBlock idL idR bl br ↔ ∀ row ∈ left, ∀ row' ∈ right, idL row = idR row' →
      digestNat (digest H typ (idL row)) %
          Nat.lcm (blockCount p.nParallels) (blockCount q.nParallels) <
        min (blockCount p.nParallels) (blockCount q.nParallels)) ∧
    (blockCount p.nParallels = blockCount q.nParallels → SameBlock idL idR bl br) := by
  obtain ⟨hne, hbl⟩ := Launch.repartition_ok hp hbl
  obtain ⟨hne', hbr⟩ := Launch.repartition_ok hq hbr
  obtain ⟨tl, hrowsL, hbl⟩ := repartitionByHashInt_blocks hleft hne hbl
  obtain ⟨tr, hrowsR, hbr⟩ := repartitionByHashInt_blocks hright hne' hbr
  have hpos := blockCount_pos p.nParallels
  have hpos' := blockCount_pos q.nParallels
  -- An id that both have is of the type of both columns.
  have htyp : ∀ row ∈ left, ∀ row' ∈ right, idL row = idR row' → typ' = typ := by
    intro row hrow row' hrow' hid
    have htyp := hright.idType row' hrow'
    rw [← hid, hleft.idType row hrow, Option.some.injEq] at htyp
    exact htyp.symm
  have hbuckets : ∀ row ∈ left, ∀ row' ∈ right, idL row = idR row' →
      (bucket H typ (blockCount p.nParallels) (idL row) =
          bucket H typ' (blockCount q.nParallels) (idR row') ↔
        digestNat (digest H typ (idL row)) %
            Nat.lcm (blockCount p.nParallels) (blockCount q.nParallels) <
          min (blockCount p.nParallels) (blockCount q.nParallels)) := by
    intro row hrow row' hrow' hid
    rw [htyp row hrow row' hrow' hid, ← hid]
    exact Nat.mod_eq_mod_iff_mod_lcm_lt hpos hpos'
  have hiff : SameBlock idL idR bl br ↔ ∀ row ∈ left, ∀ row' ∈ right, idL row = idR row' →
      bucket H typ (blockCount p.nParallels) (idL row) =
        bucket H typ' (blockCount q.nParallels) (idR row') := by
    rw [sameBlock_iff hpos hpos' hbl hbr, ← hrowsL, ← hrowsR]
    simp only [List.forall_mem_map]
  constructor
  · rw [hiff]
    constructor
    · intro h row hrow row' hrow' hid
      exact (hbuckets row hrow row' hrow' hid).mp (h row hrow row' hrow' hid)
    · intro h row hrow row' hrow' hid
      exact (hbuckets row hrow row' hrow' hid).mpr (h row hrow row' hrow' hid)
  · intro hcount
    rw [hiff]
    intro row hrow row' hrow' hid
    rw [htyp row hrow row' hrow' hid, hcount, hid]

namespace LaunchSample

open Repartition.Sample (hasher stableSort hashable_str)

/-- A party with two CPUs. -/
def twoCpus : Launch := { cpu := some 2 }

/-- A party with eight CPUs that is told to run two buckets at a time. -/
def twoParallels : Launch := { cpu := some 8, parallels := 2 }

def threeCpus : Launch := { cpu := some 3 }

/-- What a launch makes of a table of strings. -/
def blocksOf (l : Launch) (ids : List String) : List (List (HashedRow String)) :=
  match l.repartition hasher stableSort PyValue.str ids with
  | .ok blocks => blocks
  | .error _ => []

theorem two_and_two_sameBlock :
    twoCpus.repartition hasher stableSort PyValue.str Sample.left = .ok (blocksOf twoCpus Sample.left) ∧
      twoParallels.repartition hasher stableSort PyValue.str Sample.right =
        .ok (blocksOf twoParallels Sample.right) ∧
      SameBlock (φ := Empty) PyValue.str PyValue.str (blocksOf twoCpus Sample.left)
        (blocksOf twoParallels Sample.right) := by
  have hbl : twoCpus.repartition hasher stableSort PyValue.str Sample.left =
      .ok (blocksOf twoCpus Sample.left) := by
    decide +kernel
  have hbr : twoParallels.repartition hasher stableSort PyValue.str Sample.right =
      .ok (blocksOf twoParallels Sample.right) := by
    decide +kernel
  have hsame := launch_sameBlock_iff rfl rfl (hashable_str Sample.left (by decide))
    (hashable_str Sample.right (by decide)) hbl hbr
  exact ⟨hbl, hbr, hsame.2 (by decide)⟩

/-- Two CPUs here and three there put `u2` into blocks of different numbers. -/
theorem two_and_three_not_sameBlock :
    twoCpus.buckets = 0 ∧ threeCpus.buckets = 0 ∧
      twoCpus.repartition hasher stableSort PyValue.str Sample.left = .ok (blocksOf twoCpus Sample.left) ∧
      threeCpus.repartition hasher stableSort PyValue.str Sample.right =
        .ok (blocksOf threeCpus Sample.right) ∧
      ¬ SameBlock (φ := Empty) PyValue.str PyValue.str (blocksOf twoCpus Sample.left)
        (blocksOf threeCpus Sample.right) := by
  refine ⟨rfl, rfl, by decide +kernel, by decide +kernel, fun hsame => ?_⟩
  have hmem : hashedRow hasher .str 2 PyValue.str "u2" ∈ (blocksOf twoCpus Sample.left).getD 1 [] := by
    decide +kernel
  have hmem' : hashedRow hasher .str 3 PyValue.str "u2" ∈
      (blocksOf threeCpus Sample.right).getD 0 [] := by
    decide +kernel
  exact absurd (hsame 1 0 _ hmem _ hmem' rfl) (by decide)

end LaunchSample

end Psi.Repartition
