-- SUMMARY: Repartition of a table by the hash of its ids, and that PSI block by block is PSI of the whole tables.
import NineNMpc.Lib.Buckets
import NineNMpc.Lib.Fallible
import NineNMpc.Psi.Crypto

/-!
# Repartition by hash

`get_hash`, `add_hash_column` and `repartition_by_hash` of `psi_actors.py`. The hash
(blake2b with a digest of 16 bytes) and the packing of floats are parameters, and so is
ray's `SimpleSortOp`, with the partition it puts a row into. A row is whatever the other
columns hold; a float id is its value as stored, so two ids are equal when they are the
same value.
-/

namespace Psi.Repartition

/-! ## Ids -/

/-- An entry of `to_pylist()`; a Python bool is an int, and a null is `none`. -/
inductive PyValue (φ : Type) where
  | str (s : String)
  | int (i : Int)
  | bytes (b : Bytes)
  | float (x : φ)
  | none
  | other
deriving DecidableEq

inductive IdType where
  | str
  | int
  | bytes
  | float
deriving DecidableEq

inductive PyError where
  | indexError
  | notSupported
  | typeError
  | attributeError
  | overflowError
  | structError
  | arrowInvalid
  | valueError
deriving DecidableEq

abbrev Digest := {b : Bytes // b.length = 16}

structure Hasher (φ : Type) where
  hash16 : Bytes → Digest
  /-- `struct.pack('f', x)`. -/
  packFloat : PyValue φ → Option Bytes

variable {φ ρ σ : Type}

/-- The chain of `isinstance` in `add_hash_column`. -/
def PyValue.idType : PyValue φ → Option IdType
  | str _ => some .str
  | int _ => some .int
  | bytes _ => some .bytes
  | float _ => some .float
  | none | other => Option.none

/-- `x.to_bytes(8, byteorder='big', signed=False)`. -/
def toBytes8 (i : Int) : Option Bytes :=
  if 0 ≤ i ∧ i < 18446744073709551616 then
    some ((List.range 8).map fun k => UInt8.ofNat (i.toNat >>> (8 * (7 - k))))
  else none

/-- The bytes `get_hash` feeds to `hash16`. -/
def encode (H : Hasher φ) : IdType → PyValue φ → Except PyError Bytes
  | .str, .str s => .ok s.toUTF8.toList
  | .str, _ => .error .typeError
  | .int, .int i =>
    match toBytes8 i with
    | some b => .ok b
    | none => .error .overflowError
  | .int, _ => .error .attributeError
  | .bytes, .bytes b => .ok b
  | .bytes, _ => .error .typeError
  | .float, x =>
    match H.packFloat x with
    | some b => .ok b
    | none => .error .structError

def getHash (H : Hasher φ) (array : List (PyValue φ)) (typ : IdType) :
    Except PyError (List Digest) :=
  array.mapM fun x => (encode H typ x).map H.hash16

/-! ## Tables -/

/-- A row with the columns added at its head. -/
structure HashedRow (ρ : Type) where
  hashed : Digest
  hashedMod : Option Int
  row : ρ

/-- `int(bytes.hex(x), 16)`. -/
def digestNat (x : Digest) : Nat := x.1.foldl (fun acc b => 256 * acc + b.toNat) 0

/-- A value of an array of type `pa.int16()`. -/
def toInt16 (v : Nat) : Except PyError Int :=
  if v < 32768 then .ok v else .error .arrowInvalid

/-- `add_hash_column`; a modulus of zero adds no column. -/
def addHashColumn (H : Hasher φ) (idOf : ρ → PyValue φ) (df : List ρ) (hashedModN : Nat) :
    Except PyError (List (HashedRow ρ)) :=
  match df.map idOf with
  | [] => .error .indexError
  | head :: idTail =>
    match head.idType with
    | none => .error .notSupported
    | some typ => do
      let hashedId ← getHash H (head :: idTail) typ
      let hashedMod ←
        if hashedModN = 0 then pure (hashedId.map fun _ => none)
        else hashedId.mapM fun x => (toInt16 (digestNat x % hashedModN)).map some
      return (hashedId.zip hashedMod).zipWith
        (fun cols row => { hashed := cols.1, hashedMod := cols.2, row }) df

/-- ray's range partitioning: a row with key `v` goes to the partition whose number is the count
    of boundaries `≤ v`. -/
structure SimpleSortOp where
  execute : {α : Type} → (α → Int) → List Int → List α → List (List α)
  bucketing : ∀ {α : Type} (key : α → Int) (boundaries : List Int) (rows : List α),
    List.Bucketing (fun a => boundaries.countP (· ≤ key a)) (boundaries.length + 1) rows
      (execute key boundaries rows)

/-- `list(range(1, partition_num))`. -/
def boundaries (partitionNum : Nat) : List Int :=
  (List.range' 1 (partitionNum - 1)).map Int.ofNat

def repartitionByHash (H : Hasher φ) (op : SimpleSortOp) (idOf : ρ → PyValue φ)
    (dataTable : List ρ) (partitionNum : Nat) : Except PyError (List (List (HashedRow ρ))) := do
  let dataTable ← addHashColumn H idOf dataTable partitionNum
  -- the sort key must be a column
  if partitionNum = 0 then .error .valueError
  else return op.execute (fun x => x.hashedMod.getD 0) (boundaries partitionNum) dataTable

/-- What `diffie_hellman_flow` keeps of a block: the rows whose first column the peer's block has. -/
def doPsi (mine : List (HashedRow ρ)) (theirs : List (HashedRow σ)) : List (HashedRow ρ) :=
  List.semijoin (·.hashed) (·.hashed) mine theirs

/-! ## The added columns -/

variable {H : Hasher φ} {idOf : ρ → PyValue φ} {typ : IdType} {n : Nat}
  {df : List ρ}

/-- The table has rows, and its ids are all of one supported type and can be hashed. -/
structure Hashable (H : Hasher φ) (typ : IdType) (idOf : ρ → PyValue φ) (df : List ρ) : Prop where
  ne_nil : df ≠ []
  idType : ∀ row ∈ df, (idOf row).idType = some typ
  encode : ∀ row ∈ df, ∃ b, encode H typ (idOf row) = .ok b

def digest (H : Hasher φ) (typ : IdType) (x : PyValue φ) : Digest :=
  H.hash16 ((encode H typ x).toOption.getD [])

def hashedRow (H : Hasher φ) (typ : IdType) (n : Nat) (idOf : ρ → PyValue φ) (row : ρ) :
    HashedRow ρ :=
  let hashed := digest H typ (idOf row)
  { hashed, hashedMod := some (digestNat hashed % n : Nat), row }

theorem getHash_eq_ok (h : Hashable H typ idOf df) :
    getHash H (df.map idOf) typ = .ok (df.map fun row => digest H typ (idOf row)) := by
  unfold getHash
  rw [List.mapM_eq_ok (g := digest H typ), List.map_map]
  · rfl
  · intro x hx
    obtain ⟨row, hrow, rfl⟩ := List.mem_map.mp hx
    obtain ⟨b, hb⟩ := h.encode row hrow
    simp [digest, hb, Except.map, Except.toOption]

/-- The modulus of at most `2^15` fits the column's type. -/
theorem toInt16_mod {v : Nat} (hpos : 1 ≤ n) (hn : n ≤ 32768) :
    toInt16 (v % n) = .ok ((v % n : Nat) : Int) := by
  have hlt : v % n < 32768 := Nat.lt_of_lt_of_le (Nat.mod_lt v hpos) hn
  unfold toInt16
  rw [if_pos hlt]

theorem addHashColumn_eq_ok (h : Hashable H typ idOf df) (hpos : 1 ≤ n) (hn : n ≤ 32768) :
    addHashColumn H idOf df n = .ok (df.map (hashedRow H typ n idOf)) := by
  have hhash := getHash_eq_ok h
  have hmods : (df.map fun row => digest H typ (idOf row)).mapM
      (fun x => (toInt16 (digestNat x % n)).map some) =
      .ok ((df.map fun row => digest H typ (idOf row)).map
        fun x => some ((digestNat x % n : Nat) : Int)) :=
    List.mapM_eq_ok fun x _ => by rw [toInt16_mod hpos hn]; rfl
  have hzip : ((df.map fun row => digest H typ (idOf row)).zip
      ((df.map fun row => digest H typ (idOf row)).map
        fun x => some ((digestNat x % n : Nat) : Int))).zipWith
      (fun cols row => ({ hashed := cols.1, hashedMod := cols.2, row } : HashedRow ρ)) df =
      df.map (hashedRow H typ n idOf) := by
    rw [List.map_map, List.zip_map', List.zipWith_map_left, List.zipWith_self]
    rfl
  obtain ⟨row, rows, hdf⟩ := List.exists_cons_of_ne_nil h.ne_nil
  have htyp := h.idType row (by simp [hdf])
  unfold addHashColumn
  split
  · next hnil => simp [hdf] at hnil
  · next head idTail hids =>
    obtain rfl : idOf row = head := by
      rw [hdf, List.map_cons, List.cons.injEq] at hids
      exact hids.1
    rw [htyp, ← hids]
    simp only [hhash, bind, Except.bind, if_neg (show n ≠ 0 by omega)]
    rw [hmods]
    exact congrArg Except.ok hzip

/-! ## Blocks -/

theorem length_boundaries (hpos : 1 ≤ n) : (boundaries n).length + 1 = n := by
  simp [boundaries]
  omega

/-- A key below the number of partitions is the number of its partition. -/
theorem countP_boundaries {v : Nat} (hv : v < n) :
    (boundaries n).countP (fun b => b ≤ (v : Int)) = v := by
  have hsplit : List.range' 1 (n - 1) = List.range' 1 v ++ List.range' (1 + v) (n - 1 - v) := by
    rw [show n - 1 = v + (n - 1 - v) by omega, ← List.range'_append_1]
    simp
  unfold boundaries
  rw [hsplit, List.map_append, List.countP_append]
  have hlow : ((List.range' 1 v).map Int.ofNat).countP (fun b => b ≤ (v : Int)) = v := by
    rw [List.countP_eq_length.mpr]
    · simp
    · intro b hb
      obtain ⟨i, hi, rfl⟩ := List.mem_map.mp hb
      have := List.mem_range'_1.mp hi
      simp only [Int.ofNat_eq_natCast, decide_eq_true_eq]
      omega
  have hhigh : ((List.range' (1 + v) (n - 1 - v)).map Int.ofNat).countP
      (fun b => b ≤ (v : Int)) = 0 := by
    rw [List.countP_eq_zero]
    intro b hb
    obtain ⟨i, hi, rfl⟩ := List.mem_map.mp hb
    have := List.mem_range'_1.mp hi
    simp only [Int.ofNat_eq_natCast, decide_eq_true_eq]
    omega
  rw [hlow, hhigh, Nat.add_zero]

/-- The number of the block of an id. -/
def bucket (H : Hasher φ) (typ : IdType) (n : Nat) (x : PyValue φ) : Nat :=
  digestNat (digest H typ x) % n

theorem bucket_lt {x : PyValue φ} (hpos : 1 ≤ n) : bucket H typ n x < n := Nat.mod_lt _ hpos

theorem map_row_hashedRow : (df.map (hashedRow H typ n idOf)).map (·.row) = df := by
  rw [List.map_map]
  exact List.map_id' df

/-- The blocks are the buckets of the table by the numbers of its ids. -/
theorem repartitionByHash_eq_ok (op : SimpleSortOp) (h : Hashable H typ idOf df) (hpos : 1 ≤ n)
    (hn : n ≤ 32768) :
    ∃ blocks, repartitionByHash H op idOf df n = .ok blocks ∧
      List.Bucketing (fun x => bucket H typ n (idOf x.row)) n (df.map (hashedRow H typ n idOf))
        blocks := by
  let key : HashedRow ρ → Int := fun x => x.hashedMod.getD 0
  refine ⟨op.execute key (boundaries n) (df.map (hashedRow H typ n idOf)), ?_, ?_⟩
  · unfold repartitionByHash
    rw [addHashColumn_eq_ok h hpos hn]
    change (if n = 0 then _ else _) = _
    rw [if_neg (by omega : n ≠ 0)]
    rfl
  · have hop := op.bucketing key (boundaries n) (df.map (hashedRow H typ n idOf))
    rw [length_boundaries hpos] at hop
    refine ⟨hop.length, fun i hi => (hop.perm i hi).trans (List.Perm.of_eq ?_)⟩
    refine List.filter_congr fun x hx => ?_
    obtain ⟨row, -, rfl⟩ := List.mem_map.mp hx
    have hkey : key (hashedRow H typ n idOf row) = (bucket H typ n (idOf row) : Int) := rfl
    rw [hkey, countP_boundaries (bucket_lt hpos)]
    rfl

/-! ## PSI block by block -/

/-- Selecting rows by their ids does not look at the added columns. -/
theorem map_row_semijoin {idOf' : σ → PyValue φ} {df' : List σ} [DecidableEq φ] :
    ((List.semijoin (fun x => idOf x.row) (fun x => idOf' x.row)
      (df.map (hashedRow H typ n idOf)) (df'.map (hashedRow H typ n idOf'))).map (·.row)) =
      List.semijoin idOf idOf' df df' := by
  unfold List.semijoin
  have hids : (df'.map (hashedRow H typ n idOf')).map (fun x => idOf' x.row) = df'.map idOf' := by
    rw [List.map_map]
    rfl
  rw [hids, List.filter_map, List.map_map]
  exact List.map_id' _

/-- Both parties cut their tables into `n` blocks without losing or repeating a row, equal ids are
    in blocks of one number, and PSI of the blocks with each other, put together, is PSI of the
    whole tables: of their hashes, as the flow compares them, and of their ids. -/
theorem repartitionByHash_psi [DecidableEq φ] (op : SimpleSortOp) {left : List ρ}
    {right : List σ} {idL : ρ → PyValue φ} {idR : σ → PyValue φ} (hl : Hashable H typ idL left)
    (hr : Hashable H typ idR right) (hpos : 1 ≤ n) (hn : n ≤ 32768) :
    ∃ tl tr bl br, addHashColumn H idL left n = .ok tl ∧ addHashColumn H idR right n = .ok tr ∧
      repartitionByHash H op idL left n = .ok bl ∧ repartitionByHash H op idR right n = .ok br ∧
      (bl.length = n ∧ bl.flatten.Perm tl ∧ tl.map (·.row) = left) ∧
      (br.length = n ∧ br.flatten.Perm tr ∧ tr.map (·.row) = right) ∧
      (∀ i < n, ∀ j < n, ∀ x ∈ bl.getD i [], ∀ y ∈ br.getD j [], idL x.row = idR y.row → i = j) ∧
      ((List.zipWith doPsi bl br).flatten.Perm (doPsi tl tr) ∧
        (List.zipWith doPsi br bl).flatten.Perm (doPsi tr tl)) ∧
      ((List.zipWith (List.semijoin (fun x => idL x.row) fun y => idR y.row) bl br).flatten.map
          (·.row)).Perm (List.semijoin idL idR left right) ∧
      ((List.zipWith (List.semijoin (fun y => idR y.row) fun x => idL x.row) br bl).flatten.map
          (·.row)).Perm (List.semijoin idR idL right left) := by
  obtain ⟨bl, hbl, hbucketL⟩ := repartitionByHash_eq_ok op hl hpos hn
  obtain ⟨br, hbr, hbucketR⟩ := repartitionByHash_eq_ok op hr hpos hn
  have hltL : ∀ x ∈ left.map (hashedRow H typ n idL), bucket H typ n (idL x.row) < n :=
    fun _ _ => bucket_lt hpos
  have hltR : ∀ x ∈ right.map (hashedRow H typ n idR), bucket H typ n (idR x.row) < n :=
    fun _ _ => bucket_lt hpos
  -- Equal hashes have equal moduli, and so have equal ids.
  have hhash : ∀ x ∈ left.map (hashedRow H typ n idL), ∀ y ∈ right.map (hashedRow H typ n idR),
      x.hashed = y.hashed → bucket H typ n (idL x.row) = bucket H typ n (idR y.row) := by
    intro x hx y hy hxy
    obtain ⟨row, -, rfl⟩ := List.mem_map.mp hx
    obtain ⟨row', -, rfl⟩ := List.mem_map.mp hy
    exact congrArg (fun d => digestNat d % n) hxy
  refine ⟨_, _, bl, br, addHashColumn_eq_ok hl hpos hn, addHashColumn_eq_ok hr hpos hn, hbl, hbr,
    ⟨hbucketL.length, hbucketL.flatten_perm hltL, map_row_hashedRow⟩,
    ⟨hbucketR.length, hbucketR.flatten_perm hltR, map_row_hashedRow⟩, ?_, ⟨?_, ?_⟩, ?_, ?_⟩
  · intro i hi j hj x hx y hy hxy
    rw [← (hbucketL.index_eq hi hx).2, ← (hbucketR.index_eq hj hy).2, hxy]
  · exact hbucketL.semijoin_perm hbucketR hltL hhash
  · exact hbucketR.semijoin_perm hbucketL hltR fun y hy x hx hyx => (hhash x hx y hy hyx.symm).symm
  · have hids := hbucketL.semijoin_perm hbucketR hltL fun x _ y _ hxy =>
      congrArg (bucket H typ n) (show idL x.row = idR y.row from hxy)
    exact map_row_semijoin (H := H) (n := n) ▸ hids.map (·.row)
  · have hids := hbucketR.semijoin_perm hbucketL hltR fun y _ x _ hyx =>
      congrArg (bucket H typ n) (show idR y.row = idL x.row from hyx)
    exact map_row_semijoin (H := H) (n := n) ▸ hids.map (·.row)

namespace Sample

/-- blake2b on the ids of the sample. -/
def hash16 (b : Bytes) : Digest :=
  if b = "u1".toUTF8.toList then
    ⟨[83, 25, 149, 133, 189, 222, 162, 142, 103, 254, 113, 67, 164, 43, 174, 247], rfl⟩
  else if b = "u2".toUTF8.toList then
    ⟨[75, 249, 112, 161, 82, 11, 61, 75, 120, 243, 225, 87, 177, 221, 71, 217], rfl⟩
  else if b = "u3".toUTF8.toList then
    ⟨[211, 244, 95, 239, 74, 112, 45, 161, 94, 97, 157, 43, 208, 87, 189, 112], rfl⟩
  else if b = "u4".toUTF8.toList then
    ⟨[157, 143, 205, 243, 108, 123, 20, 115, 43, 61, 132, 246, 226, 12, 122, 146], rfl⟩
  else ⟨List.replicate 16 0, rfl⟩

def hasher : Hasher Empty := { hash16, packFloat := fun _ => none }

/-- The rows of a partition in the order of the table. -/
def stableSort : SimpleSortOp where
  execute key boundaries rows := (List.range (boundaries.length + 1)).map fun i =>
    rows.filter fun a => boundaries.countP (· ≤ key a) = i
  bucketing key boundaries rows := by
    refine ⟨by simp, fun i hi => List.Perm.of_eq ?_⟩
    simp [List.getD_eq_getElem?_getD, hi]

/-- Two tables with one row each, of ids whose type is not supported, are not repartitioned. -/
theorem unsupported_not_repartitioned :
    ¬ ∃ bl br, repartitionByHash hasher stableSort (fun _ : Unit => PyValue.other) [()] 2 = .ok bl ∧
      repartitionByHash hasher stableSort (fun _ : Unit => PyValue.other) [()] 2 = .ok br := by
  rintro ⟨bl, br, hbl, -⟩
  cases hbl

def left : List String := ["u1", "u2", "u3"]

def right : List String := ["u4", "u3", "u2"]

theorem hashable_str (df : List String) (hne : df ≠ []) : Hashable hasher .str PyValue.str df where
  ne_nil := hne
  idType _ _ := rfl
  encode row _ := ⟨row.toUTF8.toList, rfl⟩

theorem left_right_psi :
    ∃ bl br, repartitionByHash hasher stableSort PyValue.str left 3 = .ok bl ∧
      repartitionByHash hasher stableSort PyValue.str right 3 = .ok br ∧
      ((List.zipWith (List.semijoin (fun x => (PyValue.str x.row : PyValue Empty))
        fun y => PyValue.str y.row) bl br).flatten.map (·.row)).Perm ["u2", "u3"] := by
  obtain ⟨_, _, bl, br, -, -, hbl, hbr, -, -, -, -, hids, -⟩ :=
    repartitionByHash_psi stableSort (hashable_str left (by decide))
      (hashable_str right (by decide)) (show 1 ≤ 3 by decide) (by decide)
  exact ⟨bl, br, hbl, hbr, hids⟩

end Sample

end Psi.Repartition
