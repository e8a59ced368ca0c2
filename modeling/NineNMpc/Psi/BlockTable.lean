-- SUMMARY: The table of a block through a PSI job: the columns added for hashing and bucketing, where they are dropped, and when the output has the columns of the input.
import NineNMpc.Psi.Repartition

/-!
# The columns of a block

`_read_block_data` and `do_action` of `PsiPirActor` in `psi_actors.py`, with
`repartition_for_existed_data` and `add_schema_to_all_empty_blocks` before them. A table
is the list of its column names and its rows; conversions of column types do not change
either. `drop` and `column` of pyarrow raise a `KeyError` unless the name is that of
exactly one column. What PSI returns is the rows at the indices it takes, or nothing.
-/

namespace Psi.Repartition

variable {φ : Type}

/-! ## Tables -/

abbrev Row (φ : Type) (width : Nat) := {cells : List (PyValue φ) // cells.length = width}

/-- `pa.Table`; every row has a cell for each column. -/
structure Table (φ : Type) where
  columnNames : List String
  rows : List (Row φ columnNames.length)

inductive ActionError where
  | keyError (column : String)
  | indexError
  | unboundLocalError
  | arrowInvalid
  | allBlocksEmpty
  | hash (e : PyError)
deriving DecidableEq

/-- `--input-col`. -/
inductive ColumnRef where
  | index (i : Int)
  | name (s : String)

def hashedValueColumn : String := "___hashed_id"

def hashedModValueColumn : String := "___hashed_mod_id"

def PyValue.isNone : PyValue φ → Bool
  | none => true
  | _ => false

namespace Row

variable {width : Nat}

def cell (row : Row φ width) (i : Nat) : PyValue φ := row.1.getD i .none

def cons (x : PyValue φ) (row : Row φ width) : Row φ (width + 1) := ⟨x :: row.1, by simp [row.2]⟩

end Row

namespace Table

def hasColumnByName (t : Table φ) (column : String) : Bool := t.columnNames.contains column

/-- `schema.get_field_index`. -/
def fieldIndex (t : Table φ) (column : String) : Option Nat :=
  if t.columnNames.count column = 1 then some (t.columnNames.idxOf column) else none

def removeColumn (t : Table φ) (i : Nat) : Table φ where
  columnNames := t.columnNames.eraseIdx i
  rows := t.rows.map fun row => ⟨row.1.eraseIdx i, by simp [List.length_eraseIdx, row.2]⟩

/-- `drop([column])`. -/
def drop (t : Table φ) (column : String) : Except ActionError (Table φ) :=
  match t.fieldIndex column with
  | some i => .ok (t.removeColumn i)
  | none => .error (.keyError column)

/-- `take`. -/
def take (t : Table φ) (indices : List Nat) : Table φ where
  columnNames := t.columnNames
  rows := indices.filterMap fun i => t.rows[i]?

/-- `slice(0, 0)`, and the batch with empty columns. -/
def empty (t : Table φ) : Table φ where
  columnNames := t.columnNames
  rows := []

/-- `pa.concat_tables`. -/
def concat (t t' : Table φ) : Except ActionError (Table φ) :=
  if h : t'.columnNames = t.columnNames then .ok { t with rows := t.rows ++ h ▸ t'.rows }
  else .error .arrowInvalid

/-- A negative index counts from the end. -/
def getColumnNameByIndex (t : Table φ) (i : Int) : Except ActionError String :=
  match t.columnNames[(if 0 ≤ i then i else i + t.columnNames.length).toNat]? with
  | some column => if i < -t.columnNames.length then .error .indexError else .ok column
  | none => .error .indexError

def getActualColumnName (t : Table φ) (ref : ColumnRef) (addedColumns : Nat) :
    Except ActionError String :=
  match ref with
  | .index i => t.getColumnNameByIndex (i + addedColumns)
  | .name s => .ok s

/-- `add_hash_column` without a modulus. -/
def addHashColumn (H : Hasher φ) (t : Table φ) (toHash : String) : Except ActionError (Table φ) :=
  match t.fieldIndex toHash with
  | none => .error (.keyError toHash)
  | some i =>
    match Repartition.addHashColumn H (·.cell i) t.rows 0 with
    | .error e => .error (.hash e)
    | .ok rows => .ok
      { columnNames := hashedValueColumn :: t.columnNames
        rows := rows.map fun x => x.row.cons (.bytes x.hashed.1) }

/-- The statistics of a block: its rows, its values and its nulls, without the excluded columns. -/
def countValues (t : Table φ) (excludes : List String) : Except ActionError (Nat × Nat × Nat) := do
  let nulls ← (t.columnNames.filter fun column => column ∉ excludes).mapM fun column =>
    match t.fieldIndex column with
    | some i => .ok (t.rows.countP fun row => (row.cell i).isNone)
    | none => .error (.keyError column)
  return (t.rows.length, t.rows.length * nulls.length, nulls.sum)

/-- A block that ray returns: an empty one has no columns. -/
def ofBlock (columnNames : List String) (block : List (HashedRow (Row φ columnNames.length))) :
    Table φ :=
  if block.isEmpty then { columnNames := [], rows := [] }
  else
    { columnNames := hashedValueColumn :: hashedModValueColumn :: columnNames
      rows := block.map fun x => (x.row.cons (.int (x.hashedMod.getD 0))).cons (.bytes x.hashed.1) }

end Table

/-! ## The blocks of one file -/

def repartitionForExistedData (H : Hasher φ) (op : SimpleSortOp) (ref : ColumnRef) (t : Table φ)
    (dataBlockCount : Nat) : Except ActionError (List (Table φ)) := do
  let column ← t.getActualColumnName ref 0
  match t.fieldIndex column with
  | none => .error (.keyError column)
  | some i =>
    match repartitionByHash H op (·.cell i) t.rows dataBlockCount with
    | .error e => .error (.hash e)
    | .ok blocks => .ok (blocks.map (Table.ofBlock t.columnNames))

/-- An empty block gets the columns of the last block that has rows. -/
def addSchemaToAllEmptyBlocks (blocks : List (Table φ)) : Except ActionError (List (Table φ)) :=
  match (blocks.filter fun b => !b.rows.isEmpty).getLast? with
  | none => .error .allBlocksEmpty
  | some newEmptyBlock =>
    .ok (blocks.map fun b => if b.rows.isEmpty then newEmptyBlock.empty else b)

/-! ## The job of a block -/

/-- What `do_action` gets: the file at a path, the files at a list of paths, or a cached block. -/
inductive BlockData (φ : Type) where
  | file (data : Table φ)
  | files (data : List (Table φ))
  | block (data : Table φ)

/-- The table of the block, before the columns are added or removed, and the name of its ids. -/
def BlockData.read (ref : ColumnRef) : BlockData φ → Except ActionError (Table φ × String)
  | file data => do return (data, ← data.getActualColumnName ref 0)
  | files [] => .error .unboundLocalError
  | files (data :: rest) => do
    let data ← rest.foldlM Table.concat data
    return (data, ← data.getActualColumnName ref 0)
  | block data => do return (data, ← data.getActualColumnName ref 2)

def readBlockData (H : Hasher φ) (ref : ColumnRef) (blockData : BlockData φ) :
    Except ActionError (Table φ × String) := do
  let (data, realExampleName) ← blockData.read ref
  if 0 < data.rows.length ∧ 0 < data.columnNames.length then
    let data ←
      if data.hasColumnByName hashedValueColumn then pure data
      else data.addHashColumn H realExampleName
    let data ←
      if data.hasColumnByName hashedModValueColumn then data.drop hashedModValueColumn
      else pure data
    return (data, realExampleName)
  else return (data, realExampleName)

/-- The output of a job with the statistics it reports. -/
structure ActionResult (φ : Type) where
  output : Table φ
  originalDataStatus : Nat × Nat × Nat
  joinedDataStatus : Nat × Nat × Nat

/-- `do_action` of a PSI job. The output is written to a file or put into ray. `psi` gives the
    indices of the rows that `_do_psi` takes; `none` is a party that gets no result. -/
def doAction (H : Hasher φ) (psi : Table φ → Option (List Nat)) (ref : ColumnRef)
    (blockData : BlockData φ) : Except ActionError (ActionResult φ) := do
  let (recTableData, realExampleIdName) ← readBlockData H ref blockData
  let originalDataStatus ← recTableData.countValues [hashedValueColumn, realExampleIdName]
  let recBatchOut := match psi recTableData with
    | some localTakeIndex => recTableData.take localTakeIndex
    | none => recTableData.empty
  let joinedDataStatus ← recBatchOut.countValues [hashedValueColumn, realExampleIdName]
  let output ← recBatchOut.drop hashedValueColumn
  return { output, originalDataStatus, joinedDataStatus }

/-! ## Columns -/

namespace Table

variable {t t' : Table φ} {c : String}

theorem fieldIndex_eq_some {i : Nat} :
    t.fieldIndex c = some i ↔ t.columnNames.count c = 1 ∧ t.columnNames.idxOf c = i := by
  unfold fieldIndex
  split
  case isTrue h => simp [h]
  case isFalse h => simp [h]

theorem drop_eq_ok (h : t.drop c = .ok t') :
    t.columnNames.count c = 1 ∧ t'.columnNames = t.columnNames.erase c := by
  unfold drop at h
  split at h
  case h_1 i hi =>
    obtain ⟨hcount, hidx⟩ := fieldIndex_eq_some.mp hi
    cases h
    exact ⟨hcount, (List.erase_eq_eraseIdx_of_idxOf hidx).symm⟩
  case h_2 => cases h

theorem exists_drop (h : t.columnNames.count c = 1) : ∃ t', t.drop c = .ok t' := by
  have hi := fieldIndex_eq_some.mpr ⟨h, rfl⟩
  exact ⟨t.removeColumn _, by rw [drop, hi]⟩

/-- The statistics look up every column that is not excluded by its name. -/
theorem exists_countValues_iff {excludes : List String} :
    (∃ status, t.countValues excludes = .ok status) ↔
      ∀ column ∈ t.columnNames, column ∉ excludes → t.columnNames.count column = 1 := by
  have hcolumn : ∀ column, (∃ n, (match t.fieldIndex column with
      | some i => .ok (t.rows.countP fun row => (row.cell i).isNone)
      | none => .error (.keyError column) : Except ActionError Nat) = .ok n) ↔
      t.columnNames.count column = 1 := by
    intro column
    cases hi : t.fieldIndex column with
    | none => simpa [fieldIndex] using hi
    | some i => simpa using (fieldIndex_eq_some.mp hi).1
  have hmap := List.exists_mapM_eq_ok_iff
    (l := t.columnNames.filter fun column => column ∉ excludes)
    (f := fun column => (match t.fieldIndex column with
      | some i => .ok (t.rows.countP fun row => (row.cell i).isNone)
      | none => .error (.keyError column) : Except ActionError Nat))
  simp only [hcolumn, List.mem_filter, decide_eq_true_eq, and_imp] at hmap
  rw [← hmap]
  simp only [countValues, Except.bind_eq_ok_iff]
  constructor
  · rintro ⟨_, nulls, hnulls, _⟩
    exact ⟨nulls, hnulls⟩
  · rintro ⟨nulls, hnulls⟩
    exact ⟨_, nulls, hnulls, rfl⟩

/-- The table has none of the columns that the job adds. -/
def NoHelpers (t : Table φ) : Prop :=
  hashedValueColumn ∉ t.columnNames ∧ hashedModValueColumn ∉ t.columnNames

instance {t : Table φ} : Decidable t.NoHelpers := inferInstanceAs (Decidable (_ ∧ _))

/-- No two columns have one name, apart from the one that is taken for the id. -/
def Unambiguous (t : Table φ) (realExampleIdName : String) : Prop :=
  ∀ column ∈ t.columnNames, column ≠ realExampleIdName → t.columnNames.count column = 1

instance {t : Table φ} {realExampleIdName : String} : Decidable (t.Unambiguous realExampleIdName) :=
  inferInstanceAs (Decidable (∀ column ∈ t.columnNames, _))

end Table

/-- The job returns a table with the columns of `t`, and these are not the added ones. -/
def KeepsSchema (t : Table φ) (result : Except ActionError (ActionResult φ)) : Prop :=
  ∃ r, result = .ok r ∧ r.output.columnNames = t.columnNames ∧ r.output.NoHelpers

theorem KeepsSchema.noHelpers {t : Table φ} {result : Except ActionError (ActionResult φ)}
    (h : KeepsSchema t result) : t.NoHelpers := by
  obtain ⟨r, -, hcolumns, hno⟩ := h
  rwa [Table.NoHelpers, hcolumns] at hno

/-! ## A block with rows, and one without -/

variable {H : Hasher φ} {psi : Table φ → Option (List Nat)} {ref : ColumnRef} {d : BlockData φ}
  {t data : Table φ} {name : String}

/-- What `do_action` makes of a table that has been read, by its columns. -/
theorem doAction_ok_iff {columns : List String}
    (hread : readBlockData H ref d = .ok (data, name)) :
    (∃ r, doAction H psi ref d = .ok r ∧ r.output.columnNames = columns) ↔
      (∀ column ∈ data.columnNames, column ≠ hashedValueColumn → column ≠ name →
        data.columnNames.count column = 1) ∧
      data.columnNames.count hashedValueColumn = 1 ∧
      data.columnNames.erase hashedValueColumn = columns := by
  obtain ⟨out, hout, hcolumns⟩ : ∃ out : Table φ, (match psi data with
      | some localTakeIndex => data.take localTakeIndex
      | none => data.empty) = out ∧ out.columnNames = data.columnNames := by
    split <;> exact ⟨_, rfl, rfl⟩
  have hcount : ∀ u : Table φ, u.columnNames = data.columnNames →
      ((∃ status, u.countValues [hashedValueColumn, name] = .ok status) ↔
        ∀ column ∈ data.columnNames, column ≠ hashedValueColumn → column ≠ name →
          data.columnNames.count column = 1) := by
    intro u hu
    rw [Table.exists_countValues_iff, hu]
    simp
  simp only [doAction, hread, Except.bind_eq_ok_iff, Except.ok.injEq, exists_eq_left', hout]
  constructor
  · rintro ⟨r, ⟨original, horiginal, joined, hjoined, output, hdrop, hr⟩, houtput⟩
    obtain rfl := Except.ok.inj hr
    obtain ⟨hone, herase⟩ := Table.drop_eq_ok hdrop
    rw [hcolumns] at hone herase
    exact ⟨(hcount data rfl).mp ⟨original, horiginal⟩, hone, herase.symm.trans houtput⟩
  · rintro ⟨hall, hone, rfl⟩
    obtain ⟨original, horiginal⟩ := (hcount data rfl).mpr hall
    obtain ⟨joined, hjoined⟩ := (hcount out hcolumns).mpr hall
    obtain ⟨output, hdrop⟩ := out.exists_drop (hcolumns ▸ hone)
    refine ⟨⟨output, original, joined⟩, ⟨original, horiginal, joined, hjoined, output, hdrop, rfl⟩, ?_⟩
    rw [(Table.drop_eq_ok hdrop).2, hcolumns]

/-- Once the modulus is gone and the hash is there, dropping the hash leaves the input. -/
theorem keepsSchema_iff_of_hashed (hread : readBlockData H ref d = .ok (data, name))
    (hdata : data.columnNames = hashedValueColumn :: t.columnNames) (hno : t.NoHelpers) :
    KeepsSchema t (doAction H psi ref d) ↔ t.Unambiguous name := by
  have hcount : ∀ column, column ≠ hashedValueColumn →
      data.columnNames.count column = t.columnNames.count column := by
    intro column hne
    rw [hdata, List.count_cons_of_ne hne.symm]
  have hone : data.columnNames.count hashedValueColumn = 1 := by
    rw [hdata, List.count_cons_self, List.count_eq_zero_of_not_mem hno.1]
  have hok : (∃ r, doAction H psi ref d = .ok r ∧ r.output.columnNames = t.columnNames) ↔ _ :=
    doAction_ok_iff hread
  constructor
  · rintro ⟨r, hr, hcolumns, -⟩ column hmem hne
    have hhashed : column ≠ hashedValueColumn := ne_of_mem_of_not_mem hmem hno.1
    rw [← hcount column hhashed]
    exact (hok.mp ⟨r, hr, hcolumns⟩).1 column (by simp [hdata, hmem]) hhashed hne
  · intro hunique
    obtain ⟨r, hr, hcolumns⟩ := hok.mpr ⟨by
      intro column hmem hhashed hne
      rw [hcount column hhashed]
      exact hunique column (by simpa [hdata, hhashed] using hmem) hne, hone, by simp [hdata]⟩
    refine ⟨r, hr, hcolumns, ?_⟩
    rwa [Table.NoHelpers, hcolumns]

/-- Without rows the modulus of a cached block stays. -/
theorem not_keepsSchema_of_mod (hread : readBlockData H ref d = .ok (data, name))
    (hdata : data.columnNames = hashedValueColumn :: hashedModValueColumn :: t.columnNames) :
    ¬ KeepsSchema t (doAction H psi ref d) := by
  rintro ⟨r, hr, hcolumns, -⟩
  obtain ⟨-, -, herase⟩ := (doAction_ok_iff hread).mp ⟨r, hr, hcolumns⟩
  rw [hdata, List.erase_cons_head] at herase
  exact absurd (congrArg List.length herase) (by simp)

/-- Without rows a file gets no hash, and there is nothing to drop. -/
theorem not_keepsSchema_of_missing (hread : readBlockData H ref d = .ok (data, name))
    (hdata : hashedValueColumn ∉ data.columnNames) :
    ¬ KeepsSchema t (doAction H psi ref d) := by
  rintro ⟨r, hr, -, -⟩
  obtain ⟨-, hone, -⟩ := (doAction_ok_iff hread).mp ⟨r, hr, rfl⟩
  rw [List.count_eq_zero_of_not_mem hdata] at hone
  cases hone

/-! ## The blocks of a table -/

/-- The ids of the table can be hashed. -/
def Table.CanHash (H : Hasher φ) (t : Table φ) (name : String) : Prop :=
  ∃ t', t.addHashColumn H name = .ok t'

def BlockData.isFile : BlockData φ → Bool
  | block _ => false
  | _ => true

/-- The job gets a block of the table `t`: one of its buckets in single-file mode, or the whole table
    that is read from a file of a directory, if its ids can be hashed. -/
inductive IsBlock (H : Hasher φ) (op : SimpleSortOp) (ref : ColumnRef) (t : Table φ) :
    BlockData φ → Prop where
  | bucket {n : Nat} {blocks blocks' : List (Table φ)} {b : Table φ}
      (hblocks : repartitionForExistedData H op ref t n = .ok blocks)
      (hschema : addSchemaToAllEmptyBlocks blocks = .ok blocks') (hb : b ∈ blocks') :
      IsBlock H op ref t (.block b)
  | file {d : BlockData φ} {name : String} (hd : d.isFile = true)
      (hread : d.read ref = .ok (t, name)) (hhash : t.rows ≠ [] → t.CanHash H name) :
      IsBlock H op ref t d

theorem addHashColumn_columnNames {t' : Table φ} (h : t.addHashColumn H name = .ok t') :
    t'.columnNames = hashedValueColumn :: t.columnNames := by
  unfold Table.addHashColumn at h
  split at h
  case h_1 => cases h
  case h_2 =>
    split at h
    case h_1 => cases h
    case h_2 =>
      cases h
      rfl

theorem columnNames_ne_nil_of_addHashColumn {t' : Table φ} (h : t.addHashColumn H name = .ok t') :
    t.columnNames ≠ [] := by
  unfold Table.addHashColumn at h
  split at h
  case h_1 => cases h
  case h_2 i hi =>
    intro hnil
    simpa [hnil] using (Table.fieldIndex_eq_some.mp hi).1

theorem exists_getColumnNameByIndex_iff {i : Int} :
    (∃ column, t.getColumnNameByIndex i = .ok column) ↔
      -t.columnNames.length ≤ i ∧ i < t.columnNames.length := by
  unfold Table.getColumnNameByIndex
  split
  case h_1 column hcolumn =>
    have hlt := (List.getElem?_eq_some_iff.mp hcolumn).1
    split
    case isTrue h => simp; omega
    case isFalse h =>
      split at hlt <;> simp <;> omega
  case h_2 hnone =>
    have hle := List.getElem?_eq_none_iff.mp hnone
    split at hle <;> simp <;> omega

theorem ofBlock_columnNames {columnNames : List String}
    {block : List (HashedRow (Row φ columnNames.length))}
    (h : (Table.ofBlock columnNames block).rows.isEmpty = false) :
    (Table.ofBlock columnNames block).columnNames =
      hashedValueColumn :: hashedModValueColumn :: columnNames := by
  cases hempty : block.isEmpty with
  | true =>
    have heq : Table.ofBlock columnNames block = { columnNames := [], rows := [] } := by
      simp [Table.ofBlock, hempty]
    rw [heq] at h
    cases h
  | false => simp [Table.ofBlock, hempty]

/-- What `repartition_for_existed_data` returns, and the column it has hashed. -/
theorem repartitionForExistedData_ok {op : SimpleSortOp} {n : Nat} {blocks : List (Table φ)}
    (h : repartitionForExistedData H op ref t n = .ok blocks) :
    (∃ column, t.getActualColumnName ref 0 = .ok column) ∧
      ∀ b ∈ blocks, b.rows.isEmpty = false →
        b.columnNames = hashedValueColumn :: hashedModValueColumn :: t.columnNames := by
  obtain ⟨column, hcolumn, h⟩ := Except.bind_eq_ok_iff.mp h
  refine ⟨⟨column, hcolumn⟩, fun b hb hrows => ?_⟩
  split at h
  case h_1 => cases h
  case h_2 =>
    split at h
    case h_1 => cases h
    case h_2 =>
      cases h
      obtain ⟨block, -, rfl⟩ := List.mem_map.mp hb
      exact ofBlock_columnNames hrows

/-- The buckets have the added columns, with or without rows. -/
theorem bucket_columnNames {blocks blocks' : List (Table φ)} {b : Table φ} {columns : List String}
    (hblocks : ∀ b ∈ blocks, b.rows.isEmpty = false → b.columnNames = columns)
    (hschema : addSchemaToAllEmptyBlocks blocks = .ok blocks') (hb : b ∈ blocks') :
    b.columnNames = columns := by
  unfold addSchemaToAllEmptyBlocks at hschema
  split at hschema
  case h_1 => cases hschema
  case h_2 newEmptyBlock hlast =>
    cases hschema
    obtain ⟨b', hb', rfl⟩ := List.mem_map.mp hb
    split
    case isTrue =>
      have hmem := List.mem_filter.mp (List.mem_of_getLast? hlast)
      exact hblocks newEmptyBlock hmem.1 (by simpa using hmem.2)
    case isFalse hrows => exact hblocks b' hb' (by simpa using hrows)

/-- A reference that names a column of the table names one of its buckets, behind the added columns. -/
theorem exists_getActualColumnName_bucket {b : Table φ}
    (hb : b.columnNames = hashedValueColumn :: hashedModValueColumn :: t.columnNames)
    (h : ∃ column, t.getActualColumnName ref 0 = .ok column) :
    ∃ column, b.getActualColumnName ref 2 = .ok column := by
  cases ref with
  | name s => exact ⟨s, rfl⟩
  | index i =>
    have hrange := exists_getColumnNameByIndex_iff.mp h
    refine exists_getColumnNameByIndex_iff.mpr ?_
    rw [hb]
    simp only [List.length_cons]
    push_cast at hrange ⊢
    omega

/-- Without rows nothing is added and nothing is dropped. -/
theorem readBlockData_of_empty (hread : d.read ref = .ok (data, name)) (hrows : data.rows = []) :
    readBlockData H ref d = .ok (data, name) := by
  simp [readBlockData, hread, hrows, bind, Except.bind, pure, Except.pure]

/-- From a bucket with rows the modulus is dropped. -/
theorem readBlockData_bucket (hread : d.read ref = .ok (data, name)) (hrows : data.rows ≠ [])
    (hdata : data.columnNames = hashedValueColumn :: hashedModValueColumn :: t.columnNames)
    (hno : t.NoHelpers) :
    ∃ data', readBlockData H ref d = .ok (data', name) ∧
      data'.columnNames = hashedValueColumn :: t.columnNames := by
  have hne : hashedValueColumn ≠ hashedModValueColumn := by decide
  obtain ⟨data', hdrop⟩ := data.exists_drop (c := hashedModValueColumn) (by
    rw [hdata, List.count_cons_of_ne hne, List.count_cons_self,
      List.count_eq_zero_of_not_mem hno.2])
  refine ⟨data', ?_, ?_⟩
  · simp [readBlockData, hread, List.length_pos_of_ne_nil hrows, hdata, Table.hasColumnByName, hdrop,
      bind, Except.bind, pure, Except.pure]
  · rw [(Table.drop_eq_ok hdrop).2, hdata, List.erase_cons_tail (by simp [hne]),
      List.erase_cons_head]

/-- A file with rows gets its hash. -/
theorem readBlockData_file (hread : d.read ref = .ok (t, name)) (hrows : t.rows ≠ [])
    (hhash : t.CanHash H name) (hno : t.NoHelpers) :
    ∃ data, readBlockData H ref d = .ok (data, name) ∧
      data.columnNames = hashedValueColumn :: t.columnNames := by
  have hne : hashedModValueColumn ≠ hashedValueColumn := by decide
  obtain ⟨data, hdata⟩ := hhash
  have hcolumns := addHashColumn_columnNames hdata
  have hwidth : 0 < t.columnNames.length :=
    List.length_pos_of_ne_nil (columnNames_ne_nil_of_addHashColumn hdata)
  refine ⟨data, ?_, hcolumns⟩
  simp [readBlockData, hread, List.length_pos_of_ne_nil hrows, hwidth, Table.hasColumnByName,
    hno.1, hno.2, hdata, hcolumns, hne, bind, Except.bind, pure, Except.pure]

/-- The job keeps the columns if the hash is its only added column. -/
theorem keepsSchema_iff_of_rows
    (h : t.NoHelpers → ∃ data, readBlockData H ref d = .ok (data, name) ∧
      data.columnNames = hashedValueColumn :: t.columnNames) :
    KeepsSchema t (doAction H psi ref d) ↔ t.NoHelpers ∧ t.Unambiguous name := by
  constructor
  · intro hkeeps
    have hno := hkeeps.noHelpers
    obtain ⟨data, hread, hdata⟩ := h hno
    exact ⟨hno, (keepsSchema_iff_of_hashed hread hdata hno).mp hkeeps⟩
  · rintro ⟨hno, hunique⟩
    obtain ⟨data, hread, hdata⟩ := h hno
    exact (keepsSchema_iff_of_hashed hread hdata hno).mpr hunique

namespace TableSample

open Repartition.Sample (hasher stableSort)

def ids (xs : List String) : Table Empty where
  columnNames := ["example_id", "age"]
  rows := xs.map fun x => ⟨[.str x, .int 30], rfl⟩

/-- All rows are in the intersection. -/
def takeAll (t : Table Empty) : Option (List Nat) := some (List.range t.rows.length)

def job (d : BlockData Empty) : Except ActionError (ActionResult Empty) :=
  doAction hasher takeAll (.index 0) d

/-- A bucket of the table, found by evaluation. -/
theorem exists_bucket {t : Table Empty} {n : Nat} {P : Table Empty → Bool}
    (heval : ((repartitionForExistedData hasher stableSort (.index 0) t n).toOption.bind fun blocks =>
      (addSchemaToAllEmptyBlocks blocks).toOption).any (·.any P) = true) :
    ∃ b, IsBlock hasher stableSort (.index 0) t (.block b) ∧ P b = true := by
  cases hblocks : repartitionForExistedData hasher stableSort (.index 0) t n with
  | error e => simp [hblocks, Except.toOption] at heval
  | ok blocks =>
    cases hschema : addSchemaToAllEmptyBlocks blocks with
    | error e => simp [hblocks, hschema, Except.toOption] at heval
    | ok blocks' =>
      simp only [hblocks, hschema, Except.toOption, Option.bind_some, Option.any_some,
        List.any_eq_true] at heval
      obtain ⟨b, hb, hP⟩ := heval
      exact ⟨b, .bucket hblocks hschema hb, hP⟩

end TableSample

end Psi.Repartition
