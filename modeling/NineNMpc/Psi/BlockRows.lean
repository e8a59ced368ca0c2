-- SUMMARY: The rows of a block through a PSI job: what the hashed rows become as a table, as the input of the flow, and as the output of do_action.
import NineNMpc.Psi.BlockTable
import NineNMpc.Psi.FlowCorrect

/-!
# The rows of a block

`_read_block_data` and `do_action` of `PsiPirActor` in `psi_actors.py` once more, with
`diffie_hellman_flow` of `interconnection_psi/flow.py` as the PSI. The cells of a table are
followed from the hashed rows of a bucket to the output of its job.
-/

namespace Psi.Repartition

variable {φ : Type}

namespace Table

/-- The rows, without the proof of their width. -/
def cells (t : Table φ) : List (List (PyValue φ)) := t.rows.map (·.1)

/-- The bytes of the first cell. -/
def firstBytes : List (PyValue φ) → Bytes
  | .bytes b :: _ => b
  | _ => []

/-- `psi_in.column(0)`, a column of hashes. -/
def column0 (t : Table φ) : List Bytes := t.cells.map firstBytes

variable {t t' : Table φ} {c : String}

theorem cells_eq_nil : t.cells = [] ↔ t.rows = [] := List.map_eq_nil_iff

theorem cells_removeColumn {i : Nat} : (t.removeColumn i).cells = t.cells.map (·.eraseIdx i) := by
  simp [cells, removeColumn]

theorem cells_drop (h : t.drop c = .ok t') :
    t'.cells = t.cells.map (·.eraseIdx (t.columnNames.idxOf c)) := by
  unfold drop at h
  split at h
  · next i hi =>
    obtain ⟨-, hidx⟩ := fieldIndex_eq_some.mp hi
    obtain rfl := Except.ok.inj h
    rw [cells_removeColumn, hidx]
  · cases h

theorem cells_take {indices : List Nat} :
    (t.take indices).cells = indices.filterMap fun i => t.cells[i]? := by
  simp only [cells, take, List.map_filterMap, List.getElem?_map]

end Table

/-- The cells of a hashed row in its bucket. -/
def HashedRow.cells {width : Nat} (x : HashedRow (Row φ width)) : List (PyValue φ) :=
  .bytes x.hashed.1 :: .int (x.hashedMod.getD 0) :: x.row.1

/-- The cells of a hashed row in the input of the flow. -/
def HashedRow.psiCells {width : Nat} (x : HashedRow (Row φ width)) : List (PyValue φ) :=
  .bytes x.hashed.1 :: x.row.1

/-- The table has the added columns before these, and the hashed rows as its rows. -/
structure IsBucket (b : Table φ) (columns : List String)
    (block : List (HashedRow (Row φ columns.length))) : Prop where
  columnNames : b.columnNames = hashedValueColumn :: hashedModValueColumn :: columns
  cells : b.cells = block.map HashedRow.cells

variable {H : Hasher φ} {ref : ColumnRef} {b data : Table φ} {name : String} {columns : List String}
  {block : List (HashedRow (Row φ columns.length))}

theorem IsBucket.ofBlock (hne : block ≠ []) : IsBucket (Table.ofBlock columns block) columns block := by
  have hempty : block.isEmpty = false := by simpa using hne
  have heq : Table.ofBlock columns block =
      { columnNames := hashedValueColumn :: hashedModValueColumn :: columns
        rows := block.map fun x =>
          (x.row.cons (.int (x.hashedMod.getD 0))).cons (.bytes x.hashed.1) } := by
    simp [Table.ofBlock, hempty]
  rw [heq]
  exact ⟨rfl, List.map_map⟩

theorem cells_ofBlock : (Table.ofBlock columns block).rows = [] ↔ block = [] := by
  constructor
  · intro h
    by_contra hne
    have hcells := (IsBucket.ofBlock hne).cells
    rw [Table.cells_eq_nil.mpr h] at hcells
    simp [hne] at hcells
  · rintro rfl
    simp [Table.ofBlock]

/-- A bucket without rows has the columns of one with rows. -/
theorem IsBucket.empty (hb : b.columnNames = hashedValueColumn :: hashedModValueColumn :: columns) :
    IsBucket b.empty columns [] := ⟨hb, rfl⟩

/-- A bucket with rows loses the modulus, and nothing else. -/
theorem IsBucket.drop_of_readBlockData (h : IsBucket b columns block) (hrows : b.rows ≠ [])
    (hread : readBlockData H ref (.block b) = .ok (data, name)) :
    b.drop hashedModValueColumn = .ok data := by
  obtain ⟨⟨b', name'⟩, hb', hdata⟩ := Except.bind_eq_ok_iff.mp hread
  obtain ⟨column, -, hcolumn⟩ := Except.bind_eq_ok_iff.mp hb'
  simp only [pure, Except.pure, Except.ok.injEq, Prod.mk.injEq] at hcolumn
  obtain ⟨rfl, rfl⟩ := hcolumn
  simp only [List.length_pos_of_ne_nil hrows, h.columnNames, Table.hasColumnByName,
    List.length_cons, Nat.zero_lt_succ, and_self, ↓reduceIte, List.contains_cons, BEq.rfl,
    Bool.true_or, Bool.or_true, bind, Except.bind, pure, Except.pure] at hdata
  split at hdata
  · cases hdata
  · next data' hd =>
    simp only [Except.ok.injEq, Prod.mk.injEq] at hdata
    rw [hd, hdata.1]

/-- A bucket without rows is left as it is. -/
theorem readBlockData_of_rows_nil (hrows : b.rows = [])
    (hread : readBlockData H ref (.block b) = .ok (data, name)) : data = b := by
  obtain ⟨⟨b', name'⟩, hb', hdata⟩ := Except.bind_eq_ok_iff.mp hread
  obtain ⟨column, -, hcolumn⟩ := Except.bind_eq_ok_iff.mp hb'
  simp only [pure, Except.pure, Except.ok.injEq, Prod.mk.injEq] at hcolumn
  obtain ⟨rfl, rfl⟩ := hcolumn
  have hsame : (b, column) = (data, name) := by
    simpa [hrows, pure, Except.pure] using hdata
  exact (Prod.mk.inj hsame).1.symm

theorem IsBucket.rows_eq_nil (h : IsBucket b columns block) : b.rows = [] ↔ block = [] := by
  rw [← Table.cells_eq_nil, h.cells, List.map_eq_nil_iff]

/-- The input of the flow has the hashes before the rows, if there are any. -/
theorem IsBucket.readBlockData (h : IsBucket b columns block)
    (hread : readBlockData H ref (.block b) = .ok (data, name)) :
    data.cells = block.map HashedRow.psiCells ∧ data.columnNames.idxOf hashedValueColumn = 0 := by
  by_cases hrows : b.rows = []
  · obtain rfl := readBlockData_of_rows_nil hrows hread
    rw [Table.cells_eq_nil.mpr hrows, h.rows_eq_nil.mp hrows, h.columnNames]
    exact ⟨rfl, List.idxOf_cons_self⟩
  · have hne : hashedModValueColumn ≠ hashedValueColumn := by decide
    have hdrop := h.drop_of_readBlockData hrows hread
    have hidx : b.columnNames.idxOf hashedModValueColumn = 1 := by
      rw [h.columnNames, List.idxOf_cons_ne _ hne.symm, List.idxOf_cons_self]
    constructor
    · rw [Table.cells_drop hdrop, hidx, h.cells, List.map_map]
      rfl
    · rw [(Table.drop_eq_ok hdrop).2, h.columnNames, List.erase_cons_tail (by simp [hne.symm]),
        List.idxOf_cons_self]

/-- The columns of a job's output: a bucket without rows keeps the modulus. -/
theorem IsBucket.columns_of_readBlockData (h : IsBucket b columns block)
    (hread : Repartition.readBlockData H ref (.block b) = .ok (data, name)) :
    data.columnNames.erase hashedValueColumn =
      if block = [] then hashedModValueColumn :: columns else columns := by
  by_cases hrows : b.rows = []
  · obtain rfl := readBlockData_of_rows_nil hrows hread
    rw [if_pos (h.rows_eq_nil.mp hrows), h.columnNames, List.erase_cons_head]
  · have hne : hashedModValueColumn ≠ hashedValueColumn := by decide
    rw [if_neg (mt h.rows_eq_nil.mpr hrows),
      (Table.drop_eq_ok (h.drop_of_readBlockData hrows hread)).2, h.columnNames,
      List.erase_cons_tail (by simp [hne.symm]), List.erase_cons_head, List.erase_cons_head]

theorem column0_psiCells (hcells : data.cells = block.map HashedRow.psiCells) :
    data.column0 = block.map (·.hashed.1) := by
  rw [Table.column0, hcells, List.map_map]
  rfl

/-- What a job has made of the table it has read. -/
theorem doAction_ok {psi : Table φ → Option (List Nat)} {d : BlockData φ} {r : ActionResult φ}
    (h : doAction H psi ref d = .ok r) (hread : readBlockData H ref d = .ok (data, name)) :
    r.output.columnNames = data.columnNames.erase hashedValueColumn ∧
      r.output.cells = ((psi data).getD []).filterMap (fun i => data.cells[i]?.map
        (·.eraseIdx (data.columnNames.idxOf hashedValueColumn))) := by
  simp only [doAction, hread, Except.bind_eq_ok_iff, Except.ok.injEq, exists_eq_left'] at h
  obtain ⟨original, -, joined, -, output, hdrop, hr⟩ := h
  obtain rfl := Except.ok.inj hr
  cases hpsi : psi data with
  | none =>
    rw [hpsi] at hdrop
    refine ⟨(Table.drop_eq_ok hdrop).2, ?_⟩
    rw [Table.cells_drop hdrop]
    rfl
  | some indices =>
    rw [hpsi] at hdrop
    refine ⟨(Table.drop_eq_ok hdrop).2, ?_⟩
    rw [Table.cells_drop hdrop, Table.cells_take, List.map_filterMap]
    rfl

end Psi.Repartition
