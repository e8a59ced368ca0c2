-- SUMMARY: DataManagers.save_data_block_meta_info on the table of data block metas, and when it is an upsert.
import NineNMpc.Lib.Dict
import Mathlib.Logic.Function.Basic

/-!
# Saving the meta of a data block

`DataJoin/manager/data_managers.py` on the model of `DataJoin/db/db_models.py`. A table
has its primary key for keys; `save` stores the fields of the object, of which those that
were never set are null, and returns: that the database lets `dfs_data_block_dir` and
`data_source_name` be null, which the model declares `NOT NULL`, is taken for granted here.
Values are taken up to Python's `==`, which makes `False` a 0.
-/

namespace DataJoin

namespace DataManagers

inductive Value (α : Type) where
  | null
  | int (n : Int)
  | str (s : String)
  | other (a : α)
deriving DecidableEq

/-! ## The model -/

/-- The columns of `DataBlockMeta`. -/
inductive Field where
  | blockId
  | dfsDataBlockDir
  | partitionId
  | fileVersion
  | startTime
  | endTime
  | exampleIds
  | leaderStartIndex
  | leaderEndIndex
  | followerStartIndex
  | followerEndIndex
  | dataBlockIndex
  | followerRestartIndex
  | createTime
  | updateTime
  | createStatus
  | consumedStatus
  | dataSourceName
deriving DecidableEq

def Field.all : List Field :=
  [.blockId, .dfsDataBlockDir, .partitionId, .fileVersion, .startTime, .endTime, .exampleIds,
    .leaderStartIndex, .leaderEndIndex, .followerStartIndex, .followerEndIndex, .dataBlockIndex,
    .followerRestartIndex, .createTime, .updateTime, .createStatus, .consumedStatus, .dataSourceName]

def Field.name : Field → String
  | blockId => "block_id"
  | dfsDataBlockDir => "dfs_data_block_dir"
  | partitionId => "partition_id"
  | fileVersion => "file_version"
  | startTime => "start_time"
  | endTime => "end_time"
  | exampleIds => "example_ids"
  | leaderStartIndex => "leader_start_index"
  | leaderEndIndex => "leader_end_index"
  | followerStartIndex => "follower_start_index"
  | followerEndIndex => "follower_end_index"
  | dataBlockIndex => "data_block_index"
  | followerRestartIndex => "follower_restart_index"
  | createTime => "create_time"
  | updateTime => "update_time"
  | createStatus => "create_status"
  | consumedStatus => "consumed_status"
  | dataSourceName => "data_source_name"

/-- `getattr(DataBlockMeta, k)`, `none` if it raises or has no default. -/
def Field.ofName (k : String) : Option Field := Field.all.find? (·.name = k)

variable {α : Type}

def Field.default : Field → Value α
  | partitionId | fileVersion | createStatus | consumedStatus => .int 0
  | exampleIds => .str ""
  | _ => .null

theorem Field.ofName_name (f : Field) : Field.ofName f.name = some f := by
  cases f <;> decide +kernel

theorem Field.name_of_ofName {k : String} {f : Field} (h : Field.ofName k = some f) : f.name = k := by
  simpa using List.find?_some h

/-- A row, and the object made of it. -/
abbrev Row (α : Type) : Type := Field → Value α

/-- The rows under their block ids. -/
abbrev Table (α : Type) : Type := Dict String (Row α)

/-! ## Saving -/

/-- The fields of the manager that are saved. -/
structure Manager (α : Type) where
  blockId : String
  partitionId : Value α
  fileVersion : Value α

/-- The answers of `current_timestamp`: for the two times of a new object, and in `save`. -/
structure Times where
  created : Int
  updated : Int
  saved : Int

/-- `DataBlockMeta()` with its times. -/
def newDataBlockMeta (times : Times) : Row α :=
  Function.update (Function.update Field.default .createTime (.int times.created))
    .updateTime (.int times.updated)

def Manager.assign (m : Manager α) (row : Row α) : Row α :=
  Function.update (Function.update (Function.update row .blockId (.str m.blockId))
    .partitionId m.partitionId) .fileVersion m.fileVersion

variable [DecidableEq α]

/-- One round of the loop over `data_block_meta_info.items()`. -/
def setItem (row : Row α) (item : String × Value α) : Row α :=
  if item.1 ∈ ["block_id", "partition_id", "file_version"] then row
  else
    match Field.ofName item.1 with
    | none => row
    | some f => if item.2 = f.default then row else Function.update row f item.2

/-- `DataBaseModel.save`. -/
def saveRow (times : Times) (row : Row α) : Row α :=
  Function.update row .updateTime (.int times.saved)

/-- What is saved, on an object that was read or made. -/
def Manager.fill (m : Manager α) (times : Times) (info : Dict String (Value α)) (row : Row α) : Row α :=
  saveRow times (info.entries.foldl setItem (m.assign row))

def saveDataBlockMetaInfo (m : Manager α) (times : Times) (info : Dict String (Value α))
    (create : Bool) (table : Table α) : Table α :=
  match table.get? m.blockId with
  | some row => table.set m.blockId (m.fill times info row)
  | none =>
    if create then table.set m.blockId (m.fill times info (newDataBlockMeta times)) else table

/-! ## What is saved -/

variable {m : Manager α} {times times' : Times} {info : Dict String (Value α)} {create : Bool}
  {table : Table α} {row : Row α} {f : Field} {v : Value α}

/-- A field whose value is the caller's. -/
def Field.Free (f : Field) : Prop := f ∉ [.blockId, .partitionId, .fileVersion, .updateTime]

instance : Decidable f.Free :=
  inferInstanceAs (Decidable (f ∉ [Field.blockId, .partitionId, .fileVersion, .updateTime]))

theorem setItem_of_ne {item : String × Value α} (h : item.1 ≠ f.name) : setItem row item f = row f := by
  unfold setItem
  split
  · rfl
  · cases hg : Field.ofName item.1 with
    | none => rfl
    | some g =>
      dsimp only
      split
      · rfl
      · refine Function.update_of_ne ?_ _ _
        rintro rfl
        exact h (Field.name_of_ofName hg).symm

theorem setItem_manager (h : f ∈ [Field.blockId, .partitionId, .fileVersion])
    {item : String × Value α} : setItem row item f = row f := by
  by_cases hname : item.1 = f.name
  · have hmem : item.1 ∈ ["block_id", "partition_id", "file_version"] := by
      rw [hname]
      revert h
      cases f <;> decide
    rw [setItem, if_pos hmem]
  · exact setItem_of_ne hname

theorem setItem_self (h : f.Free) :
    setItem row (f.name, v) f = if v = f.default then row f else v := by
  have hmem : f.name ∉ ["block_id", "partition_id", "file_version"] := by
    revert h
    cases f <;> decide
  rw [setItem, if_neg hmem]
  simp only [Field.ofName_name]
  split
  · rfl
  · exact Function.update_self ..

/-- What an item makes of the field it names. -/
def overwrite (f : Field) (old : Value α) : Option (Value α) → Value α
  | none => old
  | some v => if v = f.default then old else v

theorem foldl_setItem_of_notMem {items : List (String × Value α)} (h : f.name ∉ items.map (·.1)) :
    items.foldl setItem row f = row f := by
  induction items generalizing row with
  | nil => rfl
  | cons item items ih =>
    rw [List.map_cons, List.mem_cons, not_or] at h
    rw [List.foldl_cons, ih h.2, setItem_of_ne (Ne.symm h.1)]

theorem foldl_setItem (hfree : f.Free) {items : List (String × Value α)}
    (hnodup : (items.map (·.1)).Nodup) :
    items.foldl setItem row f =
      overwrite f (row f) ((items.find? (·.1 = f.name)).map (·.2)) := by
  induction items generalizing row with
  | nil => rfl
  | cons item items ih =>
    rw [List.map_cons, List.nodup_cons] at hnodup
    rw [List.foldl_cons]
    by_cases hname : item.1 = f.name
    · obtain ⟨k, v⟩ := item
      obtain rfl : k = f.name := hname
      rw [foldl_setItem_of_notMem hnodup.1, setItem_self hfree, List.find?_cons_of_pos (by simp)]
      rfl
    · rw [ih hnodup.2, setItem_of_ne hname, List.find?_cons_of_neg (by simpa using hname)]

theorem foldl_setItem_manager (h : f ∈ [Field.blockId, .partitionId, .fileVersion])
    {items : List (String × Value α)} : items.foldl setItem row f = row f := by
  induction items generalizing row with
  | nil => rfl
  | cons item items ih => rw [List.foldl_cons, ih, setItem_manager h]

omit [DecidableEq α] in
theorem Manager.assign_free (h : f.Free) : m.assign row f = row f := by
  have hne : f ≠ .blockId ∧ f ≠ .partitionId ∧ f ≠ .fileVersion := by
    revert h
    cases f <;> decide
  rw [assign, Function.update_of_ne hne.2.2, Function.update_of_ne hne.2.1,
    Function.update_of_ne hne.1]

/-- A free field of the row that is saved. -/
theorem Manager.fill_free (h : f.Free) :
    m.fill times info row f = overwrite f (row f) (info.get? f.name) := by
  have hne : f ≠ .updateTime := by
    revert h
    cases f <;> decide
  rw [fill, saveRow, Function.update_of_ne hne, foldl_setItem h info.nodup, assign_free h]
  rfl

theorem Manager.fill_manager (h : f ∈ [Field.blockId, .partitionId, .fileVersion]) :
    m.fill times info row f = m.assign row f := by
  have hne : f ≠ .updateTime := by
    revert h
    cases f <;> decide
  rw [fill, saveRow, Function.update_of_ne hne, foldl_setItem_manager h]

/-- The object that is filled. -/
def startRow (m : Manager α) (times : Times) (table : Table α) : Row α :=
  (table.get? m.blockId).getD (newDataBlockMeta times)

theorem saveDataBlockMetaInfo_create :
    saveDataBlockMetaInfo m times info true table =
      table.set m.blockId (m.fill times info (startRow m times table)) := by
  unfold saveDataBlockMetaInfo startRow
  cases table.get? m.blockId <;> rfl

/-- No other row is touched. -/
theorem get?_saveDataBlockMetaInfo_of_ne {k : String} (h : k ≠ m.blockId) :
    (saveDataBlockMetaInfo m times info create table).get? k = table.get? k := by
  unfold saveDataBlockMetaInfo
  split
  · rw [Dict.get?_set, if_neg h]
  · split
    · rw [Dict.get?_set, if_neg h]
    · rfl

/-! ## Upserts -/

/-- One row has the block id, with the manager's fields and the values of the info, and what the info
    does not name is as it was. Saved again, it is the same but for its time. -/
structure Upserts (m : Manager α) (times times' : Times) (info : Dict String (Value α))
    (table : Table α) : Prop where
  one : (saveDataBlockMetaInfo m times info true table).keys.count m.blockId = 1
  row : ∃ row, (saveDataBlockMetaInfo m times info true table).get? m.blockId = some row ∧
    row .blockId = .str m.blockId ∧ row .partitionId = m.partitionId ∧
      row .fileVersion = m.fileVersion ∧
        (∀ f : Field, f.Free → ∀ v, info.get? f.name = some v → row f = v) ∧
          ∀ old, table.get? m.blockId = some old →
            ∀ f : Field, f.Free → info.get? f.name = none → row f = old f
  twice : ∃ row row', (saveDataBlockMetaInfo m times info true table).get? m.blockId = some row ∧
    (saveDataBlockMetaInfo m times' info true
      (saveDataBlockMetaInfo m times info true table)).get? m.blockId = some row' ∧
        ∀ f, f ≠ .updateTime → row' f = row f

/-- Saving twice is saving once, but for the time. -/
theorem Manager.fill_fill (hf : f ≠ .updateTime) :
    m.fill times' info (m.fill times info row) f = m.fill times info row f := by
  by_cases hfree : f.Free
  · rw [fill_free hfree, fill_free hfree]
    cases info.get? f.name with
    | none => rfl
    | some v =>
      simp only [overwrite]
      split <;> rfl
  · have hmem : f ∈ [Field.blockId, .partitionId, .fileVersion] := by
      unfold Field.Free at hfree
      rw [not_not] at hfree
      revert hfree hf
      cases f <;> decide
    rw [fill_manager hmem, fill_manager hmem]
    simp only [List.mem_cons, List.not_mem_nil, or_false] at hmem
    rcases hmem with rfl | rfl | rfl <;> simp [assign]

/-- The row is an upsert exactly when an item that is skipped, since its value is the default, has
    that value already. -/
theorem save_upserts_iff :
    Upserts m times times' info table ↔
      ∀ f : Field, f.Free → info.get? f.name = some f.default →
        startRow m times table f = f.default := by
  have hget : (saveDataBlockMetaInfo m times info true table).get? m.blockId =
      some (m.fill times info (startRow m times table)) := by
    rw [saveDataBlockMetaInfo_create, Dict.get?_set, if_pos rfl]
  constructor
  · rintro ⟨-, ⟨row, hrow, -, -, -, hinfo, -⟩, -⟩ f hfree hdefault
    obtain rfl := Option.some.inj (hget.symm.trans hrow)
    have hvalue := hinfo f hfree _ hdefault
    rw [Manager.fill_free hfree, hdefault] at hvalue
    simpa [overwrite] using hvalue
  · intro hcond
    refine ⟨?_, ⟨_, hget, ?_, ?_, ?_, fun f hfree v hv => ?_, fun old hold f hfree hnone => ?_⟩, ?_⟩
    · have hmem : m.blockId ∈ (saveDataBlockMetaInfo m times info true table).keys := by
        rw [← Dict.get?_isSome, hget]
        rfl
      exact List.count_eq_one_of_mem (Dict.nodup _) hmem
    · rw [Manager.fill_manager (by decide)]
      simp [Manager.assign]
    · rw [Manager.fill_manager (by decide)]
      simp [Manager.assign]
    · rw [Manager.fill_manager (by decide)]
      simp [Manager.assign]
    · rw [Manager.fill_free hfree, hv, overwrite]
      split
      · next heq => rw [hcond f hfree (heq ▸ hv), heq]
      · rfl
    · rw [Manager.fill_free hfree, hnone, overwrite, startRow, hold]
      rfl
    · refine ⟨_, m.fill times' info (m.fill times info (startRow m times table)), hget, ?_,
        fun f hf => Manager.fill_fill hf⟩
      rw [saveDataBlockMetaInfo_create, Dict.get?_set, if_pos rfl, startRow, hget]
      rfl

omit [DecidableEq α] in
/-- On a new row the only value that is not the default is the time it was created. -/
theorem newDataBlockMeta_eq_default_iff (h : f.Free) :
    newDataBlockMeta (α := α) times f = f.default ↔ f ≠ .createTime := by
  have hne : f ≠ .updateTime := by
    revert h
    cases f <;> decide
  rw [newDataBlockMeta, Function.update_of_ne hne]
  by_cases hf : f = .createTime
  · subst hf
    simp [Field.default]
  · rw [Function.update_of_ne hf]
    simp [hf]

/-- A save is an upsert exactly when each field that the info sets to its default has that value in
    the existing row, or is not the creation time of a new one. -/
theorem saveDataBlockMetaInfo_upserts_iff :
    Upserts m times times' info table ↔
      ∀ f : Field, f.Free → info.get? f.name = some f.default →
        match table.get? m.blockId with
        | some old => old f = f.default
        | none => f ≠ .createTime := by
  rw [save_upserts_iff]
  refine forall₂_congr fun f hfree => imp_congr_right fun _ => ?_
  unfold startRow
  cases table.get? m.blockId with
  | some old => exact Iff.rfl
  | none => exact newDataBlockMeta_eq_default_iff hfree

namespace Sample

def manager : Manager Nat := ⟨"block-1", .int 0, .int 0⟩

def created : Dict String (Value Nat) := { entries := [("create_status", .int 2)] }

def reset : Dict String (Value Nat) := { entries := [("create_status", .int 0)] }

/-- A row with status 2. -/
def stored : Table Nat := saveDataBlockMetaInfo manager ⟨1, 1, 1⟩ created true {}

/-- The status is not set back to 0. -/
theorem reset_not_upserts :
    ((saveDataBlockMetaInfo manager ⟨2, 2, 2⟩ reset true stored).get? "block-1").map (· .createStatus) =
        some (.int 2) ∧
      ¬ Upserts manager ⟨2, 2, 2⟩ ⟨3, 3, 3⟩ reset stored := by
  refine ⟨by decide +kernel, fun h => ?_⟩
  have hstatus := save_upserts_iff.mp h .createStatus (by decide) (by decide +kernel)
  revert hstatus
  decide +kernel

end Sample

end DataManagers

end DataJoin
