-- SUMMARY: Items, data block metas, and the data block directory with its DataBlockManager.
import NineNMpc.Lib.Search
import Mathlib.Logic.Function.Basic
import Mathlib.Data.List.Nodup

/-!
# Data blocks and their directory

`DataJoin/data_join/raw_data_loader.py`, `data_block_maker.py` and
`data_block_manager.py`. A directory holds one meta file and one data file for each
block. The names come from `DataJoin/utils/process_manager.py`, which is not in the
repository: `Naming` keeps what the code relies on. Meta files are identified by their
index, so a directory is modelled by its metas in the order in which they were renamed
into place. An operation that raises returns the state it leaves behind and `false`.
-/

namespace DataJoin

/-! ## Configuration constants -/

def syncExampleIdNums : Nat := 2048

def removedItemsNumsFromBuffer : Nat := 1024

/-- `1 << 53`. -/
def dataBlockIndexThreshold : Nat := 9007199254740992

/-! ## Items -/

structure Item (ι ρ : Type) where
  exampleId : ι
  eventTime : Int
  record : ρ

/-- `item_dict`, in insertion order. -/
structure ItemDict (ι ρ : Type) where
  items : List (Item ι ρ)
  nodup : (items.map (·.exampleId)).Nodup

namespace ItemDict

variable {ι ρ : Type}

def ids (d : ItemDict ι ρ) : List ι := d.items.map (·.exampleId)

def get? [DecidableEq ι] (d : ItemDict ι ρ) (x : ι) : Option (Item ι ρ) :=
  d.items.find? fun item => item.exampleId = x

variable [DecidableEq ι] {d : ItemDict ι ρ} {x : ι}

theorem get?_isSome : (d.get? x).isSome = true ↔ x ∈ d.ids := by
  simp [get?, ids, List.find?_isSome]

theorem get?_eq_none : d.get? x = none ↔ x ∉ d.ids := by
  rw [← get?_isSome, Option.not_isSome_iff_eq_none]

theorem exampleId_of_get? {item : Item ι ρ} (h : d.get? x = some item) : item.exampleId = x := by
  simpa using List.find?_some h

end ItemDict

/-! ## Metas -/

structure DataBlockMeta (ι : Type) where
  blockId : String
  dataBlockIndex : Nat
  exampleIds : List ι
  startTime : Int
  endTime : Int
  deriving DecidableEq

/-- The names of `process_manager` for one data source and partition. The file names end in the
    zero-padded index, which `parse_data_block_meta.py` reads back. -/
structure Naming (ι : Type) where
  blockIdWrap : (dataBlockIndex : Nat) → (exampleIds : List ι) → (startTime endTime : Int) → String
  dataBlockFileNameWrap : DataBlockMeta ι → String
  index_of_name : ∀ m m', dataBlockFileNameWrap m = dataBlockFileNameWrap m' →
    m.dataBlockIndex = m'.dataBlockIndex

/-- `"{:08}".format(i)`. -/
def zeroPadded (i : Nat) : String := String.ofList ((Nat.toDigits 10 i).leftpad 8 '0')

theorem zeroPadded_inj {i j : Nat} (h : zeroPadded i = zeroPadded j) : i = j := by
  have hvalue : ∀ k, Nat.ofDigitChars 10 (zeroPadded k).toList 0 = k := by
    intro k
    simp [zeroPadded, List.leftpad, Nat.ofDigitChars_append]
  rw [← hvalue i, ← hvalue j, h]

/-- Names made of the source name and the padded index. -/
def Naming.padded (ι : Type) (dataSourceName : String) : Naming ι where
  blockIdWrap := fun index _ _ _ => dataSourceName ++ "." ++ zeroPadded index
  dataBlockFileNameWrap := fun m => dataSourceName ++ "." ++ zeroPadded m.dataBlockIndex ++ ".data"
  index_of_name := by
    intro m m' h
    simp only [String.append_left_inj, String.append_right_inj] at h
    exact zeroPadded_inj h

/-- The assignment to `block_id` in `data_block_finalizer`. -/
def DataBlockMeta.withBlockId {ι : Type} (naming : Naming ι) (m : DataBlockMeta ι) : DataBlockMeta ι :=
  { m with blockId := naming.blockIdWrap m.dataBlockIndex m.exampleIds m.startTime m.endTime }

@[simp] theorem DataBlockMeta.withBlockId_index {ι : Type} {naming : Naming ι} {m : DataBlockMeta ι} :
    (m.withBlockId naming).dataBlockIndex = m.dataBlockIndex := rfl

@[simp] theorem DataBlockMeta.withBlockId_exampleIds {ι : Type} {naming : Naming ι}
    {m : DataBlockMeta ι} : (m.withBlockId naming).exampleIds = m.exampleIds := rfl

@[simp] theorem DataBlockMeta.withBlockId_withBlockId {ι : Type} {naming : Naming ι}
    {m : DataBlockMeta ι} : (m.withBlockId naming).withBlockId naming = m.withBlockId naming := rfl

/-! ## The directory and its manager -/

/-- The files, and the fields of the `DataBlockManager` that works on them. `produced` is
    `_saved_data_block_index + 1`. -/
structure Store (ι ρ : Type) where
  metaFiles : List (DataBlockMeta ι) := []
  dataFiles : String → Option (List ρ) := fun _ => none
  produced : Nat := 0
  savingDataBlockIndex : Option Nat := none
  memoryBuffer : List (Nat × DataBlockMeta ι) := []

namespace Store

variable {ι ρ : Type}

def metaFile? (st : Store ι ρ) (index : Nat) : Option (DataBlockMeta ι) :=
  st.metaFiles.find? fun m => m.dataBlockIndex = index

/-- The branch of `_sync_saved_data_block_index` without a saved index. -/
def searchSaved (st : Store ι ρ) : Nat :=
  bisect (fun k => (st.metaFile? k).isSome) (dataBlockIndexThreshold + 1) 0
    (dataBlockIndexThreshold + 1)

/-- A new `DataBlockManager` on the directory. -/
def reopen (st : Store ι ρ) : Store ι ρ :=
  { st with produced := st.searchSaved, savingDataBlockIndex := none, memoryBuffer := [] }

/-- `_sync_saved_data_block_index` once a saved index is known. -/
def syncSavedDataBlockIndex (st : Store ι ρ) : Store ι ρ × Bool :=
  match st.savingDataBlockIndex with
  | none => (st, true)
  | some i =>
    if i ≠ st.produced then (st, false)
    else if (st.metaFile? i).isSome then
      ({ st with produced := i + 1, savingDataBlockIndex := none }, true)
    else ({ st with savingDataBlockIndex := none }, true)

/-- `popitem` removes the entry that was inserted last. -/
def removeItemFromDataBlockMemoryBuffer (buffer : List (Nat × DataBlockMeta ι)) :
    List (Nat × DataBlockMeta ι) :=
  buffer.take removedItemsNumsFromBuffer

/-- Assignment to a key of a `dict`. -/
def setItem (buffer : List (Nat × DataBlockMeta ι)) (index : Nat) (m : DataBlockMeta ι) :
    List (Nat × DataBlockMeta ι) :=
  if buffer.any (fun e => e.1 = index) then
    buffer.map fun e => if e.1 = index then (index, m) else e
  else buffer ++ [(index, m)]

def getItem (buffer : List (Nat × DataBlockMeta ι)) (index : Nat) : Option (DataBlockMeta ι) :=
  (buffer.find? fun e => e.1 = index).map (·.2)

def acquireProducedDataBlockNumber (st : Store ι ρ) : Store ι ρ × Option Nat :=
  match st.syncSavedDataBlockIndex with
  | (st', true) => (st', some st'.produced)
  | (st', false) => (st', none)

/-- The result of `acquire_data_block_meta_by_index`. -/
inductive Acquired (ι : Type) where
  | none
  | found (m : DataBlockMeta ι)
  | raised

def acquireDataBlockMetaByIndex (st : Store ι ρ) (index : Nat) : Store ι ρ × Acquired ι :=
  match st.syncSavedDataBlockIndex with
  | (st', false) => (st', .raised)
  | (st', true) =>
    if st'.produced ≤ index then (st', .none)
    else
      match getItem st'.memoryBuffer index with
      | some m => (st', .found m)
      | none =>
        match st'.metaFile? index with
        | none => (st', .raised)
        | some m =>
          let buffer := removeItemFromDataBlockMemoryBuffer (st'.memoryBuffer ++ [(index, m)])
          let st'' := { st' with memoryBuffer := buffer }
          -- the entry may just have been evicted: `KeyError`
          match getItem buffer index with
          | some m => (st'', .found m)
          | none => (st'', .raised)

/-- `gfile.Rename(.., overwrite=True)` of a finished data file. -/
def saveData (st : Store ι ρ) (name : String) (records : List ρ) : Store ι ρ :=
  { st with dataFiles := Function.update st.dataFiles name (some records) }

def updateDataBlockMeta (st : Store ι ρ) (m : DataBlockMeta ι) : Store ι ρ × Bool :=
  if st.savingDataBlockIndex.isSome then (st, false)
  else if m.dataBlockIndex ≠ st.produced then (st, false)
  -- `gfile.Rename` does not overwrite here
  else if (st.metaFile? m.dataBlockIndex).isSome then
    ({ st with savingDataBlockIndex := some m.dataBlockIndex }, false)
  else
    ({ st with
      metaFiles := st.metaFiles ++ [m]
      produced := m.dataBlockIndex + 1
      memoryBuffer :=
        setItem (removeItemFromDataBlockMemoryBuffer st.memoryBuffer) m.dataBlockIndex m }, true)

/-! ## What every operation leaves alone -/

variable {st : Store ι ρ} {m : DataBlockMeta ι} {index : Nat}

@[simp] theorem saveData_metaFiles {name : String} {records : List ρ} :
    (st.saveData name records).metaFiles = st.metaFiles := rfl

@[simp] theorem reopen_metaFiles : st.reopen.metaFiles = st.metaFiles := rfl

@[simp] theorem reopen_dataFiles : st.reopen.dataFiles = st.dataFiles := rfl

/-- The files of a directory. -/
def files (st : Store ι ρ) : List (DataBlockMeta ι) × (String → Option (List ρ)) :=
  (st.metaFiles, st.dataFiles)

theorem sync_files (st : Store ι ρ) : st.syncSavedDataBlockIndex.1.files = st.files := by
  simp only [syncSavedDataBlockIndex]
  split
  · rfl
  · split
    · rfl
    · split <;> rfl

theorem acquireProducedDataBlockNumber_files (st : Store ι ρ) :
    st.acquireProducedDataBlockNumber.1.files = st.files := by
  have hsync := sync_files st
  simp only [acquireProducedDataBlockNumber]
  split
  case h_1 st' h => rwa [h] at hsync
  case h_2 st' h => rwa [h] at hsync

theorem acquireDataBlockMetaByIndex_files (st : Store ι ρ) (i : Nat) :
    (st.acquireDataBlockMetaByIndex i).1.files = st.files := by
  have hsync := sync_files st
  simp only [acquireDataBlockMetaByIndex]
  split
  case h_1 st' h => rwa [h] at hsync
  case h_2 st' h =>
    rw [h] at hsync
    split
    · exact hsync
    · split
      · exact hsync
      · split
        · exact hsync
        · split <;> exact hsync

theorem updateDataBlockMeta_dataFiles : (st.updateDataBlockMeta m).1.dataFiles = st.dataFiles := by
  simp only [updateDataBlockMeta]
  split
  · rfl
  · split
    · rfl
    · split <;> rfl

/-- The meta file is there if and only if `update_data_block_meta` returns. -/
theorem updateDataBlockMeta_metaFiles (st : Store ι ρ) (m : DataBlockMeta ι) :
    (st.updateDataBlockMeta m).1.metaFiles =
      if (st.updateDataBlockMeta m).2 then st.metaFiles ++ [m] else st.metaFiles := by
  simp only [updateDataBlockMeta]
  split
  · rfl
  · split
    · rfl
    · split <;> rfl

/-- A key that the `dict` does not have is inserted behind the others. -/
theorem setItem_fresh {buffer : List (Nat × DataBlockMeta ι)} (h : ∀ e ∈ buffer, e.1 ≠ index) :
    setItem buffer index m = buffer ++ [(index, m)] := by
  have hany : buffer.any (fun e => e.1 = index) = false := by simpa using h
  rw [setItem, if_neg (by simp [hany])]

theorem getItem_eq_none {buffer : List (Nat × DataBlockMeta ι)} (h : ∀ e ∈ buffer, e.1 ≠ index) :
    getItem buffer index = none := by
  simpa [getItem] using h

theorem getItem_append_self {buffer : List (Nat × DataBlockMeta ι)}
    (h : getItem buffer index = none) : getItem (buffer ++ [(index, m)]) index = some m := by
  simp only [getItem, Option.map_eq_none_iff] at h
  simp [getItem, List.find?_append, h]

/-! ## A directory whose manager is in step with it -/

/-- The metas on disk are those of the blocks `0, …, n-1`, the manager knows `n`, and what it
    has in memory is on disk. -/
structure Synced (st : Store ι ρ) : Prop where
  contiguous : st.metaFiles.map (·.dataBlockIndex) = List.range st.metaFiles.length
  produced : st.produced = st.metaFiles.length
  saving : st.savingDataBlockIndex = none
  memory : ∀ e ∈ st.memoryBuffer, st.metaFiles[e.1]? = some e.2

theorem synced_empty : (({} : Store ι ρ)).Synced where
  contiguous := rfl
  produced := rfl
  saving := rfl
  memory := by simp

/-- In a contiguous directory the meta file of an index is the entry at that place. -/
theorem metaFile?_eq (h : st.metaFiles.map (·.dataBlockIndex) = List.range st.metaFiles.length) :
    st.metaFile? index = st.metaFiles[index]? := by
  have hindex : ∀ i (hi : i < st.metaFiles.length), (st.metaFiles[i]).dataBlockIndex = i := by
    intro i hi
    have := congrArg (·[i]?) h
    simpa [hi] using this
  cases hi : st.metaFiles[index]? with
  | none =>
    rw [metaFile?, List.find?_eq_none]
    intro m hm
    obtain ⟨i, hlt, rfl⟩ := List.getElem_of_mem hm
    have := List.getElem?_eq_none_iff.mp hi
    simp only [hindex i hlt, decide_eq_true_eq]
    omega
  | some m =>
    obtain ⟨hlt, rfl⟩ := List.getElem?_eq_some_iff.mp hi
    rw [metaFile?, List.find?_eq_some_iff_getElem]
    refine ⟨by simp [hindex index hlt], index, hlt, rfl, ?_⟩
    intro j hj
    simp only [hindex j (by omega), Bool.not_eq_true', decide_eq_false_iff_not]
    omega

theorem index_of_getElem? (h : st.metaFiles.map (·.dataBlockIndex) = List.range st.metaFiles.length)
    (hm : st.metaFiles[index]? = some m) : m.dataBlockIndex = index := by
  have := congrArg (·[index]?) h
  obtain ⟨hlt, rfl⟩ := List.getElem?_eq_some_iff.mp hm
  simpa [hlt] using this

/-- The search does not look behind the threshold. -/
theorem searchSaved_eq (h : st.metaFiles.map (·.dataBlockIndex) = List.range st.metaFiles.length) :
    st.searchSaved = min st.metaFiles.length (dataBlockIndexThreshold + 1) := by
  apply bisect_eq
  · intro k _ hk
    rw [metaFile?_eq h, Option.isSome_iff_ne_none, ne_eq, List.getElem?_eq_none_iff]
    omega
  · omega
  · omega
  · omega

namespace Synced

theorem reopen (h : st.Synced) (hlen : st.metaFiles.length ≤ dataBlockIndexThreshold + 1) :
    st.reopen.Synced where
  contiguous := h.contiguous
  produced := by
    simp only [Store.reopen, searchSaved_eq h.contiguous]
    omega
  saving := rfl
  memory := by simp [Store.reopen]

theorem sync (h : st.Synced) : st.syncSavedDataBlockIndex = (st, true) := by
  simp [syncSavedDataBlockIndex, h.saving]

theorem acquireProducedDataBlockNumber (h : st.Synced) :
    st.acquireProducedDataBlockNumber = (st, some st.metaFiles.length) := by
  simp [Store.acquireProducedDataBlockNumber, h.sync, h.produced]

theorem saveData (h : st.Synced) {name : String} {records : List ρ} :
    (st.saveData name records).Synced :=
  { h with }

/-- The manager hands out the meta at the index, or nothing. -/
theorem acquireDataBlockMetaByIndex (h : st.Synced) (index : Nat) :
    (st.acquireDataBlockMetaByIndex index).1.Synced ∧
      ∀ m, (st.acquireDataBlockMetaByIndex index).2 = .found m → st.metaFiles[index]? = some m := by
  have hget : ∀ {buffer : List (Nat × DataBlockMeta ι)} {m : DataBlockMeta ι},
      (∀ e ∈ buffer, st.metaFiles[e.1]? = some e.2) → getItem buffer index = some m →
      st.metaFiles[index]? = some m := by
    intro buffer m hbuffer hm
    simp only [getItem, Option.map_eq_some_iff] at hm
    obtain ⟨e, he, rfl⟩ := hm
    have hkey : e.1 = index := by simpa using List.find?_some he
    exact hkey ▸ hbuffer e (List.mem_of_find?_eq_some he)
  simp only [Store.acquireDataBlockMetaByIndex, h.sync]
  split
  · exact ⟨h, by simp⟩
  · split
    case h_1 m hm =>
      refine ⟨h, ?_⟩
      rintro _ ⟨⟩
      exact hget h.memory hm
    case h_2 =>
      split
      case h_1 => exact ⟨h, by simp⟩
      case h_2 m hfile =>
        have hmem : ∀ e ∈ removeItemFromDataBlockMemoryBuffer (st.memoryBuffer ++ [(index, m)]),
            st.metaFiles[e.1]? = some e.2 := by
          intro e he
          obtain he | he := List.mem_append.mp (List.mem_of_mem_take he)
          · exact h.memory e he
          · rw [List.mem_singleton.mp he, ← metaFile?_eq h.contiguous]
            exact hfile
        split
        case h_1 m' hm' =>
          refine ⟨{ h with memory := hmem }, ?_⟩
          rintro _ ⟨⟩
          exact hget hmem hm'
        case h_2 => exact ⟨{ h with memory := hmem }, by simp⟩

theorem memory_setItem (h : st.Synced) (hm : m.dataBlockIndex = st.metaFiles.length) :
    ∀ e ∈ setItem (removeItemFromDataBlockMemoryBuffer st.memoryBuffer) m.dataBlockIndex m,
      (st.metaFiles ++ [m])[e.1]? = some e.2 := by
  intro e he
  have hold : ∀ e ∈ removeItemFromDataBlockMemoryBuffer st.memoryBuffer,
      e.1 < st.metaFiles.length ∧ (st.metaFiles ++ [m])[e.1]? = some e.2 := by
    intro e he
    have hfile := h.memory e (List.mem_of_mem_take he)
    obtain ⟨hlt, _⟩ := List.getElem?_eq_some_iff.mp hfile
    exact ⟨hlt, by rw [List.getElem?_append_left hlt, hfile]⟩
  have hnew : (st.metaFiles ++ [m])[m.dataBlockIndex]? = some m := by simp [hm]
  simp only [setItem] at he
  split at he
  · obtain ⟨e', he', rfl⟩ := List.mem_map.mp he
    split
    · exact hnew
    · exact (hold e' he').2
  · obtain he | he := List.mem_append.mp he
    · exact (hold e he).2
    · rw [List.mem_singleton.mp he]
      exact hnew

theorem updateDataBlockMeta_eq (h : st.Synced) (hm : m.dataBlockIndex = st.metaFiles.length) :
    st.updateDataBlockMeta m = ({ st with
      metaFiles := st.metaFiles ++ [m]
      produced := m.dataBlockIndex + 1
      memoryBuffer :=
        setItem (removeItemFromDataBlockMemoryBuffer st.memoryBuffer) m.dataBlockIndex m }, true) := by
  have hfree : st.metaFile? m.dataBlockIndex = none := by
    rw [metaFile?_eq h.contiguous, hm]
    simp
  have hp : ¬ (m.dataBlockIndex ≠ st.produced) := by simp [hm, h.produced]
  rw [Store.updateDataBlockMeta, if_neg (by simp [h.saving]), if_neg hp, if_neg (by simp [hfree])]

/-- The block with the next index is stored. -/
theorem updateDataBlockMeta (h : st.Synced) (hm : m.dataBlockIndex = st.metaFiles.length) :
    (st.updateDataBlockMeta m).2 = true ∧ (st.updateDataBlockMeta m).1.Synced ∧
      (st.updateDataBlockMeta m).1.metaFiles = st.metaFiles ++ [m] := by
  rw [h.updateDataBlockMeta_eq hm]
  refine ⟨rfl, ⟨?_, ?_, h.saving, h.memory_setItem hm⟩, rfl⟩
  · simp [h.contiguous, hm, List.range_succ]
  · simp [hm]

/-- A block that has just been stored is still in memory. -/
theorem acquire_stored (h : st.Synced) (hm : m.dataBlockIndex = st.metaFiles.length) :
    (st.updateDataBlockMeta m).1.acquireDataBlockMetaByIndex m.dataBlockIndex =
      ((st.updateDataBlockMeta m).1, .found m) := by
  obtain ⟨_, hsync, hfiles⟩ := h.updateDataBlockMeta hm
  have hold : ∀ e ∈ removeItemFromDataBlockMemoryBuffer st.memoryBuffer, e.1 ≠ m.dataBlockIndex := by
    intro e he heq
    have hfile := h.memory e (List.mem_of_mem_take he)
    obtain ⟨hlt, _⟩ := List.getElem?_eq_some_iff.mp hfile
    omega
  have hitem : getItem (setItem (removeItemFromDataBlockMemoryBuffer st.memoryBuffer)
      m.dataBlockIndex m) m.dataBlockIndex = some m := by
    rw [setItem_fresh hold, getItem_append_self (getItem_eq_none hold)]
  have hmem : getItem (st.updateDataBlockMeta m).1.memoryBuffer m.dataBlockIndex = some m := by
    rw [h.updateDataBlockMeta_eq hm]
    exact hitem
  have hlt : ¬ (st.updateDataBlockMeta m).1.produced ≤ m.dataBlockIndex := by
    rw [hsync.produced, hfiles, List.length_append, List.length_singleton, hm]
    omega
  simp only [Store.acquireDataBlockMetaByIndex, hsync.sync, if_neg hlt, hmem]

end Synced

end Store

end DataJoin
