-- SUMMARY: Histories of DataBlockManagers on one directory: the count of produced blocks with failing renames, and when a stored meta can be read back.
import NineNMpc.Lib.Machine
import NineNMpc.DataJoin.Store

/-!
# Histories of a data block directory

`DataJoin/data_join/data_block_manager.py` over whole histories: new managers on the same
directory, updates with any index, renames that raise before or after they have taken
effect, and reads in any order. The other modules use `Store.updateDataBlockMeta`, which
is the update whose rename does not fail.
-/

namespace DataJoin

namespace Store

variable {ι ρ : Type} {st : Store ι ρ} {m : DataBlockMeta ι} {i : Nat}

/-! ## Updates with a failing rename -/

/-- `gfile.Rename` returns, or raises before or after it has taken effect. -/
inductive Rename where
  | returns
  | raisesBefore
  | raisesAfter
  deriving DecidableEq

/-- `update_data_block_meta` for a meta with a natural index. -/
def renameDataBlockMeta (st : Store ι ρ) (m : DataBlockMeta ι) (rename : Rename) :
    Store ι ρ × Bool :=
  if st.savingDataBlockIndex.isSome then (st, false)
  else if m.dataBlockIndex ≠ st.produced then (st, false)
  else
    let saving := { st with savingDataBlockIndex := some m.dataBlockIndex }
    -- an existing target is not overwritten
    if (st.metaFile? m.dataBlockIndex).isSome then (saving, false)
    else
      match rename with
      | .raisesBefore => (saving, false)
      | .raisesAfter => ({ saving with metaFiles := st.metaFiles ++ [m] }, false)
      | .returns => st.updateDataBlockMeta m

theorem renameDataBlockMeta_returns (st : Store ι ρ) (m : DataBlockMeta ι) :
    st.renameDataBlockMeta m .returns = st.updateDataBlockMeta m := by
  unfold renameDataBlockMeta updateDataBlockMeta
  split
  · rfl
  · split
    · rfl
    · dsimp only
      split <;> rfl

/-- `update_data_block_meta` for the meta `m` with any index; the tmp file may be missing. -/
def tryUpdateDataBlockMeta (st : Store ι ρ) (index : Int) (m : DataBlockMeta ι) (tmpExists : Bool)
    (rename : Rename) : Store ι ρ × Bool :=
  if tmpExists then
    match index with
    | .ofNat i => st.renameDataBlockMeta { m with dataBlockIndex := i } rename
    -- the saved index is at least `-1`, so a negative index is not consecutive
    | .negSucc _ => (st, false)
  else (st, false)

/-- One call of a history; `create` is a new manager on the directory. -/
inductive Op (ι : Type) where
  | create
  | update (index : Int) (m : DataBlockMeta ι) (tmpExists : Bool) (rename : Rename)
  | acquireNumber
  | acquire (index : Nat)

def manager : Machine (Store ι ρ) (Op ι) where
  step st
    | .create => some st.reopen
    | .update index m tmpExists rename => some (st.tryUpdateDataBlockMeta index m tmpExists rename).1
    | .acquireNumber => some st.acquireProducedDataBlockNumber.1
    | .acquire index => some (st.acquireDataBlockMetaByIndex index).1

/-! ## The count of produced blocks -/

/-- The metas on disk are those of the blocks `0, …, n-1`; the manager has counted all of them, or
    all but the one whose rename it does not know the outcome of. Behind the threshold of the
    search it may have counted fewer. -/
structure Tracked (st : Store ι ρ) : Prop where
  contiguous : st.metaFiles.map (·.dataBlockIndex) = List.range st.metaFiles.length
  le : st.produced ≤ st.metaFiles.length
  saving : ∀ i, st.savingDataBlockIndex = some i → i = st.produced
  exact : st.metaFiles.length ≤ dataBlockIndexThreshold + 1 →
    st.metaFiles.length = st.produced ∨
      st.savingDataBlockIndex.isSome = true ∧ st.metaFiles.length = st.produced + 1

theorem tracked_empty : ({} : Store ι ρ).Tracked where
  contiguous := rfl
  le := Nat.le_refl _
  saving := by simp
  exact := fun _ => .inl rfl

namespace Tracked

theorem metaFile?_isSome (h : st.Tracked) : (st.metaFile? i).isSome = true ↔ i < st.metaFiles.length := by
  rw [metaFile?_eq h.contiguous]
  simp

theorem reopen (h : st.Tracked) : st.reopen.Tracked where
  contiguous := h.contiguous
  le := by
    simp only [Store.reopen, searchSaved_eq h.contiguous]
    omega
  saving := by simp [Store.reopen]
  exact := by
    intro hlen
    simp only [Store.reopen, searchSaved_eq h.contiguous] at hlen ⊢
    exact .inl (by omega)

/-- Where the manager waits for the outcome of a rename, it looks at the file. -/
theorem sync (h : st.Tracked) :
    st.syncSavedDataBlockIndex.2 = true ∧ st.syncSavedDataBlockIndex.1.Tracked ∧
      st.syncSavedDataBlockIndex.1.savingDataBlockIndex = none := by
  unfold syncSavedDataBlockIndex
  split
  case h_1 hnone => exact ⟨rfl, h, hnone⟩
  case h_2 i hsome =>
    obtain rfl := h.saving i hsome
    have hexists := h.metaFile?_isSome (i := st.produced)
    rw [if_neg (not_not_intro rfl)]
    split
    case isTrue hfile =>
      have hlt := hexists.mp hfile
      refine ⟨rfl, ⟨h.contiguous, hlt, by simp, fun hlen => ?_⟩, rfl⟩
      obtain heq | ⟨_, heq⟩ := h.exact hlen
      · omega
      · exact .inl heq
    case isFalse hfile =>
      have hge := mt hexists.mpr hfile
      refine ⟨rfl, ⟨h.contiguous, h.le, by simp, fun _ => .inl ?_⟩, rfl⟩
      have := h.le
      dsimp only
      omega

/-- The directory with another memory buffer. -/
theorem withMemory (h : st.Tracked) (buffer : List (Nat × DataBlockMeta ι)) :
    ({ st with memoryBuffer := buffer } : Store ι ρ).Tracked :=
  { h with }

theorem acquireProducedDataBlockNumber (h : st.Tracked) :
    st.acquireProducedDataBlockNumber.1.Tracked := by
  obtain ⟨_, hsync, _⟩ := h.sync
  unfold Store.acquireProducedDataBlockNumber
  split
  case h_1 st' heq => rwa [heq] at hsync
  case h_2 st' heq => rwa [heq] at hsync

/-- The count is the number of meta files, as long as the search reaches that far. -/
theorem produced_eq (h : st.Tracked) (hlen : st.metaFiles.length ≤ dataBlockIndexThreshold + 1) :
    st.acquireProducedDataBlockNumber.2 = some st.metaFiles.length := by
  obtain ⟨hret, hsync, hsaving⟩ := h.sync
  have hfiles : st.syncSavedDataBlockIndex.1.metaFiles = st.metaFiles :=
    congrArg Prod.fst st.sync_files
  unfold Store.acquireProducedDataBlockNumber
  split
  case h_1 st' heq =>
    simp only [heq] at hsync hsaving hfiles
    obtain hcount | ⟨hsome, _⟩ := hsync.exact (hfiles ▸ hlen)
    · rw [← hcount, hfiles]
    · simp [hsaving] at hsome
  case h_2 st' heq => simp [heq] at hret

theorem acquireDataBlockMetaByIndex (h : st.Tracked) (i : Nat) :
    (st.acquireDataBlockMetaByIndex i).1.Tracked := by
  obtain ⟨_, hsync, _⟩ := h.sync
  unfold Store.acquireDataBlockMetaByIndex
  split
  case h_1 st' heq => rwa [heq] at hsync
  case h_2 st' heq =>
    rw [heq] at hsync
    split
    · exact hsync
    · split
      · exact hsync
      · split
        · exact hsync
        · dsimp only
          split
          · exact hsync.withMemory _
          · exact hsync.withMemory _

/-- The disk changes only by the file of the next index. -/
theorem renameDataBlockMeta (h : st.Tracked) (m : DataBlockMeta ι) (rename : Rename) :
    (st.renameDataBlockMeta m rename).1.Tracked ∧
      (m.dataBlockIndex ≠ st.metaFiles.length →
        (st.renameDataBlockMeta m rename).1.files = st.files) := by
  unfold Store.renameDataBlockMeta
  split
  case isTrue => exact ⟨h, fun _ => rfl⟩
  case isFalse hsaving =>
    split
    case isTrue => exact ⟨h, fun _ => rfl⟩
    case isFalse hindex =>
      have hindex : m.dataBlockIndex = st.produced := not_not.mp hindex
      have hexact : st.metaFiles.length ≤ dataBlockIndexThreshold + 1 →
          st.metaFiles.length = st.produced := by
        intro hlen
        obtain heq | ⟨hsome, _⟩ := h.exact hlen
        · exact heq
        · exact absurd hsome hsaving
      have hpending : ({ st with savingDataBlockIndex := some m.dataBlockIndex } : Store ι ρ).Tracked :=
        { h with
          saving := fun i hi => (Option.some.inj hi).symm.trans hindex
          exact := fun hlen => .inl (hexact hlen) }
      dsimp only
      split
      case isTrue => exact ⟨hpending, fun _ => rfl⟩
      case isFalse hfree =>
        -- no file has this index, so it is the next one
        have hnext : st.produced = st.metaFiles.length := by
          have hge := mt (h.metaFile?_isSome (i := m.dataBlockIndex)).mpr hfree
          have := h.le
          omega
        have happend : (st.metaFiles ++ [m]).map (·.dataBlockIndex) =
            List.range (st.metaFiles ++ [m]).length := by
          simp [h.contiguous, hindex, hnext, List.range_succ]
        refine ⟨?_, fun hne => absurd (hindex.trans hnext) hne⟩
        cases rename with
        | raisesBefore => exact hpending
        | raisesAfter =>
          refine ⟨happend, ?_, fun i hi => (Option.some.inj hi).symm.trans hindex,
            fun _ => .inr ⟨rfl, ?_⟩⟩
          · dsimp only
            rw [List.length_append, hnext]
            exact Nat.le_succ _
          · simp [hnext]
        | returns =>
          simp only [updateDataBlockMeta, if_neg hsaving, if_neg (not_not_intro hindex), if_neg hfree]
          refine ⟨happend, ?_, fun i hi => ?_, fun _ => .inl ?_⟩
          · simp [hindex, hnext]
          · have hi : st.savingDataBlockIndex = some i := hi
            simp [hi] at hsaving
          · simp [hindex, hnext]

theorem tryUpdateDataBlockMeta (h : st.Tracked) (index : Int) (m : DataBlockMeta ι)
    (tmpExists : Bool) (rename : Rename) :
    (st.tryUpdateDataBlockMeta index m tmpExists rename).1.Tracked ∧
      (index ≠ st.metaFiles.length →
        (st.tryUpdateDataBlockMeta index m tmpExists rename).1.files = st.files) := by
  unfold Store.tryUpdateDataBlockMeta
  split
  · cases index with
    | ofNat i =>
      obtain ⟨htracked, hfiles⟩ := h.renameDataBlockMeta { m with dataBlockIndex := i } rename
      refine ⟨htracked, fun hne => hfiles fun heq => hne ?_⟩
      exact congrArg Int.ofNat heq
    | negSucc k => exact ⟨h, fun _ => rfl⟩
  · exact ⟨h, fun _ => rfl⟩

theorem step {op : Op ι} {st' : Store ι ρ} (h : st.Tracked) (hs : manager.step st op = some st') :
    st'.Tracked := by
  cases op with
  | create =>
    cases hs
    exact h.reopen
  | update index m tmpExists rename =>
    cases hs
    exact (h.tryUpdateDataBlockMeta index m tmpExists rename).1
  | acquireNumber =>
    cases hs
    exact h.acquireProducedDataBlockNumber
  | acquire index =>
    cases hs
    exact h.acquireDataBlockMetaByIndex index

end Tracked

/-- The count survives failed renames and new managers. -/
theorem produced_number_survives {ops : List (Op ι)}
    (hrun : manager.run ({} : Store ι ρ) ops = some st) :
    ∃ n, st.metaFiles.map (·.dataBlockIndex) = List.range n ∧
      (n ≤ dataBlockIndexThreshold → st.acquireProducedDataBlockNumber.2 = some n) ∧
      ∀ (index : Int) (m : DataBlockMeta ι) (tmpExists : Bool) (rename : Rename), index ≠ n →
        (st.tryUpdateDataBlockMeta index m tmpExists rename).1.files = st.files := by
  have h : st.Tracked := manager.run_invariant (fun _ _ _ => Tracked.step) hrun tracked_empty
  refine ⟨st.metaFiles.length, h.contiguous, fun hlen => ?_, ?_⟩
  · exact h.produced_eq (Nat.le_succ_of_le hlen)
  · intro index m tmpExists rename hne
    exact (h.tryUpdateDataBlockMeta index m tmpExists rename).2 hne

namespace Sample

def blockMeta (i : Nat) : DataBlockMeta Nat where
  blockId := ""
  dataBlockIndex := i
  exampleIds := [i]
  startTime := 0
  endTime := 0

/-- A rename that raises after it has taken effect, one that raises before, a new manager, and an
    update with an index that is not the next one. -/
def failing : List (Op Nat) :=
  [.update 0 (blockMeta 0) true .returns, .update 1 (blockMeta 1) true .raisesAfter,
    .update 2 (blockMeta 2) true .returns, .acquireNumber, .update 2 (blockMeta 2) true .raisesBefore, .create,
    .update 4 (blockMeta 4) true .returns]

theorem failing_number_survives : ∃ st : Store Nat Nat, manager.run {} failing = some st ∧
    ∃ n, n = 2 ∧ st.acquireProducedDataBlockNumber.2 = some n := by
  have hsome : (manager.run ({} : Store Nat Nat) failing).isSome = true := by decide +kernel
  obtain ⟨st, hst⟩ := Option.isSome_iff_exists.mp hsome
  have hlen : (manager.run ({} : Store Nat Nat) failing).any (fun st => st.metaFiles.length = 2) =
      true := by decide +kernel
  rw [hst, Option.any_some, decide_eq_true_iff] at hlen
  obtain ⟨n, hindexes, hnumber, _⟩ := produced_number_survives hst
  have hn : n = 2 := by simpa [hlen] using (congrArg List.length hindexes).symm
  exact ⟨st, hst, n, hn, hnumber (by rw [hn]; decide)⟩

end Sample

/-! ## Reading metas back -/

/-- `None` for an index without a meta. -/
def Acquired.ofOption : Option (DataBlockMeta ι) → Acquired ι
  | some m => .found m
  | Option.none => .none

/-- Nothing is stored under the index, or its meta is in memory, or the memory has room for it. -/
def Readable (st : Store ι ρ) (index : Nat) : Prop :=
  st.produced ≤ index ∨ (getItem st.memoryBuffer index).isSome = true ∨
    st.memoryBuffer.length < removedItemsNumsFromBuffer

theorem getItem_take_eq_none {buffer : List (Nat × DataBlockMeta ι)} {k : Nat}
    (h : getItem buffer i = none) : getItem (buffer.take k) i = none := by
  simp only [getItem, Option.map_eq_none_iff, List.find?_eq_none] at h ⊢
  exact fun e he => h e (List.mem_of_mem_take he)

/-- A manager that is in step with its directory reads what is stored, or nothing. -/
theorem Synced.acquire_of_readable (h : st.Synced) (hread : st.Readable i) :
    (st.acquireDataBlockMetaByIndex i).2 = Acquired.ofOption st.metaFiles[i]? := by
  unfold Store.acquireDataBlockMetaByIndex
  simp only [h.sync]
  by_cases hi : st.produced ≤ i
  · have hnone : st.metaFiles[i]? = none := by
      rw [List.getElem?_eq_none_iff, ← h.produced]
      exact hi
    rw [if_pos hi, hnone]
    rfl
  · rw [if_neg hi]
    cases hitem : getItem st.memoryBuffer i with
    | some m =>
      obtain ⟨e, he, rfl⟩ := Option.map_eq_some_iff.mp hitem
      have hkey : e.1 = i := by simpa using List.find?_some he
      have hfile := h.memory e (List.mem_of_find?_eq_some he)
      rw [hkey] at hfile
      rw [hfile]
      rfl
    | none =>
      have hlt : i < st.metaFiles.length := by
        rw [← h.produced]
        omega
      have hroom : st.memoryBuffer.length < removedItemsNumsFromBuffer := by
        obtain hge | hmem | hroom := hread
        · exact absurd hge hi
        · simp [hitem] at hmem
        · exact hroom
      rw [metaFile?_eq h.contiguous, List.getElem?_eq_getElem hlt]
      dsimp only [removeItemFromDataBlockMemoryBuffer]
      rw [List.take_of_length_le (by simpa using Nat.succ_le_of_lt hroom), getItem_append_self hitem]
      rfl

/-- With a full memory the entry that was just read is the first to be evicted. -/
theorem Synced.acquire_of_not_readable (h : st.Synced) (hread : ¬ st.Readable i) :
    (st.acquireDataBlockMetaByIndex i).2 = .raised := by
  simp only [Readable, not_or, Bool.not_eq_true, Option.isSome_eq_false_iff,
    Option.isNone_iff_eq_none] at hread
  obtain ⟨hi, hitem, hroom⟩ := hread
  have hlt : i < st.metaFiles.length := by
    rw [← h.produced]
    omega
  unfold Store.acquireDataBlockMetaByIndex
  simp only [h.sync]
  rw [if_neg hi, hitem, metaFile?_eq h.contiguous, List.getElem?_eq_getElem hlt]
  dsimp only [removeItemFromDataBlockMemoryBuffer]
  rw [List.take_append_of_le_length (Nat.le_of_not_lt hroom), getItem_take_eq_none hitem]

/-- The metas that the updates of a history store. -/
def stored (ops : List (Op ι)) : List (DataBlockMeta ι) :=
  ops.filterMap fun
    | .update index m _ _ => some { m with dataBlockIndex := index.toNat }
    | _ => none

theorem stored_append {ops ops' : List (Op ι)} : stored (ops ++ ops') = stored ops ++ stored ops' :=
  List.filterMap_append

/-- Every update returns, and a new manager finds no more metas than it searches for. -/
def Regular (st : Store ι ρ) : Op ι → Prop
  | .create => st.metaFiles.length ≤ dataBlockIndexThreshold + 1
  | .update index m tmpExists rename => (st.tryUpdateDataBlockMeta index m tmpExists rename).2 = true
  | _ => True

theorem Synced.tryUpdateDataBlockMeta {index : Int} {tmpExists : Bool} {rename : Rename}
    (h : st.Synced) (hret : (st.tryUpdateDataBlockMeta index m tmpExists rename).2 = true) :
    index = st.metaFiles.length ∧
      (st.tryUpdateDataBlockMeta index m tmpExists rename).1 =
        (st.updateDataBlockMeta { m with dataBlockIndex := index.toNat }).1 := by
  unfold Store.tryUpdateDataBlockMeta at hret ⊢
  cases tmpExists with
  | false => cases hret
  | true =>
    cases index with
    | negSucc k => cases hret
    | ofNat i =>
      simp only [if_true, renameDataBlockMeta, h.saving, Option.isSome_none, Bool.false_eq_true,
        if_false] at hret ⊢
      split at hret
      case isTrue => cases hret
      case isFalse hindex =>
        have hindex : i = st.metaFiles.length := (not_not.mp hindex).trans h.produced
        split at hret
        case isTrue => cases hret
        case isFalse hfree =>
          cases rename with
          | returns =>
            rw [if_neg (not_not_intro (hindex.trans h.produced.symm)), if_neg hfree]
            exact ⟨congrArg Int.ofNat hindex, rfl⟩
          | raisesBefore => cases hret
          | raisesAfter => cases hret

/-- The update with the next index, by the outcome of its rename. -/
theorem Synced.renameDataBlockMeta_eq (h : st.Synced) (hm : m.dataBlockIndex = st.metaFiles.length)
    (rename : Rename) :
    st.renameDataBlockMeta m rename =
      match rename with
      | .raisesBefore => ({ st with savingDataBlockIndex := some m.dataBlockIndex }, false)
      | .raisesAfter =>
        ({ st with
          savingDataBlockIndex := some m.dataBlockIndex
          metaFiles := st.metaFiles ++ [m] }, false)
      | .returns => st.updateDataBlockMeta m := by
  have hfree : st.metaFile? m.dataBlockIndex = none := by
    rw [metaFile?_eq h.contiguous, hm]
    simp
  have hnext : m.dataBlockIndex = st.produced := hm.trans h.produced.symm
  rw [renameDataBlockMeta, if_neg (by simp [h.saving]), if_neg (not_not_intro hnext)]
  simp [hfree]

theorem metaFiles_of_acquire {st' : Store ι ρ} {next : Option Nat}
    (h : st.acquireProducedDataBlockNumber = (st', next)) : st'.metaFiles = st.metaFiles := by
  have hfiles := st.acquireProducedDataBlockNumber_files
  rw [h] at hfiles
  exact congrArg Prod.fst hfiles

theorem Synced.acquire_eq (h : st.Synced) :
    st.acquireProducedDataBlockNumber = (st, some st.produced) := by
  rw [h.acquireProducedDataBlockNumber, h.produced]

/-- A manager that does not know whether a rename has taken effect looks at the file. -/
theorem Synced.acquire_raisesBefore (h : st.Synced) (hm : m.dataBlockIndex = st.metaFiles.length) :
    (st.renameDataBlockMeta m .raisesBefore).1.acquireProducedDataBlockNumber =
      (st, some st.produced) := by
  have hnext : m.dataBlockIndex = st.produced := hm.trans h.produced.symm
  have hfree : st.metaFile? m.dataBlockIndex = none := by
    rw [metaFile?_eq h.contiguous, hm]
    simp
  have hsync : ({ st with savingDataBlockIndex := some m.dataBlockIndex } :
      Store ι ρ).syncSavedDataBlockIndex = ({ st with savingDataBlockIndex := none }, true) := by
    rw [syncSavedDataBlockIndex]
    dsimp only
    rw [if_neg (not_not_intro hnext), if_neg (by simpa [metaFile?] using hfree)]
  rw [h.renameDataBlockMeta_eq hm, Store.acquireProducedDataBlockNumber, hsync, ← h.saving]

theorem Synced.acquire_raisesAfter (h : st.Synced) (hm : m.dataBlockIndex = st.metaFiles.length) :
    ∃ st' : Store ι ρ, (st.renameDataBlockMeta m .raisesAfter).1.acquireProducedDataBlockNumber =
      (st', some st'.produced) ∧ st'.Synced ∧ st'.metaFiles = st.metaFiles ++ [m] := by
  have hnext : m.dataBlockIndex = st.produced := hm.trans h.produced.symm
  have hsync : ({ st with
      savingDataBlockIndex := some m.dataBlockIndex
      metaFiles := st.metaFiles ++ [m] } : Store ι ρ).syncSavedDataBlockIndex = ({ st with
      savingDataBlockIndex := none
      metaFiles := st.metaFiles ++ [m]
      produced := m.dataBlockIndex + 1 }, true) := by
    rw [syncSavedDataBlockIndex]
    dsimp only
    rw [if_neg (not_not_intro hnext), if_pos (by simp [metaFile?])]
  refine ⟨_, by rw [h.renameDataBlockMeta_eq hm, Store.acquireProducedDataBlockNumber, hsync], ?_, rfl⟩
  refine ⟨by simp [h.contiguous, hm, List.range_succ], by simp [hm], rfl, fun e he => ?_⟩
  have hfile := h.memory e he
  obtain ⟨hlt, -⟩ := List.getElem?_eq_some_iff.mp hfile
  dsimp only
  rw [List.getElem?_append_left hlt, hfile]

theorem Synced.tryUpdateDataBlockMeta_eq (h : st.Synced) (hm : m.dataBlockIndex = st.metaFiles.length) :
    st.tryUpdateDataBlockMeta m.dataBlockIndex m true .returns = st.updateDataBlockMeta m :=
  h.renameDataBlockMeta_eq hm .returns

/-- One call of a regular history, and what it stores. -/
theorem Synced.step {op : Op ι} {st' : Store ι ρ} (h : st.Synced) (hop : st.Regular op)
    (hs : manager.step st op = some st') :
    st'.Synced ∧ st'.metaFiles = st.metaFiles ++ stored [op] := by
  cases op with
  | create =>
    cases hs
    exact ⟨h.reopen hop, by simp [stored]⟩
  | update index m tmpExists rename =>
    cases hs
    obtain ⟨hindex, heq⟩ := h.tryUpdateDataBlockMeta hop
    rw [heq]
    exact (h.updateDataBlockMeta (by simp [hindex])).2
  | acquireNumber =>
    cases hs
    rw [h.acquireProducedDataBlockNumber]
    exact ⟨h, by simp [stored]⟩
  | acquire index =>
    cases hs
    refine ⟨(h.acquireDataBlockMetaByIndex index).1, ?_⟩
    have hfiles := congrArg Prod.fst (st.acquireDataBlockMetaByIndex_files index)
    exact hfiles.trans (by simp [stored, files])

theorem Synced.run {ops : List (Op ι)} {st' : Store ι ρ} (h : st.Synced)
    (hops : manager.Meets Regular st ops) (hrun : manager.run st ops = some st') :
    st'.Synced ∧ st'.metaFiles = st.metaFiles ++ stored ops := by
  induction ops generalizing st with
  | nil =>
    cases hrun
    exact ⟨h, by simp [stored]⟩
  | cons op ops ih =>
    obtain ⟨st₁, hs, hrun⟩ := manager.run_cons.mp hrun
    obtain ⟨hop, hops⟩ := (manager.meets_cons_some hs).mp hops
    obtain ⟨hsync, hfiles⟩ := h.step hop hs
    obtain ⟨hsync', hfiles'⟩ := ih hsync hops hrun
    refine ⟨hsync', ?_⟩
    rw [hfiles', hfiles, List.append_assoc, ← stored_append]
    rfl

/-- What is read is what was stored, exactly while the memory has room. -/
theorem acquire_returns_stored_iff {ops : List (Op ι)}
    (hrun : manager.run ({} : Store ι ρ) ops = some st)
    (hops : manager.Meets Regular ({} : Store ι ρ) ops) (i : Nat) :
    (st.acquireDataBlockMetaByIndex i).2 = Acquired.ofOption (stored ops)[i]? ↔ st.Readable i := by
  obtain ⟨hsync, hfiles⟩ := synced_empty.run hops hrun
  have hfiles : st.metaFiles = stored ops := by simpa using hfiles
  rw [← hfiles]
  constructor
  · intro heq
    by_contra hread
    rw [hsync.acquire_of_not_readable hread] at heq
    cases hm : st.metaFiles[i]? with
    | none =>
      rw [hm] at heq
      cases heq
    | some m =>
      rw [hm] at heq
      cases heq
  · exact hsync.acquire_of_readable

namespace Sample

/-- Updates with the first `n` indexes. -/
def fill (n : Nat) : List (Op Nat) :=
  (List.range n).map fun (i : Nat) => .update i (blockMeta i) true .returns

theorem stored_fill (n : Nat) : stored (fill n) = (List.range n).map blockMeta := by
  rw [stored, fill, List.filterMap_map, ← List.filterMap_eq_map]
  rfl

/-- Read back from a new manager. -/
theorem fill_read_back : ∃ st : Store Nat Nat, manager.run {} (fill 2 ++ [.create]) = some st ∧
    (st.acquireDataBlockMetaByIndex 1).2 = .found (blockMeta 1) := by
  have hsome : (manager.run ({} : Store Nat Nat) (fill 2 ++ [.create])).isSome = true := by
    decide +kernel
  obtain ⟨st, hst⟩ := Option.isSome_iff_exists.mp hsome
  have hmemory : (manager.run ({} : Store Nat Nat) (fill 2 ++ [.create])).any
      (fun st => st.memoryBuffer.length = 0) = true := by decide +kernel
  rw [hst, Option.any_some, decide_eq_true_iff] at hmemory
  have hops : manager.Meets Regular ({} : Store Nat Nat) (fill 2 ++ [.create]) := by
    refine ⟨rfl, ?_⟩
    rintro _ ⟨⟩
    refine ⟨rfl, ?_⟩
    rintro _ ⟨⟩
    refine ⟨?_, fun _ _ => trivial⟩
    show 2 ≤ dataBlockIndexThreshold + 1
    decide
  refine ⟨st, hst, ?_⟩
  have hread := (acquire_returns_stored_iff hst hops 1).mpr (.inr (.inr (by rw [hmemory]; decide)))
  rw [hread, stored_append, stored_fill]
  rfl

/-- The indexes in memory after `n` updates: the first ones and the last one. -/
def filledKeys (n : Nat) : List Nat :=
  (List.range n).take removedItemsNumsFromBuffer ++
    if removedItemsNumsFromBuffer < n then [n - 1] else []

theorem filledKeys_succ (n : Nat) :
    (filledKeys n).take removedItemsNumsFromBuffer ++ [n] = filledKeys (n + 1) := by
  unfold filledKeys
  by_cases hn : n ≤ removedItemsNumsFromBuffer
  · have hrange : (List.range n).take removedItemsNumsFromBuffer = List.range n :=
      List.take_of_length_le (by simpa using hn)
    rw [if_neg (Nat.not_lt.mpr hn), List.append_nil, hrange, hrange]
    by_cases hlast : n = removedItemsNumsFromBuffer
    · subst hlast
      rw [List.take_range, if_pos (Nat.lt_succ_self _)]
      simp
    · have hlt : n + 1 ≤ removedItemsNumsFromBuffer := by omega
      rw [List.take_of_length_le (by simpa using hlt), if_neg (Nat.not_lt.mpr hlt), List.range_succ,
        List.append_nil]
  · have hgt : removedItemsNumsFromBuffer < n := Nat.lt_of_not_le hn
    rw [if_pos hgt, if_pos (Nat.lt_succ_of_lt hgt), List.take_range, List.take_range,
      Nat.min_eq_left (Nat.le_of_lt hgt), Nat.min_eq_left (Nat.le_of_lt (Nat.lt_succ_of_lt hgt)),
      List.take_append_of_le_length (by simp)]
    simp

/-- After any number of updates the manager is in step, and its memory holds `filledKeys`. -/
theorem run_fill (n : Nat) : ∃ st : Store Nat Nat, manager.run {} (fill n) = some st ∧
    manager.Meets Regular ({} : Store Nat Nat) (fill n) ∧ st.Synced ∧ st.metaFiles.length = n ∧
    st.memoryBuffer.map Prod.fst = filledKeys n := by
  induction n with
  | zero => exact ⟨{}, rfl, trivial, synced_empty, rfl, rfl⟩
  | succ n ih =>
    obtain ⟨st, hrun, hops, hsync, hlen, hkeys⟩ := ih
    have hindex : (blockMeta n).dataBlockIndex = st.metaFiles.length := hlen.symm
    obtain ⟨hret, hsync', hfiles'⟩ := hsync.updateDataBlockMeta hindex
    have hstep : st.tryUpdateDataBlockMeta n (blockMeta n) true .returns =
        st.updateDataBlockMeta (blockMeta n) := hsync.tryUpdateDataBlockMeta_eq hindex
    have hfill : fill (n + 1) = fill n ++ [.update n (blockMeta n) true .returns] := by
      simp [fill, List.range_succ]
    refine ⟨(st.updateDataBlockMeta (blockMeta n)).1, ?_, ?_, hsync', ?_, ?_⟩
    · rw [hfill, manager.run_append]
      refine ⟨st, hrun, manager.run_cons.mpr ⟨_, ?_, rfl⟩⟩
      exact congrArg (fun r : Store Nat Nat × Bool => some r.1) hstep
    · rw [hfill, manager.meets_append]
      refine ⟨hops, fun st' hst' => ?_⟩
      rw [hrun] at hst'
      cases hst'
      exact ⟨by rw [Regular, hstep, hret], fun _ _ => trivial⟩
    · rw [hfiles', List.length_append, hlen]
      rfl
    · have hfresh : ∀ e ∈ removeItemFromDataBlockMemoryBuffer st.memoryBuffer,
          e.1 ≠ (blockMeta n).dataBlockIndex := by
        intro e he heq
        have hfile := hsync.memory e (List.mem_of_mem_take he)
        obtain ⟨hlt, _⟩ := List.getElem?_eq_some_iff.mp hfile
        omega
      rw [hsync.updateDataBlockMeta_eq hindex]
      dsimp only
      rw [setItem_fresh hfresh, List.map_append, removeItemFromDataBlockMemoryBuffer, List.map_take,
        hkeys, ← filledKeys_succ]
      rfl

/-- Behind a full memory no block but the last one can be read. -/
theorem fill_not_read_back {n i : Nat} (hi : removedItemsNumsFromBuffer ≤ i) (hn : i + 1 < n) :
    ∃ st : Store Nat Nat, manager.run {} (fill n) = some st ∧
      manager.Meets Regular ({} : Store Nat Nat) (fill n) ∧
      (stored (fill n))[i]? = some (blockMeta i) ∧
      (st.acquireDataBlockMetaByIndex i).2 = .raised := by
  obtain ⟨st, hrun, hops, hsync, hlen, hkeys⟩ := run_fill n
  rw [filledKeys, List.take_range, Nat.min_eq_left (by omega), if_pos (by omega)] at hkeys
  have hmem : i ∉ st.memoryBuffer.map Prod.fst := by
    rw [hkeys]
    simp
    omega
  have hlength : st.memoryBuffer.length = removedItemsNumsFromBuffer + 1 := by
    rw [← List.length_map (f := Prod.fst), hkeys]
    simp
  refine ⟨st, hrun, hops, ?_, hsync.acquire_of_not_readable ?_⟩
  · rw [stored_fill, List.getElem?_map, List.getElem?_range (by omega)]
    rfl
  · rintro (hge | hitem | hroom)
    · rw [hsync.produced, hlen] at hge
      omega
    · obtain ⟨m, hm⟩ := Option.isSome_iff_exists.mp hitem
      obtain ⟨e, he, rfl⟩ := Option.map_eq_some_iff.mp hm
      have hkey : e.1 = i := by simpa using List.find?_some he
      exact hmem (hkey ▸ List.mem_map_of_mem (List.mem_of_find?_eq_some he))
    · rw [hlength] at hroom
      omega

/-- 1026 blocks, of which the last but one is neither in memory nor can be read into it. -/
theorem full_memory_not_read_back : ∃ st : Store Nat Nat, manager.run {} (fill 1026) = some st ∧
    manager.Meets Regular ({} : Store Nat Nat) (fill 1026) ∧
    (stored (fill 1026))[1024]? = some (blockMeta 1024) ∧
    (st.acquireDataBlockMetaByIndex 1024).2 = .raised :=
  fill_not_read_back (Nat.le_refl 1024) (by decide)

end Sample

end Store

end DataJoin
