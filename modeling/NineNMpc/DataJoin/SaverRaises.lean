-- SUMMARY: The leader's saver with attempts that raise: its loop ends at the first of them, and the runs that follow store each meta once.
import NineNMpc.DataJoin.Manager
import NineNMpc.DataJoin.Replication

/-!
# A saver whose attempts raise

`_save_data_blocks` of `data_block_saver.py` saves the head of its buffer until the buffer is
empty. The handler of `_build_data_block_maker` is there to swallow what an attempt raises, but
it hands a text to `traceback.print_exc` as the limit, which is a `TypeError`: the first attempt
that raises leaves the loop and the run of the processor, with the switch still set. The next
run of `build_data_block_saver` first removes the metas that have been stored from the buffer.
-/

namespace DataJoin

namespace Replication

variable {ι ρ : Type}

/-! ## Attempts -/

/-- Where an attempt raises; a rename may raise before or after it has taken effect. -/
inductive SaveFault where
  | recordWrite
  | dataRenameBefore
  | dataRenameAfter
  | metaWrite
  | metaRenameBefore
  | metaRenameAfter
  | saveDataBlockInfo
deriving DecidableEq

namespace SaveFault

def metaRename : Option SaveFault → Store.Rename
  | some metaRenameBefore => .raisesBefore
  | some metaRenameAfter => .raisesAfter
  | _ => .returns

end SaveFault

namespace DataBlockSaver

variable [DecidableEq ι]

/-- The last lines of `_save_data_block_with_meta`. -/
def popDataBlockMeta (sv : DataBlockSaver ι ρ) (m : DataBlockMeta ι) : DataBlockSaver ι ρ × Bool :=
  match sv.dataBlockMetaBuffer with
  | [] => (sv, false)
  | m' :: rest => if m' = m then ({ sv with dataBlockMetaBuffer := rest }, true) else (sv, false)

/-- `_save_data_block_with_meta`: what it leaves behind, and whether it returns. Its own exceptions
    come out of the handler as a `TypeError`. -/
def saveDataBlockWithMeta (naming : Naming ι) (items : ItemDict ι ρ) (fault : Option SaveFault)
    (sv : DataBlockSaver ι ρ) (m : DataBlockMeta ι) : DataBlockSaver ι ρ × Bool :=
  let records := lookupRecords items m.exampleIds
  if fault = some .recordWrite then (sv, false)
  -- the assertion on the number of saved examples, then the one on an empty block
  else if records.length ≠ m.exampleIds.length ∨ m.exampleIds = [] then (sv, false)
  else
    let m := m.withBlockId naming
    -- the meta of the maker is the one in the buffer
    let sv := { sv with dataBlockMetaBuffer := m :: sv.dataBlockMetaBuffer.tail }
    let saved :=
      { sv with store := sv.store.saveData (naming.dataBlockFileNameWrap m) records }
    if fault = some .dataRenameBefore then (sv, false)
    else if fault = some .dataRenameAfter ∨ fault = some .metaWrite then (saved, false)
    else
      match saved.store.renameDataBlockMeta m (SaveFault.metaRename fault) with
      | (store, false) => ({ saved with store }, false)
      | (store, true) =>
        if fault = some .saveDataBlockInfo then ({ saved with store }, false)
        else { saved with store }.popDataBlockMeta m

/-- `_save_data_blocks`, and whether it returns; `faults i` is what the `i`-th attempt raises, and
    `none` says that the loop is still running. -/
def saveDataBlocks (naming : Naming ι) (items : ItemDict ι ρ) : (fuel : Nat) →
    (faults : Nat → Option SaveFault) → DataBlockSaver ι ρ → Option (DataBlockSaver ι ρ × Bool)
  | fuel, faults, sv =>
    match sv.dataBlockMetaBuffer with
    | [] => some (sv, true)
    | m :: _ =>
      match fuel with
      | 0 => none
      | fuel + 1 =>
        match sv.saveDataBlockWithMeta naming items (faults 0) m with
        | (sv, true) => saveDataBlocks naming items fuel (fun i => faults (i + 1)) sv
        | (sv, false) => some (sv, false)

/-- `_data_block_consumer_processor`, with the context manager `build_data_block_saver`. -/
def dataBlockConsumerProcessor (naming : Naming ι) (items : ItemDict ι ρ) (fuel : Nat)
    (faults : Nat → Option SaveFault) (sv : DataBlockSaver ι ρ) : Option (DataBlockSaver ι ρ × Bool) :=
  match sv.notifyDataBlockManagerSyncState with
  | (sv, false) => some (sv, false)
  | (sv, true) =>
    match saveDataBlocks naming items fuel faults { sv with stateSwitch := true, pc := .loop } with
    | none => none
    | some (sv, true) => some ({ sv with stateSwitch := false, pc := .idle }, true)
    | some (sv, false) => some ({ sv with pc := .idle }, false)

/-- The processor is run again and again, as long as the buffer is not empty; `runs` has what the
    attempts of each run raise. -/
def rerun (naming : Naming ι) (items : ItemDict ι ρ) (fuel : Nat) :
    (runs : List (Nat → Option SaveFault)) → DataBlockSaver ι ρ → Option (DataBlockSaver ι ρ)
  | [], sv => some sv
  | faults :: runs, sv =>
    if sv.dataBlockMetaBuffer = [] then rerun naming items fuel runs sv
    else (sv.dataBlockConsumerProcessor naming items fuel faults).bind fun r =>
      rerun naming items fuel runs r.1

/-- The metas of the buffer have the next indexes, and the leader has all their ids. -/
structure Ready (items : ItemDict ι ρ) (sv : DataBlockSaver ι ρ) : Prop where
  synced : sv.store.Synced
  consecutive : sv.dataBlockMetaBuffer.map (·.dataBlockIndex) =
    List.range' sv.store.produced sv.dataBlockMetaBuffer.length
  ne_nil : ∀ m ∈ sv.dataBlockMetaBuffer, m.exampleIds ≠ []
  ids : ∀ m ∈ sv.dataBlockMetaBuffer, ∀ x ∈ m.exampleIds, x ∈ items.ids

/-- The loop returns with an empty buffer, and each meta has been stored once, in order. -/
def Drains (naming : Naming ι) (items : ItemDict ι ρ) (faults : Nat → Option SaveFault)
    (sv : DataBlockSaver ι ρ) : Prop :=
  ∃ fuel sv', saveDataBlocks naming items fuel faults sv = some (sv', true) ∧
    sv'.dataBlockMetaBuffer = [] ∧
    sv'.store.metaFiles =
      sv.store.metaFiles ++ sv.dataBlockMetaBuffer.map (·.withBlockId naming)

/-! ## One attempt -/

variable {naming : Naming ι} {items : ItemDict ι ρ} {fault : Option SaveFault}
  {faults : Nat → Option SaveFault} {sv : DataBlockSaver ι ρ} {m : DataBlockMeta ι}
  {rest : List (DataBlockMeta ι)}

/-- No id is skipped if the leader has all of them. -/
theorem length_lookupRecords {ids : List ι} (h : ∀ x ∈ ids, x ∈ items.ids) :
    (lookupRecords items ids).length = ids.length := by
  induction ids with
  | nil => rfl
  | cons x ids ih =>
    obtain ⟨item, hitem⟩ := Option.isSome_iff_exists.mp (ItemDict.get?_isSome.mpr (h x (by simp)))
    have ih := ih fun y hy => h y (by simp [hy])
    simp only [lookupRecords] at ih ⊢
    simp [hitem, ih]

/-- The directory when an attempt has renamed its data file. -/
def savedStore (naming : Naming ι) (items : ItemDict ι ρ) (sv : DataBlockSaver ι ρ)
    (m : DataBlockMeta ι) : Store ι ρ :=
  sv.store.saveData (naming.dataBlockFileNameWrap (m.withBlockId naming))
    (lookupRecords items m.exampleIds)

namespace Ready

omit [DecidableEq ι] in
theorem head_index (h : sv.Ready items) (hbuffer : sv.dataBlockMetaBuffer = m :: rest) :
    m.dataBlockIndex = sv.store.metaFiles.length := by
  have hhead := congrArg List.head? h.consecutive
  simpa [hbuffer, h.synced.produced, List.range'_succ] using hhead

theorem not_skipped (h : sv.Ready items) (hbuffer : sv.dataBlockMetaBuffer = m :: rest) :
    ¬ ((lookupRecords items m.exampleIds).length ≠ m.exampleIds.length ∨ m.exampleIds = []) := by
  have hm : m ∈ sv.dataBlockMetaBuffer := by simp [hbuffer]
  rw [length_lookupRecords (h.ids m hm)]
  simpa using h.ne_nil m hm

omit [DecidableEq ι] in
/-- Nothing but the data file and the block id of the head has changed. -/
theorem of_head {st : Store ι ρ} {m' : DataBlockMeta ι} (h : sv.Ready items)
    (hbuffer : sv.dataBlockMetaBuffer = m :: rest) (hst : st.Synced)
    (hproduced : st.produced = sv.store.produced) (hindex : m'.dataBlockIndex = m.dataBlockIndex)
    (hids : m'.exampleIds = m.exampleIds) :
    ({ sv with store := st, dataBlockMetaBuffer := m' :: rest } : DataBlockSaver ι ρ).Ready items where
  synced := hst
  consecutive := by simpa [hbuffer, hindex, hproduced] using h.consecutive
  ne_nil := by
    have hne := h.ne_nil
    simpa [hbuffer, hids] using hne
  ids := by
    have hall := h.ids
    simpa [hbuffer, hids] using hall

omit [DecidableEq ι] in
/-- The head of the buffer has been stored, and the rest is still to come. -/
theorem tail {st : Store ι ρ} (h : sv.Ready items) (hbuffer : sv.dataBlockMetaBuffer = m :: rest)
    (hst : st.Synced) (hfiles : st.metaFiles = sv.store.metaFiles ++ [m.withBlockId naming]) :
    ({ sv with store := st, dataBlockMetaBuffer := rest } : DataBlockSaver ι ρ).Ready items where
  synced := hst
  consecutive := by
    have hconsecutive := h.consecutive
    rw [hbuffer, List.length_cons, List.range'_succ, List.map_cons, List.cons.injEq] at hconsecutive
    dsimp only
    rw [hconsecutive.2, hst.produced, hfiles, h.synced.produced, List.length_append]
    rfl
  ne_nil m' hm' := h.ne_nil m' (by simp [hbuffer, show m' ∈ rest from hm'])
  ids m' hm' := h.ids m' (by simp [hbuffer, show m' ∈ rest from hm'])

end Ready

theorem Ready.savedStore_next (naming : Naming ι) (h : sv.Ready items)
    (hbuffer : sv.dataBlockMetaBuffer = m :: rest) :
    (savedStore naming items sv m).Synced ∧
      (m.withBlockId naming).dataBlockIndex = (savedStore naming items sv m).metaFiles.length := by
  have hindex := h.head_index hbuffer
  exact ⟨h.synced.saveData, hindex⟩

theorem Ready.rename (naming : Naming ι) (h : sv.Ready items)
    (hbuffer : sv.dataBlockMetaBuffer = m :: rest) (rename : Store.Rename) :
    (savedStore naming items sv m).renameDataBlockMeta (m.withBlockId naming) rename =
      match rename with
      | .raisesBefore =>
        ({ savedStore naming items sv m with savingDataBlockIndex := some m.dataBlockIndex }, false)
      | .raisesAfter =>
        ({ savedStore naming items sv m with
          savingDataBlockIndex := some m.dataBlockIndex
          metaFiles := sv.store.metaFiles ++ [m.withBlockId naming] }, false)
      | .returns => (savedStore naming items sv m).updateDataBlockMeta (m.withBlockId naming) := by
  obtain ⟨hsynced, hindex⟩ := h.savedStore_next naming hbuffer
  exact hsynced.renameDataBlockMeta_eq hindex rename

theorem Ready.rename_returns (naming : Naming ι) (h : sv.Ready items)
    (hbuffer : sv.dataBlockMetaBuffer = m :: rest) :
    (savedStore naming items sv m).renameDataBlockMeta (m.withBlockId naming) .returns =
      (((savedStore naming items sv m).updateDataBlockMeta (m.withBlockId naming)).1, true) := by
  obtain ⟨hsynced, hindex⟩ := h.savedStore_next naming hbuffer
  exact (h.rename naming hbuffer .returns).trans (Prod.ext rfl (hsynced.updateDataBlockMeta hindex).1)

/-- An attempt that does not raise stores the head of the buffer. -/
theorem Ready.saved (naming : Naming ι) (h : sv.Ready items)
    (hbuffer : sv.dataBlockMetaBuffer = m :: rest) :
    ∃ sv', sv.saveDataBlockWithMeta naming items none m = (sv', true) ∧ sv'.Ready items ∧
      sv'.dataBlockMetaBuffer = rest ∧
      sv'.store.metaFiles = sv.store.metaFiles ++ [m.withBlockId naming] ∧
      sv'.stateSwitch = sv.stateSwitch := by
  have hskip := h.not_skipped hbuffer
  obtain ⟨hsynced, hindex⟩ := h.savedStore_next naming hbuffer
  obtain ⟨-, hsynced', hfiles⟩ := hsynced.updateDataBlockMeta hindex
  have hrename := h.rename_returns naming hbuffer
  refine ⟨{ sv with
    store := ((savedStore naming items sv m).updateDataBlockMeta (m.withBlockId naming)).1
    dataBlockMetaBuffer := rest }, ?_, h.tail hbuffer hsynced' hfiles, rfl, hfiles, rfl⟩
  simp only [savedStore] at hrename
  simp [saveDataBlockWithMeta, hskip, SaveFault.metaRename, hrename, popDataBlockMeta, hbuffer,
    savedStore]

omit [DecidableEq ι] in
/-- No meta of the buffer has been stored, so none is removed. -/
theorem Ready.dropWhile (h : sv.Ready items) :
    (sv.dataBlockMetaBuffer.dropWhile fun m => m.dataBlockIndex < sv.store.produced) =
      sv.dataBlockMetaBuffer := by
  cases hbuffer : sv.dataBlockMetaBuffer with
  | nil => rfl
  | cons m rest =>
    have hindex : m.dataBlockIndex = sv.store.produced :=
      (h.head_index hbuffer).trans h.synced.produced.symm
    exact List.dropWhile_cons_of_neg (by simp [hindex])

/-- What an exception leaves behind: the switch is as it was, and a look at the directory finds those
    metas of the buffer that have not been stored. -/
structure Interrupted (naming : Naming ι) (items : ItemDict ι ρ) (sv sv' : DataBlockSaver ι ρ) :
    Prop where
  stateSwitch : sv'.stateSwitch = sv.stateSwitch
  length : sv'.dataBlockMetaBuffer.length ≤ sv.dataBlockMetaBuffer.length
  kept : sv.store.metaFiles <+: sv'.store.metaFiles
  removed : ∃ sv'', sv'.removeSavedDataBlockMetaFromBuffer = (sv'', true) ∧ sv''.Ready items ∧
    sv''.store.metaFiles ++ sv''.dataBlockMetaBuffer.map (·.withBlockId naming) =
      sv.store.metaFiles ++ sv.dataBlockMetaBuffer.map (·.withBlockId naming)

omit [DecidableEq ι] in
/-- The head of the buffer has not been stored. -/
theorem Ready.interrupted {st st' : Store ι ρ} {m' : DataBlockMeta ι} (h : sv.Ready items)
    (hbuffer : sv.dataBlockMetaBuffer = m :: rest) (hm : m' = m ∨ m' = m.withBlockId naming)
    (hacquire : st.acquireProducedDataBlockNumber = (st', some st'.produced)) (hst : st'.Synced)
    (hfiles : st'.metaFiles = sv.store.metaFiles) :
    Interrupted naming items sv { sv with store := st, dataBlockMetaBuffer := m' :: rest } where
  stateSwitch := rfl
  length := by simp [hbuffer]
  kept := by
    have hkept : sv.store.metaFiles = st.metaFiles :=
      hfiles.symm.trans (Store.metaFiles_of_acquire hacquire)
    exact hkept ▸ List.prefix_rfl
  removed := by
    have hproduced : st'.produced = sv.store.produced := by
      rw [hst.produced, hfiles, h.synced.produced]
    have hready : ({ sv with store := st', dataBlockMetaBuffer := m' :: rest } :
        DataBlockSaver ι ρ).Ready items := by
      obtain rfl | rfl := hm
      · exact h.of_head hbuffer hst hproduced rfl rfl
      · exact h.of_head hbuffer hst hproduced rfl rfl
    have hkeep : (m' :: rest).dropWhile (fun m => m.dataBlockIndex < st'.produced) = m' :: rest :=
      hready.dropWhile
    refine ⟨_, by simp only [removeSavedDataBlockMetaFromBuffer, hacquire, hkeep], hready, ?_⟩
    obtain rfl | rfl := hm
    · simp [hfiles, hbuffer]
    · simp [hfiles, hbuffer]

omit [DecidableEq ι] in
/-- The head has been stored and is still in the buffer. -/
theorem Ready.interrupted_of_stored {st st' : Store ι ρ} (h : sv.Ready items)
    (hbuffer : sv.dataBlockMetaBuffer = m :: rest)
    (hacquire : st.acquireProducedDataBlockNumber = (st', some st'.produced)) (hst : st'.Synced)
    (hfiles : st'.metaFiles = sv.store.metaFiles ++ [m.withBlockId naming]) :
    Interrupted naming items sv { sv with
      store := st, dataBlockMetaBuffer := m.withBlockId naming :: rest } where
  stateSwitch := rfl
  length := by simp [hbuffer]
  kept := by
    dsimp only
    rw [← Store.metaFiles_of_acquire hacquire, hfiles]
    exact List.prefix_append _ _
  removed := by
    have hready := h.tail hbuffer hst hfiles
    have hlt : m.dataBlockIndex < st'.produced := by
      rw [h.head_index hbuffer, hst.produced, hfiles]
      simp
    have hdrop : (m.withBlockId naming :: rest).dropWhile (fun m => m.dataBlockIndex < st'.produced) =
        rest := by
      refine (List.dropWhile_cons_of_pos ?_).trans hready.dropWhile
      exact decide_eq_true hlt
    refine ⟨_, by simp only [removeSavedDataBlockMetaFromBuffer, hacquire, hdrop], hready, ?_⟩
    simp [hfiles, hbuffer]

/-- What an attempt raises comes out of it, wherever it strikes. -/
theorem Ready.raised (naming : Naming ι) (h : sv.Ready items)
    (hbuffer : sv.dataBlockMetaBuffer = m :: rest) (hfault : fault ≠ none) :
    ∃ sv', sv.saveDataBlockWithMeta naming items fault m = (sv', false) ∧
      Interrupted naming items sv sv' := by
  have hskip := h.not_skipped hbuffer
  obtain ⟨hsynced, hindex⟩ := h.savedStore_next naming hbuffer
  have hrename := h.rename naming hbuffer
  have hreturns := h.rename_returns naming hbuffer
  have hsaved : Interrupted naming items sv { sv with
      store := savedStore naming items sv m
      dataBlockMetaBuffer := m.withBlockId naming :: rest } :=
    h.interrupted hbuffer (.inr rfl) hsynced.acquire_eq hsynced rfl
  match fault, hfault with
  | some .recordWrite, _ =>
    refine ⟨sv, by simp [saveDataBlockWithMeta], ?_⟩
    have hunchanged : Interrupted naming items sv _ :=
      h.interrupted hbuffer (.inl rfl) h.synced.acquire_eq h.synced rfl
    rwa [← hbuffer] at hunchanged
  | some .dataRenameBefore, _ =>
    refine ⟨_, ?_, h.interrupted hbuffer (.inr rfl) h.synced.acquire_eq h.synced rfl⟩
    simp [saveDataBlockWithMeta, hskip, hbuffer]
  | some .dataRenameAfter, _ =>
    refine ⟨_, ?_, hsaved⟩
    simp [saveDataBlockWithMeta, hskip, hbuffer, savedStore]
  | some .metaWrite, _ =>
    refine ⟨_, ?_, hsaved⟩
    simp [saveDataBlockWithMeta, hskip, hbuffer, savedStore]
  | some .metaRenameBefore, _ =>
    -- no file has the index, so the manager forgets about it
    refine ⟨_, ?_, h.interrupted hbuffer (.inr rfl) (hsynced.acquire_raisesBefore hindex) hsynced rfl⟩
    rw [hrename]
    simp only [savedStore] at hrename
    simp [saveDataBlockWithMeta, hskip, SaveFault.metaRename, hrename, hbuffer, savedStore]
  | some .metaRenameAfter, _ =>
    -- the file is there, so the manager counts it
    obtain ⟨st, hacquire, hst, hfiles⟩ := hsynced.acquire_raisesAfter hindex
    refine ⟨_, ?_, h.interrupted_of_stored hbuffer hacquire hst hfiles⟩
    rw [hrename]
    simp only [savedStore] at hrename
    simp [saveDataBlockWithMeta, hskip, SaveFault.metaRename, hrename, hbuffer, savedStore]
  | some .saveDataBlockInfo, _ =>
    obtain ⟨-, hsynced', hfiles⟩ := hsynced.updateDataBlockMeta hindex
    refine ⟨_, ?_, h.interrupted_of_stored hbuffer hsynced'.acquire_eq hsynced' hfiles⟩
    simp only [savedStore] at hreturns
    simp [saveDataBlockWithMeta, hskip, SaveFault.metaRename, hreturns, hbuffer, savedStore]

/-- The saver on its own. -/
def machine (naming : Naming ι) (items : ItemDict ι ρ) : Machine (DataBlockSaver ι ρ) Unit where
  step sv _ := sv.step naming items

/-- An attempt without an exception from outside is what the saver does step by step. -/
theorem run_attempt (naming : Naming ι) (items : ItemDict ι ρ) (hpc : sv.pc = .loop)
    (hbuffer : sv.dataBlockMetaBuffer = m :: rest) :
    ∃ k sv' returned, sv.saveDataBlockWithMeta naming items none m = (sv', returned) ∧
      sv'.pc = .loop ∧
      (machine naming items).run sv (List.replicate k ()) =
        some (if returned then sv' else { sv' with pc := .idle }) := by
  by_cases hskip : (lookupRecords items m.exampleIds).length ≠ m.exampleIds.length ∨
      m.exampleIds = []
  · refine ⟨2, sv, false, ?_, hpc, ?_⟩
    · simp [saveDataBlockWithMeta, hskip]
    · simp only [List.replicate, Machine.run, machine, step, hpc, hbuffer, Option.bind_some,
        if_pos hskip]
      simp [← hbuffer]
  · have hrename := Store.renameDataBlockMeta_returns (savedStore naming items sv m)
      (m.withBlockId naming)
    simp only [savedStore] at hrename
    cases hupdate : (savedStore naming items sv m).updateDataBlockMeta (m.withBlockId naming) with
    | mk st returned =>
      simp only [savedStore] at hupdate
      rw [hupdate] at hrename
      cases returned with
      | false =>
        refine ⟨3, { sv with store := st, dataBlockMetaBuffer := m.withBlockId naming :: rest }, false,
          ?_, hpc, ?_⟩
        · simp [saveDataBlockWithMeta, hskip, SaveFault.metaRename, hrename, hbuffer]
        · simp [List.replicate, Machine.run, machine, step, hpc, hbuffer, hskip, hupdate]
      | true =>
        refine ⟨4, { sv with store := st, dataBlockMetaBuffer := rest }, true, ?_, hpc, ?_⟩
        · simp [saveDataBlockWithMeta, hskip, SaveFault.metaRename, hrename, popDataBlockMeta, hbuffer]
        · simp [List.replicate, Machine.run, machine, step, hpc, hbuffer, hskip, hupdate]

/-! ## The loop -/

theorem saveDataBlocks_nil {fuel : Nat} (hbuffer : sv.dataBlockMetaBuffer = []) :
    saveDataBlocks naming items fuel faults sv = some (sv, true) := by
  rw [saveDataBlocks, hbuffer]

theorem saveDataBlocks_cons {fuel : Nat} (hbuffer : sv.dataBlockMetaBuffer = m :: rest) :
    saveDataBlocks naming items (fuel + 1) faults sv =
      match sv.saveDataBlockWithMeta naming items (faults 0) m with
      | (sv, true) => saveDataBlocks naming items fuel (fun i => faults (i + 1)) sv
      | (sv, false) => some (sv, false) := by
  rw [saveDataBlocks, hbuffer]

theorem saveDataBlocks_mono {fuel k : Nat} {r : DataBlockSaver ι ρ × Bool}
    (h : saveDataBlocks naming items fuel faults sv = some r) :
    saveDataBlocks naming items (fuel + k) faults sv = some r := by
  induction fuel generalizing sv faults with
  | zero =>
    cases hbuffer : sv.dataBlockMetaBuffer with
    | nil =>
      rw [saveDataBlocks_nil hbuffer] at h ⊢
      exact h
    | cons m rest =>
      rw [saveDataBlocks, hbuffer] at h
      cases h
  | succ fuel ih =>
    cases hbuffer : sv.dataBlockMetaBuffer with
    | nil =>
      rw [saveDataBlocks_nil hbuffer] at h ⊢
      exact h
    | cons m rest =>
      rw [Nat.add_right_comm, saveDataBlocks_cons hbuffer]
      rw [saveDataBlocks_cons hbuffer] at h
      split at h
      case h_1 sv' hattempt => exact ih h
      case h_2 sv' hattempt => exact h

/-- The loop stores all metas, or it is left by the first exception. -/
theorem Ready.loop {fuel : Nat} (naming : Naming ι) (faults : Nat → Option SaveFault)
    (h : sv.Ready items) (hfuel : sv.dataBlockMetaBuffer.length ≤ fuel) :
    ∃ sv',
      ((∀ i < sv.dataBlockMetaBuffer.length, faults i = none) ∧
        saveDataBlocks naming items fuel faults sv = some (sv', true) ∧ sv'.Ready items ∧
        sv'.dataBlockMetaBuffer = [] ∧ sv'.store.metaFiles =
          sv.store.metaFiles ++ sv.dataBlockMetaBuffer.map (·.withBlockId naming)) ∨
      ((∃ i < sv.dataBlockMetaBuffer.length, faults i ≠ none) ∧
        saveDataBlocks naming items fuel faults sv = some (sv', false) ∧
        Interrupted naming items sv sv') := by
  induction hbuffer : sv.dataBlockMetaBuffer generalizing fuel faults sv with
  | nil => exact ⟨sv, .inl ⟨by simp, saveDataBlocks_nil hbuffer, h, hbuffer, by simp⟩⟩
  | cons m rest ih =>
    rw [hbuffer, List.length_cons] at hfuel
    obtain ⟨fuel, rfl⟩ := Nat.exists_eq_succ_of_ne_zero (show fuel ≠ 0 by omega)
    rw [Nat.succ_eq_add_one, saveDataBlocks_cons hbuffer]
    by_cases hnone : faults 0 = none
    · obtain ⟨sv₁, hattempt, hready, hrest, hfiles, hswitch⟩ := h.saved naming hbuffer
      rw [hnone, hattempt]
      dsimp only
      have hfuel' : sv₁.dataBlockMetaBuffer.length ≤ fuel := by
        rw [hrest]
        omega
      obtain ⟨sv', hend⟩ := ih (fun i => faults (i + 1)) hready hfuel' hrest
      refine ⟨sv', hend.imp ?_ ?_⟩
      · rintro ⟨hall, hloop, hready', hempty, hstored⟩
        refine ⟨fun i hi => ?_, hloop, hready', hempty, by simp [hstored, hfiles]⟩
        cases i with
        | zero => exact hnone
        | succ i => exact hall i (by simpa using hi)
      · rintro ⟨⟨i, hi, hfault⟩, hloop, hinterrupted⟩
        refine ⟨⟨i + 1, by simpa using hi, hfault⟩, hloop, ?_⟩
        have hlength := hinterrupted.length
        have hkept := hinterrupted.kept
        have hremoved := hinterrupted.removed
        rw [hrest] at hlength
        rw [hfiles] at hkept
        rw [hrest, hfiles] at hremoved
        exact ⟨hinterrupted.stateSwitch.trans hswitch, by rw [hbuffer, List.length_cons]; omega,
          (List.prefix_append _ _).trans hkept, by simpa [hbuffer] using hremoved⟩
    · obtain ⟨sv', hattempt, hinterrupted⟩ := h.raised naming hbuffer hnone
      rw [hattempt]
      exact ⟨sv', .inr ⟨⟨0, by simp, hnone⟩, rfl, hinterrupted⟩⟩

theorem not_drains_of_raised {fuel : Nat} {sv' : DataBlockSaver ι ρ}
    (h : saveDataBlocks naming items fuel faults sv = some (sv', false)) :
    ¬ Drains naming items faults sv := by
  rintro ⟨fuel', sv'', hdrains, -⟩
  have hraised : saveDataBlocks naming items (fuel + fuel') faults sv = some (sv', false) :=
    saveDataBlocks_mono h
  rw [Nat.add_comm, saveDataBlocks_mono hdrains] at hraised
  cases hraised

/-- The loop drains its buffer if and only if none of its attempts raises. -/
theorem drains_iff_noneRaises (h : sv.Ready items) :
    Drains naming items faults sv ↔ ∀ i < sv.dataBlockMetaBuffer.length, faults i = none := by
  obtain ⟨sv', ⟨hall, hloop, -, hempty, hfiles⟩ | ⟨⟨i, hi, hfault⟩, hloop, -⟩⟩ :=
    h.loop naming faults (Nat.le_refl _)
  · exact iff_of_true ⟨_, sv', hloop, hempty, hfiles⟩ hall
  · exact iff_of_false (not_drains_of_raised hloop) fun hall => hfault (hall i hi)

namespace Sample

def sampleNaming : Naming Nat := .padded Nat "sample"

def sampleItems : ItemDict Nat String where
  items := [⟨1, 0, "a"⟩, ⟨2, 0, "b"⟩]
  nodup := by simp

def blockMeta (i : Nat) (ids : List Nat) : DataBlockMeta Nat where
  blockId := ""
  dataBlockIndex := i
  exampleIds := ids
  startTime := 0
  endTime := 0

/-- Two metas for an empty directory. -/
def saver : DataBlockSaver Nat String where
  store := {}
  nextDataBlockIndex := 2
  dataBlockMetaBuffer := [blockMeta 0 [1], blockMeta 1 [2]]

theorem saver_ready : saver.Ready sampleItems where
  synced := Store.synced_empty
  consecutive := rfl
  ne_nil := by decide
  ids := by decide

/-- One exception, in the attempt with number `n`. -/
def raisesAt (n : Nat) (fault : SaveFault) (i : Nat) : Option SaveFault :=
  if i = n then some fault else none

theorem saver_drains : Drains sampleNaming sampleItems (raisesAt 2 .metaWrite) saver :=
  (drains_iff_noneRaises saver_ready).mpr fun _ hi => if_neg (Nat.ne_of_lt hi)

/-- A record of the first meta cannot be written: both metas stay in the buffer. -/
theorem saver_not_drains : saver.Ready sampleItems ∧
    (∃ k, ∀ i, k ≤ i → raisesAt 0 .recordWrite i = none) ∧
    saveDataBlocks sampleNaming sampleItems 1 (raisesAt 0 .recordWrite) saver = some (saver, false) ∧
    ¬ Drains sampleNaming sampleItems (raisesAt 0 .recordWrite) saver := by
  have hraised : saveDataBlocks sampleNaming sampleItems 1 (raisesAt 0 .recordWrite) saver =
      some (saver, false) := rfl
  exact ⟨saver_ready, ⟨1, fun i hi => if_neg (by omega)⟩, hraised, not_drains_of_raised hraised⟩

end Sample

/-- A loop without an exception from outside is what the saver does step by step. -/
theorem run_saveDataBlocks {fuel : Nat} {sv' : DataBlockSaver ι ρ} {returned : Bool}
    (hpc : sv.pc = .loop)
    (hloop : saveDataBlocks naming items fuel (fun _ => none) sv = some (sv', returned)) :
    ∃ k, (machine naming items).run sv (List.replicate k ()) =
      some (if returned then { sv' with stateSwitch := false, pc := .idle }
        else { sv' with pc := .idle }) := by
  induction fuel generalizing sv with
  | zero =>
    cases hbuffer : sv.dataBlockMetaBuffer with
    | nil =>
      rw [saveDataBlocks_nil hbuffer] at hloop
      cases hloop
      exact ⟨1, by simp [Machine.run, machine, step, hpc, hbuffer]⟩
    | cons m rest =>
      rw [saveDataBlocks, hbuffer] at hloop
      cases hloop
  | succ fuel ih =>
    cases hbuffer : sv.dataBlockMetaBuffer with
    | nil =>
      rw [saveDataBlocks_nil hbuffer] at hloop
      cases hloop
      exact ⟨1, by simp [Machine.run, machine, step, hpc, hbuffer]⟩
    | cons m rest =>
      obtain ⟨k, sv₁, attempt, hattempt, hpc₁, hrun⟩ :=
        run_attempt naming items hpc hbuffer
      rw [saveDataBlocks_cons hbuffer, hattempt] at hloop
      cases attempt with
      | false =>
        cases hloop
        exact ⟨k, hrun⟩
      | true =>
        obtain ⟨k', hrun'⟩ := ih hpc₁ hloop
        refine ⟨k + k', ?_⟩
        rw [List.replicate_add, Machine.run_append]
        exact ⟨sv₁, hrun, hrun'⟩

/-- A run of the processor without an exception from outside, step by step. -/
theorem run_dataBlockConsumerProcessor {fuel : Nat} {sv' : DataBlockSaver ι ρ} {returned : Bool}
    (hpc : sv.pc = .idle) (hbuffer : sv.dataBlockMetaBuffer ≠ [])
    (hrun : sv.dataBlockConsumerProcessor naming items fuel (fun _ => none) = some (sv', returned)) :
    ∃ k, (machine naming items).run sv (List.replicate k ()) = some sv' := by
  rw [dataBlockConsumerProcessor] at hrun
  split at hrun
  case h_1 sv₁ hnotify =>
    cases hrun
    exact ⟨1, by simp [Machine.run, machine, step, hpc, hbuffer, hnotify]⟩
  case h_2 sv₁ hnotify =>
    have hstep : (machine naming items).step sv () =
        some { sv₁ with stateSwitch := true, pc := .loop } := by
      simp [machine, step, hpc, hbuffer, hnotify]
    have hfirst : ∀ k t, (machine naming items).run { sv₁ with stateSwitch := true, pc := .loop }
        (List.replicate k ()) = some t →
        (machine naming items).run sv (List.replicate (k + 1) ()) = some t := by
      intro k t hk
      rw [List.replicate_succ, Machine.run_cons]
      exact ⟨_, hstep, hk⟩
    split at hrun
    case h_1 => cases hrun
    case h_2 sv₂ hloop =>
      cases hrun
      obtain ⟨k, hk⟩ := run_saveDataBlocks rfl hloop
      exact ⟨k + 1, hfirst k _ hk⟩
    case h_3 sv₂ hloop =>
      cases hrun
      obtain ⟨k, hk⟩ := run_saveDataBlocks rfl hloop
      exact ⟨k + 1, hfirst k _ hk⟩

/-! ## The runs after an exception -/

/-- The next run finds those of `metas` in the buffer that have not been stored. -/
def Recovers (naming : Naming ι) (items : ItemDict ι ρ) (metas : List (DataBlockMeta ι))
    (sv : DataBlockSaver ι ρ) : Prop :=
  ∃ sv', sv.notifyDataBlockManagerSyncState = (sv', true) ∧ sv'.Ready items ∧
    sv'.store.metaFiles ++ sv'.dataBlockMetaBuffer.map (·.withBlockId naming) = metas

omit [DecidableEq ι] in
theorem notify_length :
    sv.notifyDataBlockManagerSyncState.1.dataBlockMetaBuffer.length ≤ sv.dataBlockMetaBuffer.length := by
  simp only [notifyDataBlockManagerSyncState, removeSavedDataBlockMetaFromBuffer]
  split
  · split
    · exact (List.dropWhile_suffix _).length_le
    · exact Nat.le_refl _
  · exact Nat.le_refl _

omit [DecidableEq ι] in
theorem notify_metaFiles :
    sv.notifyDataBlockManagerSyncState.1.store.metaFiles = sv.store.metaFiles :=
  congrArg Prod.fst sv.notify_files

omit [DecidableEq ι] in
theorem Ready.recovers (naming : Naming ι) (h : sv.Ready items) : Recovers naming items
    (sv.store.metaFiles ++ sv.dataBlockMetaBuffer.map (·.withBlockId naming)) sv := by
  refine ⟨sv, ?_, h, rfl⟩
  simp only [notifyDataBlockManagerSyncState, removeSavedDataBlockMetaFromBuffer,
    h.synced.acquire_eq, h.dropWhile, ite_self]

omit [DecidableEq ι] in
theorem Interrupted.recovers {sv' : DataBlockSaver ι ρ} (h : Interrupted naming items sv sv')
    (hswitch : sv.stateSwitch = true) : Recovers naming items
      (sv.store.metaFiles ++ sv.dataBlockMetaBuffer.map (·.withBlockId naming)) sv' := by
  obtain ⟨sv'', hremoved, hready, htotal⟩ := h.removed
  refine ⟨sv'', ?_, hready, htotal⟩
  rw [notifyDataBlockManagerSyncState, if_pos (h.stateSwitch.trans hswitch), hremoved]

omit [DecidableEq ι] in
/-- The exception has left the loop, too. -/
theorem Interrupted.leave {sv' : DataBlockSaver ι ρ} (h : Interrupted naming items sv sv') :
    Interrupted naming items sv { sv' with pc := .idle } where
  stateSwitch := h.stateSwitch
  length := h.length
  kept := h.kept
  removed := by
    obtain ⟨sv'', hremoved, hready, htotal⟩ := h.removed
    refine ⟨{ sv'' with pc := .idle }, ?_, { hready with }, htotal⟩
    unfold removeSavedDataBlockMetaFromBuffer at hremoved ⊢
    split at hremoved
    case h_1 st next hacquire =>
      cases hremoved
      rw [hacquire]
    case h_2 => cases hremoved

namespace Recovers

variable {metas : List (DataBlockMeta ι)}

omit [DecidableEq ι] in
/-- What has been stored are the first of the metas. -/
theorem metaFiles_prefix (h : Recovers naming items metas sv) : sv.store.metaFiles <+: metas := by
  obtain ⟨sv', hnotify, -, rfl⟩ := h
  have hfiles := sv.notify_metaFiles
  rw [hnotify] at hfiles
  exact hfiles ▸ List.prefix_append _ _

omit [DecidableEq ι] in
theorem metaFiles_of_nil (h : Recovers naming items metas sv)
    (hbuffer : sv.dataBlockMetaBuffer = []) : sv.store.metaFiles = metas := by
  obtain ⟨sv', hnotify, -, rfl⟩ := h
  have hfiles := sv.notify_metaFiles
  have hlength := sv.notify_length
  rw [hnotify] at hfiles hlength
  dsimp only at hfiles hlength
  rw [hbuffer, List.length_nil, Nat.le_zero, List.length_eq_zero_iff] at hlength
  rw [hlength, List.map_nil, List.append_nil, hfiles]

/-- Whatever its attempts raise, a run ends, and the next one goes on where it has stopped. -/
theorem processor {fuel : Nat} (faults : Nat → Option SaveFault)
    (h : Recovers naming items metas sv) (hfuel : sv.dataBlockMetaBuffer.length ≤ fuel) :
    ∃ sv' returned, sv.dataBlockConsumerProcessor naming items fuel faults = some (sv', returned) ∧
      Recovers naming items metas sv' ∧
      sv'.dataBlockMetaBuffer.length ≤ sv.dataBlockMetaBuffer.length ∧
      sv.store.metaFiles <+: sv'.store.metaFiles ∧
      ((∀ i < sv.dataBlockMetaBuffer.length, faults i = none) → sv'.dataBlockMetaBuffer = []) := by
  obtain ⟨sv₁, hnotify, hready, rfl⟩ := h
  have hfiles := sv.notify_metaFiles
  have hlength := sv.notify_length
  rw [hnotify] at hfiles hlength
  dsimp only at hfiles hlength
  have hready₁ : ({ sv₁ with stateSwitch := true, pc := .loop } : DataBlockSaver ι ρ).Ready items :=
    { hready with }
  obtain ⟨sv', ⟨-, hloop, hready', hempty, hstored⟩ | ⟨⟨i, hi, hfault⟩, hloop, hinterrupted⟩⟩ :=
    hready₁.loop naming faults (Nat.le_trans hlength hfuel)
  · have hdone : ({ sv' with stateSwitch := false, pc := .idle } : DataBlockSaver ι ρ).Ready items :=
      { hready' with }
    have htotal : sv'.store.metaFiles ++ sv'.dataBlockMetaBuffer.map (·.withBlockId naming) =
        sv₁.store.metaFiles ++ sv₁.dataBlockMetaBuffer.map (·.withBlockId naming) := by
      rw [hempty, List.map_nil, List.append_nil]
      exact hstored
    refine ⟨{ sv' with stateSwitch := false, pc := .idle }, true, ?_, ?_, ?_, ?_, fun _ => hempty⟩
    · simp only [dataBlockConsumerProcessor, hnotify, hloop]
    · rw [← htotal]
      exact hdone.recovers naming
    · simp [hempty]
    · rw [← hfiles, hstored]
      exact List.prefix_append _ _
  · have hleft := hinterrupted.leave
    refine ⟨{ sv' with pc := .idle }, false, ?_, hleft.recovers rfl, Nat.le_trans hleft.length hlength,
      hfiles ▸ hleft.kept, fun hall => ?_⟩
    · simp only [dataBlockConsumerProcessor, hnotify, hloop]
    · exact absurd (hall i (Nat.lt_of_lt_of_le hi hlength)) hfault

theorem rerun {fuel : Nat} (runs : List (Nat → Option SaveFault))
    (h : Recovers naming items metas sv) (hfuel : sv.dataBlockMetaBuffer.length ≤ fuel) :
    ∃ sv', DataBlockSaver.rerun naming items fuel runs sv = some sv' ∧
      Recovers naming items metas sv' ∧
      sv'.dataBlockMetaBuffer.length ≤ sv.dataBlockMetaBuffer.length ∧
      sv.store.metaFiles <+: sv'.store.metaFiles ∧
      ((∃ faults ∈ runs, ∀ i < sv.dataBlockMetaBuffer.length, faults i = none) →
        sv'.dataBlockMetaBuffer = []) := by
  induction runs generalizing sv with
  | nil => exact ⟨sv, rfl, h, Nat.le_refl _, List.prefix_rfl, by simp⟩
  | cons faults runs ih =>
    rw [DataBlockSaver.rerun]
    by_cases hbuffer : sv.dataBlockMetaBuffer = []
    · obtain ⟨sv', hrerun, hrecovers, hlength, hkept, -⟩ := ih h hfuel
      rw [if_pos hbuffer]
      refine ⟨sv', hrerun, hrecovers, hlength, hkept, fun _ => ?_⟩
      rw [hbuffer, List.length_nil, Nat.le_zero, List.length_eq_zero_iff] at hlength
      exact hlength
    · obtain ⟨sv₁, returned, hrun, hrecovers₁, hlength₁, hkept₁, hempty₁⟩ := h.processor faults hfuel
      obtain ⟨sv', hrerun, hrecovers, hlength, hkept, hempty⟩ :=
        ih hrecovers₁ (Nat.le_trans hlength₁ hfuel)
      rw [if_neg hbuffer, hrun, Option.bind_some]
      refine ⟨sv', hrerun, hrecovers, Nat.le_trans hlength hlength₁, hkept₁.trans hkept, ?_⟩
      rintro ⟨faults', hmem, hnone⟩
      obtain rfl | hmem := List.mem_cons.mp hmem
      · rw [hempty₁ hnone, List.length_nil, Nat.le_zero, List.length_eq_zero_iff] at hlength
        exact hlength
      · exact hempty ⟨faults', hmem, fun i hi => hnone i (Nat.lt_of_lt_of_le hi hlength₁)⟩

end Recovers

/-- Whatever its runs raise, the metas in the directory are the first ones, each once, and a run
    without an exception stores all that are left. -/
theorem rerun_stores_once {fuel : Nat} (h : sv.Ready items)
    (hfuel : sv.dataBlockMetaBuffer.length ≤ fuel) (runs : List (Nat → Option SaveFault)) :
    ∃ sv', rerun naming items fuel runs sv = some sv' ∧
      sv.store.metaFiles <+: sv'.store.metaFiles ∧
      sv'.store.metaFiles <+:
        sv.store.metaFiles ++ sv.dataBlockMetaBuffer.map (·.withBlockId naming) ∧
      ((∃ faults ∈ runs, ∀ i < sv.dataBlockMetaBuffer.length, faults i = none) →
        sv'.dataBlockMetaBuffer = [] ∧ sv'.store.metaFiles =
          sv.store.metaFiles ++ sv.dataBlockMetaBuffer.map (·.withBlockId naming)) := by
  obtain ⟨sv', hrerun, hrecovers, -, hkept, hempty⟩ := (h.recovers naming).rerun runs hfuel
  exact ⟨sv', hrerun, hkept, hrecovers.metaFiles_prefix,
    fun hclean => ⟨hempty hclean, hrecovers.metaFiles_of_nil (hempty hclean)⟩⟩

namespace Sample

/-- The notification of the first meta raises, and then the rename of the second one. -/
def interruptedRuns : List (Nat → Option SaveFault) :=
  [raisesAt 0 .saveDataBlockInfo, raisesAt 0 .metaRenameAfter, fun _ => none]

theorem interruptedRuns_store_once : ∃ sv', rerun sampleNaming sampleItems 2 interruptedRuns saver =
    some sv' ∧ sv'.dataBlockMetaBuffer = [] ∧ sv'.store.metaFiles =
      [(blockMeta 0 [1]).withBlockId sampleNaming, (blockMeta 1 [2]).withBlockId sampleNaming] := by
  obtain ⟨sv', hrerun, -, -, hstored⟩ := rerun_stores_once saver_ready (Nat.le_refl 2) interruptedRuns
  obtain ⟨hempty, hfiles⟩ := hstored ⟨fun _ => none, by simp [interruptedRuns], fun _ _ => rfl⟩
  exact ⟨sv', hrerun, hempty, hfiles⟩

end Sample

end DataBlockSaver

end Replication

end DataJoin
