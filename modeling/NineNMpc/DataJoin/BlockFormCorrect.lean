-- SUMMARY: Every block that a run stores is well formed, also on a directory larger than the search for the last index.
import NineNMpc.DataJoin.BlockForm

/-!
# The produced blocks are well formed

The search of a new `DataBlockManager` ends at `data_block_index_threshold`. On a
directory with more blocks the next index is one that exists, so that its rename raises:
the maker of that block is never dropped, and nothing is stored.
-/

namespace DataJoin

variable {ι ρ : Type} [DecidableEq ι]

/-! ## A directory larger than the search -/

omit [DecidableEq ι] in
theorem Store.updateDataBlockMeta_taken {st : Store ι ρ} {m : DataBlockMeta ι}
    (h : (st.metaFile? m.dataBlockIndex).isSome = true) : (st.updateDataBlockMeta m).2 = false := by
  simp only [updateDataBlockMeta, h, if_true]
  split
  · rfl
  · split <;> rfl

omit [DecidableEq ι] in
/-- A read without a pending rename leaves the manager's number alone. -/
theorem Store.acquireDataBlockMetaByIndex_idle {st : Store ι ρ} (h : st.savingDataBlockIndex = none)
    (index : Nat) : (st.acquireDataBlockMetaByIndex index).1.produced = st.produced ∧
      (st.acquireDataBlockMetaByIndex index).1.savingDataBlockIndex = none := by
  have hsync : st.syncSavedDataBlockIndex = (st, true) := by simp [syncSavedDataBlockIndex, h]
  simp only [acquireDataBlockMetaByIndex, hsync]
  split
  · exact ⟨rfl, h⟩
  · split
    · exact ⟨rfl, h⟩
    · split
      · exact ⟨rfl, h⟩
      · split <;> exact ⟨rfl, h⟩

/-- The meta file of the next block is there already, so that its rename raises, again and again. -/
structure Joiner.Refused (old : List (DataBlockMeta ι)) (index : Nat) (st : Store ι ρ)
    (j : Joiner ι ρ) : Prop where
  files : st.metaFiles = old
  taken : (st.metaFile? index).isSome = true
  start : j.dataBlockMaker = none → st.produced = index ∧ st.savingDataBlockIndex = none
  maker : ∀ mk, j.dataBlockMaker = some mk → mk.dataBlockIndex = index ∧ mk.exampleIds ≠ []
  storing : j.pc.isStoring = true → j.dataBlockMaker.isSome = true
  notClose : j.pc.isClose = false

namespace Joiner

variable {cfg : Config ι ρ} {old : List (DataBlockMeta ι)} {index : Nat} {st st' : Store ι ρ}
  {j j' : Joiner ι ρ}

omit [DecidableEq ι] in
theorem Refused.goto (h : j.Refused old index st) (hmaker : j'.dataBlockMaker = j.dataBlockMaker)
    (hstoring : j'.pc.isStoring = true → j.dataBlockMaker.isSome = true)
    (hclose : j'.pc.isClose = false) : j'.Refused old index st :=
  ⟨h.files, h.taken, hmaker ▸ h.start, hmaker ▸ h.maker, hmaker ▸ hstoring, hclose⟩

omit [DecidableEq ι] in
/-- A maker that is new is open. -/
theorem Refused.acquireDataBlockMaker (h : j.Refused old index st) :
    ∃ mk, Joiner.acquireDataBlockMaker st j = (st, some mk) ∧ mk.dataBlockIndex = index ∧
      (mk.exampleIds ≠ [] ∨ mk.closed = false) := by
  cases hmk : j.dataBlockMaker with
  | some mk =>
    obtain ⟨hindex, hids⟩ := h.maker mk hmk
    exact ⟨mk, by simp [Joiner.acquireDataBlockMaker, hmk], hindex, .inl hids⟩
  | none =>
    obtain ⟨hproduced, hsaving⟩ := h.start hmk
    refine ⟨{ dataBlockIndex := index }, ?_, rfl, .inr rfl⟩
    simp [Joiner.acquireDataBlockMaker, hmk, Store.acquireProducedDataBlockNumber,
      Store.syncSavedDataBlockIndex, hsaving, hproduced]

omit [DecidableEq ι] in
/-- A block is being filled. -/
theorem Refused.fill {mk : DataBlockMaker ι ρ} (h : j.Refused old index st)
    (hmaker : j'.dataBlockMaker = some mk) (hindex : mk.dataBlockIndex = index)
    (hids : mk.exampleIds ≠ []) (hclose : j'.pc.isClose = false) : j'.Refused old index st where
  files := h.files
  taken := h.taken
  start := by simp [hmaker]
  maker := by
    rintro mk' hmk'
    obtain rfl : mk = mk' := Option.some.inj (hmaker.symm.trans hmk')
    exact ⟨hindex, hids⟩
  storing := by simp [hmaker]
  notClose := hclose

theorem stepExample_refused {x : ι} {rest : List ι} {finished : Bool} (h : j.Refused old index st) :
    (stepExample cfg.joiner st j x rest finished).2.Refused old index
      (stepExample cfg.joiner st j x rest finished).1 := by
  obtain ⟨mk, hacq, hindex, hids⟩ := h.acquireDataBlockMaker
  apply stepExample_elim (motive := fun st' j' => j'.Refused old index st')
  case skipped =>
    intro _
    exact h.goto rfl (by simp [JoinerPc.isStoring]) rfl
  case raised =>
    intro item st' maker _ hacq' hnone
    obtain ⟨rfl, rfl⟩ := Prod.mk.inj (hacq.symm.trans hacq')
    have hclosed : mk.closed = true := by simpa [DataBlockMaker.save] using hnone mk rfl
    exact h.fill rfl hindex (hids.resolve_right (by simp [hclosed])) rfl
  case saved =>
    intro item st' maker maker' _ hacq' hsave
    obtain ⟨rfl, hmk⟩ := Prod.mk.inj (hacq.symm.trans hacq')
    obtain rfl := Option.some.inj hmk
    have hindex' : maker'.dataBlockIndex = index := by
      unfold DataBlockMaker.save at hsave
      split at hsave
      · cases hsave
      · cases hsave
        exact hindex
    have hids' : maker'.exampleIds ≠ [] := by simp [DataBlockMaker.save_exampleIds hsave]
    refine h.fill rfl hindex' hids' ?_
    dsimp only
    split <;> rfl

theorem step_refused {queue queue' : List (LiteExampleIds ι)} {span : Bool}
    (h : j.Refused old index st) (hs : j.step cfg.joiner span st queue = some (st', queue', j')) :
    j'.Refused old index st' := by
  apply step_elim (motive := fun st' _ j' => j'.Refused old index st') hs
  case idle =>
    intro _ _ _
    exact h.goto rfl (by simp [JoinerPc.isStoring]) rfl
  case take =>
    intro b rest _ _ _
    exact h.goto rfl (by simp [JoinerPc.isStoring]) rfl
  case next =>
    intro x rest finished _
    exact stepExample_refused h
  case endOfBatch =>
    intro finished _
    unfold stepEndOfBatch
    split
    · split
      · next hsome => exact h.goto rfl (fun _ => hsome) rfl
      · exact h.goto rfl (by simp [JoinerPc.isStoring]) rfl
    · exact h.goto rfl (by simp [JoinerPc.isStoring]) rfl
  case flush =>
    intro _
    unfold stepFlush
    split
    · next hflush =>
      split
      · exact h.goto rfl (fun _ => (Bool.and_eq_true_iff.mp hflush).1) rfl
      · exact h.goto rfl (by simp [JoinerPc.isStoring, raise]) rfl
    · exact h.goto rfl (by simp [JoinerPc.isStoring]) rfl
  case store =>
    intro k hpc
    obtain ⟨mk, hmk⟩ := Option.isSome_iff_exists.mp (h.storing (by rw [hpc]; rfl))
    obtain ⟨hindex, hids⟩ := h.maker mk hmk
    rw [stepStore_of_maker hmk hids]
    refine ⟨h.files, h.taken, by simp, ?_, by simp, rfl⟩
    rintro _ ⟨⟩
    exact ⟨hindex, hids⟩
  case update =>
    intro k hpc
    obtain ⟨mk, hmk⟩ := Option.isSome_iff_exists.mp (h.storing (by rw [hpc]; rfl))
    obtain ⟨hindex, hids⟩ := h.maker mk hmk
    have hraises : (st.updateDataBlockMeta (mk.dataBlockMeta cfg.joiner.naming)).2 = false :=
      Store.updateDataBlockMeta_taken (by rw [← h.taken, ← hindex]; rfl)
    have hfiles := st.updateDataBlockMeta_metaFiles (mk.dataBlockMeta cfg.joiner.naming)
    rw [hraises] at hfiles
    rw [stepUpdate_of_raised hmk (Prod.ext rfl hraises)]
    refine ⟨hfiles.trans h.files, ?_, by simp [raise, hmk], ?_, by simp [raise, JoinerPc.isStoring], rfl⟩
    · rw [Store.metaFile?, hfiles]
      exact h.taken
    · exact h.maker
  case close =>
    intro k hpc
    have hclose := h.notClose
    rw [hpc] at hclose
    cases hclose

end Joiner

/-! ## The produced blocks of a run -/

namespace TracedFollower

variable {cfg : Config ι ρ} {old : List (DataBlockMeta ι)} {t t' : TracedFollower ι ρ}

def Formed (cfg : Config ι ρ) (old : List (DataBlockMeta ι)) (t : TracedFollower ι ρ) : Prop :=
  ∃ new, t.joiner.Formed cfg old new t.store t.closings

theorem Formed.step (h : t.Formed cfg old) (ht : 1 ≤ cfg.dumpDataBlockThreshold)
    {a : Follower.Action ι} (hs : (machine cfg).step t a = some t') : t'.Formed cfg old := by
  obtain ⟨f, hf, rfl⟩ := Option.map_eq_some_iff.mp hs
  obtain ⟨new, hnew⟩ := h
  cases a with
  | put batch =>
    cases hf
    exact ⟨new, hnew⟩
  | join span =>
    obtain ⟨⟨st', queue', j'⟩, hstep, rfl⟩ := Option.map_eq_some_iff.mp hf
    exact Joiner.step_formed hnew ht hstep
  | read index =>
    cases hf
    have hfiles := Store.acquireDataBlockMetaByIndex_files t.store index
    have hmeta : (t.store.acquireDataBlockMetaByIndex index).1.metaFiles = t.store.metaFiles :=
      congrArg Prod.fst hfiles
    have hdata : (t.store.acquireDataBlockMetaByIndex index).1.dataFiles = t.store.dataFiles :=
      congrArg Prod.snd hfiles
    refine ⟨new, (hnew.synced.acquireDataBlockMetaByIndex index).1, hmeta.trans hnew.files,
      fun m hm => ?_, ?_, hnew.storing, ?_, hnew.closed⟩
    · obtain ⟨items, hblock⟩ := hnew.blocks m hm
      exact ⟨items, hblock.of_dataFiles hdata⟩
    · intro mk hmk hj
      change mk.dataBlockIndex = (t.store.acquireDataBlockMetaByIndex index).1.metaFiles.length ∧ _
      rw [hmeta]
      exact hnew.maker mk hmk hj
    · intro mk hmk hup
      change (t.store.acquireDataBlockMetaByIndex index).1.dataFiles _ = _
      rw [hdata]
      exact hnew.written mk hmk hup

/-- The block at place `i` of a run that started with `n` blocks. -/
structure Produced (cfg : Config ι ρ) (n : Nat) (t : TracedFollower ι ρ) (i : Nat)
    (m : DataBlockMeta ι) : Prop where
  index : m.dataBlockIndex = n + i
  block : ∃ items, t.store.Block cfg m items
  full : m.exampleIds.length = cfg.dumpDataBlockThreshold ∨
    t.closings[i]? = some .timeSpan ∨ t.closings[i]? = some .finishedBatch

theorem Formed.produced (h : t.Formed cfg old) : ∃ new, t.store.metaFiles = old ++ new ∧
    ∀ i m, new[i]? = some m → t.Produced cfg old.length i m := by
  obtain ⟨new, hnew⟩ := h
  refine ⟨new, hnew.files, fun i m hm => ?_⟩
  have hlast : t.store.metaFiles[old.length + i]? = some m := by
    rw [hnew.files, List.getElem?_append_right (Nat.le_add_right _ _), Nat.add_sub_cancel_left, hm]
  refine ⟨Store.index_of_getElem? hnew.synced.contiguous hlast,
    hnew.blocks m (List.mem_of_getElem? hm), ?_⟩
  have hlt : i < new.length := (List.getElem?_eq_some_iff.mp hm).1
  have hsizes : i < (new.map (·.exampleIds.length) ++ t.joiner.storingSizes).length := by
    rw [List.length_append, List.length_map]
    omega
  have hclosings : i < t.closings.length := hnew.closed.length_eq ▸ hsizes
  have hfits := hnew.closed.get hclosings hsizes
  have hsize' : (new.map (·.exampleIds.length) ++ t.joiner.storingSizes)[i] =
      m.exampleIds.length := by
    rw [List.getElem_append_left (by simpa using hlt), List.getElem_map,
      (List.getElem?_eq_some_iff.mp hm).2]
  have hclosing : t.closings[i]? = some t.closings[i] := List.getElem?_eq_getElem hclosings
  rw [hclosing, Option.some.injEq, Option.some.injEq]
  cases hc : t.closings[i] with
  | threshold => exact .inl (hsize'.symm.trans (hfits hc))
  | finishedBatch => exact .inr (.inr rfl)
  | timeSpan => exact .inr (.inl rfl)

theorem step_refused {index : Nat} (h : t.joiner.Refused old index t.store) {a : Follower.Action ι}
    (hs : (machine cfg).step t a = some t') : t'.joiner.Refused old index t'.store := by
  obtain ⟨f, hf, rfl⟩ := Option.map_eq_some_iff.mp hs
  cases a with
  | put batch =>
    cases hf
    exact h
  | join span =>
    obtain ⟨⟨st', queue', j'⟩, hstep, rfl⟩ := Option.map_eq_some_iff.mp hf
    exact Joiner.step_refused h hstep
  | read i =>
    cases hf
    have hmeta : (t.store.acquireDataBlockMetaByIndex i).1.metaFiles = t.store.metaFiles :=
      congrArg Prod.fst (Store.acquireDataBlockMetaByIndex_files t.store i)
    refine ⟨hmeta.trans h.files, ?_, fun hnone => ?_, h.maker, h.storing, h.notClose⟩
    · change ((t.store.acquireDataBlockMetaByIndex i).1.metaFile? index).isSome = true
      rw [Store.metaFile?, hmeta]
      exact h.taken
    · obtain ⟨hproduced, hsaving⟩ := h.start hnone
      obtain ⟨hproduced', hsaving'⟩ := Store.acquireDataBlockMetaByIndex_idle hsaving i
      exact ⟨hproduced'.trans hproduced, hsaving'⟩

/-- Whatever is put into the queue and whenever the time span fires, the blocks stored on top of those
    of a directory are well formed. -/
theorem run_produced {st : Store ι ρ}
    (hdir : st.metaFiles.map (·.dataBlockIndex) = List.range st.metaFiles.length)
    (ht : 1 ≤ cfg.dumpDataBlockThreshold) {as : List (Follower.Action ι)}
    (hrun : (machine cfg).run { store := st.reopen } as = some t) :
    ∃ new, t.store.metaFiles = st.metaFiles ++ new ∧
      ∀ i m, new[i]? = some m → t.Produced cfg st.metaFiles.length i m := by
  by_cases hsize : st.metaFiles.length ≤ dataBlockIndexThreshold + 1
  · have hstart : Formed cfg st.metaFiles ({ store := st.reopen } : TracedFollower ι ρ) := by
      refine ⟨[], ?_, by simp, by simp, by simp, by simp [JoinerPc.isStoring], by simp, .nil⟩
      refine ⟨hdir, ?_, rfl, by simp [Store.reopen]⟩
      simp only [Store.reopen, Store.searchSaved_eq hdir]
      omega
    have hformed := (machine cfg).run_invariant (P := Formed cfg st.metaFiles)
      (fun _ _ _ h hs => h.step ht hs) hrun hstart
    exact hformed.produced
  · -- the search ends before the last block, and no further block can be renamed into place
    have hlt : dataBlockIndexThreshold + 1 < st.metaFiles.length := Nat.lt_of_not_le hsize
    have hstart : Joiner.Refused st.metaFiles (dataBlockIndexThreshold + 1) st.reopen
        ({} : Joiner ι ρ) := by
      refine ⟨rfl, ?_, fun _ => ⟨?_, rfl⟩, by simp, by simp [JoinerPc.isStoring], rfl⟩
      · have hfile : st.reopen.metaFile? (dataBlockIndexThreshold + 1) =
            st.metaFiles[dataBlockIndexThreshold + 1]? := Store.metaFile?_eq hdir
        rw [hfile, List.getElem?_eq_getElem hlt]
        rfl
      · simp only [Store.reopen, Store.searchSaved_eq hdir]
        omega
    have hrefused := (machine cfg).run_invariant
      (P := fun t => t.joiner.Refused st.metaFiles (dataBlockIndexThreshold + 1) t.store)
      (fun _ _ _ h hs => step_refused h hs) hrun hstart
    exact ⟨[], by simpa using hrefused.files, by simp⟩

namespace Sample

def config : Config Nat String where
  naming := .padded Nat "sample"
  leaderItems := { items := [], nodup := .nil }
  followerItems :=
    { items := [⟨1, 5, "one"⟩, ⟨2, 3, "two"⟩, ⟨3, 4, "three"⟩]
      nodup := .cons (by decide) (.cons (by decide) (.cons nofun .nil)) }
  dumpDataBlockThreshold := 2

/-- The only batch has three ids of the follower. -/
def actions : List (Follower.Action Nat) :=
  .put ⟨[1, 2, 3], true⟩ :: List.replicate 10 (.join false)

/-- Two blocks, of which the second is closed by the finished batch. -/
theorem twoBlocks_produced : ∃ t : TracedFollower Nat String,
    (machine config).run { store := ({} : Store Nat String).reopen } actions = some t ∧
      t.closings = [.threshold, .finishedBatch] ∧
        (∃ new, t.store.metaFiles = [] ++ new ∧ ∀ i m, new[i]? = some m → t.Produced config 0 i m) := by
  have hsearch : ({} : Store Nat String).searchSaved = 0 := Store.searchSaved_eq rfl
  have hreopen : ({} : Store Nat String).reopen = {} := by simp [Store.reopen, hsearch]
  have hrun : ((machine config).run { store := {} } actions).map (·.closings) =
      some [.threshold, .finishedBatch] := by
    decide +kernel
  obtain ⟨t, ht, hclosings⟩ := Option.map_eq_some_iff.mp hrun
  rw [← hreopen] at ht
  exact ⟨t, ht, hclosings, run_produced rfl (by decide) ht⟩

end Sample

end TracedFollower

end DataJoin
