-- SUMMARY: Metas reach the leader exactly once and in order, unless a restart finds more meta files than the search for the last one covers.
import NineNMpc.DataJoin.ReplicationInvariant

/-!
# Exactly-once replication of metas

The invariant holds along every run in which a restarted leader finds at most
`2^53 + 1` meta files. The search for the last saved index looks at no index above
`data_block_index_threshold`, so with one file more the leader reports an index that it
has already saved.
-/

namespace DataJoin.Replication

variable {ι ρ : Type}

/-- The saver is not between storing a meta and taking it out of the buffer. -/
def State.BetweenSaverSteps (s : State ι ρ) : Prop := ∀ m, s.leader.pc ≠ .pop m

/-- With `n` the next index that the leader reports: the leader has saved the follower's metas
    `0, …, k-1`, and its buffer has the metas `k, …, n-1`. -/
def State.Replicated (s : State ι ρ) : Prop :=
  s.follower.metaFiles.map (·.dataBlockIndex) = List.range s.follower.metaFiles.length ∧
  ∃ k n finished, (s.leader.serve .startPartition).2 = .start n finished ∧
    k ≤ n ∧ n ≤ s.follower.metaFiles.length ∧
    s.leader.store.metaFiles = s.follower.metaFiles.take k ∧
    s.leader.dataBlockMetaBuffer = (s.follower.metaFiles.take n).drop k

theorem State.Inv.replicated {naming : Naming ι} {s : State ι ρ} (h : s.Inv naming)
    (hs : s.BetweenSaverSteps) : s.Replicated := by
  refine ⟨h.numbered.index, s.leader.store.metaFiles.length, s.leader.nextDataBlockIndex,
    s.leader.sendDataBlockMetaFinish, rfl, h.leader.saved_le, h.leader.next_le, ?_, ?_⟩
  · exact List.prefix_iff_eq_take.mp h.leader.saved
  · rw [h.leader.buffer, DataBlockSaver.popped_eq hs]

/-- A restart of the leader finds no more files than the search covers. -/
def RestartInRange (s : State ι ρ) : Action ι ρ → Prop
  | .restartLeader => s.leader.store.metaFiles.length ≤ dataBlockIndexThreshold + 1
  | _ => True

instance : (s : State ι ρ) → (a : Action ι ρ) → Decidable (RestartInRange s a)
  | _, .restartLeader => inferInstanceAs (Decidable (_ ≤ _))
  | _, .produce .. | _, .executor | _, .server | _, .loseRequest | _, .loseResponse | _, .saver =>
    inferInstanceAs (Decidable True)

theorem step_inv [DecidableEq ι] {cfg : Config ι ρ} {s s' : State ι ρ} {a : Action ι ρ}
    (ha : RestartInRange s a) (h : s.Inv cfg.naming)
    (hs : (replication cfg).step s a = some s') : s'.Inv cfg.naming := by
  cases a with
  | produce ids records startTime endTime =>
    cases hs
    exact produce_inv h
  | executor => exact stepExecutor_inv h hs
  | server => exact stepServer_inv h hs
  | loseRequest =>
    simp only [replication, Option.map_eq_some_iff] at hs
    obtain ⟨call, hcall, rfl⟩ := hs
    exact lose_inv h (.inl hcall)
  | loseResponse =>
    simp only [replication, Option.map_eq_some_iff] at hs
    obtain ⟨call, hcall, rfl⟩ := hs
    exact lose_inv h (.inr hcall)
  | saver =>
    simp only [replication, Option.map_eq_some_iff] at hs
    obtain ⟨leader, hleader, rfl⟩ := hs
    exact { h with leader := h.leader.step h.numbered hleader }
  | restartLeader =>
    cases hs
    exact { h with leader := DataBlockSaver.init_inv h.leader.store h.leader.saved ha }

/-- Metas are replicated exactly once and in order. -/
theorem replication_exactly_once [DecidableEq ι] {cfg : Config ι ρ} {as : List (Action ι ρ)}
    {s : State ι ρ} (has : (replication cfg).Meets RestartInRange {} as)
    (hrun : (replication cfg).run {} as = some s) (hs : s.BetweenSaverSteps) : s.Replicated := by
  have hinv := (replication cfg).run_induct (P := fun s => s.Inv cfg.naming)
    (fun s a s' ha h hs => step_inv ha h hs) has hrun initial_inv
  exact hinv.replicated hs

/-! ## More blocks than the search covers -/

namespace Sample

/-- A leader with the ids `0, …, n-1`, each with itself as record. -/
def config (n : Nat) : Config Nat Nat where
  naming := .padded Nat "sample"
  leaderItems :=
    { items := (List.range n).map fun k => ⟨k, 0, k⟩
      nodup := by simp [Function.comp_def, List.nodup_range] }

/-- Both sides have `k` blocks and nobody is at work. -/
structure Quiet (k : Nat) (s : State Nat Nat) : Prop where
  follower : s.follower.Synced
  blocks : s.follower.metaFiles.length = k
  leader : s.leader.store.Synced
  saved : s.leader.store.metaFiles.length = k
  rest : s = { s with
    executor := { s.executor with pc := .idle, dataBlockProducerFinished := false }
    call := .idle
    leader := { store := s.leader.store, nextDataBlockIndex := k } }

/-- The executor's run for one new block, with the leader's answers. -/
def transfer : List (Action Nat Nat) :=
  [.executor, .server, .executor, .executor, .server, .executor, .executor]

/-- Block `k` with the id `k` is produced, sent and saved. -/
def cycle (k : Nat) : List (Action Nat Nat) :=
  .produce [k] [k] 0 0 :: transfer ++ List.replicate 6 .saver

/-- The first response is lost, and the leader restarts with the second meta only in its buffer. -/
def lossy : List (Action Nat Nat) :=
  [.produce [0] [0] 0 0, .executor, .server, .loseResponse, .executor] ++ transfer ++
    List.replicate 5 .saver ++ [.produce [1] [1] 0 0] ++ transfer ++ [.restartLeader]

def isIdle : SaverPc Nat → Bool
  | .idle => true
  | _ => false

theorem replication_lossy : ∃ s, (replication (config 2)).run {} lossy = some s ∧ s.Replicated ∧
    s.leader.nextDataBlockIndex = 1 ∧ s.follower.metaFiles.length = 2 := by
  have hsome : ((replication (config 2)).run {} lossy).isSome = true := by decide +kernel
  obtain ⟨s, hs⟩ := Option.isSome_iff_exists.mp hsome
  have hidle : ((replication (config 2)).run {} lossy).any (fun s => isIdle s.leader.pc &&
      s.leader.nextDataBlockIndex == 1 && s.follower.metaFiles.length == 2) = true := by
    decide +kernel
  simp only [hs, Option.any_some, Bool.and_eq_true, beq_iff_eq] at hidle
  obtain ⟨⟨hpc, hnext⟩, hlen⟩ := hidle
  refine ⟨s, hs, replication_exactly_once (by decide +kernel) hs fun m hm => ?_, hnext, hlen⟩
  simp [hm, isIdle] at hpc

theorem lookupRecords_config {n k : Nat} (hk : k < n) :
    DataBlockSaver.lookupRecords (config n).leaderItems [k] = [k] := by
  have hget : (config n).leaderItems.get? k = some ⟨k, 0, k⟩ := by
    have hmem : k ∈ (config n).leaderItems.ids := by
      simpa [config, ItemDict.ids] using hk
    obtain ⟨item, hitem⟩ := Option.isSome_iff_exists.mp (ItemDict.get?_isSome.mpr hmem)
    have hkey : item.exampleId = k := by simpa using List.find?_some hitem
    obtain ⟨j, _, hj⟩ := List.mem_map.mp (List.mem_of_find?_eq_some hitem)
    rw [hitem, ← hj]
    rw [← hj] at hkey
    exact congrArg some (by rw [show j = k from hkey])
  simp [DataBlockSaver.lookupRecords, hget]

theorem run_transfer {n k : Nat} {s : State Nat Nat} {st : Store Nat Nat} {m : DataBlockMeta Nat}
    (h : Quiet k s) (hm : m.dataBlockIndex = k)
    (hfound : st.acquireDataBlockMetaByIndex k = (st, .found m))
    (hnone : st.acquireDataBlockMetaByIndex (k + 1) = (st, .none)) :
    (replication (config n)).run { s with follower := st } transfer = some { s with
      follower := st
      executor := { pc := .idle, nextDataBlockIndex := k + 1, dataBlockProducerFinished := false }
      leader := { store := s.leader.store, nextDataBlockIndex := k + 1, dataBlockMetaBuffer := [m] } } := by
  rw [h.rest]
  simp [transfer, Machine.run, replication, stepExecutor, stepServer, DataBlockSaver.serve,
    DataBlockSaver.appendSentDataBlockMetaToBuffer, hfound, hnone, hm]

theorem run_saver {n k : Nat} {s : State Nat Nat} {st : Store Nat Nat} {m : DataBlockMeta Nat}
    (hk : k < n) (hm : m.withBlockId (config n).naming = m) (hids : m.exampleIds = [k])
    (hleader : s.leader = { store := st, nextDataBlockIndex := k + 1, dataBlockMetaBuffer := [m] })
    (hst : st.Synced) (hindex : m.dataBlockIndex = st.metaFiles.length) :
    ∃ st', (replication (config n)).run s (List.replicate 6 .saver) = some { s with
      leader := { store := st', nextDataBlockIndex := k + 1 } } ∧
      st'.Synced ∧ st'.metaFiles = st.metaFiles ++ [m] := by
  set st₁ := st.saveData ((config n).naming.dataBlockFileNameWrap m) [k] with hst₁
  have hsync₁ : st₁.Synced := hst.saveData
  obtain ⟨hok, hsync, hfiles⟩ := hsync₁.updateDataBlockMeta hindex
  obtain ⟨st', hst'⟩ : ∃ st', st₁.updateDataBlockMeta m = (st', true) :=
    ⟨_, Prod.ext rfl hok⟩
  rw [hst'] at hsync hfiles
  refine ⟨st', ?_, hsync, hfiles⟩
  simp [List.replicate, Machine.run, replication, DataBlockSaver.step,
    DataBlockSaver.notifyDataBlockManagerSyncState, hleader, lookupRecords_config hk, hids, hm, ← hst₁,
    hst']

theorem run_cycle {n k : Nat} {s : State Nat Nat} (hk : k < n) (h : Quiet k s) :
    ∃ s', (replication (config n)).run s (cycle k) = some s' ∧ Quiet (k + 1) s' := by
  set m : DataBlockMeta Nat :=
    DataBlockMeta.withBlockId (config n).naming ⟨"", k, [k], 0, 0⟩ with hm
  set st := s.follower.saveData ((config n).naming.dataBlockFileNameWrap m) [k] with hst
  have hindex : m.dataBlockIndex = st.metaFiles.length := h.blocks.symm
  have hsync : st.Synced := h.follower.saveData
  obtain ⟨_, hsync', hfiles⟩ := hsync.updateDataBlockMeta hindex
  have hlen : (st.updateDataBlockMeta m).1.metaFiles.length = k + 1 := by
    rw [hfiles, List.length_append, List.length_singleton, ← hindex, hm]
    rfl
  have hproduce : produce (config n).naming s [k] [k] 0 0 =
      { s with follower := (st.updateDataBlockMeta m).1 } := by
    rw [produce, h.follower.acquireProducedDataBlockNumber, h.blocks]
    simp only [List.cons_ne_nil, if_false, ← hm, ← hst]
  have hfound : (st.updateDataBlockMeta m).1.acquireDataBlockMetaByIndex k =
      ((st.updateDataBlockMeta m).1, .found m) := hsync.acquire_stored hindex
  have hnone : (st.updateDataBlockMeta m).1.acquireDataBlockMetaByIndex (k + 1) =
      ((st.updateDataBlockMeta m).1, .none) := by
    simp [Store.acquireDataBlockMetaByIndex, hsync'.sync, hsync'.produced, hlen]
  obtain ⟨st', hrun, hsync'', hfiles'⟩ := run_saver (s := { s with
      follower := (st.updateDataBlockMeta m).1
      executor := { pc := .idle, nextDataBlockIndex := k + 1, dataBlockProducerFinished := false }
      leader := { store := s.leader.store, nextDataBlockIndex := k + 1, dataBlockMetaBuffer := [m] } })
    (m := m) hk rfl rfl rfl h.leader h.saved.symm
  refine ⟨{ s with
      follower := (st.updateDataBlockMeta m).1
      executor := { pc := .idle, nextDataBlockIndex := k + 1, dataBlockProducerFinished := false }
      leader := { store := st', nextDataBlockIndex := k + 1 } }, ?_, ?_⟩
  · rw [cycle, List.cons_append, Machine.run_cons]
    refine ⟨_, congrArg some hproduce, ?_⟩
    rw [Machine.run_append]
    exact ⟨_, run_transfer h rfl hfound hnone, hrun⟩
  · have hcall : s.call = .idle := by rw [h.rest]
    refine ⟨hsync', hlen, hsync'', ?_, ?_⟩
    · simp [hfiles', h.saved]
    · simp [hcall]

/-- Any number of blocks can be produced and saved. -/
theorem exists_quiet {n k : Nat} (hk : k ≤ n) :
    ∃ as s, (replication (config n)).run {} as = some s ∧ Quiet k s := by
  induction k with
  | zero =>
    have hopen := (Store.synced_empty (ι := Nat) (ρ := Nat)).reopen (by simp)
    refine ⟨[], {}, rfl, Store.synced_empty, rfl, hopen, rfl, ?_⟩
    have hzero : (Store.reopen ({} : Store Nat Nat)).produced = 0 := hopen.produced
    simp only [DataBlockSaver.init, hzero]
  | succ k ih =>
    obtain ⟨as, s, hrun, hs⟩ := ih (by omega)
    obtain ⟨s', hrun', hs'⟩ := run_cycle (n := n) hk hs
    exact ⟨as ++ cycle k, s', (Machine.run_append _).mpr ⟨s, hrun, hrun'⟩, hs'⟩

/-- With `2^53 + 2` blocks saved, a restarted leader reports the index of a block it has. -/
theorem restart_reports_saved_index :
    ¬ ∀ (as : List (Action Nat Nat)) (s : State Nat Nat),
      (replication (config (dataBlockIndexThreshold + 2))).run {} as = some s →
      s.BetweenSaverSteps → s.Replicated := by
  intro hall
  obtain ⟨as, s, hrun, hs⟩ := exists_quiet (Nat.le_refl (dataBlockIndexThreshold + 2))
  have hrun' : (replication (config (dataBlockIndexThreshold + 2))).run {} (as ++ [.restartLeader]) =
      some { s with leader := .init s.leader.store } :=
    (Machine.run_append _).mpr ⟨s, hrun, rfl⟩
  obtain ⟨_, k, n, finished, hn, hkn, _, hsaved, _⟩ :=
    hall _ _ hrun' (by simp [State.BetweenSaverSteps, DataBlockSaver.init])
  have hlen : s.leader.store.metaFiles.length ≤ k := by
    have := congrArg List.length hsaved
    simp only [DataBlockSaver.init, Store.reopen_metaFiles, List.length_take] at this
    omega
  have hsearch := Store.searchSaved_eq hs.leader.contiguous
  have hnext : n = s.leader.store.searchSaved := by
    simp only [DataBlockSaver.serve, DataBlockSaver.init, Store.reopen, Response.start.injEq] at hn
    exact hn.1.symm
  rw [hs.saved] at hlen hsearch
  omega

end Sample

end DataJoin.Replication
