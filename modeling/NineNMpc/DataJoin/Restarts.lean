-- SUMMARY: With lost calls and restarts of either process the blocks stay aligned, and saved blocks never change.
import NineNMpc.DataJoin.Alignment
import NineNMpc.DataJoin.AtMostOnce

/-!
# Alignment with failures and restarts

A restarted follower has lost its queue and its open block, and its history says nothing
about the blocks in the directory. No step reads that history, so the invariant of the
joiner is kept for one in which just the stored ids have been consumed. Ids that are joined
twice are in two blocks on both sides.
-/

namespace DataJoin

variable {ι ρ : Type}

/-! ## The history of the joiner -/

/-- The joiner as if it had consumed these ids. -/
def Joiner.withConsumed (j : Joiner ι ρ) (ids : List ι) : Joiner ι ρ := { j with consumed := ids }

variable [DecidableEq ι]

namespace Joiner

variable {cfg : JoinerConfig ι ρ} {st st' : Store ι ρ} {j j' : Joiner ι ρ}

theorem stepExample_withConsumed {x : ι} {rest ids : List ι} {finished : Bool} :
    stepExample cfg st (j.withConsumed ids) x rest finished =
      ((stepExample cfg st j x rest finished).1,
        (stepExample cfg st j x rest finished).2.withConsumed (ids ++ [x])) := by
  have hacquire : ∀ consumed, acquireDataBlockMaker st { j with consumed } =
      acquireDataBlockMaker st j := fun _ => rfl
  simp only [stepExample, withConsumed, hacquire]
  split
  · rfl
  · split
    · rfl
    · split <;> rfl

/-- The steps do not depend on what has been consumed. -/
theorem step_withConsumed {span : Bool} {queue queue' : List (LiteExampleIds ι)}
    (hs : j.step cfg span st queue = some (st', queue', j')) (ids : List ι) :
    ∃ ids', (j.withConsumed ids).step cfg span st queue = some (st', queue', j'.withConsumed ids') := by
  refine step_elim (motive := fun st' queue' j' => ∃ ids', (j.withConsumed ids).step cfg span st queue =
    some (st', queue', j'.withConsumed ids')) hs ?idle ?take ?next ?endOfBatch ?flush ?store ?update ?close
  case idle =>
    intro hpc hfin hqueue
    refine ⟨ids, ?_⟩
    simp only [step, hpc, withConsumed, hfin, hqueue, Bool.false_eq_true, if_false]
  case take =>
    intro b rest hpc hfin hqueue
    refine ⟨ids, ?_⟩
    simp only [step, hpc, withConsumed, hfin, hqueue, Bool.false_eq_true, if_false]
  case next =>
    intro x rest finished hpc
    refine ⟨ids ++ [x], ?_⟩
    have hpc' : (j.withConsumed ids).pc = .batch (x :: rest) finished := hpc
    simp only [step, hpc', stepExample_withConsumed]
  case endOfBatch =>
    intro finished hpc
    refine ⟨ids, ?_⟩
    simp only [step, hpc, stepEndOfBatch, withConsumed]
    split
    · split <;> rfl
    · rfl
  case flush =>
    intro hpc
    refine ⟨ids, ?_⟩
    simp only [step, hpc, stepFlush, withConsumed]
    split
    · split <;> rfl
    · rfl
  case store =>
    intro k hpc
    refine ⟨ids, ?_⟩
    simp only [step, hpc, stepStore, withConsumed]
    split
    · rfl
    · split <;> rfl
  case update =>
    intro k hpc
    refine ⟨ids, ?_⟩
    simp only [step, hpc, stepUpdate, withConsumed]
    split
    · rfl
    · split <;> rfl
  case close =>
    intro k hpc
    refine ⟨ids, ?_⟩
    simp only [step, hpc, stepClose, withConsumed]
    cases k <;> rfl

end Joiner

/-! ## The invariant -/

/-- What lost calls and restarts leave of the invariant. -/
structure Sys.Paired (cfg : Config ι ρ) (s : Sys ι ρ) : Prop where
  joiner : ∃ ids, (s.joiner.withConsumed ids).Inv cfg s.replica.follower
  replica : s.replica.Inv cfg.naming
  leader : s.replica.leader.Data cfg.naming cfg.leaderItems
  way : ∀ x ∈ s.way cfg, x ∈ cfg.leaderItems.ids

theorem Sys.Paired.stored {cfg : Config ι ρ} {s : Sys ι ρ} (h : s.Paired cfg) {x : ι}
    (hx : x ∈ s.replica.follower.storedIds) : x ∈ cfg.leaderItems.ids ∧ x ∈ cfg.followerItems.ids := by
  obtain ⟨ids, hj⟩ := h.joiner
  refine ⟨h.way x (List.mem_append_left _ (List.mem_append_left _ hx)), ?_⟩
  have hcommon : x ∈ cfg.common ids := hj.joined ▸ List.mem_append_left _ hx
  simpa [Config.common] using (List.mem_filter.mp hcommon).2

/-- A restarted process finds no more files than the search covers. -/
def RestartsInRange (s : Sys ι ρ) : Action → Prop
  | .restartFollower => s.replica.follower.metaFiles.length ≤ dataBlockIndexThreshold + 1
  | .restartLeader => s.replica.leader.store.metaFiles.length ≤ dataBlockIndexThreshold + 1
  | _ => True

instance : (s : Sys ι ρ) → (a : Action) → Decidable (RestartsInRange s a)
  | _, .restartFollower | _, .restartLeader => inferInstanceAs (Decidable (_ ≤ _))
  | _, .producer | _, .idService | _, .loseIdRequest | _, .loseIdResponse | _, .feed | _, .joiner _
  | _, .executor | _, .metaService | _, .loseMetaRequest | _, .loseMetaResponse | _, .saver =>
    inferInstanceAs (Decidable True)

/-! ## Steps -/

section

variable {cfg : Config ι ρ} {s s' : Sys ι ρ}

theorem step_way_mem {a : Action} (h : ∀ x ∈ s.way cfg, x ∈ cfg.leaderItems.ids)
    (hs : (dataJoin cfg).step s a = some s') : ∀ x ∈ s'.way cfg, x ∈ cfg.leaderItems.ids := by
  intro x hx
  obtain hsub | ⟨-, -, hway⟩ := step_way hs
  · exact h x (hsub.subset hx)
  · rw [hway] at hx
    obtain hx | hx := List.mem_append.mp hx
    · exact h x (List.mem_append_left _ hx)
    · exact (List.mem_filter.mp hx).1

theorem Sys.Paired.stepJoiner {span : Bool} (h : s.Paired cfg)
    (hway : ∀ x ∈ s'.way cfg, x ∈ cfg.leaderItems.ids) (hs : stepJoiner cfg s span = some s') :
    s'.Paired cfg := by
  simp only [DataJoin.stepJoiner, Option.map_eq_some_iff] at hs
  obtain ⟨⟨follower, pipe, joiner⟩, hstep, rfl⟩ := hs
  obtain ⟨ids, hj⟩ := h.joiner
  obtain ⟨ids', hstep'⟩ := Joiner.step_withConsumed hstep ids
  have hprog := Joiner.step_progress hj hstep'
  refine ⟨⟨ids', hprog.inv⟩, ?_, h.leader, hway⟩
  obtain hfiles | ⟨m, hindex, hname, rfl⟩ := hprog.store
  · exact h.replica.follower_frame hprog.inv.synced hfiles
  · exact h.replica.updateDataBlockMeta hj.synced rfl hindex hname

theorem Sys.Paired.restartFollower (h : s.Paired cfg)
    (hway : ∀ x ∈ (restartFollower s).way cfg, x ∈ cfg.leaderItems.ids)
    (hlen : s.replica.follower.metaFiles.length ≤ dataBlockIndexThreshold + 1) :
    (restartFollower s).Paired cfg := by
  obtain ⟨ids, hj⟩ := h.joiner
  have hsync := hj.synced.reopen hlen
  refine ⟨⟨s.replica.follower.storedIds, ?_⟩, ⟨hsync, h.replica.numbered, h.replica.leader, by
    simp [DataJoin.restartFollower]⟩, h.leader, hway⟩
  have hcommon : cfg.common s.replica.follower.storedIds = s.replica.follower.storedIds :=
    List.filter_eq_self.mpr fun x hx => by simpa using (h.stored hx).2
  exact {
    synced := hsync
    holds := hj.holds
    joined := (List.append_nil _).trans hcommon.symm
    maker := nofun
    storing := nofun
    written := nofun
    last := .inr ⟨rfl, .inl rfl⟩ }

theorem Sys.Paired.restartLeader (h : s.Paired cfg)
    (hway : ∀ x ∈ (restartLeader s).way cfg, x ∈ cfg.leaderItems.ids)
    (hlen : s.replica.leader.store.metaFiles.length ≤ dataBlockIndexThreshold + 1) :
    (restartLeader s).Paired cfg := by
  refine ⟨h.joiner, ?_, ⟨h.leader.holds, nofun⟩, hway⟩
  exact { h.replica with
    leader := Replication.DataBlockSaver.init_inv h.replica.leader.store h.replica.leader.saved hlen }

theorem step_paired {a : Action} (ha : RestartsInRange s a) (h : s.Paired cfg)
    (hs : (dataJoin cfg).step s a = some s') : s'.Paired cfg := by
  have hway := step_way_mem h.way hs
  cases a with
  | producer =>
    simp only [dataJoin, stepProducer, Option.map_eq_some_iff] at hs
    obtain ⟨_, -, rfl⟩ := hs
    exact { h with way := hway }
  | idService =>
    simp only [dataJoin, stepIdService] at hs
    split at hs
    · cases hs
      exact { h with way := hway }
    · cases hs
  | loseIdRequest | loseIdResponse | feed =>
    simp only [dataJoin, Option.map_eq_some_iff] at hs
    obtain ⟨_, -, rfl⟩ := hs
    exact { h with way := hway }
  | joiner span => exact h.stepJoiner hway hs
  | executor =>
    simp only [dataJoin, Action.replication?, Replication.replication, Option.map_eq_some_iff] at hs
    obtain ⟨replica, hstep, rfl⟩ := hs
    obtain ⟨hfiles, hleader⟩ := stepExecutor_files hstep
    have hinv := Replication.stepExecutor_inv h.replica hstep
    obtain ⟨ids, hj⟩ := h.joiner
    refine ⟨⟨ids, hj.frame hinv.follower hfiles⟩, hinv, ?_, hway⟩
    exact hleader.symm ▸ h.leader
  | metaService =>
    simp only [dataJoin, Action.replication?, Replication.replication, Option.map_eq_some_iff] at hs
    obtain ⟨replica, hstep, rfl⟩ := hs
    have hinv := Replication.stepServer_inv h.replica hstep
    simp only [Replication.stepServer] at hstep
    split at hstep
    · cases hstep
      exact ⟨h.joiner, hinv, h.leader.serve, hway⟩
    · cases hstep
  | loseMetaRequest =>
    simp only [dataJoin, Action.replication?, Replication.replication, Option.map_eq_some_iff] at hs
    obtain ⟨_, ⟨call, hcall, rfl⟩, rfl⟩ := hs
    exact ⟨h.joiner, Replication.lose_inv h.replica (.inl hcall), h.leader, hway⟩
  | loseMetaResponse =>
    simp only [dataJoin, Action.replication?, Replication.replication, Option.map_eq_some_iff] at hs
    obtain ⟨_, ⟨call, hcall, rfl⟩, rfl⟩ := hs
    exact ⟨h.joiner, Replication.lose_inv h.replica (.inr hcall), h.leader, hway⟩
  | saver =>
    simp only [dataJoin, Action.replication?, Replication.replication, Option.map_eq_some_iff] at hs
    obtain ⟨_, ⟨leader, hleader, rfl⟩, rfl⟩ := hs
    refine ⟨h.joiner, { h.replica with leader := ?_ }, ?_, hway⟩
    · exact h.replica.leader.step h.replica.numbered hleader
    · exact h.leader.step h.replica.leader h.replica.numbered
        (fun m hm x hx => (h.stored (List.mem_flatMap.mpr ⟨m, hm, hx⟩)).1) hleader
  | restartFollower =>
    cases hs
    exact h.restartFollower hway ha
  | restartLeader =>
    cases hs
    exact h.restartLeader hway ha

/-! ## Saved blocks -/

omit [DecidableEq ι] in
theorem Store.metaFiles_prefix_update {st : Store ι ρ} {m : DataBlockMeta ι} :
    st.metaFiles <+: (st.updateDataBlockMeta m).1.metaFiles := by
  rw [Store.updateDataBlockMeta_metaFiles]
  split
  · exact List.prefix_append _ _
  · exact List.prefix_rfl

open Replication in
theorem Replication.DataBlockSaver.step_prefix {naming : Naming ι} {items : ItemDict ι ρ}
    {sv sv' : DataBlockSaver ι ρ} (hs : sv.step naming items = some sv') :
    sv.store.metaFiles <+: sv'.store.metaFiles := by
  have hnotify : sv.notifyDataBlockManagerSyncState.1.store.metaFiles = sv.store.metaFiles :=
    congrArg Prod.fst sv.notify_files
  cases hpc : sv.pc with
  | idle =>
    simp only [DataBlockSaver.step, hpc] at hs
    split at hs
    · cases hs
    · split at hs
      case h_1 sv₁ hsv =>
        cases hs
        rw [hsv] at hnotify
        exact hnotify ▸ List.prefix_rfl
      case h_2 sv₁ hsv =>
        cases hs
        rw [hsv] at hnotify
        exact hnotify ▸ List.prefix_rfl
  | loop =>
    simp only [DataBlockSaver.step, hpc] at hs
    split at hs <;> cases hs <;> exact List.prefix_rfl
  | save m =>
    simp only [DataBlockSaver.step, hpc] at hs
    split at hs <;> cases hs <;> exact List.prefix_rfl
  | storeMeta m =>
    have hprefix : sv.store.metaFiles <+: (sv.store.updateDataBlockMeta m).1.metaFiles :=
      Store.metaFiles_prefix_update
    simp only [DataBlockSaver.step, hpc] at hs
    split at hs
    case h_1 st hst =>
      cases hs
      rwa [hst] at hprefix
    case h_2 st hst =>
      cases hs
      rwa [hst] at hprefix
  | pop m =>
    simp only [DataBlockSaver.step, hpc] at hs
    split at hs
    · cases hs
      exact List.prefix_rfl
    · split at hs <;> cases hs <;> exact List.prefix_rfl

/-- Metas that are stored stay where they are, on both sides. -/
structure Sys.Keeps (s t : Sys ι ρ) : Prop where
  follower : s.replica.follower.metaFiles <+: t.replica.follower.metaFiles
  leader : s.replica.leader.store.metaFiles <+: t.replica.leader.store.metaFiles

omit [DecidableEq ι] in
theorem Sys.Keeps.trans {r s t : Sys ι ρ} (h : r.Keeps s) (h' : s.Keeps t) : r.Keeps t :=
  ⟨h.follower.trans h'.follower, h.leader.trans h'.leader⟩

theorem step_keeps {a : Action} (h : s.Paired cfg) (hs : (dataJoin cfg).step s a = some s') :
    s.Keeps s' := by
  cases a with
  | producer =>
    simp only [dataJoin, stepProducer, Option.map_eq_some_iff] at hs
    obtain ⟨_, -, rfl⟩ := hs
    exact ⟨List.prefix_rfl, List.prefix_rfl⟩
  | idService =>
    simp only [dataJoin, stepIdService] at hs
    split at hs
    · cases hs
      exact ⟨List.prefix_rfl, List.prefix_rfl⟩
    · cases hs
  | loseIdRequest | loseIdResponse | feed =>
    simp only [dataJoin, Option.map_eq_some_iff] at hs
    obtain ⟨_, -, rfl⟩ := hs
    exact ⟨List.prefix_rfl, List.prefix_rfl⟩
  | joiner span =>
    simp only [dataJoin, stepJoiner, Option.map_eq_some_iff] at hs
    obtain ⟨⟨follower, pipe, joiner⟩, hstep, rfl⟩ := hs
    obtain ⟨ids, hj⟩ := h.joiner
    obtain ⟨_, hstep'⟩ := Joiner.step_withConsumed hstep ids
    refine ⟨?_, List.prefix_rfl⟩
    obtain hfiles | ⟨m, -, -, rfl⟩ := (Joiner.step_progress hj hstep').store
    · exact hfiles ▸ List.prefix_rfl
    · exact Store.metaFiles_prefix_update
  | executor =>
    simp only [dataJoin, Action.replication?, Replication.replication, Option.map_eq_some_iff] at hs
    obtain ⟨replica, hstep, rfl⟩ := hs
    obtain ⟨hfiles, hleader⟩ := stepExecutor_files hstep
    have hmetas : replica.follower.metaFiles = s.replica.follower.metaFiles := congrArg Prod.fst hfiles
    exact ⟨hmetas ▸ List.prefix_rfl, hleader ▸ List.prefix_rfl⟩
  | metaService =>
    simp only [dataJoin, Action.replication?, Replication.replication, Option.map_eq_some_iff] at hs
    obtain ⟨replica, hstep, rfl⟩ := hs
    simp only [Replication.stepServer] at hstep
    split at hstep
    case h_1 req _ =>
      cases hstep
      refine ⟨List.prefix_rfl, ?_⟩
      cases req with
      | startPartition => exact List.prefix_rfl
      | syncPartition m =>
        simp only [Replication.DataBlockSaver.serve,
          Replication.DataBlockSaver.appendSentDataBlockMetaToBuffer]
        split
        · exact List.prefix_rfl
        · split <;> exact List.prefix_rfl
    case h_2 => cases hstep
  | loseMetaRequest | loseMetaResponse =>
    simp only [dataJoin, Action.replication?, Replication.replication, Option.map_eq_some_iff] at hs
    obtain ⟨_, ⟨call, -, rfl⟩, rfl⟩ := hs
    exact ⟨List.prefix_rfl, List.prefix_rfl⟩
  | saver =>
    simp only [dataJoin, Action.replication?, Replication.replication, Option.map_eq_some_iff] at hs
    obtain ⟨_, ⟨leader, hleader, rfl⟩, rfl⟩ := hs
    exact ⟨List.prefix_rfl, Replication.DataBlockSaver.step_prefix hleader⟩
  | restartFollower | restartLeader =>
    cases hs
    exact ⟨List.prefix_rfl, List.prefix_rfl⟩

theorem initial_paired : (({} : Sys ι ρ)).Paired cfg where
  joiner := ⟨[], initial_inv.joiner⟩
  replica := Replication.initial_inv
  leader := initial_inv.leader
  way := by
    have hway : (({} : Sys ι ρ)).way cfg = [] := rfl
    simp [hway]

theorem run_paired {t : Sys ι ρ} {as : List Action} (h : s.Paired cfg)
    (has : (dataJoin cfg).Meets RestartsInRange s as) (hrun : (dataJoin cfg).run s as = some t) :
    t.Paired cfg ∧ s.Keeps t :=
  (dataJoin cfg).run_induct (P := fun t => t.Paired cfg ∧ s.Keeps t)
    (fun _ _ _ ha h hs => ⟨step_paired ha h.1 hs, h.2.trans (step_keeps h.1 hs)⟩) has hrun
    ⟨h, List.prefix_rfl, List.prefix_rfl⟩

/-- The records of the block at an index that the leader has saved. -/
theorem Sys.Paired.block? {k : Nat} {m : DataBlockMeta ι} (h : s.Paired cfg)
    (hm : s.replica.leader.store.metaFiles[k]? = some m) :
    ∃ leaderRecords followerRecords,
      s.replica.leader.store.block? cfg.naming k = some (m.exampleIds, leaderRecords) ∧
      s.replica.follower.block? cfg.naming k = some (m.exampleIds, followerRecords) ∧
      cfg.leaderItems.records? m.exampleIds = some leaderRecords ∧
      cfg.followerItems.records? m.exampleIds = some followerRecords := by
  obtain ⟨ids, hj⟩ := h.joiner
  have hm' : s.replica.follower.metaFiles[k]? = some m := by
    obtain ⟨rest, hrest⟩ := h.replica.leader.saved
    obtain ⟨hlt, -⟩ := List.getElem?_eq_some_iff.mp hm
    rw [← hrest, List.getElem?_append_left hlt, hm]
  obtain ⟨ls, hblock, hls⟩ := h.leader.holds.block? h.replica.leader.store hm
  obtain ⟨fs, hblock', hfs⟩ := hj.holds.block? hj.synced hm'
  exact ⟨ls, fs, hblock, hblock', hls, hfs⟩

/-- A block that the leader has saved pairs the records of the same common ids on both sides, then and
    ever after. -/
theorem saved_blocks_stay_paired {as : List Action} {k : Nat}
    (has : (dataJoin cfg).Meets RestartsInRange {} as) (hrun : (dataJoin cfg).run {} as = some s)
    (hk : k < s.replica.leader.store.metaFiles.length) :
    ∃ ids leaderRecords followerRecords,
      (∀ x ∈ ids, x ∈ cfg.leaderItems.ids ∧ x ∈ cfg.followerItems.ids) ∧
      cfg.leaderItems.records? ids = some leaderRecords ∧
      cfg.followerItems.records? ids = some followerRecords ∧
      ∀ bs t, (dataJoin cfg).Meets RestartsInRange s bs → (dataJoin cfg).run s bs = some t →
        t.replica.leader.store.block? cfg.naming k = some (ids, leaderRecords) ∧
        t.replica.follower.block? cfg.naming k = some (ids, followerRecords) := by
  have h := (run_paired initial_paired has hrun).1
  obtain ⟨m, hm⟩ : ∃ m, s.replica.leader.store.metaFiles[k]? = some m :=
    ⟨_, List.getElem?_eq_getElem hk⟩
  obtain ⟨ls, fs, -, -, hls, hfs⟩ := h.block? hm
  refine ⟨m.exampleIds, ls, fs, fun x hx => ?_, hls, hfs, fun bs t hbs hrun' => ?_⟩
  · have hmem := h.replica.leader.saved.subset (List.mem_of_getElem? hm)
    exact h.stored (List.mem_flatMap.mpr ⟨m, hmem, hx⟩)
  · obtain ⟨ht, hkeeps⟩ := run_paired h hbs hrun'
    have hm' : t.replica.leader.store.metaFiles[k]? = some m := by
      obtain ⟨rest, hrest⟩ := hkeeps.leader
      rw [← hrest, List.getElem?_append_left hk, hm]
    obtain ⟨ls', fs', hblock, hblock', hls', hfs'⟩ := ht.block? hm'
    rw [hls] at hls'
    rw [hfs] at hfs'
    cases hls'
    cases hfs'
    exact ⟨hblock, hblock'⟩

end

namespace Restarts

/-- The id `7` is joined twice, the answer to the first meta is lost, and the leader restarts between
    its two blocks. -/
def schedule : List Action :=
  Sample.batchRetried ++ [.executor, .metaService, .executor, .executor, .metaService,
    .loseMetaResponse, .executor, .executor, .metaService, .executor, .executor, .metaService,
    .executor, .executor] ++ List.replicate 5 .saver ++ [.restartLeader, .executor, .metaService,
    .executor, .executor, .metaService, .executor, .executor] ++ List.replicate 5 .saver

def later : List Action := [.restartFollower, .restartLeader, .producer, .idService]

theorem schedule_stays_paired : ∃ s t, (dataJoin Sample.config).run {} schedule = some s ∧
    (dataJoin Sample.config).run s later = some t ∧
    ∀ k < 2, ∃ ids leaderRecords followerRecords,
      Sample.config.leaderItems.records? ids = some leaderRecords ∧
      Sample.config.followerItems.records? ids = some followerRecords ∧
      t.replica.leader.store.block? Sample.config.naming k = some (ids, leaderRecords) ∧
      t.replica.follower.block? Sample.config.naming k = some (ids, followerRecords) := by
  have hlen : ((dataJoin Sample.config).run {} schedule).map
      (·.replica.leader.store.metaFiles.length) = some 2 := by
    decide +kernel
  obtain ⟨s, hs, hlen⟩ := Option.map_eq_some_iff.mp hlen
  have hrun : ((dataJoin Sample.config).run {} (schedule ++ later)).isSome = true := by decide +kernel
  obtain ⟨t, ht⟩ := Option.isSome_iff_exists.mp hrun
  obtain ⟨s', hs', ht⟩ := (Machine.run_append _).mp ht
  rw [hs] at hs'
  cases hs'
  have hmeets : (dataJoin Sample.config).Meets RestartsInRange {} (schedule ++ later) := by
    decide +kernel
  obtain ⟨hmeets, hlater⟩ := (Machine.meets_append _).mp hmeets
  refine ⟨s, t, hs, ht, fun k hk => ?_⟩
  obtain ⟨ids, ls, fs, -, hls, hfs, hstay⟩ := saved_blocks_stay_paired hmeets hs (hlen.symm ▸ hk)
  exact ⟨ids, ls, fs, hls, hfs, hstay later t (hlater s hs) ht⟩

end Restarts

end DataJoin
