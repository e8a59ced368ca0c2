-- SUMMARY: No step but a new sending pass brings ids onto the way into the blocks, and when every id is joined at most once.
import NineNMpc.DataJoin.Places

/-!
# At-most-once join

The ids of one sending pass move through the call, the queue, the current batch and the
open block into the stored blocks. Every step of the system keeps a sublist of what is on
this way, except the step in which the leader, told by `StartPartition` that the follower
is not finished, starts to send all ids from the first one on: the index in the answer is
not looked at. So an id is joined twice only if such a pass starts while the follower still
holds a common id.
-/

namespace DataJoin

variable {ι ρ : Type}

/-! ## The joiner -/

variable [DecidableEq ι]

/-- The ids that the joiner holds with its queue and its directory. -/
def Joiner.held (cfg : Config ι ρ) (st : Store ι ρ) (queue : List ι) (j : Joiner ι ρ) : List ι :=
  st.storedIds ++ (j.openIds ++ cfg.common (j.pc.rest ++ queue))

theorem Joiner.stepExample_sublist {cfg : Config ι ρ} {st : Store ι ρ} {j : Joiner ι ρ} {x : ι}
    {rest queue : List ι} {finished : Bool} (hpc : j.pc = .batch (x :: rest) finished) :
    List.Sublist ((stepExample cfg.joiner st j x rest finished).2.held cfg
      (stepExample cfg.joiner st j x rest finished).1 queue) (j.held cfg st queue) := by
  have hopen : j.openIds = (j.dataBlockMaker.map (·.exampleIds)).getD [] := by
    simp [openIds, hpc, JoinerPc.isClose]
  refine stepExample_elim
    (motive := fun st' j' => (j'.held cfg st' queue).Sublist (j.held cfg st queue))
    ?skipped ?raised ?saved
  case skipped =>
    intro hx
    have hx' : x ∉ cfg.followerItems.ids := ItemDict.get?_eq_none.mp hx
    simp [held, hpc, JoinerPc.rest, openIds, JoinerPc.isClose, Config.common, hx']
  case raised =>
    -- the rest of the batch is dropped
    intro item st' maker hitem hacq _
    obtain ⟨hfiles, hids⟩ := acquireDataBlockMaker_spec hacq
    have hrest : (cfg.common queue).Sublist (cfg.common (x :: rest ++ queue)) := by
      rw [Config.common_append]
      exact List.sublist_append_right _ _
    simp only [held, raise, Store.storedIds, hfiles, hopen, hpc, JoinerPc.rest]
    refine (List.Sublist.refl _).append (List.Sublist.append ?_ hrest)
    cases maker with
    | none => simp [openIds, JoinerPc.isClose]
    | some mk => simp [openIds, JoinerPc.isClose, hids mk rfl]
  case saved =>
    intro item st' mk mk' hitem hacq hsave
    have hx : x ∈ cfg.followerItems.ids :=
      ItemDict.get?_isSome.mp (Option.isSome_iff_exists.mpr ⟨item, hitem⟩)
    obtain ⟨hfiles, hids⟩ := acquireDataBlockMaker_spec hacq
    have hids := hids mk rfl
    have hids' := DataBlockMaker.save_exampleIds hsave
    rw [hids, ItemDict.exampleId_of_get? hitem] at hids'
    have hx' : cfg.common (x :: rest) = x :: cfg.common rest := by simp [Config.common, hx]
    have hnext : ∀ full : Bool, JoinerPc.rest (if full then .store (.inBatch rest finished)
        else .batch rest finished) = rest ∧ JoinerPc.isClose (if full then
        .store (.inBatch rest finished) else .batch rest finished) = false := by
      intro full
      cases full <;> exact ⟨rfl, rfl⟩
    obtain ⟨hrest', hclose⟩ := hnext (mk'.isDataBlockExceedThreshold cfg.joiner.dumpDataBlockThreshold)
    have hrest : j.pc.rest = x :: rest := by rw [hpc, JoinerPc.rest]
    rw [held, held, hopen]
    simp only [Store.storedIds, hfiles, openIds, hrest, hrest', hclose,
      Config.common_append, hx', Option.map_some, Option.getD_some, hids']
    simp

theorem Joiner.stepUpdate_sublist {cfg : Config ι ρ} {st : Store ι ρ} {j : Joiner ι ρ}
    {k : Finalizing ι} {queue : List ι} (hpc : j.pc = .update k) :
    List.Sublist ((stepUpdate cfg.joiner st j k).2.held cfg (stepUpdate cfg.joiner st j k).1 queue)
      (j.held cfg st queue) := by
  have hrest : ∀ pc : JoinerPc ι, pc.rest = (JoinerPc.update k).rest ∨ pc.rest = [] →
      (cfg.common (pc.rest ++ queue)).Sublist (cfg.common (j.pc.rest ++ queue)) := by
    intro pc h
    rw [hpc, Config.common_append, Config.common_append]
    refine List.Sublist.append ?_ (List.Sublist.refl _)
    obtain h | h := h <;> simp [h]
  simp only [stepUpdate]
  split
  case h_1 hnone =>
    refine (List.Sublist.refl _).append (List.Sublist.append ?_ (hrest _ (.inl rfl)))
    simp [openIds, JoinerPc.isClose]
  case h_2 mk hmk =>
    have hfiles := Store.updateDataBlockMeta_metaFiles st (mk.dataBlockMeta cfg.joiner.naming)
    split
    case h_1 st' hst =>
      simp only [hst, if_true] at hfiles
      have hopen : j.openIds = mk.exampleIds := by simp [openIds, hpc, hmk, JoinerPc.isClose]
      simp only [held, Store.storedIds, hfiles, hopen, List.flatMap_append, List.append_assoc]
      refine (List.Sublist.refl _).append (List.Sublist.append ?_ ?_)
      · simp [DataBlockMaker.dataBlockMeta]
      · simpa [openIds, JoinerPc.isClose] using hrest (.close k) (.inl rfl)
    case h_2 st' hst =>
      simp only [hst] at hfiles
      simp only [held, Store.storedIds, hfiles]
      refine (List.Sublist.refl _).append (List.Sublist.append ?_ (hrest .top (.inr rfl)))
      simp [openIds, raise, hpc, JoinerPc.isClose]

theorem Joiner.stepStore_sublist {cfg : Config ι ρ} {st : Store ι ρ} {j : Joiner ι ρ}
    {k : Finalizing ι} {queue : List ι} (hpc : j.pc = .store k) :
    List.Sublist ((stepStore cfg.joiner st j k).2.held cfg (stepStore cfg.joiner st j k).1 queue)
      (j.held cfg st queue) := by
  have hrest : ∀ pc, pc = JoinerPc.close k ∨ pc = .update k → pc.rest = j.pc.rest := by
    rintro pc (rfl | rfl) <;> rw [hpc] <;> rfl
  simp only [stepStore]
  split
  case h_1 hnone =>
    refine (List.Sublist.refl _).append (List.Sublist.append ?_ ?_)
    · simp [openIds, JoinerPc.isClose]
    · rw [hrest _ (.inl rfl)]
  case h_2 mk hmk =>
    split
    case isTrue hnil =>
      refine (List.Sublist.refl _).append (List.Sublist.append ?_ ?_)
      · simp [openIds, JoinerPc.isClose]
      · rw [hrest _ (.inl rfl)]
    case isFalse =>
      refine (List.Sublist.refl _).append (List.Sublist.append ?_ ?_)
      · simp [openIds, hpc, hmk, JoinerPc.isClose]
      · rw [hrest _ (.inr rfl)]

theorem Joiner.stepClose_sublist {cfg : Config ι ρ} {st : Store ι ρ} {j : Joiner ι ρ}
    {k : Finalizing ι} {queue : List ι} (hpc : j.pc = .close k) :
    List.Sublist ((stepClose j k).held cfg st queue) (j.held cfg st queue) := by
  refine (List.Sublist.refl _).append ?_
  cases k <;> simp [stepClose, resume, openIds, hpc, JoinerPc.isClose, JoinerPc.rest, Finalizing.rest]

theorem Joiner.stepFlush_sublist {cfg : Config ι ρ} {st : Store ι ρ} {j : Joiner ι ρ} {span : Bool}
    {queue : List ι} (hpc : j.pc = .flush) :
    List.Sublist ((stepFlush j span).held cfg st queue) (j.held cfg st queue) := by
  refine (List.Sublist.refl _).append ?_
  simp only [stepFlush]
  split
  · split <;> simp [raise, openIds, hpc, JoinerPc.isClose, JoinerPc.rest, Finalizing.rest]
  · simp [openIds, hpc, JoinerPc.isClose, JoinerPc.rest]

theorem Joiner.stepEndOfBatch_sublist {cfg : Config ι ρ} {st : Store ι ρ} {j : Joiner ι ρ}
    {finished : Bool} {queue : List ι} (hpc : j.pc = .batch [] finished) :
    List.Sublist ((stepEndOfBatch j finished).held cfg st queue) (j.held cfg st queue) := by
  refine (List.Sublist.refl _).append ?_
  simp only [stepEndOfBatch]
  split
  · split <;> simp [openIds, hpc, JoinerPc.isClose, JoinerPc.rest, Finalizing.rest]
  · simp [openIds, hpc, JoinerPc.isClose, JoinerPc.rest]

/-- The joiner adds nothing to what it holds. -/
theorem Joiner.step_sublist {cfg : Config ι ρ} {span : Bool} {st st' : Store ι ρ}
    {queue queue' : List (LiteExampleIds ι)} {j j' : Joiner ι ρ} {b : List ι}
    (h : j.step cfg.joiner span st queue = some (st', queue', j')) :
    List.Sublist (j'.held cfg st' (queuedIds queue' ++ b))
      (j.held cfg st (queuedIds queue ++ b)) := by
  apply step_elim h
  case idle =>
    intro hpc _ hqueue
    simp [held, openIds, hpc, hqueue, JoinerPc.isClose, JoinerPc.rest]
  case take =>
    intro batch rest hpc _ hqueue
    simp [held, openIds, hpc, hqueue, JoinerPc.isClose, JoinerPc.rest]
  case next =>
    intro x rest finished hpc
    exact stepExample_sublist hpc
  case endOfBatch =>
    intro finished hpc
    exact stepEndOfBatch_sublist hpc
  case flush =>
    intro hpc
    exact stepFlush_sublist hpc
  case store =>
    intro k hpc
    exact stepStore_sublist hpc
  case update =>
    intro k hpc
    exact stepUpdate_sublist hpc
  case close =>
    intro k hpc
    exact stepClose_sublist hpc

/-! ## The system -/

theorem Action.replication_metaFiles {cfg : Replication.Config ι ρ} {s s' : Replication.State ι ρ}
    {a : Action} {b : Replication.Action ι ρ} (hb : a.replication? = some b)
    (hs : (Replication.replication cfg).step s b = some s') :
    s'.follower.metaFiles = s.follower.metaFiles := by
  have hexecutor : ∀ {s'}, Replication.stepExecutor s = some s' →
      s'.follower.metaFiles = s.follower.metaFiles := by
    intro s' hs
    have hfiles := congrArg Prod.fst (Store.acquireDataBlockMetaByIndex_files s.follower
      s.executor.nextDataBlockIndex)
    simp only [Store.files] at hfiles
    simp only [Replication.stepExecutor] at hs
    split at hs
    case h_3 =>
      split at hs
      · cases hs
        rfl
      · split at hs
        case h_1 st m hst =>
          cases hs
          rwa [hst] at hfiles
        case h_2 st r _ hst =>
          cases hs
          rwa [hst] at hfiles
    case h_1 =>
      split at hs
      · cases hs
      · cases hs
        rfl
    all_goals cases hs <;> rfl
  cases a <;> simp only [Action.replication?, Option.some.injEq, reduceCtorEq] at hb
  · subst hb
    exact hexecutor hs
  · subst hb
    simp only [Replication.replication, Replication.stepServer] at hs
    split at hs
    · cases hs
      rfl
    · cases hs
  all_goals
    subst hb
    simp only [Replication.replication, Option.map_eq_some_iff] at hs
    obtain ⟨_, _, rfl⟩ := hs
    rfl

/-- The leader has been told that the follower is not finished and is about to send all ids. -/
def Sys.startsPass (s : Sys ι ρ) : Bool :=
  match s.producer.pc, s.idCall with
  | .start, .response (.start _ false) => true
  | _, _ => false

theorem stepIdService_way {cfg : Config ι ρ} {s s' : Sys ι ρ} (hs : stepIdService s = some s') :
    (s'.way cfg).Sublist (s.way cfg) := by
  simp only [stepIdService] at hs
  split at hs
  case h_2 => cases hs
  case h_1 req hreq =>
    cases hs
    cases req with
    | startPartition =>
      simp only [ExampleIdConsumer.serve]
      split <;> simp [Sys.way, Sys.held, Sys.received, Sys.coming, hreq, Call.batch?]
    | finishPartition =>
      simp only [ExampleIdConsumer.serve]
      split <;> simp [Sys.way, Sys.held, Sys.received, Sys.coming, hreq, Call.batch?]
    | syncPartition batch =>
      simp only [ExampleIdConsumer.serve]
      split <;> simp [Sys.way, Sys.held, Sys.received, Sys.coming, hreq, Call.batch?,
        ExampleIdConsumer.append]

theorem stepJoiner_way {cfg : Config ι ρ} {s s' : Sys ι ρ} {span : Bool}
    (hs : stepJoiner cfg s span = some s') : (s'.way cfg).Sublist (s.way cfg) := by
  simp only [stepJoiner, Option.map_eq_some_iff] at hs
  obtain ⟨⟨follower, pipe, joiner⟩, hstep, rfl⟩ := hs
  have hsub := Joiner.step_sublist (b := queuedIds s.consumer.buffer) hstep
  exact hsub.append (List.Sublist.refl _)

/-- Only the step that starts a pass brings ids onto the way. -/
theorem step_way {cfg : Config ι ρ} {s s' : Sys ι ρ} {a : Action}
    (hs : (dataJoin cfg).step s a = some s') :
    (s'.way cfg).Sublist (s.way cfg) ∨
      (a = .producer ∧ s.startsPass = true ∧
        s'.way cfg = s.held cfg ++ cfg.common cfg.leaderItems.ids) := by
  have hreplica : ∀ {b}, a.replication? = some b →
      ((Replication.replication cfg.replication).step s.replica b).map
        (fun replica => { s with replica }) = some s' →
      (s'.way cfg).Sublist (s.way cfg) := by
    intro b hb hs
    simp only [Option.map_eq_some_iff] at hs
    obtain ⟨replica, hstep, rfl⟩ := hs
    have hfiles := Action.replication_metaFiles hb hstep
    simp [Sys.way, Sys.held, Store.storedIds, hfiles, Sys.received, Sys.coming]
  cases a with
  | producer =>
    simp only [dataJoin, stepProducer, Option.map_eq_some_iff] at hs
    obtain ⟨⟨producer, idCall⟩, hstep, rfl⟩ := hs
    obtain hsub | ⟨hpc, ⟨next, hcall⟩, hcoming⟩ := ExampleIdProducer.step_coming hstep
    · refine .inl ((List.Sublist.refl _).append ?_)
      exact List.Sublist.filter _ hsub
    · refine .inr ⟨rfl, by simp [Sys.startsPass, hpc, hcall], ?_⟩
      simp only [Sys.way, Sys.coming, hcoming]
      rfl
  | idService => exact .inl (stepIdService_way hs)
  | loseIdRequest =>
    simp only [dataJoin, Option.map_eq_some_iff] at hs
    obtain ⟨idCall, hcall, rfl⟩ := hs
    refine .inl ((List.Sublist.refl _).append (List.Sublist.filter _ ?_))
    cases hc : s.idCall <;> simp [hc, Call.loseRequest] at hcall
    subst hcall
    simp [Sys.coming, Call.batch?]
  | loseIdResponse =>
    simp only [dataJoin, Option.map_eq_some_iff] at hs
    obtain ⟨idCall, hcall, rfl⟩ := hs
    refine .inl ((List.Sublist.refl _).append (List.Sublist.filter _ ?_))
    cases hc : s.idCall <;> simp [hc, Call.loseResponse] at hcall
    subst hcall
    simp [Sys.coming, Call.batch?]
  | feed =>
    simp only [dataJoin, Option.map_eq_some_iff] at hs
    obtain ⟨consumer, hfeed, rfl⟩ := hs
    simp only [ExampleIdConsumer.feed] at hfeed
    split at hfeed
    · cases hfeed
    · rename_i hbuffer
      cases hfeed
      simp [Sys.way, Sys.held, Sys.received, Sys.coming, hbuffer]
  | joiner span => exact .inl (stepJoiner_way hs)
  | restartFollower =>
    cases hs
    refine .inl (List.Sublist.append ?_ (List.Sublist.refl _))
    refine (List.Sublist.refl _).append ?_
    have hnil : (restartFollower s).joiner.openIds ++ cfg.common (restartFollower s).received = [] := rfl
    rw [hnil]
    exact List.nil_sublist _
  | restartLeader =>
    cases hs
    refine .inl ((List.Sublist.refl _).append ?_)
    simp [restartLeader, Sys.coming, Call.batch?, ProducerPc.unsent]
  | executor => exact .inl (hreplica rfl hs)
  | metaService => exact .inl (hreplica rfl hs)
  | loseMetaRequest => exact .inl (hreplica rfl hs)
  | loseMetaResponse => exact .inl (hreplica rfl hs)
  | saver => exact .inl (hreplica rfl hs)

/-! ## Runs -/

/-- A pass starts to send only while the follower holds no common id: in its blocks, in the open
    block, in the current batch or in the queue. -/
def FreshPass (cfg : Config ι ρ) (s : Sys ι ρ) : Action → Prop
  | .producer =>
    s.startsPass = true → ∀ x ∈ cfg.leaderItems.ids, x ∈ cfg.followerItems.ids → x ∉ s.held cfg
  | _ => True

instance {cfg : Config ι ρ} : (s : Sys ι ρ) → (a : Action) → Decidable (FreshPass cfg s a)
  | s, .producer => inferInstanceAs (Decidable (s.startsPass = true → ∀ x ∈ cfg.leaderItems.ids,
      x ∈ cfg.followerItems.ids → x ∉ s.held cfg))
  | _, .idService | _, .loseIdRequest | _, .loseIdResponse | _, .feed | _, .joiner _ | _, .executor
  | _, .metaService | _, .loseMetaRequest | _, .loseMetaResponse | _, .saver | _, .restartFollower
  | _, .restartLeader => inferInstanceAs (Decidable True)

/-- The ids on the way are common ids, and no two are the same. -/
structure Sys.Distinct (cfg : Config ι ρ) (s : Sys ι ρ) : Prop where
  nodup : (s.way cfg).Nodup
  common : ∀ x ∈ s.way cfg, x ∈ cfg.leaderItems.ids ∧ x ∈ cfg.followerItems.ids

theorem step_distinct {cfg : Config ι ρ} {s s' : Sys ι ρ} {a : Action} (ha : FreshPass cfg s a)
    (h : s.Distinct cfg) (hs : (dataJoin cfg).step s a = some s') : s'.Distinct cfg := by
  obtain hsub | ⟨rfl, hpass, hway⟩ := step_way hs
  · exact ⟨hsub.nodup h.nodup, fun x hx => h.common x (hsub.subset hx)⟩
  · have hheld : s.held cfg = [] := by
      rw [List.eq_nil_iff_forall_not_mem]
      intro x hx
      obtain ⟨hL, hF⟩ := h.common x (List.mem_append_left _ hx)
      exact ha hpass x hL hF hx
    rw [hheld, List.nil_append] at hway
    refine ⟨hway ▸ cfg.leaderItems.nodup.filter _, fun x hx => ?_⟩
    rw [hway] at hx
    simpa [Config.common] using hx

/-- At-most-once join: in a run in which passes start only on a follower without common ids, no
    id occurs twice in the follower's blocks. -/
theorem dataJoin_at_most_once {cfg : Config ι ρ} {as : List Action} {s : Sys ι ρ}
    (has : (dataJoin cfg).Meets (FreshPass cfg) {} as) (hrun : (dataJoin cfg).run {} as = some s) :
    ∀ x ∈ cfg.leaderItems.ids, s.replica.follower.storedIds.count x ≤ 1 := by
  have hinit : (({} : Sys ι ρ)).Distinct cfg := ⟨List.nodup_nil, by simp [Sys.way, Sys.held,
    Store.storedIds, Joiner.openIds, Sys.received, JoinerPc.rest, Sys.coming, Call.batch?,
    ProducerPc.unsent]⟩
  have h := (dataJoin cfg).run_induct (P := fun s => s.Distinct cfg)
    (fun s a s' ha h hs => step_distinct ha h hs) has hrun hinit
  intro x _
  have hnodup := (List.nodup_append.mp (List.nodup_append.mp h.nodup).1).1
  exact List.nodup_iff_count_le_one.mp hnodup x

/-! ## A pass on a follower that has joined the id already -/

namespace Sample

/-- Both sides have the one id `7`, and a block is closed at its first example. -/
def config : Config Nat String where
  naming := .padded Nat "sample"
  leaderItems := { items := [⟨7, 100, "leader"⟩], nodup := by simp }
  followerItems := { items := [⟨7, 100, "follower"⟩], nodup := by simp }
  dumpDataBlockThreshold := 1

/-- A pass up to the answer to its only batch, and the joiner up to the stored block. -/
def passAndJoin : List Action :=
  [.producer, .idService, .producer, .idService, .feed] ++ List.replicate 5 (.joiner false)

/-- The answer to the first `StartPartition` is lost, and the second pass goes through. -/
def startRetried : List Action :=
  [.producer, .idService, .loseIdResponse, .producer] ++ passAndJoin

theorem startRetried_at_most_once : ∃ s, (dataJoin config).run {} startRetried = some s ∧
    s.replica.follower.storedIds = [7] ∧
    ∀ x ∈ config.leaderItems.ids, s.replica.follower.storedIds.count x ≤ 1 := by
  have hids : ((dataJoin config).run {} startRetried).map (·.replica.follower.storedIds) =
      some [7] := by
    decide +kernel
  obtain ⟨s, hs, hstored⟩ := Option.map_eq_some_iff.mp hids
  exact ⟨s, hs, hstored, dataJoin_at_most_once (by decide +kernel) hs⟩

/-- The answer to the batch is lost after the block was stored, the follower restarts, and the
    leader sends the batch again. -/
def batchRetried : List Action :=
  passAndJoin ++ [.loseIdResponse, .producer, .restartFollower] ++ passAndJoin

theorem batchRetried_joined_twice : ∃ s, (dataJoin config).run {} batchRetried = some s ∧
    ¬ ∀ x ∈ config.leaderItems.ids, s.replica.follower.storedIds.count x ≤ 1 := by
  have hids : ((dataJoin config).run {} batchRetried).map (·.replica.follower.storedIds) =
      some [7, 7] := by
    decide +kernel
  obtain ⟨s, hs, hstored⟩ := Option.map_eq_some_iff.mp hids
  refine ⟨s, hs, fun h => ?_⟩
  have := h 7 (by decide)
  rw [hstored] at this
  exact absurd this (by decide)

end Sample

end DataJoin
