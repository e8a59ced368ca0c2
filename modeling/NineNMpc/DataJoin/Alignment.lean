-- SUMMARY: In runs without failed calls and restarts the blocks of both sides are aligned and every common id is in exactly one block.
import NineNMpc.Lib.Streams
import NineNMpc.DataJoin.JoinerInvariant

/-!
# Alignment of the blocks

Without failures the leader sends its ids once: `IdPhase` lists the states that the producer,
its call and the follower's service can be in together. The ids consumed by the joiner and
those still on their way make up the leader's dictionary, so that stored and open blocks
are the common part of a prefix of it. The leader looks up the same ids in its own
dictionary, which has all of them.
-/

namespace DataJoin

variable {ι ρ : Type}

/-! ## The exchange of ids without failures -/

/-- The producer with its call, and the fields `synced` and `sendExampleFinished` of the
    consumer. -/
inductive IdPhase : ExampleIdProducer ι → Call (IdRequest ι) IdResponse → Bool → Bool → Prop where
  | fresh : IdPhase ⟨.idle, false, false⟩ .idle true false
  | starting : IdPhase ⟨.start, false, false⟩ (.request .startPartition) true false
  | started (next : Int) : IdPhase ⟨.start, false, false⟩ (.response (.start next false)) true false
  | sending (b : LiteExampleIds ι) (rest : List ι) (h : b.finished = true → rest = []) :
      IdPhase ⟨.sync rest b.finished, false, false⟩ (.request (.syncPartition b)) true false
  | sent (rest : List ι) (finished : Bool) (h : finished = true → rest = []) :
      IdPhase ⟨.sync rest finished, false, false⟩ (.response (.status 0)) true false
  | finishing : IdPhase ⟨.finish, true, false⟩ (.request .finishPartition) true false
  | finished (finished : Bool) :
      IdPhase ⟨.finish, true, false⟩ (.response (.finish finished)) (!finished) true
  | done (finished synced : Bool) (h : finished = false → synced = true) :
      IdPhase ⟨.idle, true, finished⟩ .idle synced true
  | asking : IdPhase ⟨.start, true, false⟩ (.request .startPartition) true true
  | asked (next : Int) : IdPhase ⟨.start, true, false⟩ (.response (.start next true)) true true

/-- The pass has started to send. -/
def ExampleIdProducer.started (p : ExampleIdProducer ι) : Bool :=
  match p.pc with
  | .sync _ _ => true
  | _ => p.partitionFinished

/-- The pass has sent the batch with `finished`. -/
def ExampleIdProducer.sentFinal (p : ExampleIdProducer ι) : Bool :=
  match p.pc with
  | .sync _ finished => finished
  | _ => p.partitionFinished

theorem ExampleIdProducer.nextBatch_finished {ids : List ι} (h : (nextBatch ids).1.finished = true) :
    (nextBatch ids).2 = [] := by
  simp only [nextBatch] at h ⊢
  split at h
  · cases h
  · rename_i hlt
    rw [if_neg hlt]

theorem IdPhase.send (p : ExampleIdProducer ι) (ids : List ι) (hp : p.partitionFinished = false)
    (hf : p.followerFinished = false) : IdPhase (p.send ids).1 (p.send ids).2 true false := by
  have := IdPhase.sending (ExampleIdProducer.nextBatch ids).1 (ExampleIdProducer.nextBatch ids).2
    ExampleIdProducer.nextBatch_finished
  simpa [ExampleIdProducer.send, hp, hf] using this

/-- A step of the producer: what it does to the pass. -/
theorem IdPhase.step {ids : List ι} {p p' : ExampleIdProducer ι}
    {call call' : Call (IdRequest ι) IdResponse} {synced finished : Bool}
    (h : IdPhase p call synced finished) (hs : p.step ids call = some (p', call')) :
    IdPhase p' call' synced finished ∧
      ((p.started = false ∧ p'.started = true ∧ queuedIds call'.batch? ++ p'.pc.unsent = ids ∧
          call.batch? = [] ∧ p.pc.unsent = []) ∨
        (p'.started = p.started ∧
          queuedIds call'.batch? ++ p'.pc.unsent = queuedIds call.batch? ++ p.pc.unsent)) := by
  cases h with
  | fresh =>
    simp only [ExampleIdProducer.step] at hs
    cases hs
    exact ⟨.starting, .inr ⟨rfl, rfl⟩⟩
  | starting => simp [ExampleIdProducer.step] at hs
  | started next =>
    simp only [ExampleIdProducer.step, Bool.false_eq_true, if_false, Option.some.injEq] at hs
    have hcoming := ExampleIdProducer.send_coming ⟨.start, false, false⟩ ids
    have hphase := IdPhase.send ⟨.start, false, false⟩ ids rfl rfl
    rw [hs] at hcoming hphase
    have hstarted : p'.started = true := (congrArg (fun r => r.1.started) hs).symm
    exact ⟨hphase, .inl ⟨rfl, hstarted, hcoming, rfl, rfl⟩⟩
  | sending b rest h => simp [ExampleIdProducer.step] at hs
  | sent rest final h =>
    simp only [ExampleIdProducer.step] at hs
    split at hs
    case isTrue hfinal =>
      cases hs
      refine ⟨.finishing, .inr ⟨rfl, ?_⟩⟩
      simp [Call.batch?, ProducerPc.unsent, h hfinal]
    case isFalse =>
      rw [Option.some.injEq] at hs
      have hcoming := ExampleIdProducer.send_coming ⟨.sync rest final, false, false⟩ rest
      have hphase := IdPhase.send ⟨.sync rest final, false, false⟩ rest rfl rfl
      rw [hs] at hcoming hphase
      have hstarted : p'.started = true := (congrArg (fun r => r.1.started) hs).symm
      refine ⟨hphase, .inr ⟨hstarted, ?_⟩⟩
      rw [hcoming]
      rfl
  | finishing => simp [ExampleIdProducer.step] at hs
  | finished final =>
    simp only [ExampleIdProducer.step] at hs
    cases hs
    exact ⟨.done final (!final) (by simp), .inr ⟨rfl, rfl⟩⟩
  | done final _ h =>
    simp only [ExampleIdProducer.step] at hs
    split at hs
    · cases hs
    · rename_i hfinal
      cases hs
      have := h (by simpa using hfinal)
      subst this
      simp only [Bool.not_eq_true] at hfinal
      subst hfinal
      exact ⟨.asking, .inr ⟨rfl, rfl⟩⟩
  | asking => simp [ExampleIdProducer.step] at hs
  | asked next =>
    simp only [ExampleIdProducer.step, if_true] at hs
    cases hs
    exact ⟨.done true true (by simp), .inr ⟨rfl, rfl⟩⟩

/-- A step of the producer sends at most one batch, and none behind the final one. -/
theorem IdPhase.step_final {ids : List ι} {p p' : ExampleIdProducer ι}
    {call call' : Call (IdRequest ι) IdResponse} {synced finished : Bool}
    (h : IdPhase p call synced finished) (hs : p.step ids call = some (p', call')) :
    (call'.batch? = call.batch? ∧ p'.sentFinal = p.sentFinal) ∨
      ∃ b, call.batch? = [] ∧ call'.batch? = [b] ∧ p.sentFinal = false ∧ p'.sentFinal = b.finished := by
  cases h with
  | started next =>
    simp only [ExampleIdProducer.step, Bool.false_eq_true, if_false, Option.some.injEq] at hs
    cases hs
    exact .inr ⟨_, rfl, rfl, rfl, rfl⟩
  | sent rest final h =>
    simp only [ExampleIdProducer.step] at hs
    split at hs
    case isTrue hfinal =>
      cases hs
      exact .inl ⟨rfl, by simp [ExampleIdProducer.sentFinal, hfinal]⟩
    case isFalse hfinal =>
      simp only [Bool.not_eq_true] at hfinal
      subst hfinal
      cases hs
      exact .inr ⟨_, rfl, rfl, rfl, rfl⟩
  | done final _ h =>
    simp only [ExampleIdProducer.step] at hs
    split at hs
    · cases hs
    · cases hs
      exact .inl ⟨rfl, rfl⟩
  | _ =>
    simp only [ExampleIdProducer.step, Bool.false_eq_true, if_false, if_true, reduceCtorEq] at hs
    try
      cases hs
      exact .inl ⟨rfl, rfl⟩

/-- The pass that has sent its final batch has nothing left to send. -/
theorem IdPhase.unsent_nil {p : ExampleIdProducer ι} {call : Call (IdRequest ι) IdResponse}
    {synced finished : Bool} (h : IdPhase p call synced finished) (hp : p.sentFinal = true) :
    p.pc.unsent = [] ∧ p.started = true := by
  cases h with
  | sending b rest h => exact ⟨h hp, rfl⟩
  | sent rest final h => exact ⟨h hp, rfl⟩
  | fresh => cases hp
  | starting => cases hp
  | started next => cases hp
  | _ => exact ⟨rfl, rfl⟩

/-- A service of the follower: the batch of a request goes into the buffer of the queue. -/
theorem IdPhase.serve {p : ExampleIdProducer ι} {c : ExampleIdConsumer ι} {req : IdRequest ι}
    (h : IdPhase p (.request req) c.synced c.sendExampleFinished) :
    IdPhase p (.response (c.serve req).2) (c.serve req).1.synced (c.serve req).1.sendExampleFinished ∧
      (c.serve req).1.pipe = c.pipe ∧
      (c.serve req).1.buffer = c.buffer ++ Call.batch? (.request req) := by
  generalize hsynced : c.synced = synced at h
  generalize hfinished : c.sendExampleFinished = finished at h
  cases h with
  | starting =>
    simp only [ExampleIdConsumer.serve, hsynced, if_true, hfinished]
    exact ⟨.started _, trivial, by simp [Call.batch?]⟩
  | asking =>
    simp only [ExampleIdConsumer.serve, hsynced, if_true, hfinished]
    exact ⟨.asked _, trivial, by simp [Call.batch?]⟩
  | sending b rest h =>
    simp only [ExampleIdConsumer.serve, ExampleIdConsumer.append, hsynced, if_true, hfinished]
    exact ⟨.sent rest b.finished h, trivial, rfl⟩
  | finishing =>
    simp only [ExampleIdConsumer.serve, hsynced, if_true]
    exact ⟨.finished c.pipe.isEmpty, trivial, by simp [Call.batch?]⟩

/-! ## The leader's blocks -/

variable [DecidableEq ι]

/-- The leader's stored blocks, and the one whose meta it is about to store. -/
structure Replication.DataBlockSaver.Data (naming : Naming ι) (items : ItemDict ι ρ)
    (sv : Replication.DataBlockSaver ι ρ) : Prop where
  holds : sv.store.Holds naming items
  written : ∀ m, sv.pc = .storeMeta m → ∃ records,
    sv.store.dataFiles (naming.dataBlockFileNameWrap m) = some records ∧
      items.records? m.exampleIds = some records

open Replication in
theorem Replication.DataBlockSaver.Data.step {naming : Naming ι} {items : ItemDict ι ρ}
    {sv sv' : DataBlockSaver ι ρ} {metas : List (DataBlockMeta ι)} (h : sv.Data naming items)
    (hinv : sv.Inv metas) (hnum : Numbered naming metas)
    (hids : ∀ m ∈ metas, ∀ x ∈ m.exampleIds, x ∈ items.ids)
    (hs : sv.step naming items = some sv') : sv'.Data naming items := by
  cases hpc : sv.pc with
  | idle =>
    have hne : ∀ m, sv.pc ≠ .pop m := by simp [hpc]
    simp only [DataBlockSaver.step, hpc] at hs
    split at hs
    · cases hs
    · rw [hinv.notify hnum hne] at hs
      cases hs
      exact ⟨h.holds, by simp⟩
  | loop =>
    simp only [DataBlockSaver.step, hpc] at hs
    split at hs <;> cases hs <;> exact ⟨h.holds, by simp⟩
  | save m =>
    have hne : ∀ m', sv.pc ≠ .pop m' := by simp [hpc]
    have hm := hinv.head_eq hne (hinv.current m (by simp [hpc, SaverPc.current]))
    simp only [DataBlockSaver.step, hpc] at hs
    split at hs
    · cases hs
      exact ⟨h.holds, by simp⟩
    · cases hs
      have hindex : (m.withBlockId naming).dataBlockIndex = sv.store.metaFiles.length := by
        rw [DataBlockMeta.withBlockId_index]
        exact hnum.index_of_getElem? hm
      refine ⟨h.holds.saveData hinv.store hindex, ?_⟩
      rintro _ ⟨⟩
      refine ⟨lookupRecords items m.exampleIds, by simp [Store.saveData], ?_⟩
      exact ItemDict.records?_eq_lookup (hids m (List.mem_of_getElem? hm))
  | storeMeta m =>
    have hne : ∀ m', sv.pc ≠ .pop m' := by simp [hpc]
    have hm := hinv.head_eq hne (hinv.current m (by simp [hpc, SaverPc.current]))
    obtain ⟨records, hdata, hrecords⟩ := h.written m hpc
    have hholds := h.holds.updateDataBlockMeta hinv.store (hnum.index_of_getElem? hm) hdata hrecords
    simp only [DataBlockSaver.step, hpc] at hs
    split at hs
    case h_1 st hst =>
      cases hs
      rw [hst] at hholds
      exact ⟨hholds, by simp⟩
    case h_2 st hst =>
      cases hs
      rw [hst] at hholds
      exact ⟨hholds, by simp⟩
  | pop m =>
    simp only [DataBlockSaver.step, hpc] at hs
    split at hs
    · cases hs
      exact ⟨h.holds, by simp⟩
    · split at hs <;> cases hs <;> exact ⟨h.holds, by simp⟩

theorem Replication.DataBlockSaver.Data.serve {naming : Naming ι} {items : ItemDict ι ρ}
    {sv : Replication.DataBlockSaver ι ρ} {req : Replication.Request ι} (h : sv.Data naming items) :
    (sv.serve req).1.Data naming items := by
  cases req with
  | startPartition => exact h
  | syncPartition m =>
    simp only [DataBlockSaver.serve, DataBlockSaver.appendSentDataBlockMetaToBuffer]
    split
    · exact h
    · split
      · exact h
      · exact ⟨h.holds, h.written⟩

/-! ## The system without failures -/

/-- The batches that the joiner has not taken yet. -/
def Sys.batches (s : Sys ι ρ) : List (LiteExampleIds ι) :=
  s.consumer.pipe ++ (s.consumer.buffer ++ s.idCall.batch?)

structure Sys.Inv (cfg : Config ι ρ) (s : Sys ι ρ) : Prop where
  phase : IdPhase s.producer s.idCall s.consumer.synced s.consumer.sendExampleFinished
  flow : s.joiner.consumed ++ (s.joiner.pc.rest ++ (queuedIds s.batches ++ s.producer.pc.unsent)) =
    if s.producer.started then cfg.leaderItems.ids else []
  marked : EndMarked (s.batches.map (·.finished)) s.producer.sentFinal s.joiner.gotFinal
  joiner : s.joiner.Inv cfg s.replica.follower
  waiting : s.joiner.Waiting
  replica : s.replica.Inv cfg.naming
  leader : s.replica.leader.Data cfg.naming cfg.leaderItems

/-- What has been consumed is a prefix of the leader's ids. -/
theorem Sys.Inv.consumed_prefix {cfg : Config ι ρ} {s : Sys ι ρ} (h : s.Inv cfg) :
    s.joiner.consumed <+: cfg.leaderItems.ids := by
  have hflow := h.flow
  split at hflow
  · exact ⟨_, hflow⟩
  · simp only [List.append_eq_nil_iff] at hflow
    simp [hflow.1]

theorem Sys.Inv.ids_mem {cfg : Config ι ρ} {s : Sys ι ρ} (h : s.Inv cfg) {m : DataBlockMeta ι}
    (hm : m ∈ s.replica.follower.metaFiles) {x : ι} (hx : x ∈ m.exampleIds) :
    x ∈ cfg.leaderItems.ids := by
  have hstored : x ∈ s.replica.follower.storedIds ++ s.joiner.openIds :=
    List.mem_append_left _ (List.mem_flatMap.mpr ⟨m, hm, hx⟩)
  rw [h.joiner.joined, Config.common, List.mem_filter] at hstored
  exact h.consumed_prefix.subset hstored.1

/-- Behind the final batch nothing is on its way. -/
theorem Sys.Inv.closed {cfg : Config ι ρ} {s : Sys ι ρ} (h : s.Inv cfg)
    (hfinal : s.joiner.finalConsumed = true) :
    s.producer.sentFinal = true ∧ s.consumer.pipe = [] ∧ s.batches = [] := by
  have hmarked := h.marked
  have hgot : s.joiner.gotFinal = true := by simp [Joiner.gotFinal, hfinal]
  rw [hgot] at hmarked
  obtain ⟨hsent, hnil⟩ := hmarked.closed
  have hbatches : s.batches = [] := List.map_eq_nil_iff.mp hnil
  exact ⟨hsent, (List.append_eq_nil_iff.mp hbatches).1, hbatches⟩

/-- The follower's directory and joiner change; the rest of the system stays. -/
theorem stepJoiner_inv {cfg : Config ι ρ} {s s' : Sys ι ρ} {span : Bool} (h : s.Inv cfg)
    (hs : stepJoiner cfg s span = some s') : s'.Inv cfg := by
  simp only [stepJoiner, Option.map_eq_some_iff] at hs
  obtain ⟨⟨follower, pipe, joiner⟩, hstep, rfl⟩ := hs
  have hprog := Joiner.step_progress h.joiner hstep
  have hwaiting := Joiner.step_waiting h.waiting (fun hfinal => (h.closed hfinal).2.1) hstep
  refine ⟨h.phase, ?_, ?_, hprog.inv, hwaiting, ?_, h.leader⟩
  · have hflow := h.flow
    have hjoin := hprog.flow
    simp only [Sys.batches, queuedIds_append] at hflow ⊢
    rw [← hflow]
    simp only [← List.append_assoc] at hjoin ⊢
    rw [hjoin]
  · have hmarked := h.marked
    obtain ⟨rfl, hfinal⟩ | ⟨b, hqueue, hfinal⟩ := hprog.final
    · rw [hfinal]
      exact hmarked
    · simp only [Sys.batches, hqueue, List.cons_append, List.map_cons] at hmarked
      cases hgot : s.joiner.gotFinal with
      | true =>
        -- behind the final batch there is none to take
        rw [hgot] at hmarked
        exact absurd hmarked.closed.2 (by simp)
      | false =>
        rw [hgot] at hmarked
        rw [hfinal, hgot, Bool.false_or]
        exact hmarked.recv
  · obtain hfiles | ⟨m, hindex, hname, rfl⟩ := hprog.store
    · exact h.replica.follower_frame hprog.inv.synced hfiles
    · exact h.replica.updateDataBlockMeta h.joiner.synced rfl hindex hname

theorem stepProducer_inv {cfg : Config ι ρ} {s s' : Sys ι ρ} (h : s.Inv cfg)
    (hs : stepProducer cfg s = some s') : s'.Inv cfg := by
  simp only [stepProducer, Option.map_eq_some_iff] at hs
  obtain ⟨⟨producer, idCall⟩, hstep, rfl⟩ := hs
  obtain ⟨hphase, hpass⟩ := h.phase.step hstep
  have hfinal := h.phase.step_final hstep
  refine ⟨hphase, ?_, ?_, h.joiner, h.waiting, h.replica, h.leader⟩
  · have hflow := h.flow
    simp only [Sys.batches, queuedIds_append, List.append_assoc] at hflow ⊢
    obtain ⟨hstart, hstart', hids, hbatch, hunsent⟩ | ⟨hstart, hids⟩ := hpass
    · simp only [hstart, hbatch, hunsent, Bool.false_eq_true, if_false, queuedIds_nil,
        List.append_nil, List.append_eq_nil_iff] at hflow
      obtain ⟨h₁, h₂, h₃, h₄⟩ := hflow
      rw [hids, hstart', h₁, h₂, h₃, h₄]
      rfl
    · rw [hids, hstart]
      exact hflow
  · have hmarked := h.marked
    obtain ⟨hbatch, hsent⟩ | ⟨b, hnil, hbatch, hsent, hsent'⟩ := hfinal
    · simpa only [Sys.batches, hbatch, hsent] using hmarked
    · simp only [Sys.batches, hnil, List.append_nil, hsent] at hmarked
      simpa [Sys.batches, hbatch, hsent'] using hmarked.send (e := b.finished)

theorem stepIdService_inv {cfg : Config ι ρ} {s s' : Sys ι ρ} (h : s.Inv cfg)
    (hs : stepIdService s = some s') : s'.Inv cfg := by
  simp only [stepIdService] at hs
  split at hs
  case h_2 => cases hs
  case h_1 req hreq =>
    cases hs
    have hphase := h.phase
    rw [hreq] at hphase
    obtain ⟨hphase', hpipe, hbuffer⟩ := hphase.serve
    have hbatches : s.consumer.pipe ++ (s.consumer.buffer ++ Call.batch? (.request req) ++ []) =
        s.batches := by
      simp [Sys.batches, hreq]
    refine ⟨hphase', ?_, ?_, h.joiner, h.waiting, h.replica, h.leader⟩
    · have hflow := h.flow
      simp only [Sys.batches, hpipe, hbuffer]
      exact hbatches ▸ hflow
    · have hmarked := h.marked
      simp only [Sys.batches, hpipe, hbuffer]
      exact hbatches ▸ hmarked

theorem feed_inv {cfg : Config ι ρ} {s : Sys ι ρ} {consumer : ExampleIdConsumer ι} (h : s.Inv cfg)
    (hs : s.consumer.feed = some consumer) : ({ s with consumer } : Sys ι ρ).Inv cfg := by
  simp only [ExampleIdConsumer.feed] at hs
  split at hs
  case h_1 => cases hs
  case h_2 b buffer hbuffer =>
    cases hs
    have hbatches : s.consumer.pipe ++ [b] ++ (buffer ++ s.idCall.batch?) = s.batches := by
      simp [Sys.batches, hbuffer]
    refine ⟨h.phase, ?_, ?_, h.joiner, h.waiting, h.replica, h.leader⟩
    · have hflow := h.flow
      rw [← hbatches] at hflow
      exact hflow
    · have hmarked := h.marked
      rw [← hbatches] at hmarked
      exact hmarked

/-- The joiner does not see what the meta sender does to the manager's memory. -/
theorem Joiner.Inv.frame {cfg : Config ι ρ} {st st' : Store ι ρ} {j : Joiner ι ρ} (h : j.Inv cfg st)
    (hs : st'.Synced) (hfiles : st'.files = st.files) : j.Inv cfg st' := by
  obtain ⟨hmeta, hdata⟩ := Prod.mk.inj hfiles
  refine ⟨hs, ?_, ?_, ?_, h.storing, ?_, h.last⟩
  · simpa only [Store.Holds, hmeta, hdata] using h.holds
  · simpa only [Store.storedIds, hmeta] using h.joined
  · intro mk hmk hpc
    obtain ⟨hok, hrest⟩ := h.maker mk hmk hpc
    exact ⟨⟨by rw [hmeta]; exact hok.index, hok.records⟩, hrest⟩
  · rw [hdata]
    exact h.written

omit [DecidableEq ι] in
/-- The meta sender changes no file. -/
theorem stepExecutor_files {s s' : Replication.State ι ρ} (hs : Replication.stepExecutor s = some s') :
    s'.follower.files = s.follower.files ∧ s'.leader = s.leader := by
  have hacq := Store.acquireDataBlockMetaByIndex_files s.follower s.executor.nextDataBlockIndex
  simp only [Replication.stepExecutor] at hs
  split at hs
  case h_1 =>
    split at hs
    · cases hs
    · cases hs
      exact ⟨rfl, rfl⟩
  case h_3 =>
    split at hs
    · cases hs
      exact ⟨rfl, rfl⟩
    · split at hs
      case h_1 st m hst =>
        cases hs
        rw [hst] at hacq
        exact ⟨hacq, rfl⟩
      case h_2 st r _ hst =>
        cases hs
        rw [hst] at hacq
        exact ⟨hacq, rfl⟩
  all_goals cases hs <;> exact ⟨rfl, rfl⟩

theorem stepExecutor_inv {cfg : Config ι ρ} {s : Sys ι ρ} {replica : Replication.State ι ρ}
    (h : s.Inv cfg) (hs : Replication.stepExecutor s.replica = some replica) :
    ({ s with replica } : Sys ι ρ).Inv cfg := by
  have hinv := Replication.stepExecutor_inv h.replica hs
  obtain ⟨hfiles, hleader⟩ := stepExecutor_files hs
  refine { h with joiner := h.joiner.frame hinv.follower hfiles, replica := hinv, leader := ?_ }
  rw [hleader]
  exact h.leader

/-- Neither a lost message nor a restart. -/
def Action.isClean : Action → Bool
  | loseIdRequest | loseIdResponse | loseMetaRequest | loseMetaResponse => false
  | restartFollower | restartLeader => false
  | _ => true

theorem step_inv {cfg : Config ι ρ} {s s' : Sys ι ρ} {a : Action} (ha : a.isClean = true)
    (h : s.Inv cfg) (hs : (dataJoin cfg).step s a = some s') : s'.Inv cfg := by
  cases a with
  | producer => exact stepProducer_inv h hs
  | idService => exact stepIdService_inv h hs
  | feed =>
    simp only [dataJoin, Option.map_eq_some_iff] at hs
    obtain ⟨consumer, hfeed, rfl⟩ := hs
    exact feed_inv h hfeed
  | joiner span => exact stepJoiner_inv h hs
  | executor =>
    simp only [dataJoin, Action.replication?, Replication.replication, Option.map_eq_some_iff] at hs
    obtain ⟨replica, hstep, rfl⟩ := hs
    exact stepExecutor_inv h hstep
  | metaService =>
    simp only [dataJoin, Action.replication?, Replication.replication, Option.map_eq_some_iff] at hs
    obtain ⟨replica, hstep, rfl⟩ := hs
    have hinv := Replication.stepServer_inv h.replica hstep
    simp only [Replication.stepServer] at hstep
    split at hstep
    case h_1 req hreq =>
      cases hstep
      exact { h with replica := hinv, leader := h.leader.serve }
    case h_2 => cases hstep
  | saver =>
    simp only [dataJoin, Action.replication?, Replication.replication, Option.map_eq_some_iff] at hs
    obtain ⟨_, ⟨leader, hleader, rfl⟩, rfl⟩ := hs
    have hinv := h.replica.leader.step h.replica.numbered hleader
    have hdata := h.leader.step h.replica.leader h.replica.numbered
      (fun m hm x hx => h.ids_mem hm hx) hleader
    exact { h with replica := { h.replica with leader := hinv }, leader := hdata }
  | _ => cases ha

theorem initial_inv {cfg : Config ι ρ} : (({} : Sys ι ρ)).Inv cfg where
  phase := .fresh
  flow := rfl
  marked := EndMarked.init
  joiner :=
    { synced := Store.synced_empty
      holds := by simp [Store.Holds]
      joined := rfl
      maker := by simp
      storing := by simp [JoinerPc.isStoring]
      written := by simp
      last := .inr ⟨rfl, .inl rfl⟩ }
  waiting := by simp [Joiner.Waiting]
  replica := Replication.initial_inv
  leader := ⟨by simp [Store.Holds, Replication.DataBlockSaver.init], by
    simp [Replication.DataBlockSaver.init]⟩

theorem run_inv {cfg : Config ι ρ} {s : Sys ι ρ} {as : List Action}
    (has : ∀ a ∈ as, a.isClean = true) (hrun : (dataJoin cfg).run {} as = some s) : s.Inv cfg :=
  (dataJoin cfg).run_induct (fun _ _ _ ha h hs => step_inv ha h hs)
    ((dataJoin cfg).meets_of_forall has) hrun initial_inv

/-! ## Alignment and completeness -/

/-- When the final batch has been consumed, so have all the leader's ids. -/
theorem Sys.Inv.consumed_all {cfg : Config ι ρ} {s : Sys ι ρ} (h : s.Inv cfg)
    (hfinal : s.joiner.finalConsumed = true) : s.joiner.consumed = cfg.leaderItems.ids := by
  obtain ⟨hsent, _, hbatches⟩ := h.closed hfinal
  obtain ⟨hunsent, hstarted⟩ := h.phase.unsent_nil hsent
  have hrest : s.joiner.pc.rest = [] := by
    obtain ⟨_, hpc | hpc⟩ := h.waiting hfinal <;> rw [hpc] <;> rfl
  have hflow := h.flow
  simpa [hbatches, hunsent, hstarted, hrest] using hflow

/-- Alignment and completeness of the data join. -/
theorem dataJoin_aligned {cfg : Config ι ρ} {s : Sys ι ρ} {as : List Action}
    (has : ∀ a ∈ as, a.isClean = true) (hrun : (dataJoin cfg).run {} as = some s) :
    (∀ k < s.replica.leader.store.metaFiles.length, ∃ ids leaderRecords followerRecords,
      s.replica.leader.store.block? cfg.naming k = some (ids, leaderRecords) ∧
      s.replica.follower.block? cfg.naming k = some (ids, followerRecords) ∧
      cfg.leaderItems.records? ids = some leaderRecords ∧
      cfg.followerItems.records? ids = some followerRecords) ∧
    (s.joiner.consumed <+: cfg.leaderItems.ids ∧
      s.replica.follower.storedIds ++ s.joiner.openIds =
        s.joiner.consumed.filter fun x => x ∈ cfg.followerItems.ids) ∧
    (s.joiner.finalConsumed = true → s.joiner.dataBlockMaker = none ∧
      ∀ x ∈ cfg.leaderItems.ids, x ∈ cfg.followerItems.ids →
        s.replica.follower.storedIds.count x = 1) := by
  have h := run_inv has hrun
  refine ⟨?_, ⟨h.consumed_prefix, h.joiner.joined⟩, ?_⟩
  · intro k hk
    obtain ⟨m, hm⟩ : ∃ m, s.replica.leader.store.metaFiles[k]? = some m :=
      ⟨_, List.getElem?_eq_getElem hk⟩
    have hm' : s.replica.follower.metaFiles[k]? = some m := by
      obtain ⟨rest, hrest⟩ := h.replica.leader.saved
      rw [← hrest, List.getElem?_append_left hk, hm]
    obtain ⟨ls, hblock, hls⟩ := h.leader.holds.block? h.replica.leader.store hm
    obtain ⟨fs, hblock', hfs⟩ := h.joiner.holds.block? h.joiner.synced hm'
    exact ⟨m.exampleIds, ls, fs, hblock, hblock', hls, hfs⟩
  · intro hfinal
    have hmaker := (h.waiting hfinal).1
    refine ⟨hmaker, fun x hL hF => ?_⟩
    have hjoined := h.joiner.joined
    rw [h.consumed_all hfinal] at hjoined
    have hopen : s.joiner.openIds = [] := by simp [Joiner.openIds, hmaker]
    rw [hopen, List.append_nil] at hjoined
    rw [hjoined]
    refine List.count_eq_one_of_mem (cfg.leaderItems.nodup.filter _) ?_
    simpa [Config.common] using ⟨hL, hF⟩

/-! ## A complete run -/

namespace Aligned

/-- The ids `7` and `9` are common; the follower has them in the other order. -/
def config : Config Nat String where
  naming := .padded Nat "sample"
  leaderItems :=
    { items := [⟨7, 100, "leader 7"⟩, ⟨8, 90, "leader 8"⟩, ⟨9, 110, "leader 9"⟩], nodup := by simp }
  followerItems := { items := [⟨9, 110, "follower 9"⟩, ⟨7, 100, "follower 7"⟩], nodup := by simp }
  dumpDataBlockThreshold := 1

def schedule : List Action :=
  [.producer, .idService, .producer, .idService, .producer, .feed] ++
    List.replicate 11 (.joiner false) ++ [.executor, .metaService, .executor, .executor, .metaService,
      .executor, .executor, .metaService, .executor, .executor] ++ List.replicate 10 .saver

theorem aligned_schedule : ∃ s, (dataJoin config).run {} schedule = some s ∧
    s.replica.leader.store.metaFiles.length = 2 ∧
    (∀ k < 2, ∃ ids leaderRecords followerRecords,
      s.replica.leader.store.block? config.naming k = some (ids, leaderRecords) ∧
      s.replica.follower.block? config.naming k = some (ids, followerRecords) ∧
      config.leaderItems.records? ids = some leaderRecords ∧
      config.followerItems.records? ids = some followerRecords) ∧
    s.replica.follower.storedIds.count 9 = 1 := by
  have heval : ((dataJoin config).run {} schedule).map (fun s =>
      (s.replica.leader.store.metaFiles.length, s.joiner.finalConsumed)) = some (2, true) := by
    decide +kernel
  obtain ⟨s, hs, heq⟩ := Option.map_eq_some_iff.mp heval
  obtain ⟨hlen, hfinal⟩ := Prod.mk.inj heq
  obtain ⟨hblocks, _, hcount⟩ := dataJoin_aligned (by decide) hs
  exact ⟨s, hs, hlen, hlen ▸ hblocks, (hcount hfinal).2 9 (by decide) (by decide)⟩

end Aligned

end DataJoin
