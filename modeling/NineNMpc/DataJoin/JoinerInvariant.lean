-- SUMMARY: Without a failing call the joiner never raises, and its stored and open ids are the common ids it has consumed.
import NineNMpc.DataJoin.Places
import NineNMpc.DataJoin.ReplicationInvariant

/-!
# The invariant of the joiner

On a directory whose manager is in step with it, the generator never raises: the maker has
the next index and an open writer until its block is stored. The data file of every stored
block has the follower's records of its ids.
-/

namespace DataJoin

variable {ι ρ : Type}

/-! ## Records of ids -/

section

variable [DecidableEq ι]

/-- `[d[id].record for id in ids]`; `none` is a `KeyError`. -/
def ItemDict.records? (d : ItemDict ι ρ) (ids : List ι) : Option (List ρ) :=
  ids.mapM fun x => (d.get? x).map (·.record)

theorem ItemDict.records?_append {d : ItemDict ι ρ} {ids : List ι} {records : List ρ} {x : ι}
    {item : Item ι ρ} (h : d.records? ids = some records) (hx : d.get? x = some item) :
    d.records? (ids ++ [x]) = some (records ++ [item.record]) := by
  unfold records? at h ⊢
  rw [List.mapM_append, h]
  simp [hx]

/-- The leader's lookup skips nothing if it has all the ids. -/
theorem ItemDict.records?_eq_lookup {d : ItemDict ι ρ} {ids : List ι} (h : ∀ x ∈ ids, x ∈ d.ids) :
    d.records? ids = some (Replication.DataBlockSaver.lookupRecords d ids) := by
  induction ids with
  | nil => rfl
  | cons x ids ih =>
    obtain ⟨item, hitem⟩ := Option.isSome_iff_exists.mp (get?_isSome.mpr (h x (by simp)))
    have ih := ih fun y hy => h y (by simp [hy])
    unfold records? at ih ⊢
    simp [List.mapM_cons, hitem, ih, Replication.DataBlockSaver.lookupRecords]

/-- The ids and the records of a stored block. -/
def Store.block? (naming : Naming ι) (st : Store ι ρ) (index : Nat) : Option (List ι × List ρ) := do
  let m ← st.metaFile? index
  let records ← st.dataFiles (naming.dataBlockFileNameWrap m)
  some (m.exampleIds, records)

/-- Every stored block has the records that `d` has for its ids. -/
def Store.Holds (naming : Naming ι) (d : ItemDict ι ρ) (st : Store ι ρ) : Prop :=
  ∀ m ∈ st.metaFiles, ∃ records, st.dataFiles (naming.dataBlockFileNameWrap m) = some records ∧
    d.records? m.exampleIds = some records

theorem Store.Holds.block? {naming : Naming ι} {d : ItemDict ι ρ} {st : Store ι ρ} {k : Nat}
    {m : DataBlockMeta ι} (h : st.Holds naming d) (hs : st.Synced) (hm : st.metaFiles[k]? = some m) :
    ∃ records, st.block? naming k = some (m.exampleIds, records) ∧
      d.records? m.exampleIds = some records := by
  obtain ⟨records, hdata, hrecords⟩ := h m (List.mem_of_getElem? hm)
  refine ⟨records, ?_, hrecords⟩
  simp [Store.block?, Store.metaFile?_eq hs.contiguous, hm, hdata]

/-- A data file of a block that is not stored yet overwrites no stored block. -/
theorem Store.Holds.saveData {naming : Naming ι} {d : ItemDict ι ρ} {st : Store ι ρ}
    {m : DataBlockMeta ι} {records : List ρ} (h : st.Holds naming d) (hs : st.Synced)
    (hm : m.dataBlockIndex = st.metaFiles.length) :
    (st.saveData (naming.dataBlockFileNameWrap m) records).Holds naming d := by
  intro m' hm'
  rw [Store.saveData_metaFiles] at hm'
  obtain ⟨rs, hdata, hrs⟩ := h m' hm'
  refine ⟨rs, ?_, hrs⟩
  have hne : naming.dataBlockFileNameWrap m' ≠ naming.dataBlockFileNameWrap m := by
    intro heq
    have hindex := naming.index_of_name m' m heq
    obtain ⟨i, hi⟩ := List.getElem?_of_mem hm'
    have := Store.index_of_getElem? hs.contiguous hi
    obtain ⟨hlt, _⟩ := List.getElem?_eq_some_iff.mp hi
    omega
  simpa [Store.saveData, Function.update_of_ne hne] using hdata

theorem Store.Holds.updateDataBlockMeta {naming : Naming ι} {d : ItemDict ι ρ} {st : Store ι ρ}
    {m : DataBlockMeta ι} {records : List ρ} (h : st.Holds naming d) (hs : st.Synced)
    (hm : m.dataBlockIndex = st.metaFiles.length)
    (hdata : st.dataFiles (naming.dataBlockFileNameWrap m) = some records)
    (hrecords : d.records? m.exampleIds = some records) :
    (st.updateDataBlockMeta m).1.Holds naming d := by
  intro m' hm'
  rw [(hs.updateDataBlockMeta hm).2.2] at hm'
  rw [Store.updateDataBlockMeta_dataFiles]
  obtain hm' | rfl := List.mem_append.mp hm' |>.imp_right List.mem_singleton.mp
  · exact h m' hm'
  · exact ⟨records, hdata, hrecords⟩

end

/-! ## The joiner -/

def JoinerPc.isUpdate : JoinerPc ι → Bool
  | update _ => true
  | _ => false

def JoinerPc.isStoring : JoinerPc ι → Bool
  | store _ => true
  | update _ => true
  | _ => false

def Finalizing.gotFinal : Finalizing ι → Bool
  | inBatch _ finished => finished
  | afterBatch => true
  | afterFlush _ => false

def JoinerPc.gotFinal : JoinerPc ι → Bool
  | batch _ finished => finished
  | store k => k.gotFinal
  | update k => k.gotFinal
  | close k => k.gotFinal
  | _ => false

/-- The joiner has taken the batch with `finished`. -/
def Joiner.gotFinal (j : Joiner ι ρ) : Bool := j.finalConsumed || j.pc.gotFinal

variable [DecidableEq ι]

/-- The maker of the block that will get the next index. -/
structure DataBlockMaker.Ok (d : ItemDict ι ρ) (st : Store ι ρ) (mk : DataBlockMaker ι ρ) : Prop where
  index : mk.dataBlockIndex = st.metaFiles.length
  records : d.records? mk.exampleIds = some mk.records

structure Joiner.Inv (cfg : Config ι ρ) (st : Store ι ρ) (j : Joiner ι ρ) : Prop where
  synced : st.Synced
  holds : st.Holds cfg.naming cfg.followerItems
  joined : st.storedIds ++ j.openIds = cfg.common j.consumed
  maker : ∀ mk, j.dataBlockMaker = some mk → j.pc.isClose = false →
    mk.Ok cfg.followerItems st ∧ mk.exampleIds ≠ [] ∧ mk.closed = j.pc.isUpdate
  storing : j.pc.isStoring = true → j.dataBlockMaker.isSome = true
  written : ∀ mk, j.dataBlockMaker = some mk → j.pc.isUpdate = true →
    st.dataFiles (cfg.naming.dataBlockFileNameWrap (mk.dataBlockMeta cfg.naming)) = some mk.records
  last : j.lastFinished.isSome = true ∨ j.dataBlockMaker = none ∧ (j.pc = .top ∨ j.pc = .flush)

/-- `save` on an open writer. -/
theorem DataBlockMaker.Ok.save {d : ItemDict ι ρ} {st : Store ι ρ} {mk : DataBlockMaker ι ρ} {x : ι}
    {item : Item ι ρ} (h : mk.Ok d st) (hclosed : mk.closed = false) (hx : d.get? x = some item) :
    ∃ mk', mk.save item = some mk' ∧ mk'.Ok d st ∧ mk'.closed = false ∧
      mk'.exampleIds = mk.exampleIds ++ [x] := by
  have hid := ItemDict.exampleId_of_get? hx
  simp only [DataBlockMaker.save, hclosed, Bool.false_eq_true, if_false]
  refine ⟨_, rfl, ⟨h.index, ?_⟩, rfl, by rw [hid]⟩
  dsimp only
  rw [hid]
  exact ItemDict.records?_append h.records hx

namespace Joiner

variable {cfg : Config ι ρ} {st st' : Store ι ρ} {j j' : Joiner ι ρ}

/-- What a step of the joiner does to the directory, and to the ids that are on their way. -/
structure Progress (cfg : Config ι ρ) (st st' : Store ι ρ) (j j' : Joiner ι ρ)
    (queue queue' : List (LiteExampleIds ι)) : Prop where
  inv : j'.Inv cfg st'
  store : st'.metaFiles = st.metaFiles ∨ ∃ m, m.dataBlockIndex = st.metaFiles.length ∧
    m.withBlockId cfg.naming = m ∧ st' = (st.updateDataBlockMeta m).1
  flow : j'.consumed ++ (j'.pc.rest ++ queuedIds queue') = j.consumed ++ (j.pc.rest ++ queuedIds queue)
  final : (queue' = queue ∧ j'.gotFinal = j.gotFinal) ∨
    ∃ b, queue = b :: queue' ∧ j'.gotFinal = (j.gotFinal || b.finished)

/-- Moving between states in which no block is being stored. -/
theorem Inv.goto (h : j.Inv cfg st) {pc : JoinerPc ι} (hpc : pc.isClose = false)
    (hpc' : pc.isUpdate = false) (hj : j.pc.isClose = false) (hj' : j.pc.isUpdate = false)
    (hmaker : pc.isStoring = true → j.dataBlockMaker.isSome = true) {last : Option Bool}
    (hlast : last.isSome = true ∨ j.dataBlockMaker = none ∧ (pc = .top ∨ pc = .flush)) (final : Bool) :
    Inv cfg st { j with pc := pc, lastFinished := last, finalConsumed := final } where
  synced := h.synced
  holds := h.holds
  joined := by
    have := h.joined
    simpa [openIds, hpc, hj] using this
  maker := by
    intro mk hmk _
    have := h.maker mk hmk hj
    rw [hj'] at this
    rw [hpc']
    exact this
  storing := hmaker
  written := by
    intro mk _ hup
    rw [hpc'] at hup
    cases hup
  last := hlast

theorem Inv.acquireDataBlockMaker (h : j.Inv cfg st) (hj : j.pc.isClose = false)
    (hj' : j.pc.isUpdate = false) :
    ∃ mk, acquireDataBlockMaker st j = (st, some mk) ∧ mk.Ok cfg.followerItems st ∧
      mk.closed = false ∧ mk.exampleIds = j.openIds := by
  cases hmk : j.dataBlockMaker with
  | some mk =>
    obtain ⟨hok, _, hclosed⟩ := h.maker mk hmk hj
    refine ⟨mk, by simp [Joiner.acquireDataBlockMaker, hmk], hok, hclosed.trans hj', ?_⟩
    simp [openIds, hj, hmk]
  | none =>
    refine ⟨{ dataBlockIndex := st.metaFiles.length }, ?_, ⟨rfl, rfl⟩, rfl, ?_⟩
    · simp [Joiner.acquireDataBlockMaker, hmk, h.synced.acquireProducedDataBlockNumber]
    · simp [openIds, hmk]

theorem stepExample_progress {queue : List (LiteExampleIds ι)} {x : ι} {rest : List ι}
    {finished : Bool} (h : j.Inv cfg st) (hpc : j.pc = .batch (x :: rest) finished) :
    Progress cfg st (stepExample cfg.joiner st j x rest finished).1 j
      (stepExample cfg.joiner st j x rest finished).2 queue queue := by
  have hj : j.pc.isClose = false := by rw [hpc]; rfl
  have hj' : j.pc.isUpdate = false := by rw [hpc]; rfl
  have hlast : j.lastFinished.isSome = true := by simpa [hpc] using h.last
  have hjoined := h.joined
  cases hx : cfg.followerItems.get? x with
  | none =>
    have hx' := ItemDict.get?_eq_none.mp hx
    rw [stepExample_of_skip hx]
    refine ⟨⟨h.synced, h.holds, ?_, ?_, by simp [JoinerPc.isStoring], by simp [JoinerPc.isUpdate],
      .inl hlast⟩, .inl rfl, ?_, .inl ⟨rfl, by simp [gotFinal, hpc, JoinerPc.gotFinal]⟩⟩
    · rw [Config.common_append, show cfg.common [x] = [] by simp [Config.common, hx'],
        List.append_nil, ← hjoined]
      simp [openIds, hpc, JoinerPc.isClose]
    · intro mk hmk _
      have := h.maker mk hmk hj
      rwa [hj'] at this
    · simp [hpc, JoinerPc.rest]
  | some item =>
    have hx' : x ∈ cfg.followerItems.ids := ItemDict.get?_isSome.mp (by simp [hx])
    obtain ⟨mk, hacq, hok, hclosed, hids⟩ := h.acquireDataBlockMaker hj hj'
    obtain ⟨mk', hsave, hok', hclosed', hids'⟩ := hok.save hclosed hx
    rw [stepExample_of_save hx hacq hsave]
    set full := mk'.isDataBlockExceedThreshold cfg.joiner.dumpDataBlockThreshold
    set pc : JoinerPc ι := if full then .store (.inBatch rest finished) else .batch rest finished
      with hpcdef
    have hclose : pc.isClose = false ∧ pc.isUpdate = false ∧ pc.rest = rest ∧
        pc.gotFinal = finished := by
      rw [hpcdef]
      cases full <;> exact ⟨rfl, rfl, rfl, rfl⟩
    refine ⟨⟨h.synced, h.holds, ?_, ?_, fun _ => rfl, ?_, .inl hlast⟩, .inl rfl, ?_, .inl ⟨rfl, ?_⟩⟩
    · rw [Config.common_append, show cfg.common [x] = [x] by simp [Config.common, hx'],
        ← hjoined, List.append_assoc]
      simp [openIds, hclose.1, hids', hids]
    · rintro _ ⟨⟩ _
      refine ⟨hok', by simp [hids'], ?_⟩
      rw [hclosed', hclose.2.1]
    · intro _ _ hup
      rw [hclose.2.1] at hup
      cases hup
    · dsimp only
      rw [hclose.2.2.1, hpc]
      simp [JoinerPc.rest]
    · rw [gotFinal, gotFinal, hpc, hclose.2.2.2, JoinerPc.gotFinal]

theorem stepEndOfBatch_progress {queue : List (LiteExampleIds ι)} {finished : Bool}
    (h : j.Inv cfg st) (hpc : j.pc = .batch [] finished) :
    Progress cfg st st j (stepEndOfBatch j finished) queue queue := by
  have hj : j.pc.isClose = false := by rw [hpc]; rfl
  have hj' : j.pc.isUpdate = false := by rw [hpc]; rfl
  have hlast : j.lastFinished.isSome = true := by simpa [hpc] using h.last
  refine ⟨?_, .inl rfl, ?_, .inl ⟨rfl, ?_⟩⟩
  · simp only [stepEndOfBatch]
    split
    · split
      case isTrue hmaker => exact h.goto rfl rfl hj hj' (fun _ => hmaker) (.inl hlast) _
      case isFalse => exact h.goto rfl rfl hj hj' (by simp [JoinerPc.isStoring]) (.inl hlast) _
    · exact h.goto rfl rfl hj hj' (by simp [JoinerPc.isStoring]) (.inl hlast) _
  · simp only [stepEndOfBatch]
    split
    · split <;> simp [hpc, JoinerPc.rest, Finalizing.rest]
    · simp [hpc, JoinerPc.rest]
  · cases finished with
    | false => simp [stepEndOfBatch, gotFinal, hpc, JoinerPc.gotFinal]
    | true =>
      simp only [stepEndOfBatch, if_true]
      split <;> simp [gotFinal, hpc, JoinerPc.gotFinal, Finalizing.gotFinal]

theorem stepFlush_progress {queue : List (LiteExampleIds ι)} {span : Bool} (h : j.Inv cfg st)
    (hpc : j.pc = .flush) : Progress cfg st st j (stepFlush j span) queue queue := by
  have hj : j.pc.isClose = false := by rw [hpc]; rfl
  have hj' : j.pc.isUpdate = false := by rw [hpc]; rfl
  simp only [stepFlush]
  split
  case isTrue hflush =>
    simp only [Bool.and_eq_true] at hflush
    have hlast : j.lastFinished.isSome = true := by
      obtain hlast | ⟨hnone, _⟩ := h.last
      · exact hlast
      · simp [hnone] at hflush
    split
    case h_1 finished _ =>
      refine ⟨h.goto rfl rfl hj hj' (fun _ => hflush.1) (.inl hlast) _, .inl rfl, ?_, .inl ⟨rfl, ?_⟩⟩
      · simp [hpc, JoinerPc.rest, Finalizing.rest]
      · simp [gotFinal, hpc, JoinerPc.gotFinal, Finalizing.gotFinal]
    case h_2 hnone => simp [hnone] at hlast
  case isFalse =>
    refine ⟨h.goto rfl rfl hj hj' (by simp [JoinerPc.isStoring]) ?_ _, .inl rfl, ?_, .inl ⟨rfl, ?_⟩⟩
    · exact h.last.imp_right fun hlast => ⟨hlast.1, .inl rfl⟩
    · simp [hpc, JoinerPc.rest]
    · simp [gotFinal, hpc, JoinerPc.gotFinal]

theorem stepStore_progress {queue : List (LiteExampleIds ι)} {k : Finalizing ι} (h : j.Inv cfg st)
    (hpc : j.pc = .store k) :
    Progress cfg st (stepStore cfg.joiner st j k).1 j (stepStore cfg.joiner st j k).2 queue queue := by
  have hj : j.pc.isClose = false := by rw [hpc]; rfl
  have hlast : j.lastFinished.isSome = true := by simpa [hpc] using h.last
  obtain ⟨mk, hmk⟩ := Option.isSome_iff_exists.mp (h.storing (by rw [hpc]; rfl))
  obtain ⟨hok, hne, _⟩ := h.maker mk hmk hj
  set name := cfg.naming.dataBlockFileNameWrap (mk.dataBlockMeta cfg.naming) with hname
  have hstep : stepStore cfg.joiner st j k = (st.saveData name mk.records,
      { j with dataBlockMaker := some { mk with closed := true }, pc := .update k }) :=
    stepStore_of_maker hmk hne
  rw [hstep]
  refine ⟨⟨h.synced.saveData, h.holds.saveData h.synced hok.index, ?_, ?_, fun _ => rfl, ?_,
    .inl hlast⟩, .inl rfl, ?_, .inl ⟨rfl, by simp [gotFinal, hpc, JoinerPc.gotFinal]⟩⟩
  · rw [← h.joined]
    simp [Store.storedIds, openIds, hpc, hmk, JoinerPc.isClose]
  · rintro _ ⟨⟩ _
    exact ⟨⟨hok.index, hok.records⟩, hne, rfl⟩
  · rintro _ ⟨⟩ _
    have : (DataBlockMaker.dataBlockMeta cfg.naming { mk with closed := true }) =
        mk.dataBlockMeta cfg.naming := rfl
    simp [this, Store.saveData, hname]
  · simp [hpc, JoinerPc.rest]

theorem stepUpdate_progress {queue : List (LiteExampleIds ι)} {k : Finalizing ι} (h : j.Inv cfg st)
    (hpc : j.pc = .update k) :
    Progress cfg st (stepUpdate cfg.joiner st j k).1 j (stepUpdate cfg.joiner st j k).2 queue queue := by
  have hj : j.pc.isClose = false := by rw [hpc]; rfl
  have hlast : j.lastFinished.isSome = true := by simpa [hpc] using h.last
  obtain ⟨mk, hmk⟩ := Option.isSome_iff_exists.mp (h.storing (by rw [hpc]; rfl))
  obtain ⟨hok, hne, _⟩ := h.maker mk hmk hj
  set m := mk.dataBlockMeta cfg.naming with hm
  have hindex : m.dataBlockIndex = st.metaFiles.length := hok.index
  have hdata := h.written mk hmk (by rw [hpc]; rfl)
  obtain ⟨hret, hsync, hfiles⟩ := h.synced.updateDataBlockMeta hindex
  have hstep : stepUpdate cfg.joiner st j k =
      ((st.updateDataBlockMeta m).1, { j with pc := .close k }) :=
    stepUpdate_of_returned hmk (Prod.ext rfl hret)
  rw [hstep]
  refine ⟨⟨hsync, h.holds.updateDataBlockMeta h.synced hindex hdata hok.records, ?_,
    by simp [JoinerPc.isClose], by simp [JoinerPc.isStoring], by simp [JoinerPc.isUpdate],
    .inl hlast⟩, .inr ⟨m, hindex, rfl, rfl⟩, ?_,
    .inl ⟨rfl, by simp [gotFinal, hpc, JoinerPc.gotFinal]⟩⟩
  · have hids : m.exampleIds = mk.exampleIds := rfl
    rw [← h.joined, Store.storedIds, hfiles]
    simp [Store.storedIds, openIds, hpc, hmk, JoinerPc.isClose, hids]
  · simp [hpc, JoinerPc.rest]

theorem stepClose_progress {queue : List (LiteExampleIds ι)} {k : Finalizing ι} (h : j.Inv cfg st)
    (hpc : j.pc = .close k) : Progress cfg st st j (stepClose j k) queue queue := by
  have hlast : j.lastFinished.isSome = true := by simpa [hpc] using h.last
  have hjoined := h.joined
  simp only [openIds, hpc, JoinerPc.isClose, if_true, List.append_nil] at hjoined
  refine ⟨?_, .inl rfl, ?_, .inl ⟨rfl, ?_⟩⟩
  · cases k with
    | _ =>
      refine ⟨h.synced, h.holds, ?_, ?_, ?_, ?_, .inl hlast⟩
      · simpa [stepClose, resume, openIds, JoinerPc.isClose] using hjoined
      · simp [stepClose, resume]
      · simp [stepClose, resume, JoinerPc.isStoring]
      · simp [stepClose, resume]
  · cases k <;> simp [stepClose, resume, hpc, JoinerPc.rest, Finalizing.rest]
  · cases k <;> simp [stepClose, resume, gotFinal, hpc, JoinerPc.gotFinal, Finalizing.gotFinal]

/-- One step of the joiner on a directory that its manager is in step with. -/
theorem step_progress {queue queue' : List (LiteExampleIds ι)} {span : Bool} (h : j.Inv cfg st)
    (hs : j.step cfg.joiner span st queue = some (st', queue', j')) :
    Progress cfg st st' j j' queue queue' := by
  apply step_elim hs
  case idle =>
    intro hpc _ hqueue
    refine ⟨h.goto rfl rfl (by simp [hpc, JoinerPc.isClose]) (by simp [hpc, JoinerPc.isUpdate])
      (by simp [JoinerPc.isStoring]) ?_ _, .inl rfl, ?_, .inl ⟨hqueue.symm, ?_⟩⟩
    · exact h.last.imp_right fun hlast => ⟨hlast.1, .inr rfl⟩
    · simp [hpc, hqueue, JoinerPc.rest]
    · simp [gotFinal, hpc, JoinerPc.gotFinal]
  case take =>
    intro b rest hpc _ hqueue
    refine ⟨h.goto rfl rfl (by simp [hpc, JoinerPc.isClose]) (by simp [hpc, JoinerPc.isUpdate])
      (by simp [JoinerPc.isStoring]) (.inl rfl) _, .inl rfl, ?_, .inr ⟨b, hqueue, ?_⟩⟩
    · simp [hpc, hqueue, JoinerPc.rest]
    · simp [gotFinal, hpc, JoinerPc.gotFinal]
  case next =>
    intro x rest finished hpc
    exact stepExample_progress h hpc
  case endOfBatch =>
    intro finished hpc
    exact stepEndOfBatch_progress h hpc
  case flush =>
    intro hpc
    exact stepFlush_progress h hpc
  case store =>
    intro k hpc
    exact stepStore_progress h hpc
  case update =>
    intro k hpc
    exact stepUpdate_progress h hpc
  case close =>
    intro k hpc
    exact stepClose_progress h hpc

/-- Behind the final batch the joiner waits without an open block. -/
def Waiting (j : Joiner ι ρ) : Prop :=
  j.finalConsumed = true → j.dataBlockMaker = none ∧ (j.pc = .top ∨ j.pc = .flush)

theorem stepExample_finalConsumed {x : ι} {rest : List ι} {finished : Bool} :
    (stepExample cfg.joiner st j x rest finished).2.finalConsumed = j.finalConsumed :=
  stepExample_elim (motive := fun _ j' => j'.finalConsumed = j.finalConsumed) (fun _ => rfl)
    (fun _ _ _ _ _ _ => rfl) (fun _ _ _ _ _ _ _ => rfl)

omit [DecidableEq ι] in
theorem stepStore_finalConsumed {k : Finalizing ι} :
    (stepStore cfg.joiner st j k).2.finalConsumed = j.finalConsumed := by
  simp only [stepStore]
  split
  · rfl
  · split <;> rfl

omit [DecidableEq ι] in
theorem stepUpdate_finalConsumed {k : Finalizing ι} :
    (stepUpdate cfg.joiner st j k).2.finalConsumed = j.finalConsumed := by
  simp only [stepUpdate]
  split
  · rfl
  · split <;> rfl

theorem step_waiting {queue queue' : List (LiteExampleIds ι)} {span : Bool} (h : j.Waiting)
    (hqueue : j.finalConsumed = true → queue = [])
    (hs : j.step cfg.joiner span st queue = some (st', queue', j')) : j'.Waiting := by
  -- in the middle of a batch the final one has not been consumed
  have hnot : j.pc ≠ .top → j.pc ≠ .flush → j.finalConsumed = false := by
    intro htop hflush
    by_contra hfinal
    obtain ⟨_, hpc | hpc⟩ := h (by simpa using hfinal)
    · exact htop hpc
    · exact hflush hpc
  apply step_elim hs
  case idle =>
    intro _ _ _ hfinal
    exact ⟨(h hfinal).1, .inr rfl⟩
  case take =>
    intro b rest _ _ hcons hfinal
    simp [hqueue hfinal] at hcons
  case next =>
    intro x rest finished hpc hfinal
    rw [stepExample_finalConsumed, hnot (by simp [hpc]) (by simp [hpc])] at hfinal
    cases hfinal
  case endOfBatch =>
    intro finished hpc hfinal
    simp only [stepEndOfBatch] at hfinal ⊢
    split at hfinal
    · split at hfinal
      · rw [hnot (by simp [hpc]) (by simp [hpc])] at hfinal
        cases hfinal
      · rename_i hfin hmaker
        simp only [hfin, if_true, if_neg hmaker]
        exact ⟨by simpa using hmaker, .inr trivial⟩
    · rw [hnot (by simp [hpc]) (by simp [hpc])] at hfinal
      cases hfinal
  case flush =>
    intro _ hfinal
    have hj : (stepFlush j span).finalConsumed = j.finalConsumed := by
      simp only [stepFlush]
      split
      · split <;> rfl
      · rfl
    rw [hj] at hfinal
    have hmaker := (h hfinal).1
    simp [stepFlush, hmaker]
  case store =>
    intro k hpc hfinal
    rw [stepStore_finalConsumed, hnot (by simp [hpc]) (by simp [hpc])] at hfinal
    cases hfinal
  case update =>
    intro k hpc hfinal
    rw [stepUpdate_finalConsumed, hnot (by simp [hpc]) (by simp [hpc])] at hfinal
    cases hfinal
  case close =>
    intro k hpc hfinal
    cases k with
    | afterBatch => exact ⟨rfl, .inr rfl⟩
    | inBatch rest finished =>
      have : j.finalConsumed = true := hfinal
      rw [hnot (by simp [hpc]) (by simp [hpc])] at this
      cases this
    | afterFlush finished => exact ⟨rfl, .inl rfl⟩

end Joiner

end DataJoin
