-- SUMMARY: The follower's MemoryDataJoiner: DataBlockMaker, the generator _data_joiner_algo and the four places that close a block.
import NineNMpc.DataJoin.Store

/-!
# The memory joiner

`DataJoin/data_join/data_joiner_builder/memory_data_joiner.py`, `data_joiner.py` and
the follower's half of `data_block_maker.py`. The generator `_data_joiner_algo` is a
program counter; its variables `maker` and `lite_example_ids` are fields. When it raises,
the processor runs it again from the top, with the maker it had and no
`lite_example_ids`. `consumed` and `finalConsumed` are history: no step reads them.
-/

namespace DataJoin

/-- `LiteExampleIds`, without the event times that the follower does not read. -/
structure LiteExampleIds (ι : Type) where
  exampleIds : List ι
  finished : Bool

/-! ## The maker of one block -/

/-- `closed` says that the record writer has been closed. -/
structure DataBlockMaker (ι ρ : Type) where
  dataBlockIndex : Nat
  exampleIds : List ι := []
  records : List ρ := []
  startTime : Int := 0
  endTime : Int := 0
  closed : Bool := false

namespace DataBlockMaker

variable {ι ρ : Type}

/-- `save`; `none` is the write to a closed writer. -/
def save (mk : DataBlockMaker ι ρ) (item : Item ι ρ) : Option (DataBlockMaker ι ρ) :=
  if mk.closed then none
  else
    let first := mk.records.length = 0
    some { mk with
      records := mk.records ++ [item.record]
      exampleIds := mk.exampleIds ++ [item.exampleId]
      startTime := if first ∨ item.eventTime < mk.startTime then item.eventTime else mk.startTime
      endTime := if first ∨ mk.endTime < item.eventTime then item.eventTime else mk.endTime }

theorem save_exampleIds {mk mk' : DataBlockMaker ι ρ} {item : Item ι ρ}
    (h : mk.save item = some mk') : mk'.exampleIds = mk.exampleIds ++ [item.exampleId] := by
  simp only [save] at h
  split at h
  · cases h
  · cases h
    rfl

def isDataBlockExceedThreshold (mk : DataBlockMaker ι ρ) (threshold : Nat) : Bool :=
  threshold ≤ mk.exampleIds.length

def dataBlockMeta (naming : Naming ι) (mk : DataBlockMaker ι ρ) : DataBlockMeta ι :=
  DataBlockMeta.withBlockId naming
    { blockId := ""
      dataBlockIndex := mk.dataBlockIndex
      exampleIds := mk.exampleIds
      startTime := mk.startTime
      endTime := mk.endTime }

end DataBlockMaker

/-! ## The generator -/

/-- Where `_data_join_finalizer` was called, and with which argument. -/
inductive Finalizing (ι : Type) where
  | inBatch (rest : List ι) (finished : Bool)
  | afterBatch
  | afterFlush (finished : Bool)

def Finalizing.isDataJoinerFinished {ι : Type} : Finalizing ι → Bool
  | inBatch _ finished => finished
  | afterBatch => true
  | afterFlush finished => finished

/-- `store`, `update` and `close` are the steps of `_data_join_finalizer`: before the data file is
    renamed, before the meta file is, and before the maker is dropped. -/
inductive JoinerPc (ι : Type) where
  | top
  | batch (rest : List ι) (finished : Bool)
  | flush
  | store (k : Finalizing ι)
  | update (k : Finalizing ι)
  | close (k : Finalizing ι)

structure Joiner (ι ρ : Type) where
  pc : JoinerPc ι := .top
  dataBlockMaker : Option (DataBlockMaker ι ρ) := none
  dataJoinerFinished : Bool := false
  lastFinished : Option Bool := none
  consumed : List ι := []
  finalConsumed : Bool := false

/-- What the follower's joiner is started with. -/
structure JoinerConfig (ι ρ : Type) where
  naming : Naming ι
  items : ItemDict ι ρ
  dumpDataBlockThreshold : Nat

namespace Joiner

variable {ι ρ : Type}

/-- An exception ends the generator, and the processor starts a new one. -/
def raise (j : Joiner ι ρ) : Joiner ι ρ := { j with pc := .top, lastFinished := none }

/-- `_acquire_data_block_maker(True)`. -/
def acquireDataBlockMaker (st : Store ι ρ) (j : Joiner ι ρ) :
    Store ι ρ × Option (DataBlockMaker ι ρ) :=
  match j.dataBlockMaker with
  | some maker => (st, some maker)
  | none =>
    match st.acquireProducedDataBlockNumber with
    | (st, some index) => (st, some { dataBlockIndex := index })
    | (st, none) => (st, none)

theorem acquireDataBlockMaker_spec {st st' : Store ι ρ} {j : Joiner ι ρ}
    {maker : Option (DataBlockMaker ι ρ)} (h : acquireDataBlockMaker st j = (st', maker)) :
    st'.metaFiles = st.metaFiles ∧ ∀ mk, maker = some mk →
      mk.exampleIds = (j.dataBlockMaker.map (·.exampleIds)).getD [] := by
  simp only [acquireDataBlockMaker] at h
  split at h
  case h_1 mk hmk =>
    cases h
    refine ⟨rfl, ?_⟩
    rintro _ ⟨⟩
    simp [hmk]
  case h_2 hnone =>
    have hfiles := congrArg Prod.fst (Store.acquireProducedDataBlockNumber_files st)
    simp only [Store.files] at hfiles
    split at h
    case h_1 st₁ index hst =>
      cases h
      rw [hst] at hfiles
      refine ⟨hfiles, ?_⟩
      rintro _ ⟨⟩
      simp [hnone]
    case h_2 st₁ hst =>
      cases h
      rw [hst] at hfiles
      exact ⟨hfiles, by simp⟩

/-- The body of the loop over `lite_example_ids.example_id`. -/
def stepExample [DecidableEq ι] (cfg : JoinerConfig ι ρ) (st : Store ι ρ) (j : Joiner ι ρ) (x : ι)
    (rest : List ι) (finished : Bool) : Store ι ρ × Joiner ι ρ :=
  let j := { j with consumed := j.consumed ++ [x] }
  match cfg.items.get? x with
  | none => (st, { j with pc := .batch rest finished })
  | some item =>
    match acquireDataBlockMaker st j with
    | (st, none) => (st, j.raise)
    | (st, some maker) =>
      match maker.save item with
      | none => (st, ({ j with dataBlockMaker := some maker } : Joiner ι ρ).raise)
      | some maker =>
        (st, { j with
          dataBlockMaker := some maker
          pc := if maker.isDataBlockExceedThreshold cfg.dumpDataBlockThreshold then
              .store (.inBatch rest finished)
            else .batch rest finished })

/-- The end of the loop over a batch. -/
def stepEndOfBatch (j : Joiner ι ρ) (finished : Bool) : Joiner ι ρ :=
  if finished then
    if j.dataBlockMaker.isSome then { j with pc := .store .afterBatch }
    else { j with pc := .flush, finalConsumed := true }
  else { j with pc := .flush }

/-- The check at the end of a pass; `span` says whether the time span has elapsed. -/
def stepFlush (j : Joiner ι ρ) (span : Bool) : Joiner ι ρ :=
  if j.dataBlockMaker.isSome && span then
    match j.lastFinished with
    | some finished => { j with pc := .store (.afterFlush finished) }
    | none => j.raise
  else { j with pc := .top }

/-- `data_block_finalizer` up to the rename of the data file. -/
def stepStore (cfg : JoinerConfig ι ρ) (st : Store ι ρ) (j : Joiner ι ρ) (k : Finalizing ι) :
    Store ι ρ × Joiner ι ρ :=
  match j.dataBlockMaker with
  | none => (st, { j with pc := .close k })
  | some maker =>
    let j := { j with dataBlockMaker := some { maker with closed := true } }
    if maker.exampleIds = [] then (st, { j with pc := .close k })
    else
      let name := cfg.naming.dataBlockFileNameWrap (maker.dataBlockMeta cfg.naming)
      (st.saveData name maker.records, { j with pc := .update k })

def stepUpdate (cfg : JoinerConfig ι ρ) (st : Store ι ρ) (j : Joiner ι ρ) (k : Finalizing ι) :
    Store ι ρ × Joiner ι ρ :=
  match j.dataBlockMaker with
  | none => (st, { j with pc := .close k })
  | some maker =>
    match st.updateDataBlockMeta (maker.dataBlockMeta cfg.naming) with
    | (st, true) => (st, { j with pc := .close k })
    | (st, false) => (st, j.raise)

/-- Where the generator goes on after the `yield`. -/
def resume (j : Joiner ι ρ) : Finalizing ι → Joiner ι ρ
  | .inBatch rest finished => { j with pc := .batch rest finished }
  | .afterBatch => { j with pc := .flush, finalConsumed := true }
  | .afterFlush _ => { j with pc := .top }

def stepClose (j : Joiner ι ρ) (k : Finalizing ι) : Joiner ι ρ :=
  resume { j with
    dataJoinerFinished := j.dataJoinerFinished || k.isDataJoinerFinished
    dataBlockMaker := none } k

/-- One step of `_data_joiner_algo` on the directory and on the queue of the leader's batches. -/
def step [DecidableEq ι] (cfg : JoinerConfig ι ρ) (span : Bool) (st : Store ι ρ)
    (queue : List (LiteExampleIds ι)) (j : Joiner ι ρ) :
    Option (Store ι ρ × List (LiteExampleIds ι) × Joiner ι ρ) :=
  match j.pc with
  | .top =>
    if j.dataJoinerFinished then none
    else
      match queue with
      | [] => some (st, [], { j with pc := .flush })
      | b :: queue =>
        some (st, queue, { j with pc := .batch b.exampleIds b.finished, lastFinished := some b.finished })
  | .batch (x :: rest) finished =>
    let (st, j) := stepExample cfg st j x rest finished
    some (st, queue, j)
  | .batch [] finished => some (st, queue, stepEndOfBatch j finished)
  | .flush => some (st, queue, stepFlush j span)
  | .store k =>
    let (st, j) := stepStore cfg st j k
    some (st, queue, j)
  | .update k =>
    let (st, j) := stepUpdate cfg st j k
    some (st, queue, j)
  | .close k => some (st, queue, stepClose j k)

section

variable [DecidableEq ι] {cfg : JoinerConfig ι ρ} {st st' : Store ι ρ} {j : Joiner ι ρ} {x : ι}
  {rest : List ι} {finished : Bool} {item : Item ι ρ} {maker maker' : DataBlockMaker ι ρ}

theorem stepExample_of_skip (hitem : cfg.items.get? x = none) :
    stepExample cfg st j x rest finished =
      (st, { j with consumed := j.consumed ++ [x], pc := .batch rest finished }) := by
  simp only [stepExample, hitem]

/-- An example that is saved closes its block or not. -/
theorem stepExample_of_save (hitem : cfg.items.get? x = some item)
    (hacquire : acquireDataBlockMaker st j = (st', some maker))
    (hsave : maker.save item = some maker') :
    stepExample cfg st j x rest finished =
      (st', { j with
        consumed := j.consumed ++ [x]
        dataBlockMaker := some maker'
        pc := if maker'.isDataBlockExceedThreshold cfg.dumpDataBlockThreshold then
            .store (.inBatch rest finished)
          else .batch rest finished }) := by
  have hacquire' : acquireDataBlockMaker st { j with consumed := j.consumed ++ [x] } =
      (st', some maker) := hacquire
  simp only [stepExample, hitem, hacquire', hsave]

omit [DecidableEq ι] in
/-- Without a maker there was none before. -/
theorem dataBlockMaker_of_not_acquired (hacquire : acquireDataBlockMaker st j = (st', none)) :
    j.dataBlockMaker = none := by
  cases hmaker : j.dataBlockMaker with
  | none => rfl
  | some maker => simp [acquireDataBlockMaker, hmaker] at hacquire

/-- Case analysis on an example: it is skipped, it raises, or it goes into a block. -/
theorem stepExample_elim {motive : Store ι ρ → Joiner ι ρ → Prop}
    (skipped : cfg.items.get? x = none →
      motive st { j with consumed := j.consumed ++ [x], pc := .batch rest finished })
    (raised : ∀ item st' maker, cfg.items.get? x = some item →
      acquireDataBlockMaker st j = (st', maker) → (∀ mk ∈ maker, mk.save item = none) →
      motive st' ({ j with consumed := j.consumed ++ [x], dataBlockMaker := maker } :
        Joiner ι ρ).raise)
    (saved : ∀ item st' maker maker', cfg.items.get? x = some item →
      acquireDataBlockMaker st j = (st', some maker) → maker.save item = some maker' →
      motive st' { j with
        consumed := j.consumed ++ [x]
        dataBlockMaker := some maker'
        pc := if maker'.isDataBlockExceedThreshold cfg.dumpDataBlockThreshold then
            .store (.inBatch rest finished)
          else .batch rest finished }) :
    motive (stepExample cfg st j x rest finished).1 (stepExample cfg st j x rest finished).2 := by
  cases hitem : cfg.items.get? x with
  | none =>
    rw [stepExample_of_skip hitem]
    exact skipped hitem
  | some item =>
    obtain ⟨⟨st', maker⟩, hacquire⟩ : ∃ p, acquireDataBlockMaker st j = p := ⟨_, rfl⟩
    have hacquire' : acquireDataBlockMaker st { j with consumed := j.consumed ++ [x] } =
        (st', maker) := hacquire
    cases maker with
    | none =>
      have hraised := raised item st' none hitem hacquire (by simp)
      simp only [stepExample, hitem, hacquire']
      simpa only [dataBlockMaker_of_not_acquired hacquire] using hraised
    | some maker =>
      cases hsave : maker.save item with
      | none =>
        have hraised := raised item st' (some maker) hitem hacquire (by simp [hsave])
        simpa only [stepExample, hitem, hacquire', hsave] using hraised
      | some maker' =>
        rw [stepExample_of_save hitem hacquire hsave]
        exact saved item st' maker maker' hitem hacquire hsave

variable {k : Finalizing ι}

omit [DecidableEq ι] in
theorem stepStore_of_maker (hmaker : j.dataBlockMaker = some maker) (hids : maker.exampleIds ≠ []) :
    stepStore cfg st j k =
      (st.saveData (cfg.naming.dataBlockFileNameWrap (maker.dataBlockMeta cfg.naming)) maker.records,
        { j with dataBlockMaker := some { maker with closed := true }, pc := .update k }) := by
  simp only [stepStore, hmaker, if_neg hids]

omit [DecidableEq ι] in
theorem stepUpdate_of_returned (hmaker : j.dataBlockMaker = some maker)
    (hret : st.updateDataBlockMeta (maker.dataBlockMeta cfg.naming) = (st', true)) :
    stepUpdate cfg st j k = (st', { j with pc := .close k }) := by
  simp only [stepUpdate, hmaker, hret]

omit [DecidableEq ι] in
theorem stepUpdate_of_raised (hmaker : j.dataBlockMaker = some maker)
    (hret : st.updateDataBlockMeta (maker.dataBlockMeta cfg.naming) = (st', false)) :
    stepUpdate cfg st j k = (st', j.raise) := by
  simp only [stepUpdate, hmaker, hret]

end

/-- Case analysis on a step of the joiner, by the place of the generator. -/
theorem step_elim [DecidableEq ι] {cfg : JoinerConfig ι ρ} {span : Bool} {st st' : Store ι ρ}
    {queue queue' : List (LiteExampleIds ι)} {j j' : Joiner ι ρ}
    {motive : Store ι ρ → List (LiteExampleIds ι) → Joiner ι ρ → Prop}
    (hs : j.step cfg span st queue = some (st', queue', j'))
    (idle : j.pc = .top → j.dataJoinerFinished = false → queue = [] →
      motive st [] { j with pc := .flush })
    (take : ∀ b rest, j.pc = .top → j.dataJoinerFinished = false → queue = b :: rest →
      motive st rest
        { j with pc := .batch b.exampleIds b.finished, lastFinished := some b.finished })
    (next : ∀ x rest finished, j.pc = .batch (x :: rest) finished →
      motive (stepExample cfg st j x rest finished).1 queue (stepExample cfg st j x rest finished).2)
    (endOfBatch : ∀ finished, j.pc = .batch [] finished →
      motive st queue (stepEndOfBatch j finished))
    (flush : j.pc = .flush → motive st queue (stepFlush j span))
    (store : ∀ k, j.pc = .store k →
      motive (stepStore cfg st j k).1 queue (stepStore cfg st j k).2)
    (update : ∀ k, j.pc = .update k →
      motive (stepUpdate cfg st j k).1 queue (stepUpdate cfg st j k).2)
    (close : ∀ k, j.pc = .close k → motive st queue (stepClose j k)) :
    motive st' queue' j' := by
  simp only [step] at hs
  split at hs
  case h_1 hpc =>
    split at hs
    · cases hs
    · rename_i hfin
      split at hs
      · cases hs
        exact idle hpc (by simpa using hfin) rfl
      · cases hs
        exact take _ _ hpc (by simpa using hfin) rfl
  case h_2 x rest finished hpc =>
    cases hs
    exact next x rest finished hpc
  case h_3 finished hpc =>
    cases hs
    exact endOfBatch finished hpc
  case h_4 hpc =>
    cases hs
    exact flush hpc
  case h_5 k hpc =>
    cases hs
    exact store k hpc
  case h_6 k hpc =>
    cases hs
    exact update k hpc
  case h_7 k hpc =>
    cases hs
    exact close k hpc

end Joiner

end DataJoin
