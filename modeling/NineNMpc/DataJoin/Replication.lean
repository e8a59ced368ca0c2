-- SUMMARY: The path of data block metas from the follower to the leader: send_executor, the leader's service and DataBlockSaver, with lost calls and restarts.
import NineNMpc.Lib.Machine
import NineNMpc.DataJoin.Store

/-!
# Replication of data block metas

`DataJoin/data_join/data_block_producer.py`, `data_block_consumer.py`,
`data_block_saver.py` and the services of `data_join_manager.py` on the leader. A call
is a request on its way, then a response on its way; losing either makes the caller's
stub raise. The follower never calls `FinishPartition` on the leader: `join_state` is
always `False`, and `notify_consumer_finish_send_meta` calls it only while the leader
has not reported `finished`. `ProcessorManager` is not in the repository: a processor may
run whenever its factory asks for it, also after a run that was ended by an exception.
-/

namespace DataJoin

/-- A unary call, seen from its only caller. -/
inductive Call (α β : Type) where
  | idle
  | request (req : α)
  | response (rsp : β)

/-- The request is lost before the service runs, or the response after it: the stub raises. -/
def Call.loseRequest {α β : Type} (failed : β) : Call α β → Option (Call α β)
  | request _ => some (response failed)
  | _ => none

def Call.loseResponse {α β : Type} (failed : β) : Call α β → Option (Call α β)
  | response _ => some (response failed)
  | _ => none

namespace Replication

inductive Request (ι : Type) where
  | startPartition
  | syncPartition (m : DataBlockMeta ι)

inductive Response where
  | start (nextIndex : Nat) (finished : Bool)
  | status (code : Int)
  | failed

/-! ## The leader's saver -/

/-- `_save_data_blocks`: `save` is before the data file is renamed, `storeMeta` before the meta
    file is, `pop` after that. -/
inductive SaverPc (ι : Type) where
  | idle
  | loop
  | save (m : DataBlockMeta ι)
  | storeMeta (m : DataBlockMeta ι)
  | pop (m : DataBlockMeta ι)

structure DataBlockSaver (ι ρ : Type) where
  store : Store ι ρ
  nextDataBlockIndex : Nat
  dataBlockMetaBuffer : List (DataBlockMeta ι) := []
  sendDataBlockMetaFinish : Bool := false
  stateSwitch : Bool := false
  pc : SaverPc ι := .idle

namespace DataBlockSaver

variable {ι ρ : Type}

/-- `DataBlockSaver.__init__`, on a directory. -/
def init (dir : Store ι ρ) : DataBlockSaver ι ρ where
  store := dir.reopen
  nextDataBlockIndex := dir.reopen.produced

def appendSentDataBlockMetaToBuffer (sv : DataBlockSaver ι ρ) (m : DataBlockMeta ι) :
    DataBlockSaver ι ρ × Response :=
  if sv.sendDataBlockMetaFinish then (sv, .failed)
  else if sv.nextDataBlockIndex ≠ m.dataBlockIndex then (sv, .status (-1))
  else
    ({ sv with
      dataBlockMetaBuffer := sv.dataBlockMetaBuffer ++ [m]
      nextDataBlockIndex := sv.nextDataBlockIndex + 1 }, .status 0)

/-- `StartPartition` and `SyncPartition` of the leader. -/
def serve (sv : DataBlockSaver ι ρ) : Request ι → DataBlockSaver ι ρ × Response
  | .startPartition => (sv, .start sv.nextDataBlockIndex sv.sendDataBlockMetaFinish)
  | .syncPartition m => sv.appendSentDataBlockMetaToBuffer m

def removeSavedDataBlockMetaFromBuffer (sv : DataBlockSaver ι ρ) : DataBlockSaver ι ρ × Bool :=
  match sv.store.acquireProducedDataBlockNumber with
  | (st, some next) =>
    ({ sv with
      store := st
      dataBlockMetaBuffer := sv.dataBlockMetaBuffer.dropWhile fun m => m.dataBlockIndex < next },
      true)
  | (st, none) => ({ sv with store := st }, false)

/-- The switch is still set if the loop has been left by an exception. -/
def notifyDataBlockManagerSyncState (sv : DataBlockSaver ι ρ) : DataBlockSaver ι ρ × Bool :=
  if sv.stateSwitch then sv.removeSavedDataBlockMetaFromBuffer else (sv, true)

/-- The records that `_save_data_block_with_meta` looks up; ids without an item are skipped. -/
def lookupRecords [DecidableEq ι] (items : ItemDict ι ρ) (ids : List ι) : List ρ :=
  ids.filterMap fun x => (items.get? x).map (·.record)

/-- One step of the saver. The handler of `_build_data_block_maker` calls `traceback.print_exc` with
    a text for its limit, which is a `TypeError`, so an exception leaves the loop with the switch
    still set; the processor runs again as long as the buffer is not empty. -/
def step [DecidableEq ι] (naming : Naming ι) (items : ItemDict ι ρ) (sv : DataBlockSaver ι ρ) :
    Option (DataBlockSaver ι ρ) :=
  match sv.pc with
  | .idle =>
    if sv.dataBlockMetaBuffer = [] then none
    else
      match sv.notifyDataBlockManagerSyncState with
      | (sv', true) => some { sv' with stateSwitch := true, pc := .loop }
      | (sv', false) => some sv'
  | .loop =>
    match sv.dataBlockMetaBuffer with
    | [] => some { sv with stateSwitch := false, pc := .idle }
    | m :: _ => some { sv with pc := .save m }
  | .save m =>
    let records := lookupRecords items m.exampleIds
    -- the assertion on the number of saved examples, then the one on an empty block
    if records.length ≠ m.exampleIds.length ∨ m.exampleIds = [] then some { sv with pc := .idle }
    else
      let m' := m.withBlockId naming
      some { sv with
        store := sv.store.saveData (naming.dataBlockFileNameWrap m') records
        dataBlockMetaBuffer := m' :: sv.dataBlockMetaBuffer.tail
        pc := .storeMeta m' }
  | .storeMeta m =>
    match sv.store.updateDataBlockMeta m with
    | (st, true) => some { sv with store := st, pc := .pop m }
    | (st, false) => some { sv with store := st, pc := .idle }
  | .pop m =>
    match sv.dataBlockMetaBuffer with
    | [] => some { sv with pc := .idle }
    | m' :: rest =>
      if m' = m then some { sv with dataBlockMetaBuffer := rest, pc := .loop }
      else some { sv with pc := .idle }

/-- Looking at the directory changes no file of it. -/
theorem notify_files {sv : DataBlockSaver ι ρ} :
    sv.notifyDataBlockManagerSyncState.1.store.files = sv.store.files := by
  have hfiles := sv.store.acquireProducedDataBlockNumber_files
  simp only [notifyDataBlockManagerSyncState, removeSavedDataBlockMetaFromBuffer]
  split
  · split
    case h_1 st next hst => rwa [hst] at hfiles
    case h_2 st hst => rwa [hst] at hfiles
  · rfl

theorem notify_sendDataBlockMetaFinish {sv : DataBlockSaver ι ρ} :
    sv.notifyDataBlockManagerSyncState.1.sendDataBlockMetaFinish = sv.sendDataBlockMetaFinish := by
  simp only [notifyDataBlockManagerSyncState, removeSavedDataBlockMetaFromBuffer]
  split
  · split <;> rfl
  · rfl

end DataBlockSaver

/-! ## The follower's executor -/

/-- `start` and `sync` wait for a response, `fetch` is the head of the `while` loop. -/
inductive ExecutorPc where
  | idle
  | start
  | fetch
  | sync

structure Executor where
  pc : ExecutorPc := .idle
  nextDataBlockIndex : Nat := 0
  dataBlockProducerFinished : Bool := false

structure Config (ι ρ : Type) where
  naming : Naming ι
  leaderItems : ItemDict ι ρ

/-- `follower` is the directory in which the joiner stores its blocks. -/
structure State (ι ρ : Type) where
  follower : Store ι ρ := {}
  executor : Executor := {}
  call : Call (Request ι) Response := .idle
  leader : DataBlockSaver ι ρ := .init {}

variable {ι ρ : Type}

/-- One step of a run of `_send_data_block_meta_processor`; an exception ends the run. -/
def stepExecutor (s : State ι ρ) : Option (State ι ρ) :=
  let ex := s.executor
  match ex.pc, s.call with
  | .idle, .idle =>
    if ex.dataBlockProducerFinished then none
    else some { s with executor := { ex with pc := .start }, call := .request .startPartition }
  | .start, .response (.start next finished) =>
    some { s with
      executor := { pc := .fetch, nextDataBlockIndex := next, dataBlockProducerFinished := finished }
      call := .idle }
  | .fetch, .idle =>
    if ex.dataBlockProducerFinished then some { s with executor := { ex with pc := .idle } }
    else
      match s.follower.acquireDataBlockMetaByIndex ex.nextDataBlockIndex with
      | (st, .found m) =>
        some { s with
          follower := st, executor := { ex with pc := .sync }, call := .request (.syncPartition m) }
      | (st, _) => some { s with follower := st, executor := { ex with pc := .idle } }
  | .sync, .response (.status 0) =>
    some { s with
      executor := { ex with pc := .fetch, nextDataBlockIndex := ex.nextDataBlockIndex + 1 }
      call := .idle }
  | .start, .response _ => some { s with executor := { ex with pc := .idle }, call := .idle }
  | .sync, .response _ => some { s with executor := { ex with pc := .idle }, call := .idle }
  | _, _ => none

def stepServer (s : State ι ρ) : Option (State ι ρ) :=
  match s.call with
  | .request req =>
    let (leader, rsp) := s.leader.serve req
    some { s with leader, call := .response rsp }
  | _ => none

/-- `data_block_finalizer` on the follower, for a block with the next index. -/
def produce (naming : Naming ι) (s : State ι ρ) (ids : List ι) (records : List ρ)
    (startTime endTime : Int) : State ι ρ :=
  match s.follower.acquireProducedDataBlockNumber with
  | (st, none) => { s with follower := st }
  | (st, some index) =>
    if ids = [] then { s with follower := st }
    else
      let m : DataBlockMeta ι :=
        { blockId := "", dataBlockIndex := index, exampleIds := ids, startTime, endTime }
      let m := m.withBlockId naming
      { s with
        follower :=
          ((st.saveData (naming.dataBlockFileNameWrap m) records).updateDataBlockMeta m).1 }

inductive Action (ι ρ : Type) where
  | produce (ids : List ι) (records : List ρ) (startTime endTime : Int)
  | executor
  | server
  | loseRequest
  | loseResponse
  | saver
  | restartLeader

/-- The metas on their way to the leader. A restart of the leader keeps only its directory. -/
def replication [DecidableEq ι] (cfg : Config ι ρ) : Machine (State ι ρ) (Action ι ρ) where
  step s
    | .produce ids records startTime endTime =>
      some (produce cfg.naming s ids records startTime endTime)
    | .executor => stepExecutor s
    | .server => stepServer s
    | .loseRequest => (s.call.loseRequest .failed).map fun call => { s with call }
    | .loseResponse => (s.call.loseResponse .failed).map fun call => { s with call }
    | .saver => (s.leader.step cfg.naming cfg.leaderItems).map fun leader => { s with leader }
    | .restartLeader => some { s with leader := .init s.leader.store }

end Replication

end DataJoin
