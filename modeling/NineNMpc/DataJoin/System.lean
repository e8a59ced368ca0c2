-- SUMMARY: The whole data join: ExampleIdProducer, ExampleIdConsumer, joiner, meta sender and saver, with lost calls and restarts of either process.
import NineNMpc.DataJoin.Replication
import NineNMpc.DataJoin.Joiner

/-!
# The data join system

`DataJoin/data_join/example_id_producer.py`, `example_id_consumer.py`,
`example_id_appender.py` and the services of `data_join_manager.py` on the follower, put
together with the joiner and with the replication of metas. The partition and the rank
are those of the two processes, so their checks pass. A restart of a process keeps only
its directory.
-/

namespace DataJoin

variable {ι ρ : Type}

/-! ## The leader's producer of example ids -/

inductive IdRequest (ι : Type) where
  | startPartition
  | syncPartition (batch : LiteExampleIds ι)
  | finishPartition

inductive IdResponse where
  | start (nextIndex : Int) (finished : Bool)
  | status (code : Int)
  | finish (finished : Bool)
  | failed

/-- Each state but `idle` waits for a response; `sync` remembers what is still to be sent. -/
inductive ProducerPc (ι : Type) where
  | idle
  | start
  | sync (rest : List ι) (finished : Bool)
  | finish

structure ExampleIdProducer (ι : Type) where
  pc : ProducerPc ι := .idle
  partitionFinished : Bool := false
  followerFinished : Bool := false

namespace ExampleIdProducer

/-- The next batch of the loop of `sender` and what is left behind it: `len(..) > 2048` closes a
    batch, so a full one has 2049 ids. -/
def nextBatch (ids : List ι) : LiteExampleIds ι × List ι :=
  if syncExampleIdNums < ids.length then
    (⟨ids.take (syncExampleIdNums + 1), false⟩, ids.drop (syncExampleIdNums + 1))
  else (⟨ids, true⟩, [])

/-- `_send_example_ids_to_consumer` for the next batch. -/
def send (p : ExampleIdProducer ι) (ids : List ι) :
    ExampleIdProducer ι × Call (IdRequest ι) IdResponse :=
  let (batch, rest) := nextBatch ids
  ({ p with pc := .sync rest batch.finished }, .request (.syncPartition batch))

/-- One step of a run of `_send_example_id_processor`; an exception ends the run. The next index
    in the answer to `StartPartition` is not used. -/
def step (ids : List ι) (p : ExampleIdProducer ι) (call : Call (IdRequest ι) IdResponse) :
    Option (ExampleIdProducer ι × Call (IdRequest ι) IdResponse) :=
  match p.pc, call with
  | .idle, .idle =>
    if p.followerFinished then none else some ({ p with pc := .start }, .request .startPartition)
  | .start, .response (.start _ finished) =>
    if finished then some ({ p with pc := .idle, followerFinished := true }, .idle)
    else some (p.send ids)
  | .sync rest finished, .response (.status 0) =>
    if finished then
      some ({ pc := .finish, partitionFinished := true, followerFinished := false },
        .request .finishPartition)
    else some (p.send rest)
  | .finish, .response (.finish finished) =>
    some ({ p with pc := .idle, followerFinished := finished }, .idle)
  | .start, .response _ | .sync _ _, .response _ | .finish, .response _ =>
    some ({ p with pc := .idle }, .idle)
  | _, _ => none

end ExampleIdProducer

/-! ## The follower's consumer of example ids -/

/-- `synced` is `_partition_id is not None`. A batch that was put into the `multiprocessing.Queue`
    is in `buffer` until the feeder thread has written it to the `pipe`. -/
structure ExampleIdConsumer (ι : Type) where
  synced : Bool := true
  sendExampleFinished : Bool := false
  nextExampleIndex : Int := 0
  buffer : List (LiteExampleIds ι) := []
  pipe : List (LiteExampleIds ι) := []

namespace ExampleIdConsumer

/-- `append_batch_examples_into_queue`. -/
def append (c : ExampleIdConsumer ι) (batch : LiteExampleIds ι) : ExampleIdConsumer ι :=
  { c with
    nextExampleIndex := c.nextExampleIndex + (batch.exampleIds.length - 1)
    buffer := c.buffer ++ [batch] }

/-- The services of the follower. -/
def serve (c : ExampleIdConsumer ι) : IdRequest ι → ExampleIdConsumer ι × IdResponse
  | .startPartition =>
    if c.synced then (c, .start c.nextExampleIndex c.sendExampleFinished) else (c, .failed)
  | .syncPartition batch => if c.synced then (c.append batch, .status 0) else (c, .failed)
  | .finishPartition =>
    if c.synced then
      let finished := c.pipe.isEmpty
      ({ c with sendExampleFinished := true, synced := !finished }, .finish finished)
    else (c, .failed)

/-- The feeder thread of the queue. -/
def feed (c : ExampleIdConsumer ι) : Option (ExampleIdConsumer ι) :=
  match c.buffer with
  | [] => none
  | b :: buffer => some { c with buffer, pipe := c.pipe ++ [b] }

end ExampleIdConsumer

/-! ## The system -/

structure Config (ι ρ : Type) where
  naming : Naming ι
  leaderItems : ItemDict ι ρ
  followerItems : ItemDict ι ρ
  dumpDataBlockThreshold : Nat

namespace Config

def replication (cfg : Config ι ρ) : Replication.Config ι ρ where
  naming := cfg.naming
  leaderItems := cfg.leaderItems

def joiner (cfg : Config ι ρ) : JoinerConfig ι ρ where
  naming := cfg.naming
  items := cfg.followerItems
  dumpDataBlockThreshold := cfg.dumpDataBlockThreshold

end Config

structure Sys (ι ρ : Type) where
  producer : ExampleIdProducer ι := {}
  idCall : Call (IdRequest ι) IdResponse := .idle
  consumer : ExampleIdConsumer ι := {}
  joiner : Joiner ι ρ := {}
  replica : Replication.State ι ρ := {}

inductive Action where
  | producer
  | idService
  | loseIdRequest
  | loseIdResponse
  | feed
  | joiner (span : Bool)
  | executor
  | metaService
  | loseMetaRequest
  | loseMetaResponse
  | saver
  | restartFollower
  | restartLeader
  deriving DecidableEq

/-- The part of a step that is a step of the replication. -/
def Action.replication? : Action → Option (Replication.Action ι ρ)
  | executor => some .executor
  | metaService => some .server
  | loseMetaRequest => some .loseRequest
  | loseMetaResponse => some .loseResponse
  | saver => some .saver
  | _ => none

variable [DecidableEq ι]

def stepProducer (cfg : Config ι ρ) (s : Sys ι ρ) : Option (Sys ι ρ) :=
  (s.producer.step cfg.leaderItems.ids s.idCall).map fun (producer, idCall) =>
    { s with producer, idCall }

def stepIdService (s : Sys ι ρ) : Option (Sys ι ρ) :=
  match s.idCall with
  | .request req =>
    let (consumer, rsp) := s.consumer.serve req
    some { s with consumer, idCall := .response rsp }
  | _ => none

def stepJoiner (cfg : Config ι ρ) (s : Sys ι ρ) (span : Bool) : Option (Sys ι ρ) :=
  (s.joiner.step cfg.joiner span s.replica.follower s.consumer.pipe).map fun (follower, pipe, joiner) =>
    { s with joiner, consumer := { s.consumer with pipe }, replica := { s.replica with follower } }

/-- A new follower process on the old directory. -/
def restartFollower (s : Sys ι ρ) : Sys ι ρ :=
  { s with
    consumer := {}
    joiner := {}
    replica := { s.replica with follower := s.replica.follower.reopen, executor := {}, call := .idle } }

/-- A new leader process on the old directory. -/
def restartLeader (s : Sys ι ρ) : Sys ι ρ :=
  { s with
    producer := {}
    idCall := .idle
    replica := { s.replica with leader := .init s.replica.leader.store } }

def dataJoin (cfg : Config ι ρ) : Machine (Sys ι ρ) Action where
  step s
    | .producer => stepProducer cfg s
    | .idService => stepIdService s
    | .loseIdRequest => (s.idCall.loseRequest .failed).map fun idCall => { s with idCall }
    | .loseIdResponse => (s.idCall.loseResponse .failed).map fun idCall => { s with idCall }
    | .feed => s.consumer.feed.map fun consumer => { s with consumer }
    | .joiner span => stepJoiner cfg s span
    | .restartFollower => some (restartFollower s)
    | .restartLeader => some (restartLeader s)
    | a =>
      match a.replication? with
      | some a => ((Replication.replication cfg.replication).step s.replica a).map fun replica =>
          { s with replica }
      | none => none

end DataJoin
