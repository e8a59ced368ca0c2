-- SUMMARY: RpcBridgeAgentService: the handlers of Connect, Transmit, StreamTransmit and LoadDataBlock over the caches, and what holds for any peer: nothing is taken before a connect nor after a late one.
import NineNMpc.Trainer.LoadDataBlock
import NineNMpc.Trainer.PeerInfo

/-!
# The service of a trainer

`Trainer/rpc/rpc_bridge/rpc_bridge_agent_service.cc` over the three caches, with the state of
`RpcBridgeMgr`. One thread handles Connect, Transmit and StreamTransmit, each in one step; a
second thread handles LoadDataBlock, which waits for the data centre and so has a first and
a last step. The peer may send anything in any order. The calls of the local trainer (the
parts of `QueryResult`, `WaitPeerReady` and `QueryReadyFile`, and whatever calls
`TrainStartInternal`) come at any time.
-/

namespace Trainer

variable {δ : Type}

inductive BrState where
  | new
  | started
  | stopped
deriving DecidableEq

structure Params where
  appliId : String
  rankId : Nat
  roleDef : String
deriving DecidableEq

structure ConnectResponse where
  appId : String
  workerRank : Nat
deriving DecidableEq

/-- `connects`, `accepted` and `answers` are history: the connect requests that were taken, the
    messages that were taken, and all messages that got a response. -/
structure Service (δ : Type) where
  state : BrState := .new
  linkUp : Bool := false
  nextRecvSeqNum : Nat := 0
  cache : RecvCache δ := {}
  peer : PeerReady := {}
  files : ReadyFiles := {}
  /-- `_RpcDataLoadNextId` -/
  loadNextId : Nat := 0
  /-- The request in the hand of the data load thread. -/
  loading : Option LoadDataBlock.Request := none
  /-- The connect handler is about to `exit(138)`. -/
  aborting : Bool := false
  exited : Bool := false
  connects : List ConnectRequest := []
  accepted : List (TrainerWorkerMessage (WorkerMsg δ)) := []
  answers : List (TrainerWorkerMessage (WorkerMsg δ) × ResultCode) := []

namespace Service

def stateMove (s : Service δ) (toState : BrState) : Service δ := { s with state := toState }

def trainStartInternal (s : Service δ) : Service δ := s.stateMove .started

def connectHandler (p : Params) (s : Service δ) (req : ConnectRequest) :
    Service δ × Option ConnectResponse :=
  match s.state with
  | .new =>
    if req.appId ≠ p.appliId ∨ req.workerRank ≠ p.rankId then (s, none)
    else ({ s with
      peer := s.peer.onReceived req, linkUp := true, connects := s.connects ++ [req] },
      some ⟨p.appliId, p.rankId⟩)
  | .started | .stopped => ({ s with linkUp := false, aborting := true }, none)

/-- The common body of the two handlers of messages; `none` if the link is down. -/
def onMessage (s : Service δ) (m : TrainerWorkerMessage (WorkerMsg δ)) :
    Service δ × Option TrainerWorkerResponse :=
  if !s.linkUp then (s, none)
  else
    let s := s.stateMove .started
    if m.seqNum = s.nextRecvSeqNum then
      match s.cache.onReceived m with
      | (cache, .ok ()) =>
        ({ s with cache, nextRecvSeqNum := s.nextRecvSeqNum + 1, accepted := s.accepted ++ [m] },
          some ⟨.success, "", s.nextRecvSeqNum + 1⟩)
      | (cache, .error message) => ({ s with cache }, some ⟨.unknownError, message, s.nextRecvSeqNum⟩)
    else if s.nextRecvSeqNum < m.seqNum then (s, some ⟨.messageMissing, "", s.nextRecvSeqNum⟩)
    else (s, some ⟨.messageDuplicated, "", s.nextRecvSeqNum⟩)

/-- `none` stands for `SendResponse(CANCELLED)`. -/
def transmitHandler (s : Service δ) (m : TrainerWorkerMessage (WorkerMsg δ)) :
    Service δ × Option TrainerWorkerResponse := s.onMessage m

/-- `none` stands for `Finish(CANCELLED)`. -/
def streamTransmitHandler (s : Service δ) (m : TrainerWorkerMessage (WorkerMsg δ)) :
    Service δ × Option TrainerWorkerResponse := s.onMessage m

def answer (m : TrainerWorkerMessage (WorkerMsg δ)) (r : Service δ × Option TrainerWorkerResponse) :
    Service δ :=
  match r with
  | (s, some response) => { s with answers := s.answers ++ [(m, response.resultCode)] }
  | (s, none) => s

/-- `LoadDataBlockHandler` up to its work on the request. -/
def loadDataBlockHandler (p : Params) (s : Service δ) (req : LoadDataBlock.Request) :
    Option (Service δ) :=
  match s.loading with
  | some _ => none
  | none =>
    if !s.linkUp then some s
    else if p.roleDef = "follower" then some { s.stateMove .started with loading := some req }
    else some (s.stateMove .started)

/-- The rest of `LoadDataBlockHandler`. -/
def loaded (s : Service δ) (env : LoadDataBlock.Env) : Option (Service δ) :=
  match s.loading with
  | none => none
  | some req =>
    match LoadDataBlock.work s.loadNextId req env with
    | .dropped | .failed _ => some { s with loading := none }
    | .done fname endOfBlocks =>
      some { s with
        files := s.files.onReceived (if !endOfBlocks then fname else "") endOfBlocks
        loadNextId := s.loadNextId + 1
        loading := none }

inductive Action (δ : Type) where
  | connect (req : ConnectRequest)
  | transmit (m : TrainerWorkerMessage (WorkerMsg δ))
  | streamTransmit (m : TrainerWorkerMessage (WorkerMsg δ))
  | loadDataBlock (req : LoadDataBlock.Request)
  | loaded (env : LoadDataBlock.Env)
  | exit
  | trainStartInternal
  | queryResult (key : CacheKey)
  | endQuery (query : Nat)
  | finishQuery (query : Nat)
  | waitPeerReady
  | endPeerWait (waiter : Nat)
  | finishPeerWait (waiter : Nat)
  | queryReadyFile
  | checkReadyFile (query : Nat)
  | endReadyFileWait (query : Nat)
  | resetReadyFile (query : Nat)

def withCache (s : Service δ) (cache : Option (RecvCache δ)) : Option (Service δ) :=
  cache.map fun cache => { s with cache }

def withPeer (s : Service δ) (peer : Option PeerReady) : Option (Service δ) :=
  peer.map fun peer => { s with peer }

def withFiles (s : Service δ) (files : Option ReadyFiles) : Option (Service δ) :=
  files.map fun files => { s with files }

/-- A step of the first thread, which is gone once it aborts. -/
def stepTcq (s : Service δ) (next : Service δ) : Option (Service δ) :=
  if s.aborting then none else some next

def step (p : Params) (s : Service δ) (a : Action δ) : Option (Service δ) :=
  if s.exited then none
  else
    match a with
    | .connect req => s.stepTcq (connectHandler p s req).1
    | .transmit m => s.stepTcq (answer m (s.transmitHandler m))
    | .streamTransmit m => s.stepTcq (answer m (s.streamTransmitHandler m))
    | .loadDataBlock req => loadDataBlockHandler p s req
    | .loaded env => s.loaded env
    | .exit => if s.aborting then some { s with exited := true } else none
    | .trainStartInternal => some s.trainStartInternal
    | .queryResult k => s.withCache (some (s.cache.queryResult k))
    | .endQuery i => s.withCache (s.cache.endWait i)
    | .finishQuery i => s.withCache (s.cache.finish i)
    | .waitPeerReady => s.withPeer (some s.peer.waitPeerReady)
    | .endPeerWait i => s.withPeer (s.peer.endWait i)
    | .finishPeerWait i => s.withPeer (s.peer.finish i)
    | .queryReadyFile => s.withFiles (s.files.step .queryReadyFile)
    | .checkReadyFile i => s.withFiles (s.files.step (.check i))
    | .endReadyFileWait i => s.withFiles (s.files.step (.endWait i))
    | .resetReadyFile i => s.withFiles (s.files.step (.reset i))

def machine (δ : Type) (p : Params) : Machine (Service δ) (Action δ) := ⟨step p⟩

end Service

end Trainer
