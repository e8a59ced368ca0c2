-- SUMMARY: The processes of a cluster from their start to their channel: registration calls that may be lost, beside StartApplication and the other writers, and whose remote uuid each one gets.
import NineNMpc.Coordinator.StartApplication
import NineNMpc.Trainer.WorkerConfig

/-!
# Start of the workers

`prepare_rpc_channel` of `Trainer/fl_comm_libs/fl_rpc_utils.py` in every process of a cluster
that trains, against `RegisterUUID` and `GetPairInfo` of
`Coordinator/services/internal_service_impl.cc`, beside `StartApplication` and the other
writers. A call goes on in the coordinator when its process has given it up or has been
restarted at another address. The lock of `RegisterUUID` answers as it likes.
-/

namespace Coordinator.WorkerStartup

open StartApplication (App Env ModelURI stepWrite)
open Trainer.WorkerConfig (TfConfig trainingId)

/-! ## Clients -/

def workerUuid (r : ModelURI) (id : Nat) : String := channelAppliId r.appId (toString id)

/-- A process in `prepare_rpc_channel`: at the head of the first loop, in the call with that number,
    in the second loop, or through with the uuids of its channel. -/
inductive ClientPc where
  | register
  | registering (call : Nat)
  | getPairs
  | ready (channelUuid : List String)
deriving DecidableEq

structure Client where
  id : Nat
  address : String
  pc : ClientPc := .register

def Client.request (r : ModelURI) (c : Client) : Request := ⟨[workerUuid r c.id], c.address⟩

/-- The processes that train, each with its address. -/
def clients (processes : List (Option TfConfig × String)) : List Client :=
  processes.filterMap fun p => (trainingId p.1).map fun id => { id, address := p.2 }

/-- `rpc_channel_uuid_getpairs` on the result of `GetPairInfo`: only the first pair counts. -/
def getPairsPc : Except String (List ServicePair) → ClientPc
  | .ok (sp :: _) => .ready [sp.remoteUuid]
  | .ok [] | .error _ => .getPairs

/-! ## Calls -/

/-- The next command of `RegisterUUID`: `setApp` has the number of the info that was read. -/
inductive CallPc where
  | mset
  | lock
  | getApp
  | setApp (copy : Nat)
  | returned (ok : Bool)
deriving DecidableEq

structure Call where
  request : Request
  pc : CallPc := .mset

def Call.step (env : Env) (c : Call) (app : StartApplication.State) (ok : Bool) :
    Option (StartApplication.State × CallPc) :=
  match c.pc with
  | .mset =>
    if ok then
      some ({ app with redis := app.redis.mset c.request.uuid c.request.ipPort }, .lock)
    else some (app, .returned false)
  | .lock => some (app, if ok then .getApp else .returned false)
  | .getApp =>
    match StartApplication.getAppInfoFromRedis env.json app.redis c.request.appId with
    | none => some (app, .returned false)
    | some info => some ({ app with copies := app.copies ++ [info] }, .setApp app.copies.length)
  | .setApp copy =>
    match app.copies[copy]?.bind fun info => stepWrite env app info (.register c.request), ok with
    | some app', true => some (app', .returned true)
    | _, _ => some (app, .returned false)
  | .returned _ => none

/-! ## The system -/

/-- `assigned` has the local and the remote uuids that were ever written together. -/
structure State where
  app : StartApplication.State
  clients : List Client
  calls : List Call := []
  assigned : List (String × String) := []

inductive Action where
  | app (action : StartApplication.Action)
  | call (client : Nat)
  | serve (call : Nat) (ok : Bool)
  | answer (client : Nat)
  | fail (client : Nat)
  | getPairs (client : Nat)
  | restart (client : Nat) (address : String)

def uuidPairs (ps : List PairInfo) : List (String × String) :=
  ps.flatMap fun p => p.servicePair.map fun sp => (sp.localUuid, sp.remoteUuid)

def assignedBy (app : StartApplication.State) : StartApplication.Action → List (String × String)
  | .write i (.assign remote) =>
    match app.copies[i]? with
    | some info => uuidPairs (Pairing.assignRemote remote info.pairInfos)
    | none => []
  | _ => []

/-- Registrations are written by the calls alone. -/
def isRegister : StartApplication.Action → Bool
  | .write _ (.register _) => true
  | _ => false

def appInfo (app : App) : AppInfo := ⟨app.confInfo.appId, app.pairInfos⟩

variable (env : Env) (r : ModelURI)

def stepClient (s : State) (i : Nat) (f : Client → Option ClientPc) : Option State :=
  s.clients[i]?.bind fun c => (f c).map fun pc => { s with clients := s.clients.set i { c with pc } }

def step (s : State) : Action → Option State
  | .app a =>
    if isRegister a then none
    else
      (StartApplication.step env r s.app a).map fun app =>
        { s with app, assigned := s.assigned ++ assignedBy s.app a }
  | .call i =>
    s.clients[i]?.bind fun c =>
      if c.pc = .register then
        some
          { s with
            clients := s.clients.set i { c with pc := .registering s.calls.length }
            calls := s.calls ++ [{ request := c.request r }] }
      else none
  | .serve k ok =>
    s.calls[k]?.bind fun c =>
      (c.step env s.app ok).map fun (app, pc) => { s with app, calls := s.calls.set k { c with pc } }
  | .answer i =>
    stepClient s i fun c =>
      match c.pc with
      | .registering k =>
        match s.calls[k]?.map Call.pc with
        | some (.returned ok) => some (if ok then .getPairs else .register)
        | _ => none
      | _ => none
  | .fail i =>
    stepClient s i fun c =>
      match c.pc with
      | .registering _ => some .register
      | _ => none
  | .getPairs i =>
    stepClient s i fun c =>
      if c.pc = .getPairs then
        let stored := StartApplication.getAppInfoFromRedis env.json s.app.redis (c.request r).appId
        some (getPairsPc (getPairInfo (stored.map appInfo) (c.request r)))
      else none
  | .restart i address =>
    s.clients[i]?.map fun c =>
      { s with clients := s.clients.set i { c with address, pc := .register } }

def machine : Machine State Action := ⟨step env r⟩

def start (redis : Redis) (processes : List (Option TfConfig × String)) : State where
  app := { redis }
  clients := clients processes

/-- Nobody but the workers writes their uuids, and no address is used by two of them. -/
def Proper (owner : String → Nat) (s : State) : Action → Prop
  | .app .getConf => ∀ app ∈ StartApplication.getJsonConfFromRedis env.json s.app.redis r, app.pairInfos = []
  | .app (.other key value) => value = none ∨ ∀ c ∈ s.clients, key ≠ workerUuid r c.id
  | .restart i address => ∀ c ∈ s.clients[i]?, owner address = c.id
  | _ => True

instance {owner : String → Nat} {s : State} : (a : Action) → Decidable (Proper env r owner s a)
  | .app .getConf => inferInstanceAs (Decidable
      (∀ app ∈ StartApplication.getJsonConfFromRedis env.json s.app.redis r, app.pairInfos = []))
  | .app (.other key value) =>
    inferInstanceAs (Decidable (value = none ∨ ∀ c ∈ s.clients, key ≠ workerUuid r c.id))
  | .restart i address => inferInstanceAs (Decidable (∀ c ∈ s.clients[i]?, owner address = c.id))
  | .app (.submit _) | .app (.store _) | .app (.startK8S _) | .app .poll | .app (.syn _) | .app .read
  | .app (.write _ _) | .app .delete | .call _ | .serve _ _ | .answer _ | .fail _ | .getPairs _ =>
    inferInstanceAs (Decidable True)

end Coordinator.WorkerStartup
