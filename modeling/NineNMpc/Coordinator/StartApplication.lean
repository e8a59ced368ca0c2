-- SUMMARY: StartApplication of the leader's coordinator: verification by the other side, the Kubernetes job, the poll for registrations and the Syn request, beside the other writers of the AppInfo.
import NineNMpc.Coordinator.CheckAppStatus
import NineNMpc.Coordinator.Pairing
import NineNMpc.Coordinator.TaskId
import NineNMpc.Coordinator.Uuid

/-!
# Starting an application

`StartApplication` of `Coordinator/services/internal_service_impl.cc` with
`services/invoke_module.cc` and the functions of `services/common.cc` that it calls. While
it polls Redis, others read the `AppInfo`, change what they have read and write it back:
`RegisterUUID`, the monitor of `check_app_status.cc`, and the service that takes the remote
uuids and the remote status. Each of them may write back an info that is no longer the
stored one.
-/

namespace Coordinator.StartApplication

/-! ## The AppInfo -/

/-- The configuration with the fields that the checks and the requests read. -/
structure Conf extends AppInfo.ConfInfo where
  modelUri : String := ""
  version : String := ""
  datacentorNum : Int := 0
  localStatus : Option AppStatus := none
  remoteStatus : Option AppStatus := none
deriving DecidableEq

structure App where
  confInfo : Conf
  pairInfos : List PairInfo := []
deriving DecidableEq

/-- The JSON form of protobuf. -/
structure AppJson where
  messageToJsonString : App → Option String
  jsonStringToMessage : String → Option App
  /-- What was printed reads back. -/
  parse_print : ∀ app v, messageToJsonString app = some v → jsonStringToMessage v = some app

/-- What is told to `StartApplication`, with the second in which it runs. -/
structure ModelURI where
  modelUri : String
  version : String
  tvSec : Int

def ModelURI.appId (r : ModelURI) : String :=
  "flapp-jd-" ++ r.modelUri ++ "-" ++ r.version ++ "-" ++ toString r.tvSec

def ModelURI.confKey (r : ModelURI) : String := r.modelUri ++ "-" ++ r.version

def getAppInfoFromRedis (json : AppJson) (redis : Redis) (appId : String) : Option App :=
  (redis appId).bind json.jsonStringToMessage

def getJsonConfFromRedis (json : AppJson) (redis : Redis) (r : ModelURI) : Option App := do
  let app ← getAppInfoFromRedis json redis r.confKey
  if r.modelUri = app.confInfo.modelUri then some app else none

def checkAppInfo (conf : Conf) : Bool :=
  conf.modelUri ≠ "" ∧ conf.dataSourceName ≠ "" ∧ conf.trainDataStart ≠ "" ∧ conf.trainDataEnd ≠ "" ∧
    conf.dataNumEpoch ≠ 0

/-- `CheckRegisterNum` on what `GetAppInfoFromRedis` reads. -/
def checkRegisterNum : Option App → Int
  | none => -2
  | some app =>
    if app.confInfo.localStatus.isSome ∨ app.confInfo.remoteStatus.isSome then -2
    else
      let totalNum :=
        if app.confInfo.workerNum ≠ 0 then app.confInfo.workerNum else app.confInfo.datacentorNum
      if totalNum ≠ app.pairInfos.length then -1 else totalNum

/-! ## Requests to the other side -/

structure TrainRequest where
  appId : String
  modelUri : String
  version : String
  workerNum : Int
  dataSourceName : String
  trainDataStart : String
  trainDataEnd : String
  dataNumEpoch : Int
deriving DecidableEq

def setTrainRequest (app : App) : Option TrainRequest :=
  let conf := app.confInfo
  if checkAppInfo conf then
    some
      { appId := conf.appId
        modelUri := conf.modelUri
        version := conf.version
        workerNum := conf.workerNum
        dataSourceName := conf.dataSourceName
        trainDataStart := conf.trainDataStart
        trainDataEnd := conf.trainDataEnd
        dataNumEpoch := conf.dataNumEpoch }
  else none

/-- The `AppSynRequest` with the flag `CREATE`, and one `SYN` service pair for each uuid. -/
structure SynRequest where
  appId : String
  leaderUuids : List String
deriving DecidableEq

def setSynRequest (app : App) : SynRequest where
  appId := app.confInfo.appId
  leaderUuids := app.pairInfos.flatMap fun p => p.servicePair.map (·.localUuid)

structure SubmitReply where
  status : Int
  appId : String
  errMsg : String

def logCommon (conf : Conf) : String := "app_id: " ++ conf.appId ++ " model_uri: " ++ conf.modelUri

/-! ## The other writers -/

inductive Change where
  | register (request : Request)
  | localStatus (status : AppStatus)
  | remoteStatus (status : AppStatus)
  | assign (remote : Nat → Nat → String)

/-- `RegisterUUID` refuses a request without uuids. -/
def Change.isEmpty : Change → Bool
  | .register r => r.uuid = []
  | _ => false

def Change.apply (app : App) : Change → App
  | .register r => { app with pairInfos := registerPairInfos r app.pairInfos }
  | .localStatus status => { app with confInfo := { app.confInfo with localStatus := some status } }
  | .remoteStatus status => { app with confInfo := { app.confInfo with remoteStatus := some status } }
  | .assign remote => { app with pairInfos := Pairing.assignRemote remote app.pairInfos }

/-! ## The call -/

/-- The next command: `submit` is the call of `SubmitTrain`, `store` the `SET` behind it, and `syn` has
    the info that the last poll read. -/
inductive Pc where
  | getConf
  | submit (app : App)
  | store (app : App)
  | startK8S
  | poll
  | syn (app : App)
  | returned (err : Option String)

/-- `appIdSet` is what `AddAppId` was called with, `submitted` and `synced` what was sent, `jobs` the
    commands given to `system`, and `copies` what the other writers have read. -/
structure State where
  redis : Redis
  pc : Pc := .getConf
  submitted : List TrainRequest := []
  jobs : List String := []
  appIdSet : List String := []
  synced : List SynRequest := []
  copies : List App := []

inductive Action where
  | getConf
  | submit (reply : Except String SubmitReply)
  | store (refused : Bool)
  | startK8S (status : BitVec 32)
  | poll
  | syn (reply : Option Int)
  | read
  | write (i : Nat) (change : Change)
  | delete
  | other (key : String) (value : Option String)

structure Env where
  json : AppJson
  hash : String → UInt64
  leader : Int
  follower : Int

variable (env : Env) (r : ModelURI)

/-- The head of `StartApplication`, up to the `InvokeModule`. -/
def stepGetConf (s : State) : State :=
  match getJsonConfFromRedis env.json s.redis r with
  | none =>
    { s with pc := .returned (some
        ("model_uri conf error. model_uri: " ++ r.modelUri ++ " version: " ++ r.version)) }
  | some app =>
    let confInfo := { app.confInfo with appId := r.appId, role := env.leader }
    { s with pc := .submit { app with confInfo } }

/-- `InvokeSubmitTrain`. -/
def stepSubmit (s : State) (app : App) (reply : Except String SubmitReply) : State :=
  match setTrainRequest app with
  | none =>
    { s with pc := .returned (some ("set SubmitTrain request error." ++ logCommon app.confInfo)) }
  | some request =>
    let s := { s with submitted := s.submitted ++ [request] }
    match reply with
    | .error message =>
      { s with pc := .returned (some
          ("fail to invoke SubmitTrain." ++ logCommon app.confInfo ++ message)) }
    | .ok reply =>
      if reply.status ≠ 0 ∨ app.confInfo.appId ≠ reply.appId then
        { s with pc := .returned (some
            ("fail to verify ModelTrainMeta." ++ logCommon app.confInfo ++ reply.errMsg)) }
      else { s with pc := .store app }

def stepStore (s : State) (app : App) (refused : Bool) : State :=
  match env.json.messageToJsonString app, refused with
  | some v, false => { s with redis := s.redis.set app.confInfo.appId v, pc := .startK8S }
  | _, _ =>
    { s with pc := .returned (some ("fail to save TrainMeta to redis." ++ logCommon app.confInfo)) }

/-- `StartK8S` and `AddAppId`. -/
def stepStartK8S (s : State) (status : BitVec 32) : State :=
  let failed := Pc.returned (some
    ("fail to start k8s. app_id: " ++ r.appId ++ " model_uri: " ++ r.modelUri))
  match getAppInfoFromRedis env.json s.redis r.appId with
  | none => { s with pc := failed }
  | some app =>
    let conf := app.confInfo.toConfInfo
    let jobs := if checkK8SParaInfo conf then s.jobs ++ [createJob env.hash env.follower conf] else s.jobs
    if startK8SFromAppInfo env.hash env.follower (fun _ => status) conf then
      { s with jobs, appIdSet := s.appIdSet ++ [r.appId], pc := .poll }
    else { s with jobs, pc := failed }

/-- A round of the polling loop. -/
def stepPoll (s : State) : State :=
  let app := getAppInfoFromRedis env.json s.redis r.appId
  match checkRegisterNum app, app with
  | -1, _ => s
  | -2, _ | _, none =>
    { s with pc := .returned (some
        ("fail to get app_id from redis or finish or shutdown. app_id: " ++ r.appId)) }
  | _, some app => { s with pc := .syn app }

/-- `SendUUIDToFollower`. -/
def stepSyn (s : State) (app : App) (reply : Option Int) : State :=
  { s with
    synced := s.synced ++ [setSynRequest app]
    pc := .returned (if reply = some 0 then none else some ("fail to send UUID. app_id: " ++ r.appId)) }

/-- `SetAppInfoToRedis` of another writer. -/
def stepWrite (s : State) (app : App) (change : Change) : Option State :=
  if change.isEmpty then none
  else
    (env.json.messageToJsonString (change.apply app)).map fun v =>
      { s with redis := s.redis.set (change.apply app).confInfo.appId v }

def step (s : State) (a : Action) : Option State :=
  match a, s.pc with
  | .getConf, .getConf => some (stepGetConf env r s)
  | .submit reply, .submit app => some (stepSubmit s app reply)
  | .store refused, .store app => some (stepStore env s app refused)
  | .startK8S status, .startK8S => some (stepStartK8S env r s status)
  | .poll, .poll => some (stepPoll env r s)
  | .syn reply, .syn app => some (stepSyn r s app reply)
  | .read, _ => (getAppInfoFromRedis env.json s.redis r.appId).map fun app =>
      { s with copies := s.copies ++ [app] }
  | .write i change, _ => s.copies[i]?.bind fun app => stepWrite env s app change
  | .delete, _ => some { s with redis := s.redis.del r.appId }
  | .other key value, _ =>
    if key = r.appId then none
    else some { s with redis := Function.update s.redis key value }
  | _, _ => none

def machine : Machine State Action := ⟨step env r⟩

end Coordinator.StartApplication
