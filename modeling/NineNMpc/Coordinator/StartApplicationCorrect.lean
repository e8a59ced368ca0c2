-- SUMMARY: The Syn request of StartApplication is sent at most once, and names as many different workers as were announced to the other side, whatever the other writers do.
import Mathlib.Data.List.Perm.Subperm
import NineNMpc.Coordinator.StartApplication

/-!
# The Syn request

A writer may put back an old info, so a registration can be lost, but no info that is ever
read or written has a worker twice. That and the number of workers, which no writer
changes, is the invariant of the stored info and of the copies. The request is made from
the info of a poll that found as many pair infos as workers.
-/

namespace Coordinator.StartApplication

variable {env : Env} {r : ModelURI} {workers : List (List String)} {s s' : State} {t : TrainRequest}
  {app : App} {ps : List PairInfo}

/-! ## The infos -/

/-- Each pair info is that of a worker, and no two are of the same. -/
structure Whole (workers : List (List String)) (ps : List PairInfo) : Prop where
  nodup : (ps.map (·.uuids)).Nodup
  mem : ∀ p ∈ ps, p.uuids ∈ workers

theorem whole_nil : Whole workers [] := ⟨.nil, by simp⟩

theorem Whole.congr {ps' : List PairInfo} (h : Whole workers ps)
    (heq : ps'.map (·.uuids) = ps.map (·.uuids)) : Whole workers ps' := by
  refine ⟨heq ▸ h.nodup, fun p hp => ?_⟩
  have hmem : p.uuids ∈ ps.map (·.uuids) := heq ▸ List.mem_map_of_mem hp
  obtain ⟨q, hq, heq⟩ := List.mem_map.mp hmem
  exact heq ▸ h.mem q hq

theorem Whole.register {q : Request} (h : Whole workers ps) (hq : q.uuid ∈ workers) (hne : q.uuid ≠ []) :
    Whole workers (registerPairInfos q ps) := by
  obtain ⟨before, p, after, rfl, -, -, heq⟩ | ⟨hnew, heq⟩ := registerPairInfos_cases q ps
  · refine h.congr ?_
    rw [heq, List.map_append, List.map_append]
    rfl
  · rw [heq]
    constructor
    · rw [List.map_append, List.map_singleton, uuids_pairInfo, List.nodup_append]
      refine ⟨h.nodup, by simp, ?_⟩
      rintro _ hmem _ hlast rfl
      obtain ⟨p, hp, heq⟩ := List.mem_map.mp hmem
      -- a pair info with the same uuids would have been replaced
      obtain ⟨u, hu⟩ := List.exists_mem_of_ne_nil _ hne
      rw [List.mem_singleton.mp hlast] at heq
      exact hnew p hp ⟨u, heq ▸ hu, hu⟩
    · intro p hp
      rcases List.mem_append.mp hp with hp | hp
      · exact h.mem p hp
      · rw [List.mem_singleton.mp hp, uuids_pairInfo]
        exact hq

theorem Whole.assign {remote : Nat → Nat → String} (h : Whole workers ps) :
    Whole workers (Pairing.assignRemote remote ps) := by
  refine h.congr ?_
  have hidentity : (Pairing.assignRemote remote ps).map Pairing.identity = ps.map Pairing.identity :=
    Pairing.map_identity_assignRemote
  simpa [Pairing.identity, Function.comp_def] using congrArg (List.map Prod.snd) hidentity

/-- An info of the application that was announced with `t`. -/
structure Of (r : ModelURI) (workers : List (List String)) (t : TrainRequest) (app : App) : Prop where
  appId : app.confInfo.appId = r.appId
  workerNum : app.confInfo.workerNum = t.workerNum
  whole : Whole workers app.pairInfos

theorem Of.apply {change : Change} (h : Of r workers t app)
    (hworker : ∀ q, change = .register q → q.uuid ∈ workers) (hne : change.isEmpty = false) :
    Of r workers t (change.apply app) := by
  cases change with
  | register q =>
    have hq : q.uuid ≠ [] := by simpa [Change.isEmpty] using hne
    exact ⟨h.appId, h.workerNum, h.whole.register (hworker q rfl) hq⟩
  | localStatus status => exact ⟨h.appId, h.workerNum, h.whole⟩
  | remoteStatus status => exact ⟨h.appId, h.workerNum, h.whole⟩
  | assign remote => exact ⟨h.appId, h.workerNum, h.whole.assign⟩

/-- The request names as many different workers as were announced. -/
structure Names (r : ModelURI) (workers : List (List String)) (t : TrainRequest) (q : SynRequest) :
    Prop where
  appId : q.appId = r.appId
  whole : ∃ ws : List (List String), ws.Nodup ∧ ws ⊆ workers ∧ (ws.length : Int) = t.workerNum ∧
    q.leaderUuids = ws.flatten

theorem Of.names (h : Of r workers t app) (hlen : (app.pairInfos.length : Int) = t.workerNum) :
    Names r workers t (setSynRequest app) where
  appId := h.appId
  whole := by
    refine ⟨app.pairInfos.map (·.uuids), h.whole.nodup, ?_, by simpa using hlen, ?_⟩
    · intro w hw
      obtain ⟨p, hp, rfl⟩ := List.mem_map.mp hw
      exact h.whole.mem p hp
    · exact List.flatMap_def

/-- With as many workers as were announced, each is named once. -/
theorem Names.perm {q : SynRequest} (h : Names r workers t q)
    (hlen : t.workerNum = workers.length) : q.leaderUuids.Perm workers.flatten := by
  obtain ⟨ws, hnodup, hsub, hws, hq⟩ := h.whole
  rw [hq]
  have hle : workers.length ≤ ws.length := by omega
  exact ((List.subperm_of_subset hnodup hsub).perm_of_length_le hle).flatten

/-! ## The invariant -/

/-- The configuration of the model has no pair infos, and those who register are the workers. -/
def ByWorkers (env : Env) (r : ModelURI) (workers : List (List String)) (s : State) : Action → Prop
  | .getConf => ∀ app ∈ getJsonConfFromRedis env.json s.redis r, app.pairInfos = []
  | .write _ (.register q) => q.uuid ∈ workers
  | _ => True

instance : (a : Action) → Decidable (ByWorkers env r workers s a)
  | .getConf => inferInstanceAs (Decidable (∀ app ∈ getJsonConfFromRedis env.json s.redis r,
      app.pairInfos = []))
  | .write _ (.register q) => inferInstanceAs (Decidable (q.uuid ∈ workers))
  | .write _ (.localStatus _) | .write _ (.remoteStatus _) | .write _ (.assign _) | .submit _
  | .store _ | .startK8S _ | .poll | .syn _ | .read | .delete | .other _ _ =>
    inferInstanceAs (Decidable True)

/-- The call before its `SET`. -/
def Pc.Before (r : ModelURI) (workers : List (List String)) (submitted : List TrainRequest) : Pc → Prop
  | .getConf => submitted = []
  | .submit app => submitted = [] ∧ app.confInfo.appId = r.appId ∧ app.pairInfos = []
  | .store app => ∃ t, submitted = [t] ∧ t.appId = r.appId ∧ Of r workers t app
  | .returned err => err ≠ none
  | _ => False

/-- Nothing is known of the application yet. -/
structure Fresh (r : ModelURI) (workers : List (List String)) (s : State) : Prop where
  stored : s.redis r.appId = none
  copies : s.copies = []
  appIdSet : s.appIdSet = []
  synced : s.synced = []
  pc : s.pc.Before r workers s.submitted

/-- `AddAppId` and `Syn` as far as the call has come. -/
def Pc.After (r : ModelURI) (workers : List (List String)) (t : TrainRequest) (appIdSet : List String)
    (synced : List SynRequest) : Pc → Prop
  | .startK8S => appIdSet = [] ∧ synced = []
  | .poll => appIdSet = [r.appId] ∧ synced = [] ∧ t.workerNum ≠ 0
  | .syn app => appIdSet = [r.appId] ∧ synced = [] ∧ Of r workers t app ∧
      (app.pairInfos.length : Int) = t.workerNum
  | .returned err => (err ≠ none ∧ synced = []) ∨
      ∃ q, appIdSet = [r.appId] ∧ synced = [q] ∧ Names r workers t q
  | _ => False

/-- The application was announced with `t`. -/
structure Live (env : Env) (r : ModelURI) (workers : List (List String)) (t : TrainRequest) (s : State) :
    Prop where
  submitted : s.submitted = [t]
  appId : t.appId = r.appId
  stored : ∀ app, getAppInfoFromRedis env.json s.redis r.appId = some app → Of r workers t app
  copies : ∀ app ∈ s.copies, Of r workers t app
  pc : s.pc.After r workers t s.appIdSet s.synced

def Inv (env : Env) (r : ModelURI) (workers : List (List String)) (s : State) : Prop :=
  Fresh r workers s ∨ ∃ t, Live env r workers t s

/-! ## The other writers -/

theorem getAppInfoFromRedis_set {redis : Redis} {v : String}
    (hv : env.json.messageToJsonString app = some v) :
    getAppInfoFromRedis env.json (redis.set r.appId v) r.appId = some app := by
  rw [getAppInfoFromRedis, Redis.set_self]
  exact env.json.parse_print app v hv

theorem Fresh.getAppInfo (h : Fresh r workers s) :
    getAppInfoFromRedis env.json s.redis r.appId = none := by
  rw [getAppInfoFromRedis, h.stored]
  rfl

theorem Live.write {change : Change} (h : Live env r workers t s) (happ : Of r workers t app)
    (hworker : ∀ q, change = .register q → q.uuid ∈ workers)
    (hs : stepWrite env s app change = some s') : Live env r workers t s' := by
  unfold stepWrite at hs
  split at hs
  · cases hs
  · next hne =>
    obtain ⟨v, hv, rfl⟩ := Option.map_eq_some_iff.mp hs
    have happ' := happ.apply hworker (by simpa using hne)
    refine { h with stored := fun app' happ'' => ?_ }
    rw [happ'.appId, getAppInfoFromRedis_set hv] at happ''
    cases happ''
    exact happ'

/-! ## The commands of the call -/

theorem setTrainRequest_eq {t : TrainRequest} (h : setTrainRequest app = some t) :
    t.appId = app.confInfo.appId ∧ app.confInfo.workerNum = t.workerNum := by
  simp only [setTrainRequest] at h
  split at h
  · cases h
    exact ⟨rfl, rfl⟩
  · cases h

theorem stepGetConf_inv (hconf : ∀ app ∈ getJsonConfFromRedis env.json s.redis r, app.pairInfos = [])
    (hpc : s.pc = .getConf) (h : Inv env r workers s) : Inv env r workers (stepGetConf env r s) := by
  obtain h | ⟨t, h⟩ := h
  · have hsubmitted : s.submitted = [] := by simpa [hpc, Pc.Before] using h.pc
    refine .inl ?_
    simp only [stepGetConf]
    split
    · exact { h with pc := by simp [Pc.Before] }
    · next app happ => exact { h with pc := ⟨hsubmitted, rfl, hconf app happ⟩ }
  · have hafter := h.pc
    simp [hpc, Pc.After] at hafter

theorem stepSubmit_inv {reply : Except String SubmitReply} (hpc : s.pc = .submit app)
    (h : Inv env r workers s) : Inv env r workers (stepSubmit s app reply) := by
  obtain h | ⟨t, h⟩ := h
  · obtain ⟨hsubmitted, hid, hpairs⟩ : s.submitted = [] ∧ app.confInfo.appId = r.appId ∧
        app.pairInfos = [] := by simpa [hpc, Pc.Before] using h.pc
    refine .inl ?_
    simp only [stepSubmit]
    split
    · exact { h with pc := by simp [Pc.Before] }
    · next t ht =>
      obtain ⟨htid, hnum⟩ := setTrainRequest_eq ht
      split
      · exact { h with pc := by simp [Pc.Before] }
      · split
        · exact { h with pc := by simp [Pc.Before] }
        · refine { h with pc := ⟨t, by simp [hsubmitted], htid.trans hid, hid, hnum, ?_⟩ }
          exact hpairs ▸ whole_nil
  · have hafter := h.pc
    simp [hpc, Pc.After] at hafter

theorem stepStore_inv {refused : Bool} (hpc : s.pc = .store app) (h : Inv env r workers s) :
    Inv env r workers (stepStore env s app refused) := by
  obtain h | ⟨t, h⟩ := h
  · obtain ⟨t, hsubmitted, htid, happ⟩ : ∃ t, s.submitted = [t] ∧ t.appId = r.appId ∧
        Of r workers t app := by simpa [hpc, Pc.Before] using h.pc
    simp only [stepStore]
    split
    · next v _ hv =>
      refine .inr ⟨t, hsubmitted, htid, fun app' happ' => ?_, by simp [h.copies], h.appIdSet, h.synced⟩
      rw [happ.appId, getAppInfoFromRedis_set hv] at happ'
      cases happ'
      exact happ
    · exact .inl { h with pc := by simp [Pc.Before] }
  · have hafter := h.pc
    simp [hpc, Pc.After] at hafter

theorem stepStartK8S_inv {status : BitVec 32} (hpc : s.pc = .startK8S) (h : Inv env r workers s) :
    Inv env r workers (stepStartK8S env r s status) := by
  obtain h | ⟨t, h⟩ := h
  · have hbefore := h.pc
    simp [hpc, Pc.Before] at hbefore
  · obtain ⟨hids, hsynced⟩ : s.appIdSet = [] ∧ s.synced = [] := by simpa [hpc, Pc.After] using h.pc
    refine .inr ⟨t, ?_⟩
    simp only [stepStartK8S]
    split
    · exact { h with pc := .inl ⟨by simp, hsynced⟩ }
    · next app happ =>
      split
      · next hstarted =>
        refine { h with pc := ⟨by simp [hids], hsynced, ?_⟩ }
        -- the script is not run without workers
        have hchecked : checkK8SParaInfo app.confInfo.toConfInfo = true := by
          unfold startK8SFromAppInfo at hstarted
          split at hstarted
          · assumption
          · cases hstarted
        simp only [checkK8SParaInfo, ne_eq, Bool.decide_and, Bool.and_eq_true, decide_eq_true_eq]
          at hchecked
        exact (h.stored app happ).workerNum ▸ hchecked.1
      · exact { h with pc := .inl ⟨by simp, hsynced⟩ }

theorem checkRegisterNum_eq {n : Int} (hn : checkRegisterNum (some app) = n) (h : n ≠ -1) (h' : n ≠ -2)
    (hnum : app.confInfo.workerNum ≠ 0) : (app.pairInfos.length : Int) = app.confInfo.workerNum := by
  simp only [checkRegisterNum, if_pos hnum] at hn
  split at hn
  · exact absurd hn.symm h'
  · split at hn
    · exact absurd hn.symm h
    · next heq => exact (not_not.mp heq).symm

theorem stepPoll_inv (hpc : s.pc = .poll) (h : Inv env r workers s) :
    Inv env r workers (stepPoll env r s) := by
  obtain h | ⟨t, h⟩ := h
  · have hbefore := h.pc
    simp [hpc, Pc.Before] at hbefore
  · obtain ⟨hids, hsynced, hnum⟩ : s.appIdSet = [r.appId] ∧ s.synced = [] ∧ t.workerNum ≠ 0 := by
      simpa [hpc, Pc.After] using h.pc
    refine .inr ⟨t, ?_⟩
    simp only [stepPoll]
    split
    · exact h
    · exact { h with pc := .inl ⟨by simp, hsynced⟩ }
    · exact { h with pc := .inl ⟨by simp, hsynced⟩ }
    · next _ _ app happ hnot₁ hnot₂ =>
      have hof := h.stored app happ
      refine { h with pc := ⟨hids, hsynced, hof, ?_⟩ }
      rw [happ] at hnot₁ hnot₂
      exact (checkRegisterNum_eq rfl hnot₁ hnot₂ (hof.workerNum ▸ hnum)).trans hof.workerNum

theorem stepSyn_inv {reply : Option Int} (hpc : s.pc = .syn app) (h : Inv env r workers s) :
    Inv env r workers (stepSyn r s app reply) := by
  obtain h | ⟨t, h⟩ := h
  · have hbefore := h.pc
    simp [hpc, Pc.Before] at hbefore
  · obtain ⟨hids, hsynced, hof, hlen⟩ : s.appIdSet = [r.appId] ∧ s.synced = [] ∧ Of r workers t app ∧
        (app.pairInfos.length : Int) = t.workerNum := by simpa [hpc, Pc.After] using h.pc
    refine .inr ⟨t, { h with pc := .inr ⟨setSynRequest app, hids, ?_, hof.names hlen⟩ }⟩
    simp [stepSyn, hsynced]

theorem step_inv {a : Action} (ha : ByWorkers env r workers s a) (h : Inv env r workers s)
    (hs : (machine env r).step s a = some s') : Inv env r workers s' := by
  change step env r s a = some s' at hs
  unfold step at hs
  split at hs
  case h_1 hpc =>
    cases hs
    exact stepGetConf_inv ha hpc h
  case h_2 reply app hpc =>
    cases hs
    exact stepSubmit_inv hpc h
  case h_3 refused app hpc =>
    cases hs
    exact stepStore_inv hpc h
  case h_4 status hpc =>
    cases hs
    exact stepStartK8S_inv hpc h
  case h_5 hpc =>
    cases hs
    exact stepPoll_inv hpc h
  case h_6 reply app hpc =>
    cases hs
    exact stepSyn_inv hpc h
  case h_7 =>
    obtain ⟨app, happ, rfl⟩ := Option.map_eq_some_iff.mp hs
    obtain h | ⟨t, h⟩ := h
    · rw [h.getAppInfo] at happ
      cases happ
    · refine .inr ⟨t, { h with copies := fun app' happ' => ?_ }⟩
      rcases List.mem_append.mp happ' with happ' | happ'
      · exact h.copies app' happ'
      · exact List.mem_singleton.mp happ' ▸ h.stored app happ
  case h_8 i change =>
    obtain ⟨app, happ, hs⟩ := Option.bind_eq_some_iff.mp hs
    obtain h | ⟨t, h⟩ := h
    · simp [h.copies] at happ
    · refine .inr ⟨t, h.write (h.copies app (List.mem_of_getElem? happ)) ?_ hs⟩
      rintro q rfl
      exact ha
  case h_9 =>
    cases hs
    have hdel : s.redis.del r.appId r.appId = none := by simp [Redis.del]
    obtain h | ⟨t, h⟩ := h
    · exact .inl { h with stored := hdel }
    · refine .inr ⟨t, { h with stored := fun app happ => ?_ }⟩
      simp [getAppInfoFromRedis, hdel] at happ
  case h_10 key value =>
    split at hs
    · cases hs
    · next hne =>
      cases hs
      have hkeep : Function.update s.redis key value r.appId = s.redis r.appId :=
        Function.update_of_ne (Ne.symm hne) _ _
      obtain h | ⟨t, h⟩ := h
      · exact .inl { h with stored := hkeep.trans h.stored }
      · refine .inr ⟨t, { h with stored := fun app happ => h.stored app ?_ }⟩
        simpa only [getAppInfoFromRedis, hkeep] using happ
  case h_11 => cases hs

/-! ## Runs -/

theorem initial_inv {redis : Redis} (hfree : redis r.appId = none) : Inv env r workers { redis } :=
  .inl ⟨hfree, rfl, rfl, rfl, rfl⟩

/-- The `Syn` request is sent at most once, behind `SubmitTrain`, and names different workers. -/
theorem Inv.synced (h : Inv env r workers s) :
    s.synced.length ≤ 1 ∧ (s.pc = .returned none → s.synced ≠ []) ∧
    ∀ q ∈ s.synced, s.appIdSet = [r.appId] ∧
      ∃ t, s.submitted = [t] ∧ t.appId = r.appId ∧ Names r workers t q := by
  obtain h | ⟨t, h⟩ := h
  · have hbefore := h.pc
    refine ⟨by simp [h.synced], fun hpc => ?_, by simp [h.synced]⟩
    simp [hpc, Pc.Before] at hbefore
  · have hcases : (s.pc ≠ .returned none ∧ s.synced = []) ∨
        ∃ q, s.appIdSet = [r.appId] ∧ s.synced = [q] ∧ Names r workers t q := by
      have hafter := h.pc
      cases hpc : s.pc with
      | returned err =>
        rw [hpc] at hafter
        exact hafter.imp_left fun ⟨herr, hsynced⟩ => ⟨by simpa using herr, hsynced⟩
      | startK8S => exact .inl ⟨nofun, (by simpa [hpc, Pc.After] using hafter : _ ∧ s.synced = []).2⟩
      | poll | syn app =>
        simp only [hpc, Pc.After] at hafter
        exact .inl ⟨nofun, hafter.2.1⟩
      | getConf | submit app | store app => simp [hpc, Pc.After] at hafter
    obtain ⟨hpc, hsynced⟩ | ⟨q, hids, hsynced, hnames⟩ := hcases
    · exact ⟨by simp [hsynced], fun hret => absurd hret hpc, by simp [hsynced]⟩
    · refine ⟨by simp [hsynced], fun _ => by simp [hsynced], ?_⟩
      rw [hsynced]
      intro q' hq'
      obtain rfl := List.mem_singleton.mp hq'
      exact ⟨hids, t, h.submitted, h.appId, hnames⟩

namespace Sample

open Registry.Sample (quote object array)

def request : ModelURI := ⟨"mnist", "v1", 1600000000⟩

/-- The configuration of a model that trains with two workers. -/
def conf : App where
  confInfo :=
    { workerNum := 2
      trainDataStart := "2020-01-01"
      trainDataEnd := "2020-01-02"
      dataSourceName := "clicks"
      dataNumEpoch := 1
      modelUri := "mnist"
      version := "v1" }

def started : App := { conf with confInfo := { conf.confInfo with appId := request.appId, role := 1 } }

def first : Request := ⟨[request.appId ++ "_TrainerWorkerService_0"], "10.0.0.1:6666"⟩

def second : Request := ⟨[request.appId ++ "_TrainerWorkerService_1"], "10.0.0.2:6666"⟩

def servicePairJson (sp : ServicePair) : String :=
  object (["\"local_uuid\":" ++ quote sp.localUuid] ++
    if sp.remoteUuid = "" then [] else ["\"remote_uuid\":" ++ quote sp.remoteUuid])

def pairInfoJson (p : PairInfo) : String :=
  object ["\"ip_port\":" ++ quote p.ipPort,
    "\"service_pair\":" ++ array (p.servicePair.map servicePairJson)]

def appJson (app : App) : String :=
  object (["\"conf_info\":" ++ object
      ["\"app_id\":" ++ quote app.confInfo.appId, "\"role\":" ++ toString app.confInfo.role,
        "\"model_uri\":" ++ quote app.confInfo.modelUri, "\"version\":" ++ quote app.confInfo.version,
        "\"worker_num\":" ++ toString app.confInfo.workerNum]] ++
    if app.pairInfos = [] then [] else ["\"pair_infos\":" ++ array (app.pairInfos.map pairInfoJson)])

/-- The JSON form, on these infos. -/
def jsonOf (infos : List App)
    (hinj : ∀ a ∈ infos, infos.find? (fun b => appJson b = appJson a) = some a) : AppJson where
  messageToJsonString app := if app ∈ infos then some (appJson app) else none
  jsonStringToMessage v := infos.find? fun app => appJson app = v
  parse_print app v h := by
    split at h
    · next hmem =>
      obtain rfl : appJson app = v := by simpa using h
      exact hinj app hmem
    · cases h

/-- The JSON form, on the infos that two workers can leave. -/
def protoJson : AppJson :=
  jsonOf
    [conf, started, (Change.register first).apply started, (Change.register second).apply started,
      (Change.register first).apply ((Change.register second).apply started)]
    (by decide +kernel)

def coordinator : Env where
  json := protoJson
  hash := TaskIds.Sample.stdHash
  leader := 1
  follower := 0

def redis : Redis := fun key => if key = "mnist-v1" then some (appJson conf) else none

/-- The second worker writes back an info without the first one, which registers again. -/
def schedule : List Action :=
  [.getConf, .submit (.ok ⟨0, request.appId, ""⟩), .store false, .startK8S 0, .poll, .read, .read,
    .write 0 (.register first), .write 1 (.register second), .poll, .read, .write 2 (.register first),
    .poll, .syn (some 0)]

end Sample

end Coordinator.StartApplication
