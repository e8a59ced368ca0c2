-- SUMMARY: Every worker of a cluster comes out of its registration with a remote uuid that was assigned to its own uuid, and Syn names all of them, whatever calls are lost and whoever restarts.
import NineNMpc.Coordinator.StartApplicationCorrect
import NineNMpc.Coordinator.WorkerStartup

/-!
# The workers' channels

Each info that is ever read or written has pair infos of workers only, each filed under an
address of its worker, and each remote uuid in it was assigned to the uuid beside it. That
is kept by stale writes too. The `Syn` request is that of `StartApplication` with the
uuids of the workers.
-/

namespace Coordinator.WorkerStartup

open StartApplication (App Env ModelURI Change getAppInfoFromRedis_set stepWrite)
open Trainer.WorkerConfig (TfConfig Cluster trainingId trainingIds_perm)

/-! ## Uuids -/

variable {env : Env} {r : ModelURI}

theorem workerUuid_inj {i j : Nat} : workerUuid r i = workerUuid r j ↔ i = j := by
  refine ⟨fun h => ?_, congrArg _⟩
  have hrepr : Nat.toDigits 10 i = Nat.toDigits 10 j := by
    simpa [workerUuid, channelAppliId, ← String.toList_inj] using h
  have hvalue := congrArg (Nat.ofDigitChars 10 · 0) hrepr
  simpa only [Nat.ofDigitChars_ten_toDigits] using hvalue

theorem workerUuid_ne_appId {i : Nat} : workerUuid r i ≠ r.appId := by
  intro h
  have hlen := congrArg String.length h
  simp only [workerUuid, channelAppliId, String.length_append] at hlen
  have : 0 < "_TrainerWorkerService_".length := by decide
  omega

/-- The worker's uuid leads back to the application if the model's name has no underscore. -/
theorem appId_of_uuid {q : Request} {id : Nat} (hmodel : '_' ∉ r.modelUri.toList)
    (hversion : '_' ∉ r.version.toList) (hq : q.uuid = [workerUuid r id]) : q.appId = r.appId := by
  have hsec := underscore_notMem_toString r.tvSec
  rw [Int.toString_eq_repr] at hsec
  have hnotMem : '_' ∉ r.appId.toList := by
    simp [StartApplication.ModelURI.appId, hmodel, hversion, hsec]
  have huuid : workerUuid r id = String.ofList (r.appId.toList ++
      '_' :: ("TrainerWorkerService".toList ++ '_' :: (toString id).toList)) := by
    rw [← String.toList_inj]
    simp [workerUuid, channelAppliId]
  rw [Request.appId, hq, List.headD_cons, huuid, getAppIdFromUUID_eq_iff.mpr hnotMem,
    String.ofList_toList]

/-! ## The other writers -/

section App

variable {s s' : StartApplication.State} {a : StartApplication.Action}

theorem stepWrite_cases {app : App} {change : Change} (hs : stepWrite env s app change = some s') :
    ∃ v, env.json.messageToJsonString (change.apply app) = some v ∧
      s' = { s with redis := s.redis.set (change.apply app).confInfo.appId v } := by
  unfold stepWrite at hs
  split at hs
  · cases hs
  · obtain ⟨v, hv, rfl⟩ := Option.map_eq_some_iff.mp hs
    exact ⟨v, hv, rfl⟩

/-- What a step of `StartApplication` or of another writer does to Redis and the copies. -/
theorem app_cases (hs : StartApplication.step env r s a = some s') :
    (s'.redis = s.redis ∧ s'.copies = s.copies) ∨
    (∃ app v, s.pc = .store app ∧ env.json.messageToJsonString app = some v ∧
      s'.redis = s.redis.set app.confInfo.appId v ∧ s'.copies = s.copies) ∨
    (∃ app, StartApplication.getAppInfoFromRedis env.json s.redis r.appId = some app ∧
      s'.redis = s.redis ∧ s'.copies = s.copies ++ [app]) ∨
    (∃ i change app, a = .write i change ∧ s.copies[i]? = some app ∧
      stepWrite env s app change = some s') ∨
    (s'.redis = s.redis.del r.appId ∧ s'.copies = s.copies) ∨
    ∃ key value, a = .other key value ∧ key ≠ r.appId ∧
      s'.redis = Function.update s.redis key value ∧ s'.copies = s.copies := by
  unfold StartApplication.step at hs
  split at hs
  case h_1 =>
    cases hs
    unfold StartApplication.stepGetConf
    split <;> exact .inl ⟨rfl, rfl⟩
  case h_2 =>
    cases hs
    simp only [StartApplication.stepSubmit]
    repeat' split
    all_goals exact .inl ⟨rfl, rfl⟩
  case h_3 refused app hpc =>
    cases hs
    unfold StartApplication.stepStore
    split
    · next v hv => exact .inr (.inl ⟨app, v, hpc, hv, rfl, rfl⟩)
    · exact .inl ⟨rfl, rfl⟩
  case h_4 =>
    cases hs
    simp only [StartApplication.stepStartK8S]
    repeat' split
    all_goals exact .inl ⟨rfl, rfl⟩
  case h_5 =>
    cases hs
    simp only [StartApplication.stepPoll]
    split <;> exact .inl ⟨rfl, rfl⟩
  case h_6 =>
    cases hs
    exact .inl ⟨rfl, rfl⟩
  case h_7 =>
    obtain ⟨app, happ, rfl⟩ := Option.map_eq_some_iff.mp hs
    exact .inr (.inr (.inl ⟨app, happ, rfl, rfl⟩))
  case h_8 i change =>
    obtain ⟨app, happ, hwrite⟩ := Option.bind_eq_some_iff.mp hs
    exact .inr (.inr (.inr (.inl ⟨i, change, app, rfl, happ, hwrite⟩)))
  case h_9 =>
    cases hs
    exact .inr (.inr (.inr (.inr (.inl ⟨rfl, rfl⟩))))
  case h_10 key value =>
    split at hs
    · cases hs
    · next hne =>
      cases hs
      exact .inr (.inr (.inr (.inr (.inr ⟨key, value, rfl, hne, rfl, rfl⟩))))
  case h_11 => cases hs

/-- The info that is to be submitted or stored. -/
def Pending (pc : StartApplication.Pc) (app : App) : Prop := pc = .submit app ∨ pc = .store app

/-- It has the pair infos that the configuration has. -/
theorem pending_step {app : App} (hs : StartApplication.step env r s a = some s')
    (hpc : Pending s'.pc app) :
    Pending s.pc app ∨ a = .getConf ∧
      ∃ conf ∈ StartApplication.getJsonConfFromRedis env.json s.redis r,
        app.pairInfos = conf.pairInfos := by
  unfold StartApplication.step at hs
  split at hs
  case h_1 =>
    cases hs
    unfold StartApplication.stepGetConf at hpc
    split at hpc
    · simp [Pending] at hpc
    · next conf hconf =>
      obtain rfl : _ = app := by simpa [Pending] using hpc
      exact .inr ⟨rfl, conf, hconf, rfl⟩
  case h_2 reply app₀ hpc₀ =>
    cases hs
    simp only [StartApplication.stepSubmit] at hpc
    repeat' split at hpc
    all_goals simp_all [Pending]
  case h_3 =>
    cases hs
    unfold StartApplication.stepStore at hpc
    split at hpc <;> simp [Pending] at hpc
  case h_4 =>
    cases hs
    simp only [StartApplication.stepStartK8S] at hpc
    repeat' split at hpc
    all_goals simp [Pending] at hpc
  case h_5 hpoll =>
    cases hs
    simp only [StartApplication.stepPoll] at hpc
    split at hpc <;> simp [Pending, hpoll] at hpc
  case h_6 =>
    cases hs
    simp [Pending, StartApplication.stepSyn] at hpc
  case h_7 =>
    obtain ⟨_, -, rfl⟩ := Option.map_eq_some_iff.mp hs
    exact .inl hpc
  case h_8 =>
    obtain ⟨_, -, hwrite⟩ := Option.bind_eq_some_iff.mp hs
    obtain ⟨v, -, rfl⟩ := stepWrite_cases hwrite
    exact .inl hpc
  case h_9 =>
    cases hs
    exact .inl hpc
  case h_10 =>
    split at hs
    · cases hs
    · cases hs
      exact .inl hpc
  case h_11 => cases hs

end App

/-! ## The invariant -/

variable {owner : String → Nat} {ids : List Nat} {assigned assigned' : List (String × String)}
  {s s' : State}

/-- The pair info of the worker to which its address belongs. -/
structure Owned (r : ModelURI) (owner : String → Nat) (assigned : List (String × String))
    (p : PairInfo) : Prop where
  uuids : p.uuids = [workerUuid r (owner p.ipPort)]
  remote : ∀ sp ∈ p.servicePair, sp.remoteUuid ≠ "" → (sp.localUuid, sp.remoteUuid) ∈ assigned

/-- What is read and written by all: every info has the pair infos of workers only, and a uuid is
    filed under an address of its worker. -/
structure Shared (env : Env) (r : ModelURI) (owner : String → Nat) (ids : List Nat)
    (assigned : List (String × String)) (app : StartApplication.State) : Prop where
  inv : StartApplication.Inv env r (ids.map fun id => [workerUuid r id]) app
  pending : ∀ info, Pending app.pc info → info.pairInfos = []
  stored : ∀ info, StartApplication.getAppInfoFromRedis env.json app.redis r.appId = some info →
    ∀ p ∈ info.pairInfos, Owned r owner assigned p
  copies : ∀ info ∈ app.copies, ∀ p ∈ info.pairInfos, Owned r owner assigned p
  route : ∀ id ∈ ids, ∀ address, app.redis (workerUuid r id) = some address → owner address = id

theorem Owned.mono {p : PairInfo} (h : Owned r owner assigned p) (hsub : assigned ⊆ assigned') :
    Owned r owner assigned' p where
  uuids := h.uuids
  remote sp hsp hne := hsub (h.remote sp hsp hne)

theorem Shared.mono {app : StartApplication.State} (h : Shared env r owner ids assigned app)
    (hsub : assigned ⊆ assigned') : Shared env r owner ids assigned' app where
  inv := h.inv
  pending := h.pending
  stored info hinfo p hp := (h.stored info hinfo p hp).mono hsub
  copies info hinfo p hp := (h.copies info hinfo p hp).mono hsub
  route := h.route

/-- An info that was read belongs to the application, and still does when it is changed. -/
theorem Shared.apply_appId {app : StartApplication.State} {info : App} {copy : Nat} {change : Change}
    (h : Shared env r owner ids assigned app) (hcopy : app.copies[copy]? = some info) :
    (change.apply info).confInfo.appId = r.appId := by
  have hid : (change.apply info).confInfo.appId = info.confInfo.appId := by cases change <;> rfl
  rw [hid]
  obtain hfresh | ⟨t, hlive⟩ := h.inv
  · simp [hfresh.copies] at hcopy
  · exact (hlive.copies info (List.mem_of_getElem? hcopy)).appId

/-- The info of the application is replaced by one with pair infos of workers. -/
theorem Shared.set {app app' : StartApplication.State} {info : App} {v : String}
    (h : Shared env r owner ids assigned app)
    (hinv : StartApplication.Inv env r (ids.map fun id => [workerUuid r id]) app')
    (hpending : ∀ info, Pending app'.pc info → info.pairInfos = [])
    (hv : env.json.messageToJsonString info = some v)
    (hredis : app'.redis = app.redis.set r.appId v) (hcopies : app'.copies = app.copies)
    (howned : ∀ p ∈ info.pairInfos, Owned r owner assigned p) :
    Shared env r owner ids assigned app' where
  inv := hinv
  pending := hpending
  stored info' hinfo' := by
    rw [hredis, getAppInfoFromRedis_set hv] at hinfo'
    cases hinfo'
    exact howned
  copies := hcopies ▸ h.copies
  route id hid address haddress := by
    rw [hredis, Redis.set_of_ne workerUuid_ne_appId] at haddress
    exact h.route id hid address haddress

/-- Pair infos after the assignment of remote uuids. -/
theorem owned_assign {remote : Nat → Nat → String} {ps : List PairInfo}
    (h : ∀ p ∈ ps, Owned r owner assigned p) :
    ∀ p ∈ Pairing.assignRemote remote ps,
      Owned r owner (assigned ++ uuidPairs (Pairing.assignRemote remote ps)) p := by
  intro p hp
  have hidentity : (Pairing.assignRemote remote ps).map Pairing.identity = ps.map Pairing.identity :=
    Pairing.map_identity_assignRemote
  obtain ⟨q, hq, heq⟩ := List.mem_map.mp (hidentity ▸ List.mem_map_of_mem hp)
  obtain ⟨hip, huuids⟩ := Prod.mk.inj heq
  refine ⟨?_, fun sp hsp _ => List.mem_append_right _ ?_⟩
  · rw [← huuids, ← hip]
    exact (h q hq).uuids
  · exact List.mem_flatMap.mpr ⟨p, hp, List.mem_map_of_mem hsp⟩

/-- Pair infos after the registration of a worker. -/
theorem owned_register {q : Request} {ps : List PairInfo} (h : ∀ p ∈ ps, Owned r owner assigned p)
    (hq : q.uuid = [workerUuid r (owner q.ipPort)]) :
    ∀ p ∈ registerPairInfos q ps, Owned r owner assigned p := by
  intro p hp
  obtain ⟨before, p₀, after, rfl, -, ⟨u, hu, huq⟩, heq⟩ | ⟨-, heq⟩ := registerPairInfos_cases q ps
  · rw [heq] at hp
    simp only [List.mem_append, List.mem_cons] at hp
    rcases hp with hp | rfl | hp
    · exact h p (by simp [hp])
    · -- the replaced pair info has the uuid of the request, so it is of the same worker
      have hp₀ := h p₀ (by simp)
      rw [hp₀.uuids, List.mem_singleton] at hu
      rw [hq, List.mem_singleton, hu, workerUuid_inj] at huq
      exact ⟨huq ▸ hp₀.uuids, hp₀.remote⟩
    · exact h p (by simp [hp])
  · rw [heq] at hp
    rcases List.mem_append.mp hp with hp | hp
    · exact h p hp
    · rw [List.mem_singleton.mp hp]
      refine ⟨uuids_pairInfo.trans hq, fun sp hsp hne => ?_⟩
      obtain ⟨u, -, rfl⟩ := List.mem_map.mp hsp
      exact absurd rfl hne

/-- A step of `StartApplication` or of a writer that is not a registration. -/
theorem Shared.app_step {app app' : StartApplication.State} {a : StartApplication.Action}
    (h : Shared env r owner ids assigned app) (ha : isRegister a = false)
    (hconf : a = .getConf →
      ∀ info ∈ StartApplication.getJsonConfFromRedis env.json app.redis r, info.pairInfos = [])
    (hother : ∀ key value, a = .other key value → value = none ∨ ∀ id ∈ ids, key ≠ workerUuid r id)
    (hs : StartApplication.step env r app a = some app') :
    Shared env r owner ids (assigned ++ assignedBy app a) app' := by
  have hworkers : StartApplication.ByWorkers env r (ids.map fun id => [workerUuid r id]) app a := by
    cases a with
    | getConf => exact hconf rfl
    | write i change =>
      cases change with
      | register q => cases ha
      | localStatus _ | remoteStatus _ | assign _ => trivial
    | submit _ | store _ | startK8S _ | poll | syn _ | read | delete | other _ _ => trivial
  have hinv := StartApplication.step_inv hworkers h.inv hs
  have hpending : ∀ info, Pending app'.pc info → info.pairInfos = [] := fun info hpc =>
    (pending_step hs hpc).elim (h.pending info) fun ⟨hget, conf, hmem, heq⟩ =>
      heq.trans (hconf hget conf hmem)
  have h' := h.mono (List.subset_append_left assigned (assignedBy app a))
  obtain ⟨hredis, hcopies⟩ | ⟨info, v, hpc, hv, hredis, hcopies⟩ | ⟨info, hinfo, hredis, hcopies⟩ |
    ⟨i, change, info, rfl, hcopy, hwrite⟩ | ⟨hredis, hcopies⟩ |
    ⟨key, value, rfl, hne, hredis, hcopies⟩ := app_cases hs
  · exact ⟨hinv, hpending, hredis ▸ h'.stored, hcopies ▸ h'.copies, hredis ▸ h'.route⟩
  · have hid : info.confInfo.appId = r.appId := by
      obtain hfresh | ⟨t, hlive⟩ := h.inv
      · have hbefore := hfresh.pc
        rw [hpc] at hbefore
        obtain ⟨t, -, -, hof⟩ := hbefore
        exact hof.appId
      · have hafter := hlive.pc
        simp [hpc, StartApplication.Pc.After] at hafter
    refine h'.set hinv hpending hv (hid ▸ hredis) hcopies ?_
    simp [h.pending info (.inr hpc)]
  · refine ⟨hinv, hpending, hredis ▸ h'.stored, fun info' hinfo' => ?_, hredis ▸ h'.route⟩
    rw [hcopies] at hinfo'
    rcases List.mem_append.mp hinfo' with hinfo' | hinfo'
    · exact h'.copies info' hinfo'
    · rw [List.mem_singleton.mp hinfo']
      exact h'.stored info hinfo
  · obtain ⟨v, hv, rfl⟩ := stepWrite_cases hwrite
    have howned := h.copies info (List.mem_of_getElem? hcopy)
    refine h'.set hinv hpending hv (by rw [h.apply_appId hcopy]) rfl ?_
    cases change with
    | register q => cases ha
    | localStatus status | remoteStatus status =>
      exact h'.copies info (List.mem_of_getElem? hcopy)
    | assign remote =>
      rw [assignedBy, hcopy]
      exact owned_assign howned
  · refine ⟨hinv, hpending, fun info hinfo => ?_, hcopies ▸ h'.copies, fun id hid address hset => ?_⟩
    · simp [StartApplication.getAppInfoFromRedis, hredis, Redis.del] at hinfo
    · rw [hredis, Redis.del_of_ne workerUuid_ne_appId] at hset
      exact h.route id hid address hset
  · refine ⟨hinv, hpending, fun info hinfo => ?_, hcopies ▸ h'.copies, fun id hid address hset => ?_⟩
    · rw [StartApplication.getAppInfoFromRedis, hredis, Function.update_of_ne hne.symm] at hinfo
      exact h'.stored info hinfo
    · rw [hredis] at hset
      by_cases hkey : workerUuid r id = key
      · obtain hnone | hfree := hother key value rfl
        · simp [hkey, hnone] at hset
        · exact absurd hkey.symm (hfree id hid)
      · rw [Function.update_of_ne hkey] at hset
        exact h.route id hid address hset

/-- `MSET` of a worker's uuid. -/
theorem Shared.mset {app : StartApplication.State} {id : Nat} {address : String}
    (h : Shared env r owner ids assigned app) (howner : owner address = id) :
    Shared env r owner ids assigned
      { app with redis := app.redis.mset [workerUuid r id] address } := by
  have hset : app.redis.mset [workerUuid r id] address = app.redis.set (workerUuid r id) address := rfl
  have hstep : StartApplication.step env r app (.other (workerUuid r id) (some address)) =
      some { app with redis := app.redis.set (workerUuid r id) address } := by
    simp [StartApplication.step, workerUuid_ne_appId, Redis.set]
  rw [hset]
  refine ⟨StartApplication.step_inv (a := .other _ _) trivial h.inv hstep, h.pending,
    fun info hinfo => ?_, h.copies, fun id' hid' address' haddress => ?_⟩
  · dsimp only at hinfo
    rw [StartApplication.getAppInfoFromRedis, Redis.set_of_ne workerUuid_ne_appId.symm] at hinfo
    exact h.stored info hinfo
  · dsimp only at haddress
    by_cases hsame : id' = id
    · rw [hsame, Redis.set_self, Option.some.injEq] at haddress
      rw [← haddress, howner, hsame]
    · rw [Redis.set_of_ne (mt workerUuid_inj.mp hsame)] at haddress
      exact h.route id' hid' address' haddress

/-- The registration of a worker is written into a copy. -/
theorem Shared.register {app app' : StartApplication.State} {info : App} {q : Request} {copy : Nat}
    (h : Shared env r owner ids assigned app) (howner : owner q.ipPort ∈ ids)
    (huuid : q.uuid = [workerUuid r (owner q.ipPort)]) (hcopy : app.copies[copy]? = some info)
    (hwrite : stepWrite env app info (.register q) = some app') :
    Shared env r owner ids assigned app' := by
  have hworker : StartApplication.ByWorkers env r (ids.map fun id => [workerUuid r id]) app
      (.write copy (.register q)) := List.mem_map.mpr ⟨_, howner, huuid.symm⟩
  have hstep : StartApplication.step env r app (.write copy (.register q)) = some app' :=
    Option.bind_eq_some_iff.mpr ⟨info, hcopy, hwrite⟩
  have hinv := StartApplication.step_inv hworker h.inv hstep
  obtain ⟨v, hv, rfl⟩ := stepWrite_cases hwrite
  refine h.set hinv h.pending hv (by rw [h.apply_appId hcopy]) rfl ?_
  exact owned_register (h.copies info (List.mem_of_getElem? hcopy)) huuid

/-- A command of the registration of one of the workers. -/
theorem Shared.serve {app app' : StartApplication.State} {c : Call} {ok : Bool} {pc : CallPc}
    (h : Shared env r owner ids assigned app) (howner : owner c.request.ipPort ∈ ids)
    (huuid : c.request.uuid = [workerUuid r (owner c.request.ipPort)])
    (happId : c.request.appId = r.appId) (hs : c.step env app ok = some (app', pc)) :
    Shared env r owner ids assigned app' := by
  unfold Call.step at hs
  split at hs
  case h_1 =>
    split at hs
    · cases hs
      rw [huuid]
      exact h.mset rfl
    · cases hs
      exact h
  case h_2 =>
    cases hs
    exact h
  case h_3 =>
    split at hs
    · cases hs
      exact h
    · next info hinfo =>
      cases hs
      rw [happId] at hinfo
      have hread : StartApplication.step env r app .read =
          some { app with copies := app.copies ++ [info] } := by
        simp [StartApplication.step, hinfo]
      refine ⟨StartApplication.step_inv (a := .read) trivial h.inv hread, h.pending, h.stored,
        fun info' hinfo' => ?_, h.route⟩
      rcases List.mem_append.mp hinfo' with hinfo' | hinfo'
      · exact h.copies info' hinfo'
      · rw [List.mem_singleton.mp hinfo']
        exact h.stored info hinfo
  case h_4 copy _ =>
    split at hs
    · next hwritten =>
      cases hs
      obtain ⟨info, hcopy, hwrite⟩ := Option.bind_eq_some_iff.mp hwritten
      exact h.register howner huuid hcopy hwrite
    · cases hs
      exact h
  case h_5 => cases hs

/-- The channel of a worker is a remote uuid that was assigned to its own one. -/
def Channel (r : ModelURI) (assigned : List (String × String)) (c : Client) : Prop :=
  ∀ us, c.pc = .ready us → ∃ remote, us = [remote] ∧ remote ≠ "" ∧ (workerUuid r c.id, remote) ∈ assigned

structure Inv (env : Env) (r : ModelURI) (owner : String → Nat) (ids : List Nat) (s : State) : Prop where
  shared : Shared env r owner ids s.assigned s.app
  clients : s.clients.map (·.id) = ids
  owners : ∀ c ∈ s.clients, owner c.address = c.id
  calls : ∀ c ∈ s.calls, owner c.request.ipPort ∈ ids ∧
    c.request.uuid = [workerUuid r (owner c.request.ipPort)]
  channels : ∀ c ∈ s.clients, Channel r s.assigned c

theorem Inv.id_mem {c : Client} (h : Inv env r owner ids s) (hc : c ∈ s.clients) : c.id ∈ ids :=
  h.clients ▸ List.mem_map_of_mem hc

theorem Inv.set_client {i : Nat} {c d : Client} (h : Inv env r owner ids s)
    (hc : s.clients[i]? = some c) (hid : d.id = c.id) (howner : owner d.address = d.id)
    (hchannel : Channel r s.assigned d) :
    Inv env r owner ids { s with clients := s.clients.set i d } where
  shared := h.shared
  clients := by
    obtain ⟨hi, rfl⟩ := List.getElem?_eq_some_iff.mp hc
    rw [← h.clients, List.map_set, hid]
    exact (congrArg _ (List.getElem_map _).symm).trans (List.set_getElem_self (by simpa using hi))
  owners c₁ hc₁ := (List.mem_or_eq_of_mem_set hc₁).elim (h.owners c₁) fun heq => heq ▸ howner
  calls := h.calls
  channels c₁ hc₁ := (List.mem_or_eq_of_mem_set hc₁).elim (h.channels c₁) fun heq => heq ▸ hchannel

theorem getPairInfo_ok {stored : Option AppInfo} {q : Request} {pairs : List ServicePair}
    (h : getPairInfo stored q = .ok pairs) :
    ∃ info ∈ stored, ∃ p ∈ info.pairInfos, p.ipPort = q.ipPort ∧ pairs = p.servicePair ∧
      ∀ sp ∈ pairs, sp.remoteUuid ≠ "" := by
  cases stored with
  | none =>
    simp only [getPairInfo, ↓reduceIte] at h
    split at h <;> cases h
  | some info =>
    obtain ⟨p, hfind, rfl⟩ := getPairInfo_eq_ok h
    have hip : q.ipPort = p.ipPort := by simpa using List.find?_some hfind
    refine ⟨info, rfl, p, List.mem_of_find?_eq_some hfind, hip.symm, rfl, fun sp hsp hempty => ?_⟩
    have hany : p.servicePair.any (fun sp => sp.remoteUuid = "") = true := by
      simpa using ⟨sp, hsp, hempty⟩
    simp only [getPairInfo, hfind, Option.map_some, Option.getD_some, hany, ↓reduceIte] at h
    repeat' split at h
    all_goals cases h

/-- The pairs found under the address of a worker are its own. -/
theorem Inv.channel_getPairs {c : Client} {stored : Option App} (h : Inv env r owner ids s)
    (hc : c ∈ s.clients)
    (hstored : ∀ info ∈ stored, ∀ p ∈ info.pairInfos, Owned r owner s.assigned p) :
    Channel r s.assigned
      { c with pc := getPairsPc (getPairInfo (stored.map appInfo) (c.request r)) } := by
  intro us hus
  dsimp only at hus
  cases hpairs : getPairInfo (stored.map appInfo) (c.request r) with
  | error err => simp [hpairs, getPairsPc] at hus
  | ok pairs =>
    obtain ⟨_, hread, p, hp, hip, rfl, hremote⟩ := getPairInfo_ok hpairs
    obtain ⟨info, hinfo, rfl⟩ := Option.map_eq_some_iff.mp hread
    have howned := hstored info hinfo p hp
    have huuids : p.uuids = [workerUuid r c.id] := by
      rw [howned.uuids, hip]
      exact congrArg (fun id => [workerUuid r id]) (h.owners c hc)
    obtain ⟨sp, hsp, huuid⟩ := List.map_eq_singleton_iff.mp huuids
    rw [hpairs, hsp] at hus
    have hne := hremote sp (by simp [hsp])
    exact ⟨sp.remoteUuid, (ClientPc.ready.inj hus).symm, hne, huuid ▸ howned.remote sp (by simp [hsp]) hne⟩

theorem Inv.stepClient {i : Nat} {f : Client → Option ClientPc} (h : Inv env r owner ids s)
    (hs : stepClient s i f = some s')
    (hchannel : ∀ c pc, c ∈ s.clients → f c = some pc → Channel r s.assigned { c with pc }) :
    Inv env r owner ids s' := by
  obtain ⟨c, hc, hs⟩ := Option.bind_eq_some_iff.mp hs
  obtain ⟨pc, hpc, rfl⟩ := Option.map_eq_some_iff.mp hs
  have hmem := List.mem_of_getElem? hc
  exact h.set_client hc rfl (h.owners c hmem) (hchannel c pc hmem hpc)

theorem Inv.step {a : Action} (hmodel : '_' ∉ r.modelUri.toList) (hversion : '_' ∉ r.version.toList)
    (h : Inv env r owner ids s) (ha : Proper env r owner s a)
    (hs : (machine env r).step s a = some s') : Inv env r owner ids s' := by
  change WorkerStartup.step env r s a = some s' at hs
  cases a with
  | app a =>
    simp only [WorkerStartup.step] at hs
    split at hs
    · cases hs
    · next hreg =>
      obtain ⟨app, happ, rfl⟩ := Option.map_eq_some_iff.mp hs
      have hsub := List.subset_append_left s.assigned (assignedBy s.app a)
      refine ⟨h.shared.app_step (by simpa using hreg) ?_ ?_ happ, h.clients, h.owners, h.calls,
        fun c hc us hus => ?_⟩
      · rintro rfl
        exact ha
      · rintro key value rfl
        refine ha.imp_right fun hfree id hid => ?_
        obtain ⟨c, hc, rfl⟩ := List.mem_map.mp (h.clients.symm ▸ hid)
        exact hfree c hc
      · obtain ⟨remote, hus, hne, hmem⟩ := h.channels c hc us hus
        exact ⟨remote, hus, hne, hsub hmem⟩
  | call i =>
    obtain ⟨c, hc, hs⟩ := Option.bind_eq_some_iff.mp hs
    split at hs
    · cases hs
      have hmem := List.mem_of_getElem? hc
      have h' := h.set_client (d := { c with pc := .registering s.calls.length }) hc rfl
        (h.owners c hmem) (by simp [Channel])
      refine { h' with calls := fun q hq => ?_ }
      rcases List.mem_append.mp hq with hq | hq
      · exact h.calls q hq
      · have howner : owner (c.request r).ipPort = c.id := h.owners c hmem
        rw [List.mem_singleton.mp hq, howner]
        exact ⟨h.id_mem hmem, rfl⟩
    · cases hs
  | serve k ok =>
    obtain ⟨c, hc, hs⟩ := Option.bind_eq_some_iff.mp hs
    obtain ⟨⟨app, pc⟩, hserve, rfl⟩ := Option.map_eq_some_iff.mp hs
    obtain ⟨howner, huuid⟩ := h.calls c (List.mem_of_getElem? hc)
    refine { h with
      shared := h.shared.serve howner huuid (appId_of_uuid hmodel hversion huuid) hserve
      calls := fun q hq => ?_ }
    rcases List.mem_or_eq_of_mem_set hq with hq | rfl
    · exact h.calls q hq
    · exact ⟨howner, huuid⟩
  | answer i =>
    refine h.stepClient hs fun c pc _ hpc us hus => ?_
    dsimp only at hus
    subst hus
    split at hpc
    · split at hpc
      · split at hpc <;> cases hpc
      · cases hpc
    · cases hpc
  | fail i =>
    refine h.stepClient hs fun c pc _ hpc us hus => ?_
    dsimp only at hus
    subst hus
    split at hpc <;> cases hpc
  | getPairs i =>
    refine h.stepClient hs fun c pc hc hpc => ?_
    split at hpc
    · cases hpc
      rw [appId_of_uuid hmodel hversion (q := c.request r) rfl]
      exact h.channel_getPairs hc h.shared.stored
    · cases hpc
  | restart i address =>
    obtain ⟨c, hc, rfl⟩ := Option.map_eq_some_iff.mp hs
    exact h.set_client hc rfl (ha c hc) (by simp [Channel])

/-! ## Runs -/

section Runs

variable {redis : Redis} {processes : List (Option TfConfig × String)} {cluster : Cluster}

theorem map_id_clients :
    (clients processes).map (·.id) = (processes.map (·.1)).filterMap trainingId := by
  simp [clients, List.map_filterMap, List.filterMap_map, Function.comp_def]

theorem inv_start (howner : ∀ c ∈ clients processes, owner c.address = c.id)
    (hfree : redis r.appId = none) (huuids : ∀ c ∈ clients processes, redis (workerUuid r c.id) = none) :
    Inv env r owner ((clients processes).map (·.id)) (start redis processes) where
  shared :=
    { inv := StartApplication.initial_inv hfree
      pending := by simp [start, Pending]
      stored := by simp [start, StartApplication.getAppInfoFromRedis, hfree]
      copies := by simp [start]
      route := by
        intro id hid address haddress
        obtain ⟨c, hc, rfl⟩ := List.mem_map.mp hid
        exact absurd haddress (by simp [start, huuids c hc]) }
  clients := rfl
  owners := howner
  calls := by simp [start]
  channels := by
    intro c hc us hus
    obtain ⟨p, -, hp⟩ := List.mem_filterMap.mp hc
    obtain ⟨id, -, rfl⟩ := Option.map_eq_some_iff.mp hp
    cases hus

/-- The processes of a cluster that train are the workers 0, 1, 2, …. With as many as were announced,
    `Syn` names the uuid of each of them once. Whatever calls are lost and whoever restarts, a
    worker's uuid is only ever filed under an address of its own, and the channel with which it
    comes out of the registration is a remote uuid that was assigned to its own uuid. -/
theorem workers_get_channels {as : List Action} (hcluster : cluster.Valid)
    (hprocesses : (processes.map (·.1)).Perm (cluster.tasks.map cluster.tfConfig))
    (hmodel : '_' ∉ r.modelUri.toList) (hversion : '_' ∉ r.version.toList)
    (howner : ∀ c ∈ clients processes, owner c.address = c.id)
    (hfree : redis r.appId = none) (huuids : ∀ c ∈ clients processes, redis (workerUuid r c.id) = none)
    (has : (machine env r).Meets (Proper env r owner) (start redis processes) as)
    (hrun : (machine env r).run (start redis processes) as = some s) :
    (s.clients.map (·.id)).Perm (List.range cluster.workerReplicas) ∧
    (∀ q ∈ s.app.synced, ∀ t ∈ s.app.submitted, t.workerNum = cluster.workerReplicas →
      q.leaderUuids.Perm ((List.range cluster.workerReplicas).map (workerUuid r))) ∧
    ∀ c ∈ s.clients,
      (∀ address, s.app.redis (workerUuid r c.id) = some address → owner address = c.id) ∧
      ∀ us, c.pc = .ready us →
        ∃ remote, us = [remote] ∧ remote ≠ "" ∧ (workerUuid r c.id, remote) ∈ s.assigned := by
  have h : Inv env r owner ((clients processes).map (·.id)) s :=
    (machine env r).run_induct (fun _ _ _ ha h hs => h.step hmodel hversion ha hs) has hrun
      (inv_start howner hfree huuids)
  have hids : ((clients processes).map (·.id)).Perm (List.range cluster.workerReplicas) :=
    map_id_clients ▸ trainingIds_perm hcluster hprocesses
  refine ⟨h.clients ▸ hids, fun q hq t ht hnum => ?_, fun c hc => ⟨?_, h.channels c hc⟩⟩
  · obtain ⟨-, t', ht', -, hnames⟩ := h.shared.inv.synced.2.2 q hq
    obtain rfl : t = t' := by simpa [ht'] using ht
    have hlen : t.workerNum =
        (((clients processes).map (·.id)).map fun id => [workerUuid r id]).length := by
      rw [hnum, List.length_map, hids.length_eq, List.length_range]
    refine (hnames.perm hlen).trans ?_
    rw [← List.flatMap_def, ← List.map_eq_flatMap]
    exact hids.map _
  · exact h.shared.route c.id (h.id_mem hc)

end Runs

namespace Sample

open StartApplication.Sample (request conf started jsonOf appJson)

def cluster : Cluster where
  chief := ["10.0.0.1:2222"]
  worker := ["10.0.0.2:2222"]
  ps := ["10.0.0.9:2222"]

def processes : List (Option TfConfig × String) :=
  [(cluster.tfConfig ⟨.worker, 0⟩, "10.0.0.2:6666"), (cluster.tfConfig ⟨.ps, 0⟩, "10.0.0.9:6666"),
    (cluster.tfConfig ⟨.chief, 0⟩, "10.0.0.1:6666")]

/-- The chief moves to a third address. -/
def workerAt (address : String) : Nat := if address = "10.0.0.2:6666" then 1 else 0

def remote (i _ : Nat) : String := if i = 0 then "remote_1" else "remote_0"

def worker : App := (Change.register ⟨[workerUuid request 1], "10.0.0.2:6666"⟩).apply started

def both : App := (Change.register ⟨[workerUuid request 0], "10.0.0.3:6666"⟩).apply worker

def coordinator : Env where
  json := jsonOf [conf, started, worker, both, (Change.assign remote).apply both] (by decide +kernel)
  hash := TaskIds.Sample.stdHash
  leader := 1
  follower := 0

def redis : Redis := fun key => if key = "mnist-v1" then some (appJson conf) else none

/-- The answer to the first call of the worker is lost, and the chief restarts in its call. -/
def schedule : List Action :=
  [.app .getConf, .app (.submit (.ok ⟨0, request.appId, ""⟩)), .app (.store false),
    .app (.startK8S 0), .call 0, .serve 0 true, .serve 0 true, .serve 0 true, .serve 0 true, .fail 0,
    .call 0, .call 1, .serve 2 true, .restart 1 "10.0.0.3:6666", .serve 1 true, .serve 1 true,
    .serve 1 true, .serve 1 true, .answer 0, .app .poll, .call 1, .serve 2 false, .serve 3 true,
    .serve 3 true, .serve 3 true, .serve 3 true, .answer 1, .getPairs 0, .app .poll, .app (.syn (some 0)),
    .app .read, .app (.write 3 (.assign remote)), .getPairs 0, .getPairs 1]

theorem schedule_gets_channels :
    ∃ s, (machine coordinator request).run (start redis processes) schedule = some s ∧
      (∃ q ∈ s.app.synced, q.leaderUuids.Perm [workerUuid request 0, workerUuid request 1]) ∧
      ∃ c ∈ s.clients, c.id = 0 ∧ c.pc = .ready ["remote_0"] ∧
        (workerUuid request 0, "remote_0") ∈ s.assigned := by
  have heval : ((machine coordinator request).run (start redis processes) schedule).map (fun s =>
      (s.clients.map (fun c => (c.id, c.pc)), s.app.synced.length,
        s.app.submitted.map (·.workerNum))) =
        some ([(1, .ready ["remote_1"]), (0, .ready ["remote_0"])], 1, [2]) := by
    decide +kernel
  obtain ⟨s, hs, heq⟩ := Option.map_eq_some_iff.mp heval
  obtain ⟨hclients, hlen, hnum⟩ : s.clients.map (fun c => (c.id, c.pc)) = _ ∧
      s.app.synced.length = 1 ∧ s.app.submitted.map (·.workerNum) = [2] := by simpa using heq
  have hproper : (machine coordinator request).Meets (Proper coordinator request workerAt)
      (start redis processes) schedule := by
    decide +kernel
  obtain ⟨-, hsynced, hchannels⟩ := @workers_get_channels coordinator request workerAt s redis processes
    cluster schedule (by decide) (by decide) (by decide +kernel) (by decide +kernel) (by decide +kernel)
    (by decide +kernel) (by decide +kernel) hproper hs
  obtain ⟨q, hq⟩ := List.length_eq_one_iff.mp hlen
  obtain ⟨t, ht, hnum⟩ := List.map_eq_singleton_iff.mp hnum
  have hperm := hsynced q (by simp [hq]) t (by simp [ht]) hnum
  obtain ⟨c, hc, hpair⟩ := List.mem_map.mp
    (hclients ▸ by simp : (0, ClientPc.ready ["remote_0"]) ∈ s.clients.map fun c => (c.id, c.pc))
  obtain ⟨hid, hpc⟩ := Prod.mk.inj hpair
  obtain ⟨remote, hremote, -, hassigned⟩ := (hchannels c hc).2 _ hpc
  obtain rfl : "remote_0" = remote := by simpa using hremote
  exact ⟨s, hs, ⟨q, by simp [hq], hperm⟩, c, hc, hid, hpc, hid ▸ hassigned⟩

end Sample

end Coordinator.WorkerStartup
