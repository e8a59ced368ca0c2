-- SUMMARY: Successful registrations of one application, one after the other, and when every uuid is in exactly one service pair at its latest address.
import NineNMpc.Coordinator.Register

/-!
# Entries of the registered uuids

`RegisterUUID` of `Coordinator/services/internal_service_impl.cc`, call after call, each
from its first command to its OK. `ReplaceUUIDForNewIp` returns at the first pair info that
has a uuid of the request, and `RegisterUUID` then adds nothing: the other uuids of the
request stay where they are, or out.
-/

namespace Coordinator

variable {json : Json} {lockTimes : Nat} {appId : String} {r : Request} {ps : List PairInfo}
  {served : List Request}

/-! ## A call that runs alone -/

/-- What such a call has done to the stored info, which it found in `redis`. -/
def RegisterPc.Alone (json : Json) (redis redis' : Redis) (r : Request) : RegisterPc → Prop
  | .mset | .lockGet _ | .lockSet _ | .getApp => redis' r.appId = redis r.appId
  | .setApp info => ∃ info₀, redis.getAppInfo json r.appId = some info₀ ∧ info = info₀.register r
  | .unlock none | .returned none => ∃ info₀, redis.getAppInfo json r.appId = some info₀ ∧
      redis'.getAppInfo json r.appId = some (info₀.register r)
  | .unlock (some _) | .returned (some _) => True

theorem RegisterPc.alone_nextAttempt {redis redis' : Redis} {c : RegisterCall} {index : Nat}
    (h : redis' r.appId = redis r.appId) :
    (c.nextAttempt lockTimes index).Alone json redis redis' r := by
  unfold RegisterCall.nextAttempt
  split
  · exact h
  · trivial

theorem RegisterCall.step_alone {redis redis' redis'' : Redis} {c : RegisterCall} {pc : RegisterPc}
    {refused : Bool} (hkey : c.request.appId ∉ c.request.uuid)
    (happ : ∀ info, redis.getAppInfo json c.request.appId = some info → info.appId = c.request.appId)
    (h : c.pc.Alone json redis redis' c.request)
    (hstep : c.step json lockTimes redis' refused = some (redis'', pc)) :
    pc.Alone json redis redis'' c.request := by
  have hget : redis' c.request.appId = redis c.request.appId →
      redis'.getAppInfo json c.request.appId = redis.getAppInfo json c.request.appId := by
    intro h
    unfold Redis.getAppInfo
    rw [h]
  apply RegisterCall.step_elim hstep
  case mset =>
    intro hpc
    rw [hpc] at h
    exact RegisterPc.alone_nextAttempt ((Redis.mset_of_notMem hkey).trans h)
  case taken =>
    intro index hpc _
    rw [hpc] at h
    exact RegisterPc.alone_nextAttempt h
  case free =>
    intro index hpc _
    rwa [hpc] at h
  case lockRefused =>
    intro index hpc _
    rw [hpc] at h
    exact RegisterPc.alone_nextAttempt h
  case locked =>
    intro index hpc _ _
    rw [hpc] at h
    exact (Redis.set_of_ne ne_lockKey).trans h
  case app =>
    intro info hpc hinfo
    rw [hpc] at h
    exact ⟨info, hget h ▸ hinfo, rfl⟩
  case written =>
    intro info v hpc hv
    rw [hpc] at h
    obtain ⟨info₀, hinfo₀, rfl⟩ := h
    refine ⟨info₀, hinfo₀, ?_⟩
    have hid : (info₀.register c.request).appId = c.request.appId := happ info₀ hinfo₀
    simp [Redis.getAppInfo, hid, json.parse_print _ _ hv]
  case unlock =>
    intro err hpc
    rw [hpc] at h
    cases err with
    | some err => trivial
    | none =>
      obtain ⟨info₀, hinfo₀, hstored⟩ := h
      refine ⟨info₀, hinfo₀, ?_⟩
      unfold Redis.getAppInfo at hstored ⊢
      rwa [Redis.del_of_ne ne_lockKey]
  all_goals
    intros
    trivial

/-- A call that returns OK has registered its request in the stored info. -/
theorem Registry.run_returned_none {redis : Redis} {acts : List Registry.Action} {s : Registry}
    (hkey : r.appId ∉ r.uuid)
    (happ : ∀ info, redis.getAppInfo json r.appId = some info → info.appId = r.appId)
    (hrun : (machine json lockTimes).run (start redis [r]) acts = some s)
    (hret : s.calls.map (·.pc) = [.returned none]) :
    ∃ info, redis.getAppInfo json r.appId = some info ∧
      s.redis.getAppInfo json r.appId = some (info.register r) := by
  have h : ∃ pc, s.calls = [⟨r, pc⟩] ∧ pc.Alone json redis s.redis r := by
    refine (machine json lockTimes).run_invariant
      (P := fun s => ∃ pc, s.calls = [⟨r, pc⟩] ∧ pc.Alone json redis s.redis r) ?_ hrun ?_
    · rintro s a s' ⟨pc, hcalls, halone⟩ hstep
      change s.step json lockTimes a = some s' at hstep
      unfold Registry.step at hstep
      split at hstep
      · cases hstep
      · next c hc =>
        obtain ⟨⟨redis'', pc'⟩, hcall, rfl⟩ := Option.map_eq_some_iff.mp hstep
        have hlt := (List.getElem?_eq_some_iff.mp hc).1
        have hzero : a.call = 0 := by simpa [hcalls] using hlt
        obtain rfl : ⟨r, pc⟩ = c := by simpa [hcalls, hzero] using hc
        refine ⟨pc', by simp [hcalls, hzero], ?_⟩
        exact RegisterCall.step_alone (c := ⟨r, pc⟩) hkey happ halone hcall
    · unfold start Request.call
      by_cases hr : r.uuid = []
      · exact ⟨.returned (some "uuid is empty"), by simp [hr], trivial⟩
      · exact ⟨.mset, by simp [hr], rfl⟩
  obtain ⟨pc, hcalls, halone⟩ := h
  obtain rfl : pc = .returned none := by simpa [hcalls] using hret
  exact halone

/-! ## One entry for each uuid -/

/-- The address of the last request that contained the uuid. -/
def lastIpPort (served : List Request) (u : String) : Option String :=
  (served.reverse.find? (u ∈ ·.uuid)).map (·.ipPort)

theorem lastIpPort_append {u : String} :
    lastIpPort (served ++ [r]) u = if u ∈ r.uuid then some r.ipPort else lastIpPort served u := by
  unfold lastIpPort
  split
  · next hu => simp [hu]
  · next hu => simp [hu]

/-- The pair infos are those of the requests: each uuid once, with its last address. -/
structure OneEntry (served : List Request) (ps : List PairInfo) : Prop where
  nodup : (ps.flatMap (·.uuids)).Nodup
  mem : ∀ u, u ∈ ps.flatMap (·.uuids) ↔ ∃ r ∈ served, u ∈ r.uuid
  ipPort : ∀ p ∈ ps, ∀ u ∈ p.uuids, lastIpPort served u = some p.ipPort

theorem oneEntry_nil : OneEntry [] [] := ⟨.nil, by simp, by simp⟩

/-- If one uuid of the request is registered, all are; the first pair info with one of them has no
    other uuids or has the address of the request already, and so do the other ones. -/
def Fits (ps : List PairInfo) (r : Request) : Prop :=
  ∀ p ∈ ps.find? (·.Meets r), (∀ u ∈ r.uuid, u ∈ ps.flatMap (·.uuids)) ∧
    (p.uuids ⊆ r.uuid ∨ p.ipPort = r.ipPort) ∧ ∀ q ∈ ps, q.Meets r → q = p ∨ q.ipPort = r.ipPort

instance : Decidable (Fits ps r) :=
  inferInstanceAs (Decidable (∀ p ∈ ps.find? (·.Meets r), (∀ u ∈ r.uuid, u ∈ ps.flatMap (·.uuids)) ∧
    (p.uuids ⊆ r.uuid ∨ p.ipPort = r.ipPort) ∧ ∀ q ∈ ps, q.Meets r → q = p ∨ q.ipPort = r.ipPort))

theorem mem_served_append {u : String} :
    (∃ r' ∈ served ++ [r], u ∈ r'.uuid) ↔ (∃ r' ∈ served, u ∈ r'.uuid) ∨ u ∈ r.uuid := by
  simp [or_and_right, exists_or]

/-- A request whose uuids are all new. -/
theorem OneEntry.append (h : OneEntry served ps) (hnew : ∀ q ∈ ps, ¬ q.Meets r)
    (hnodup : r.uuid.Nodup) : OneEntry (served ++ [r]) (ps ++ [r.pairInfo]) where
  nodup := by
    rw [List.flatMap_append, List.flatMap_singleton, uuids_pairInfo, List.nodup_append]
    refine ⟨h.nodup, hnodup, ?_⟩
    rintro u hu _ hur rfl
    obtain ⟨q, hq, huq⟩ := List.mem_flatMap.mp hu
    exact hnew q hq ⟨u, huq, hur⟩
  mem := by
    intro u
    rw [mem_served_append, ← h.mem u, List.flatMap_append, List.mem_append, List.flatMap_singleton,
      uuids_pairInfo]
  ipPort := by
    intro p hp u hu
    rw [lastIpPort_append]
    rcases List.mem_append.mp hp with hp | hp
    · rw [if_neg fun hur => hnew p hp ⟨u, hu, hur⟩]
      exact h.ipPort p hp u hu
    · obtain rfl := List.mem_singleton.mp hp
      rw [if_pos (uuids_pairInfo ▸ hu)]
      rfl

section

variable {before after : List PairInfo} {p : PairInfo}

theorem flatMap_uuids_replace : (before ++ { p with ipPort := r.ipPort } :: after).flatMap (·.uuids) =
    (before ++ p :: after).flatMap (·.uuids) := by
  simp only [List.flatMap_append, List.flatMap_cons]
  rfl

theorem find?_meets (hbefore : ∀ q ∈ before, ¬ q.Meets r) (hp : p.Meets r) :
    (before ++ p :: after).find? (·.Meets r) = some p := by
  rw [List.find?_append, List.find?_eq_none.mpr (by simpa using hbefore)]
  simp [hp]

/-- The uuids of two pair infos are different. -/
theorem OneEntry.notMem_after (h : OneEntry served (before ++ p :: after)) {u : String}
    (hu : u ∈ p.uuids) : u ∉ after.flatMap (·.uuids) := by
  have hnodup := h.nodup
  rw [List.flatMap_append, List.flatMap_cons, List.nodup_append, List.nodup_append] at hnodup
  exact fun hmem => hnodup.2.1.2.2 u hu u hmem rfl

/-- What must hold of a request that changes the address of a pair info. -/
theorem OneEntry.fits_of_replace (h : OneEntry served (before ++ p :: after))
    (hbefore : ∀ q ∈ before, ¬ q.Meets r) (hp : p.Meets r)
    (hnew : OneEntry (served ++ [r]) (before ++ { p with ipPort := r.ipPort } :: after)) :
    Fits (before ++ p :: after) r := by
  intro q hq
  obtain rfl : p = q := by simpa [find?_meets hbefore hp] using hq
  refine ⟨fun u hu => ?_, ?_, fun q hq hmeets => ?_⟩
  · rw [← flatMap_uuids_replace, hnew.mem]
    exact ⟨r, by simp, hu⟩
  · by_contra hnot
    simp only [not_or, List.subset_def, not_forall, exists_prop] at hnot
    obtain ⟨⟨u, hu, hur⟩, hip⟩ := hnot
    have hlast := hnew.ipPort { p with ipPort := r.ipPort } (by simp) u hu
    rw [lastIpPort_append, if_neg hur, h.ipPort p (by simp) u hu] at hlast
    exact hip (Option.some.inj hlast)
  · obtain ⟨u, huq, hur⟩ := hmeets
    rcases List.mem_append.mp hq with hq | hq
    · exact absurd ⟨u, huq, hur⟩ (hbefore q hq)
    · rcases List.mem_cons.mp hq with rfl | hq
      · exact .inl rfl
      · have hlast := hnew.ipPort q (by simp [hq]) u huq
        rw [lastIpPort_append, if_pos hur] at hlast
        exact .inr (Option.some.inj hlast).symm

/-- A request that fits and changes the address of a pair info. -/
theorem OneEntry.replace (h : OneEntry served (before ++ p :: after))
    (hbefore : ∀ q ∈ before, ¬ q.Meets r) (hp : p.Meets r) (hfits : Fits (before ++ p :: after) r) :
    OneEntry (served ++ [r]) (before ++ { p with ipPort := r.ipPort } :: after) := by
  obtain ⟨hall, hown, hothers⟩ := hfits p (find?_meets hbefore hp)
  refine ⟨?_, fun u => ?_, fun q hq u hu => ?_⟩
  · rw [flatMap_uuids_replace]
    exact h.nodup
  · rw [flatMap_uuids_replace, mem_served_append, h.mem, iff_self_or]
    exact fun hu => (h.mem u).mp (hall u hu)
  · rw [lastIpPort_append]
    rcases List.mem_append.mp hq with hq | hq
    · rw [if_neg fun hur => hbefore q hq ⟨u, hu, hur⟩]
      exact h.ipPort q (by simp [hq]) u hu
    · rcases List.mem_cons.mp hq with rfl | hq
      · split
        · rfl
        · next hur =>
          rcases hown with hown | hown
          · exact absurd (hown hu) hur
          · rw [h.ipPort p (by simp) u hu, hown]
      · split
        · next hur =>
          rcases hothers q (by simp [hq]) ⟨u, hu, hur⟩ with heq | hip
          · exact absurd (List.mem_flatMap.mpr ⟨q, hq, hu⟩) (h.notMem_after (heq ▸ hu))
          · rw [hip]
        · exact h.ipPort q (by simp [hq]) u hu

end

/-- A registration keeps the entries right exactly when it fits. -/
theorem OneEntry.register_iff (h : OneEntry served ps) (hnodup : r.uuid.Nodup) :
    OneEntry (served ++ [r]) (registerPairInfos r ps) ↔ Fits ps r := by
  rcases registerPairInfos_cases r ps with ⟨before, p, after, rfl, hbefore, hp, hnew⟩ | ⟨hnone, hnew⟩
  · rw [hnew]
    exact ⟨h.fits_of_replace hbefore hp, h.replace hbefore hp⟩
  · rw [hnew]
    refine iff_of_true (h.append hnone hnodup) fun p hp => ?_
    have hmem := List.mem_of_find?_eq_some hp
    exact absurd (by simpa using List.find?_some hp) (hnone p hmem)

/-! ## Successful calls, one after the other -/

structure Registrations where
  redis : Redis
  served : List Request := []

namespace Registrations

/-- A request and the commands of its call, which returns OK. -/
def step (json : Json) (lockTimes : Nat) (s : Registrations) (a : Request × List Registry.Action) :
    Option Registrations :=
  match (Registry.machine json lockTimes).run (.start s.redis [a.1]) a.2 with
  | none => none
  | some t =>
    if t.calls.map (·.pc) = [.returned none] then some ⟨t.redis, s.served ++ [a.1]⟩ else none

def machine (json : Json) (lockTimes : Nat) :
    Machine Registrations (Request × List Registry.Action) :=
  ⟨step json lockTimes⟩

/-- The request is for the app. The uuids of its workers begin with the app id, and none is that id. -/
structure ForApp (appId : String) (a : Request × List Registry.Action) : Prop where
  nodup : a.1.uuid.Nodup
  appId_eq : a.1.appId = appId
  appId_notMem : appId ∉ a.1.uuid

/-- The stored info has one entry for each uuid of the requests served. -/
def OneEntry (json : Json) (appId : String) (s : Registrations) : Prop :=
  ∃ info, s.redis.getAppInfo json appId = some info ∧ Coordinator.OneEntry s.served info.pairInfos

/-- The request fits the stored entries. -/
def Fits (json : Json) (appId : String) (s : Registrations) (a : Request × List Registry.Action) :
    Prop :=
  ∀ info ∈ s.redis.getAppInfo json appId, Coordinator.Fits info.pairInfos a.1

instance {s : Registrations} {a : Request × List Registry.Action} : Decidable (s.Fits json appId a) :=
  inferInstanceAs (Decidable (∀ info ∈ s.redis.getAppInfo json appId, Coordinator.Fits info.pairInfos a.1))

theorem step_registers {s s' : Registrations} {a : Request × List Registry.Action}
    (ha : ForApp appId a)
    (happ : ∀ info, s.redis.getAppInfo json appId = some info → info.appId = appId)
    (hs : (machine json lockTimes).step s a = some s') :
    s'.served = s.served ++ [a.1] ∧ ∃ info, s.redis.getAppInfo json appId = some info ∧
      s'.redis.getAppInfo json appId = some (info.register a.1) := by
  have hid := ha.appId_eq
  change s.step json lockTimes a = some s' at hs
  unfold step at hs
  split at hs
  · cases hs
  · next t hrun =>
    split at hs
    · next hret =>
      cases hs
      refine ⟨rfl, ?_⟩
      have hreg := Registry.run_returned_none (hid ▸ ha.appId_notMem) (hid ▸ happ) hrun hret
      rwa [hid] at hreg
    · cases hs

/-- In a sequence of successful calls, the stored info has after every call one entry for each uuid,
    with its last address, exactly when every request fits the entries it finds. -/
theorem registerUUID_oneEntry_iff {redis : Redis} {as : List (Request × List Registry.Action)}
    {t : Registrations} (hstored : redis.getAppInfo json appId = some { appId })
    (hforApp : ∀ a ∈ as, ForApp appId a)
    (hrun : (machine json lockTimes).run { redis } as = some t) :
    (∀ bs s, bs <+: as → (machine json lockTimes).run { redis } bs = some s → s.OneEntry json appId) ↔
      (machine json lockTimes).Meets (Fits json appId) { redis } as := by
  let I : Registrations → List (Request × List Registry.Action) → Prop := fun s as =>
    (∀ a ∈ as, ForApp appId a) ∧ ∀ info, s.redis.getAppInfo json appId = some info → info.appId = appId
  have hI : ∀ s a as s', I s (a :: as) → (machine json lockTimes).step s a = some s' → I s' as := by
    rintro s a as s' ⟨hforApp, happ⟩ hs
    obtain ⟨-, info, hinfo, hinfo'⟩ := step_registers (hforApp a (by simp)) happ hs
    refine ⟨fun b hb => hforApp b (by simp [hb]), fun info' h => ?_⟩
    obtain rfl : info.register a.1 = info' := Option.some.inj (hinfo'.symm.trans h)
    exact happ info hinfo
  have hstep : ∀ s a as s', I s (a :: as) → (machine json lockTimes).step s a = some s' →
      s.OneEntry json appId → (s'.OneEntry json appId ↔ s.Fits json appId a) := by
    rintro s a as s' ⟨hforApp, happ⟩ hs ⟨info₀, hinfo₀, hone⟩
    have ha := hforApp a (by simp)
    obtain ⟨hserved, info, hinfo, hinfo'⟩ := step_registers ha happ hs
    obtain rfl : info₀ = info := Option.some.inj (hinfo₀.symm.trans hinfo)
    simp only [OneEntry, Fits, hinfo, hinfo', hserved, Option.mem_def, Option.some.injEq,
      exists_eq_left', forall_eq']
    exact hone.register_iff ha.nodup
  have hfirst : OneEntry json appId { redis } := ⟨_, hstored, oneEntry_nil⟩
  have happ : ∀ info, redis.getAppInfo json appId = some info → info.appId = appId := by
    intro info hinfo
    rw [hstored] at hinfo
    cases hinfo
    rfl
  rw [(machine json lockTimes).always_iff_meets hI hstep hrun ⟨hforApp, happ⟩]
  exact and_iff_right hfirst

end Registrations

namespace Registrations.Sample

open Registry.Sample (empty first second appInfoJson)

/-- The first worker after a restart. -/
def restarted : Request := ⟨["app_worker_0"], "10.0.0.3:6666"⟩

/-- The first worker, restarted with one more uuid. -/
def mixed : Request := ⟨["app_worker_0", "app_worker_2"], "10.0.0.3:6666"⟩

def infos : List AppInfo :=
  [empty, empty.register first, (empty.register first).register mixed,
    (empty.register first).register second, ((empty.register first).register second).register restarted]

/-- The JSON form, on these infos. -/
def protoJson : Json where
  messageToJsonString info := if info ∈ infos then some (appInfoJson info) else none
  jsonStringToMessage v := infos.find? fun info => appInfoJson info = v
  parse_print info v h := by
    have hinj : ∀ a ∈ infos, infos.find? (fun b => appInfoJson b = appInfoJson a) = some a := by
      decide +kernel
    split at h
    · next hmem =>
      obtain rfl : appInfoJson info = v := by simpa using h
      exact hinj info hmem
    · cases h

def redis : Redis := fun key => if key = "app" then some (appInfoJson empty) else none

/-- A call without a failure. -/
def call (r : Request) : Request × List Registry.Action := (r, List.replicate 6 ⟨0, false⟩)

theorem forApp_first : ForApp "app" (call first) := ⟨by decide, by decide +kernel, by decide⟩

theorem forApp_second : ForApp "app" (call second) := ⟨by decide, by decide +kernel, by decide⟩

theorem forApp_restarted : ForApp "app" (call restarted) := ⟨by decide, by decide +kernel, by decide⟩

theorem forApp_mixed : ForApp "app" (call mixed) := ⟨by decide, by decide +kernel, by decide⟩

theorem restart_isSome : ((machine protoJson 20).run { redis }
    [call first, call second, call restarted]).isSome := by
  decide +kernel

theorem restart_oneEntry :
    ∃ t, (machine protoJson 20).run { redis } [call first, call second, call restarted] = some t ∧
      ∀ bs s, bs <+: [call first, call second, call restarted] →
        (machine protoJson 20).run { redis } bs = some s → s.OneEntry protoJson "app" := by
  refine ⟨_, (Option.some_get restart_isSome).symm, ?_⟩
  refine (registerUUID_oneEntry_iff (by decide +kernel) ?_ (Option.some_get restart_isSome).symm).mpr
    (by decide +kernel)
  simp [forApp_first, forApp_second, forApp_restarted]

theorem mixed_isSome : ((machine protoJson 20).run { redis } [call first, call mixed]).isSome := by
  decide +kernel

/-- The second uuid of a request whose first one is registered is in no service pair. -/
theorem mixed_not_oneEntry :
    (∀ a ∈ [call first, call mixed], ForApp "app" a) ∧
    ∃ t, (machine protoJson 20).run { redis } [call first, call mixed] = some t ∧
      t.redis.getAppInfo protoJson "app" =
        some ⟨"app", [⟨"10.0.0.3:6666", [{ localUuid := "app_worker_0" }]⟩]⟩ ∧
      ¬ t.OneEntry protoJson "app" := by
  refine ⟨by simp [forApp_first, forApp_mixed], _, (Option.some_get mixed_isSome).symm,
    by decide +kernel, ?_⟩
  rintro ⟨info, hinfo, hone⟩
  have hread : (Option.get _ mixed_isSome).redis.getAppInfo protoJson "app" =
      some ⟨"app", [⟨"10.0.0.3:6666", [{ localUuid := "app_worker_0" }]⟩]⟩ := by decide +kernel
  obtain rfl := Option.some.inj (hread.symm.trans hinfo)
  have hmem := (hone.mem "app_worker_2").mpr ⟨mixed, by decide +kernel, by decide⟩
  revert hmem
  decide

end Registrations.Sample

end Coordinator
