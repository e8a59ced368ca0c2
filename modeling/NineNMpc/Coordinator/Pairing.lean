-- SUMMARY: Registrations, restarts and pairings of one application over time: when GetPairInfo gives a worker its own pairs, and the reused address for which it does not.
import Mathlib.Data.List.Pairwise
import NineNMpc.Lib.Machine
import NineNMpc.Coordinator.Register

/-!
# Pairing

`RegisterUUID`, the assignment of remote uuids and `GetPairInfo` of
`Coordinator/services/internal_service_impl.cc`, one after the other on the stored
`AppInfo` of one application. A worker is known by its uuids when it registers, and by its
address when it asks for its pairs.
-/

namespace Coordinator

/-! ## A call by itself -/

namespace Registry

variable {json : Json} {lockTimes i : Nat} {r : Request}

theorem step_call {redis redis' : Redis} {calls : List RegisterCall} {pc pc' : RegisterPc}
    (hi : i < calls.length)
    (h : RegisterCall.step json lockTimes ⟨r, pc⟩ redis false = some (redis', pc')) :
    (machine json lockTimes).step ⟨redis, calls.set i ⟨r, pc⟩⟩ ⟨i, false⟩ =
      some ⟨redis', calls.set i ⟨r, pc'⟩⟩ := by
  simp [machine, step, hi, h, List.set_set]

/-- A call that runs alone, with the lock free, returns OK and leaves the registered info. -/
theorem run_alone {s : Registry} {info : AppInfo} {v : String}
    (hcall : s.calls[i]? = some ⟨r, .mset⟩)
    (hkeys : r.appId ∉ r.uuid ∧ lockKey r.appId ∉ r.uuid) (htimes : 2 ≤ lockTimes)
    (hfree : s.redis (lockKey r.appId) = none)
    (hstored : s.redis.getAppInfo json r.appId = some info) (happ : info.appId = r.appId)
    (hv : json.messageToJsonString (info.register r) = some v) :
    ∃ s', (machine json lockTimes).run s (List.replicate 6 ⟨i, false⟩) = some s' ∧
      s'.calls = s.calls.set i ⟨r, .returned none⟩ ∧
      s'.redis.getAppInfo json r.appId = some (info.register r) := by
  obtain ⟨hi, hcall⟩ := List.getElem?_eq_some_iff.mp hcall
  have hs : s = ⟨s.redis, s.calls.set i ⟨r, .mset⟩⟩ := by rw [← hcall, List.set_getElem_self]
  let set := s.redis.mset r.uuid r.ipPort
  let locked := set.set (lockKey r.appId) "fl_lock_"
  let written := locked.set r.appId v
  have hset : set r.appId = s.redis r.appId := Redis.mset_of_notMem hkeys.1
  have hlocked : locked r.appId = s.redis r.appId := (Redis.set_of_ne ne_lockKey).trans hset
  have h₁ : RegisterCall.step json lockTimes ⟨r, .mset⟩ s.redis false = some (set, .lockGet 1) := by
    simp [RegisterCall.step, RegisterCall.nextAttempt, show 0 < lockTimes by omega, set]
  have h₂ : RegisterCall.step json lockTimes ⟨r, .lockGet 1⟩ set false = some (set, .lockSet 1) := by
    have : set (lockKey r.appId) = none := (Redis.mset_of_notMem hkeys.2).trans hfree
    simp [RegisterCall.step, this]
  have h₃ : RegisterCall.step json lockTimes ⟨r, .lockSet 1⟩ set false = some (locked, .getApp) := by
    simp [RegisterCall.step, show ¬ lockTimes ≤ 1 by omega, locked]
  have h₄ : RegisterCall.step json lockTimes ⟨r, .getApp⟩ locked false =
      some (locked, .setApp (info.register r)) := by
    have : locked.getAppInfo json r.appId = some info := by
      unfold Redis.getAppInfo
      rw [hlocked]
      exact hstored
    simp [RegisterCall.step, this]
  have h₅ : RegisterCall.step json lockTimes ⟨r, .setApp (info.register r)⟩ locked false =
      some (written, .unlock none) := by
    have hkey : (info.register r).appId = r.appId := happ
    simp [RegisterCall.step, hv, written, hkey]
  have h₆ : RegisterCall.step json lockTimes ⟨r, .unlock none⟩ written false =
      some (written.del (lockKey r.appId), .returned none) := by
    simp [RegisterCall.step]
  refine ⟨⟨written.del (lockKey r.appId), s.calls.set i ⟨r, .returned none⟩⟩, ?_, rfl, ?_⟩
  · rw [hs]
    simp only [List.replicate_succ, List.replicate_zero, Machine.run, step_call hi h₁,
      step_call hi h₂, step_call hi h₃, step_call hi h₄, step_call hi h₅, step_call hi h₆,
      Option.bind_some, List.set_set]
  · unfold Redis.getAppInfo
    dsimp only
    rw [Redis.del_of_ne ne_lockKey]
    simp [written, json.parse_print _ v hv]

end Registry

/-! ## Registrations over time -/

/-- The stored info of an application, and the address of the latest `RegisterUUID` with a uuid. -/
structure Pairing where
  info : AppInfo
  latest : String → Option String := fun _ => none

namespace Pairing

inductive Action where
  | register (request : Request)
  /-- `remote i j` becomes the remote uuid of the `j`-th service pair of the `i`-th pair info. -/
  | assign (remote : Nat → Nat → String)

def assignRemote (remote : Nat → Nat → String) (ps : List PairInfo) : List PairInfo :=
  ps.mapIdx fun i p =>
    { p with servicePair := p.servicePair.mapIdx fun j sp => { sp with remoteUuid := remote i j } }

def step (s : Pairing) : Action → Option Pairing
  | .register r =>
    if r.uuid = [] then some s
    else
      some
        { info := s.info.register r
          latest := fun u => if u ∈ r.uuid then some r.ipPort else s.latest u }
  | .assign remote =>
    some { s with info := { s.info with pairInfos := assignRemote remote s.info.pairInfos } }

def machine : Machine Pairing Action := ⟨step⟩

def start (appId : String) : Pairing := { info := { appId } }

/-- A worker registers with the uuids it had before, and at an address that no pair info of
    another worker has. -/
def OwnAddress (s : Pairing) : Action → Prop
  | .register r => ∀ p ∈ s.info.pairInfos, p.Consistent r ∧ (p.ipPort = r.ipPort → p.Meets r)
  | .assign _ => True

instance {s : Pairing} : (a : Action) → Decidable (s.OwnAddress a)
  | .register r => inferInstanceAs (Decidable (∀ p ∈ s.info.pairInfos,
      p.Consistent r ∧ (p.ipPort = r.ipPort → p.Meets r)))
  | .assign _ => inferInstanceAs (Decidable True)

/-! ## The invariant -/

variable {s s' : Pairing} {r : Request}

/-- Two pair infos have neither address nor uuid in common. -/
def Separate (p q : PairInfo) : Prop := p.ipPort ≠ q.ipPort ∧ ∀ u ∈ p.uuids, u ∉ q.uuids

theorem Separate.symm {p q : PairInfo} (h : Separate p q) : Separate q p :=
  ⟨h.1.symm, fun u hq hp => h.2 u hp hq⟩

instance : Std.Symm Separate := ⟨fun _ _ => Separate.symm⟩

structure Inv (s : Pairing) : Prop where
  separate : s.info.pairInfos.Pairwise Separate
  latest : ∀ u ip, s.latest u = some ip → ∃ p ∈ s.info.pairInfos, u ∈ p.uuids ∧ p.ipPort = ip

theorem inv_start {appId : String} : (start appId).Inv where
  separate := .nil
  latest := by simp [start]

/-- The replaced pair info is separate from those it was separate from. -/
theorem separate_replaced {p q : PairInfo} (hpq : Separate p q) (hp : p.Meets r)
    (hcons : p.Consistent r) (hq : q.ipPort = r.ipPort → q.Meets r) :
    Separate { p with ipPort := r.ipPort } q := by
  refine ⟨fun heq => ?_, hpq.2⟩
  obtain ⟨u, huq, hur⟩ := hq heq.symm
  exact hpq.2 u ((hcons hp).2 hur) huq

theorem Inv.register (h : s.Inv) (hown : s.OwnAddress (.register r)) :
    Inv { info := s.info.register r
          latest := fun u => if u ∈ r.uuid then some r.ipPort else s.latest u } := by
  have hcases := registerPairInfos_cases r s.info.pairInfos
  have hreg := registered_register fun p hp => (hown p hp).1
  exact {
    separate := by
      have hsep := h.separate
      unfold AppInfo.register
      rcases hcases with ⟨before, p, after, heq, -, hp, hnew⟩ | ⟨hnone, hnew⟩
      · have hmem : ∀ {q}, q ∈ before ∨ q = p ∨ q ∈ after → q ∈ s.info.pairInfos := by
          intro q hq
          simpa [heq] using hq
        have hcons := (hown p (hmem (.inr (.inl rfl)))).1
        simp only [hnew]
        rw [heq, List.pairwise_append] at hsep
        obtain ⟨hbefore, hafter, hcross⟩ := hsep
        rw [List.pairwise_cons] at hafter
        rw [List.pairwise_append, List.pairwise_cons]
        refine ⟨hbefore, ⟨fun q hq => ?_, hafter.2⟩, fun q hq q' hq' => ?_⟩
        · exact separate_replaced (hafter.1 q hq) hp hcons (hown q (hmem (.inr (.inr hq)))).2
        · rcases List.mem_cons.mp hq' with rfl | hq'
          · have hqp := (hcross q hq p (by simp)).symm
            exact (separate_replaced hqp hp hcons (hown q (hmem (.inl hq))).2).symm
          · exact hcross q hq q' (by simp [hq'])
      · simp only [hnew]
        rw [List.pairwise_append]
        refine ⟨hsep, by simp, fun q hq q' hq' => ?_⟩
        rw [List.mem_singleton.mp hq']
        refine ⟨fun heq => hnone q hq ((hown q hq).2 heq), fun u hu hu' => ?_⟩
        exact hnone q hq ⟨u, hu, by simpa using hu'⟩
    latest := by
      intro u ip hu
      dsimp only at hu
      split at hu
      · next hur =>
        obtain ⟨p, hp, hip, hup⟩ := hreg u hur
        exact ⟨p, hp, hup, by rw [hip]; simpa using hu⟩
      · next hur =>
        -- the pair info of a uuid that is not registered now is not replaced
        obtain ⟨p, hp, hup, hip⟩ := h.latest u ip hu
        have hkeep : p ∈ registerPairInfos r s.info.pairInfos := by
          rcases hcases with ⟨before, q, after, heq, -, hq, hnew⟩ | ⟨-, hnew⟩
          · rw [heq] at hp
            simp only [List.mem_append, List.mem_cons] at hp
            rcases hp with hp | rfl | hp
            · simp [hnew, hp]
            · exact absurd (((hown p (by simp [heq])).1 hq).1 hup) hur
            · simp [hnew, hp]
          · simp [hnew, hp]
        exact ⟨p, hkeep, hup, hip⟩ }

theorem map_mapIdx_of_eq {α β γ : Type} {f : Nat → α → β} {g : β → γ} {g' : α → γ} {l : List α}
    (h : ∀ i a, g (f i a) = g' a) : (l.mapIdx f).map g = l.map g' := by
  refine List.ext_getElem? fun i => ?_
  rw [List.getElem?_map, List.getElem?_mapIdx, List.getElem?_map, Option.map_map]
  exact congrArg (fun f => Option.map f l[i]?) (funext (h i))

/-- What identifies a pair info to `RegisterUUID` and to `GetPairInfo`. -/
def identity (p : PairInfo) : String × List String := (p.ipPort, p.uuids)

/-- The assignment of remote uuids changes neither addresses nor local uuids. -/
theorem map_identity_assignRemote {remote : Nat → Nat → String} {ps : List PairInfo} :
    (assignRemote remote ps).map identity = ps.map identity := by
  refine map_mapIdx_of_eq fun i p => ?_
  exact congrArg (Prod.mk p.ipPort) (map_mapIdx_of_eq fun j sp => rfl)

theorem Inv.assign {remote : Nat → Nat → String} (h : s.Inv) :
    Inv { s with info := { s.info with pairInfos := assignRemote remote s.info.pairInfos } } := by
  have hmap : (assignRemote remote s.info.pairInfos).map identity = s.info.pairInfos.map identity :=
    map_identity_assignRemote
  exact {
    separate := by
      have hsep : (s.info.pairInfos.map identity).Pairwise
          fun a b => a.1 ≠ b.1 ∧ ∀ u ∈ a.2, u ∉ b.2 :=
        List.pairwise_map.mpr h.separate
      rw [← hmap, List.pairwise_map] at hsep
      exact hsep
    latest := by
      intro u ip hu
      obtain ⟨p, hp, hup, rfl⟩ := h.latest u ip hu
      have hid := List.mem_map_of_mem (f := identity) hp
      rw [← hmap] at hid
      obtain ⟨p', hp', heq⟩ := List.mem_map.mp hid
      simp only [identity, Prod.mk.injEq] at heq
      exact ⟨p', hp', by rw [heq.2]; exact hup, heq.1⟩ }

theorem Inv.step {a : Action} (h : s.Inv) (hown : s.OwnAddress a) (hstep : s.step a = some s') :
    s'.Inv := by
  cases a with
  | register r =>
    simp only [Pairing.step] at hstep
    split at hstep
    · exact Option.some.inj hstep ▸ h
    · exact Option.some.inj hstep ▸ h.register hown
  | assign remote => exact Option.some.inj hstep ▸ h.assign

/-! ## Lookups -/

/-- Addresses and uuids identify the same pair info. -/
theorem Inv.eq_of_ipPort {p q : PairInfo} (h : s.Inv) (hp : p ∈ s.info.pairInfos)
    (hq : q ∈ s.info.pairInfos) (heq : p.ipPort = q.ipPort) : p = q := by
  by_contra hne
  exact (h.separate.forall hp hq hne).1 heq

theorem Inv.eq_of_uuid {p q : PairInfo} {u : String} (h : s.Inv) (hp : p ∈ s.info.pairInfos)
    (hq : q ∈ s.info.pairInfos) (hup : u ∈ p.uuids) (huq : u ∈ q.uuids) : p = q := by
  by_contra hne
  exact (h.separate.forall hp hq hne).2 u hup huq

/-- In a run in which no worker registers at an address that another one's pair info has, a worker
    that asks with the address it registered latest gets the pairs of the only pair info with its
    uuid. -/
theorem getPairInfo_own {appId : String} {acts : List Action} {u : String}
    {pairs : List ServicePair} (hown : machine.Meets OwnAddress (start appId) acts)
    (hrun : machine.run (start appId) acts = some s)
    (hlatest : s.latest u = some r.ipPort) (hok : getPairInfo (some s.info) r = .ok pairs) :
    ∃ p ∈ s.info.pairInfos, u ∈ p.uuids ∧ pairs = p.servicePair ∧
      ∀ q ∈ s.info.pairInfos, u ∈ q.uuids → q = p := by
  have h : s.Inv := machine.run_induct (fun _ _ _ hown h hstep => h.step hown hstep) hown hrun
    inv_start
  obtain ⟨p, hp, hup, hip⟩ := h.latest u r.ipPort hlatest
  obtain ⟨q, hfind, rfl⟩ := getPairInfo_eq_ok hok
  have hq := List.mem_of_find?_eq_some hfind
  have hqip : r.ipPort = q.ipPort := by simpa using List.find?_some hfind
  have hpq : q = p := h.eq_of_ipPort hq hp (hqip.symm.trans hip.symm)
  refine ⟨p, hp, hup, by rw [hpq], fun q' hq' huq' => ?_⟩
  exact h.eq_of_uuid hq' hp huq' hup

end Pairing

namespace Pairing.Sample

def worker0 : String := "app_worker_0"

def worker1 : String := "app_worker_1"

def remote (i _ : Nat) : String := if i = 0 then "app_remote_0" else "app_remote_1"

/-- The second worker restarts at the address at which the first one is still registered. -/
def reused : List Action :=
  [.register ⟨[worker0], "10.0.0.1:6666"⟩, .register ⟨[worker1], "10.0.0.2:6666"⟩,
    .register ⟨[worker1], "10.0.0.1:6666"⟩, .assign remote]

/-- The second worker is given the pairs of the first. -/
theorem reused_gets_other_pairs :
    ∃ s, machine.run (start "app") reused = some s ∧ s.latest worker1 = some "10.0.0.1:6666" ∧
      getPairInfo (some s.info) ⟨[worker1], "10.0.0.1:6666"⟩ =
        .ok [⟨worker0, "app_remote_0"⟩] ∧
      ∃ p ∈ s.info.pairInfos, worker1 ∈ p.uuids ∧ p.servicePair = [⟨worker1, "app_remote_1"⟩] :=
  ⟨_, rfl, rfl, by rfl, ⟨"10.0.0.1:6666", [⟨worker1, "app_remote_1"⟩]⟩, by decide, by decide, rfl⟩

/-- The second worker takes over the address after the first one has registered at another. -/
def moved : List Action :=
  [.register ⟨[worker0], "10.0.0.1:6666"⟩, .register ⟨[worker1], "10.0.0.2:6666"⟩,
    .register ⟨[worker0], "10.0.0.3:6666"⟩, .register ⟨[worker1], "10.0.0.1:6666"⟩, .assign remote]

theorem moved_gets_own_pairs :
    ∃ s, machine.run (start "app") moved = some s ∧
      ∃ p ∈ s.info.pairInfos, worker1 ∈ p.uuids ∧ [⟨worker1, "app_remote_1"⟩] = p.servicePair ∧
        ∀ q ∈ s.info.pairInfos, worker1 ∈ q.uuids → q = p :=
  ⟨_, rfl, @getPairInfo_own _ ⟨[worker1], "10.0.0.1:6666"⟩ "app" moved worker1 _ (by decide) rfl
    rfl rfl⟩

end Pairing.Sample

end Coordinator
