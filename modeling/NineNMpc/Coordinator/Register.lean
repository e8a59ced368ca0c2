-- SUMMARY: Concurrent RegisterUUID calls over one Redis, command by command: the lock of GET and SET EX, the registrations it loses and the runs in which it loses none.
import NineNMpc.Lib.Machine
import NineNMpc.Coordinator.AppInfo

/-!
# Concurrent registration

`RegisterUUID` of `Coordinator/services/internal_service_impl.cc` with `Lock`, `Unlock`,
`SetEx` of `resource/hiredis_executor.cc` and `GetAppInfoFromRedis`, `SetAppInfoToRedis` of
`services/common.cc`. The calls of all coordinator processes interleave at the commands
they send to the one Redis, and a write may be refused. Keys and values are words without
blanks or percent signs, which the command strings would split or expand; locks do not
expire.
-/

namespace Coordinator

/-- The JSON form of protobuf. -/
structure Json where
  messageToJsonString : AppInfo → Option String
  jsonStringToMessage : String → Option AppInfo
  /-- What was printed reads back. -/
  parse_print : ∀ info v, messageToJsonString info = some v → jsonStringToMessage v = some info

/-! ## Redis -/

abbrev Redis : Type := String → Option String

namespace Redis

def set (redis : Redis) (key value : String) : Redis := Function.update redis key (some value)

def del (redis : Redis) (key : String) : Redis := Function.update redis key none

def mset (redis : Redis) (keys : List String) (value : String) : Redis :=
  keys.foldl (fun redis key => redis.set key value) redis

def getAppInfo (json : Json) (redis : Redis) (appId : String) : Option AppInfo :=
  (redis appId).bind json.jsonStringToMessage

end Redis

def lockKey (str : String) : String := "fl_lock_" ++ str

/-! ## A call -/

/-- The next command of a call: `index` counts the attempts to lock, `setApp` has the changed
    info, and `unlock` and `returned` the error, if any. -/
inductive RegisterPc where
  | mset
  | lockGet (index : Nat)
  | lockSet (index : Nat)
  | getApp
  | setApp (info : AppInfo)
  | unlock (err : Option String)
  | returned (err : Option String)
deriving DecidableEq

structure RegisterCall where
  request : Request
  pc : RegisterPc

def Request.call (r : Request) : RegisterCall :=
  { request := r, pc := if r.uuid = [] then .returned (some "uuid is empty") else .mset }

namespace RegisterCall

def lockFail (c : RegisterCall) : RegisterPc :=
  .returned (some ("lock fail for many times! app_id : " ++ c.request.appId))

/-- The head of the loop `while (index++ < FLAGS_lock_times)`. -/
def nextAttempt (lockTimes : Nat) (c : RegisterCall) (index : Nat) : RegisterPc :=
  if index < lockTimes then .lockGet (index + 1) else c.lockFail

/-- One command, or its refusal. A lock taken in the last attempt counts as a failure and is not
    given back. -/
def step (json : Json) (lockTimes : Nat) (c : RegisterCall) (redis : Redis) (refused : Bool) :
    Option (Redis × RegisterPc) :=
  let appId := c.request.appId
  match c.pc with
  | .mset =>
    if refused then
      some (redis, .returned (some ("set uuid fail! ip : " ++ c.request.ipPort)))
    else some (redis.mset c.request.uuid c.request.ipPort, c.nextAttempt lockTimes 0)
  | .lockGet index =>
    match redis (lockKey appId) with
    | some _ => some (redis, c.nextAttempt lockTimes index)
    | none => some (redis, .lockSet index)
  | .lockSet index =>
    if refused then some (redis, c.nextAttempt lockTimes index)
    else
      some (redis.set (lockKey appId) "fl_lock_",
        if lockTimes ≤ index then c.lockFail else .getApp)
  | .getApp =>
    match redis.getAppInfo json appId with
    | none => some (redis, .unlock (some ("get app fail! app_id: " ++ appId)))
    | some info => some (redis, .setApp (info.register c.request))
  | .setApp info =>
    match json.messageToJsonString info, refused with
    | some v, false => some (redis.set info.appId v, .unlock none)
    | _, _ => some (redis, .unlock (some ("set app info fail! app_id : " ++ appId)))
  | .unlock err => some (redis.del (lockKey appId), .returned err)
  | .returned _ => none

/-- Case analysis on a command, by the place of the call and the answer. -/
theorem step_elim {json : Json} {lockTimes : Nat} {c : RegisterCall} {redis redis' : Redis}
    {refused : Bool} {pc : RegisterPc} {motive : Redis → RegisterPc → Prop}
    (hs : c.step json lockTimes redis refused = some (redis', pc))
    (msetRefused : c.pc = .mset → ∀ err, motive redis (.returned (some err)))
    (mset : c.pc = .mset →
      motive (redis.mset c.request.uuid c.request.ipPort) (c.nextAttempt lockTimes 0))
    (taken : ∀ index, c.pc = .lockGet index → redis (lockKey c.request.appId) ≠ none →
      motive redis (c.nextAttempt lockTimes index))
    (free : ∀ index, c.pc = .lockGet index → redis (lockKey c.request.appId) = none →
      motive redis (.lockSet index))
    (lockRefused : ∀ index, c.pc = .lockSet index → refused = true →
      motive redis (c.nextAttempt lockTimes index))
    (lockedLast : ∀ index, c.pc = .lockSet index → refused = false → lockTimes ≤ index →
      motive (redis.set (lockKey c.request.appId) "fl_lock_") c.lockFail)
    (locked : ∀ index, c.pc = .lockSet index → refused = false → index < lockTimes →
      motive (redis.set (lockKey c.request.appId) "fl_lock_") .getApp)
    (noApp : c.pc = .getApp → ∀ err, motive redis (.unlock (some err)))
    (app : ∀ info, c.pc = .getApp → redis.getAppInfo json c.request.appId = some info →
      motive redis (.setApp (info.register c.request)))
    (written : ∀ info v, c.pc = .setApp info → json.messageToJsonString info = some v →
      motive (redis.set info.appId v) (.unlock none))
    (notWritten : ∀ info, c.pc = .setApp info → ∀ err, motive redis (.unlock (some err)))
    (unlock : ∀ err, c.pc = .unlock err →
      motive (redis.del (lockKey c.request.appId)) (.returned err)) :
    motive redis' pc := by
  unfold step at hs
  dsimp only at hs
  split at hs
  case h_1 hpc =>
    split at hs
    · cases hs
      exact msetRefused hpc _
    · cases hs
      exact mset hpc
  case h_2 index hpc =>
    split at hs
    case h_1 hlock =>
      cases hs
      exact taken index hpc (by simp [hlock])
    case h_2 hlock =>
      cases hs
      exact free index hpc hlock
  case h_3 index hpc =>
    split at hs
    case isTrue href =>
      cases hs
      exact lockRefused index hpc href
    case isFalse href =>
      cases hs
      split
      case isTrue hlast => exact lockedLast index hpc (by simpa using href) hlast
      case isFalse hlast => exact locked index hpc (by simpa using href) (by omega)
  case h_4 hpc =>
    split at hs
    case h_1 =>
      cases hs
      exact noApp hpc _
    case h_2 info hinfo =>
      cases hs
      exact app info hpc hinfo
  case h_5 info hpc =>
    split at hs
    case h_1 hv =>
      cases hs
      exact written info _ hpc hv
    case h_2 =>
      cases hs
      exact notWritten info hpc _
  case h_6 err hpc =>
    cases hs
    exact unlock err hpc
  case h_7 => cases hs

end RegisterCall

/-! ## All calls -/

structure Registry where
  redis : Redis
  calls : List RegisterCall

namespace Registry

structure Action where
  call : Nat
  refused : Bool := false

def step (json : Json) (lockTimes : Nat) (s : Registry) (a : Action) : Option Registry :=
  match s.calls[a.call]? with
  | none => none
  | some c =>
    (c.step json lockTimes s.redis a.refused).map fun (redis, pc) =>
      { redis, calls := s.calls.set a.call { c with pc } }

def machine (json : Json) (lockTimes : Nat) : Machine Registry Action := ⟨step json lockTimes⟩

def start (redis : Redis) (requests : List Request) : Registry :=
  { redis, calls := requests.map (·.call) }

end Registry

/-- The next command is the `GET` of `Lock`. -/
def RegisterPc.Asking : RegisterPc → Prop
  | lockGet _ => True
  | _ => False

/-- The call is between the `GET` of `Lock`, which found no lock, and the `SET EX`. -/
def RegisterPc.Locking : RegisterPc → Prop
  | lockSet _ => True
  | _ => False

/-- The call has locked and not yet unlocked. -/
def RegisterPc.Holding : RegisterPc → Prop
  | getApp | setApp _ | unlock _ => True
  | _ => False

/-- The call has written its registration. -/
def RegisterPc.Done (pc : RegisterPc) : Prop := pc = .unlock none ∨ pc = .returned none

def RegisterPc.Engaged (pc : RegisterPc) : Prop := pc.Locking ∨ pc.Holding

instance : (pc : RegisterPc) → Decidable pc.Asking
  | .lockGet _ => inferInstanceAs (Decidable True)
  | .mset | .lockSet _ | .getApp | .setApp _ | .unlock _ | .returned _ =>
    inferInstanceAs (Decidable False)

instance : (pc : RegisterPc) → Decidable pc.Locking
  | .lockSet _ => inferInstanceAs (Decidable True)
  | .mset | .lockGet _ | .getApp | .setApp _ | .unlock _ | .returned _ =>
    inferInstanceAs (Decidable False)

namespace Registry

/-- A `GET` of `Lock` is sent only when no call is between its own and its `SET EX`. -/
def Exclusive (s : Registry) (a : Action) : Prop :=
  (∃ c ∈ s.calls[a.call]?, c.pc.Asking) → ∀ c ∈ s.calls, ¬ c.pc.Locking

instance {s : Registry} {a : Action} : Decidable (s.Exclusive a) :=
  inferInstanceAs (Decidable (_ → _))

end Registry

/-! ## Redis keys -/

namespace Redis

variable {redis : Redis} {key key' value : String}

@[simp] theorem set_self : redis.set key value key = some value := by
  simp [set, Function.update]

theorem set_of_ne (h : key' ≠ key) : redis.set key value key' = redis key' := by
  simp [set, Function.update, h]

theorem del_of_ne (h : key' ≠ key) : redis.del key key' = redis key' := by
  simp [del, Function.update, h]

theorem mset_of_notMem {keys : List String} (h : key' ∉ keys) :
    redis.mset keys value key' = redis key' := by
  unfold mset
  induction keys generalizing redis with
  | nil => rfl
  | cons key keys ih =>
    simp only [List.mem_cons, not_or] at h
    rw [List.foldl_cons, ih h.2, set_of_ne h.1]

end Redis

theorem ne_lockKey {appId : String} : appId ≠ lockKey appId := by
  intro h
  have hlen := congrArg String.length h
  simp [lockKey] at hlen

/-! ## The invariant -/

namespace Registry

variable {json : Json} {lockTimes : Nat} {appId : String} {requests : List Request}
  {s s' : Registry} {i : Nat} {c : RegisterCall}

/-- What the calls of one application are, and what their uuids may be. -/
structure Workload (appId : String) (requests : List Request) : Prop where
  sameApp : ∀ r ∈ requests, r.uuid ≠ [] → r.appId = appId
  disjoint : requests.Pairwise fun r r' => ∀ u ∈ r.uuid, u ∉ r'.uuid
  /-- No uuid is the key of the application's info or of its lock. -/
  keys : ∀ r ∈ requests, appId ∉ r.uuid ∧ lockKey appId ∉ r.uuid

structure Inv (json : Json) (appId : String) (requests : List Request) (s : Registry) : Prop where
  calls : s.calls.map (·.request) = requests
  nonempty : ∀ c ∈ s.calls, c.request.uuid = [] → ∃ err, c.pc = .returned (some err)
  unique : ∀ (i j : Nat) (c c' : RegisterCall), s.calls[i]? = some c → s.calls[j]? = some c' →
    c.pc.Engaged → c'.pc.Engaged → i = j
  locked : ∀ c ∈ s.calls, c.pc.Holding → s.redis (lockKey appId) ≠ none
  stored : ∀ info, s.redis.getAppInfo json appId = some info →
    info.appId = appId ∧ ∀ r ∈ requests, ∀ p ∈ info.pairInfos, p.Consistent r
  writing : ∀ c ∈ s.calls, ∀ info, c.pc = .setApp info →
    ∃ info₀, s.redis.getAppInfo json appId = some info₀ ∧ info = info₀.register c.request
  done : ∀ c ∈ s.calls, c.pc.Done →
    ∃ info, s.redis.getAppInfo json appId = some info ∧ Registered info.pairInfos c.request

theorem mem_set_calls {pc : RegisterPc} {c' : RegisterCall} {calls : List RegisterCall}
    (h : c' ∈ calls.set i { c with pc }) : c' = { c with pc } ∨ c' ∈ calls := by
  rcases List.mem_or_eq_of_mem_set h with h | h
  · exact .inr h
  · exact .inl h

/-- The requests never change. -/
theorem map_request_set {pc : RegisterPc} {calls : List RegisterCall}
    (hc : calls[i]? = some c) :
    (calls.set i { c with pc }).map (·.request) = calls.map (·.request) := by
  refine List.ext_getElem? fun j => ?_
  rw [List.getElem?_map, List.getElem?_map, List.getElem?_set]
  split
  · next hij =>
    subst hij
    obtain ⟨hi, rfl⟩ := List.getElem?_eq_some_iff.mp hc
    simp [hi]
  · rfl

theorem getElem?_set_cases {pc : RegisterPc} {c' : RegisterCall} {calls : List RegisterCall}
    {j : Nat} (h : (calls.set i { c with pc })[j]? = some c') :
    i = j ∧ c' = { c with pc } ∨ i ≠ j ∧ calls[j]? = some c' := by
  rw [List.getElem?_set] at h
  split at h
  · next hij =>
    split at h
    · exact .inl ⟨hij, by simpa using h.symm⟩
    · cases h
  · next hij => exact .inr ⟨hij, h⟩

/-- A call moves on without writing the info. -/
theorem Inv.move {redis : Redis} {pc : RegisterPc} (h : Inv json appId requests s)
    (hc : s.calls[i]? = some c) (hne : c.request.uuid ≠ [])
    (happ : redis appId = s.redis appId)
    (hengaged : pc.Engaged → c.pc.Engaged ∨ ∀ c' ∈ s.calls, ¬ c'.pc.Engaged)
    (hlock : redis (lockKey appId) ≠ none ∨
      redis (lockKey appId) = s.redis (lockKey appId) ∧ (pc.Holding → c.pc.Holding) ∨
      c.pc.Engaged ∧ ¬ pc.Holding)
    (hwriting : ∀ info, pc = .setApp info →
      ∃ info₀, s.redis.getAppInfo json appId = some info₀ ∧ info = info₀.register c.request)
    (hdone : pc.Done → c.pc.Done) :
    Inv json appId requests { redis, calls := s.calls.set i { c with pc } } := by
  have hget : redis.getAppInfo json appId = s.redis.getAppInfo json appId := by
    unfold Redis.getAppInfo
    rw [happ]
  have hmem : c ∈ s.calls := List.mem_of_getElem? hc
  exact {
    calls := (map_request_set hc).trans h.calls
    nonempty := by
      intro c' hc' he
      rcases mem_set_calls hc' with rfl | hc'
      · exact absurd he hne
      · exact h.nonempty c' hc' he
    unique := by
      intro j k c₁ c₂ hj hk h₁ h₂
      have hself : ∀ {n : Nat} {c' : RegisterCall}, s.calls[n]? = some c' → c'.pc.Engaged →
          pc.Engaged → i = n := by
        intro n c' hn hc' hpc
        rcases hengaged hpc with hold | hnone
        · exact h.unique i n c c' hc hn hold hc'
        · exact absurd hc' (hnone c' (List.mem_of_getElem? hn))
      rcases getElem?_set_cases hj with ⟨rfl, rfl⟩ | ⟨-, hj⟩
      · rcases getElem?_set_cases hk with ⟨rfl, rfl⟩ | ⟨-, hk⟩
        · rfl
        · exact hself hk h₂ h₁
      · rcases getElem?_set_cases hk with ⟨rfl, rfl⟩ | ⟨-, hk⟩
        · exact (hself hj h₁ h₂).symm
        · exact h.unique j k c₁ c₂ hj hk h₁ h₂
    locked := by
      intro c' hc' hhold
      obtain ⟨j, hj⟩ := List.mem_iff_getElem?.mp hc'
      rcases hlock with hlock | ⟨hsame, hkeep⟩ | ⟨heng, hnot⟩
      · exact hlock
      · change redis (lockKey appId) ≠ none
        rw [hsame]
        rcases getElem?_set_cases hj with ⟨rfl, rfl⟩ | ⟨-, hj⟩
        · exact h.locked c hmem (hkeep hhold)
        · exact h.locked c' (List.mem_of_getElem? hj) hhold
      · rcases getElem?_set_cases hj with ⟨rfl, rfl⟩ | ⟨hij, hj⟩
        · exact absurd hhold hnot
        · exact absurd (h.unique i j c c' hc hj heng (.inr hhold)) hij
    stored := by
      intro info hinfo
      exact h.stored info (hget ▸ hinfo)
    writing := by
      intro c' hc' info hinfo
      rw [hget]
      rcases mem_set_calls hc' with rfl | hc'
      · exact hwriting info hinfo
      · exact h.writing c' hc' info hinfo
    done := by
      intro c' hc' hd
      rw [hget]
      rcases mem_set_calls hc' with rfl | hc'
      · exact h.done c hmem (hdone hd)
      · exact h.done c' hc' hd }

theorem Inv.request_mem (h : Inv json appId requests s) (hc : c ∈ s.calls) :
    c.request ∈ requests := by
  rw [← h.calls]
  exact List.mem_map_of_mem hc

/-- Two calls have no uuid in common. -/
theorem Inv.disjoint {j : Nat} {c' : RegisterCall} (h : Inv json appId requests s)
    (hw : Workload appId requests) (hi : s.calls[i]? = some c) (hj : s.calls[j]? = some c')
    (hij : i ≠ j) : ∀ u ∈ c.request.uuid, u ∉ c'.request.uuid := by
  have hpair := hw.disjoint
  rw [← h.calls, List.pairwise_map] at hpair
  obtain ⟨hilt, rfl⟩ := List.getElem?_eq_some_iff.mp hi
  obtain ⟨hjlt, rfl⟩ := List.getElem?_eq_some_iff.mp hj
  rcases Nat.lt_or_gt_of_ne hij with hlt | hgt
  · exact List.pairwise_iff_getElem.mp hpair i j hilt hjlt hlt
  · intro u hu hu'
    exact List.pairwise_iff_getElem.mp hpair j i hjlt hilt hgt u hu' hu

/-- The call that holds the lock writes its registration. -/
theorem Inv.write {info : AppInfo} {v : String} (h : Inv json appId requests s)
    (hw : Workload appId requests) (hc : s.calls[i]? = some c) (hpc : c.pc = .setApp info)
    (hne : c.request.uuid ≠ []) (hv : json.messageToJsonString info = some v) :
    Inv json appId requests
      { redis := s.redis.set info.appId v, calls := s.calls.set i { c with pc := .unlock none } } := by
  have hmem : c ∈ s.calls := List.mem_of_getElem? hc
  have hengaged : c.pc.Engaged := by rw [hpc]; exact .inr trivial
  obtain ⟨info₀, hinfo₀, rfl⟩ := h.writing c hmem info hpc
  obtain ⟨happ, hcons⟩ := h.stored info₀ hinfo₀
  have hkey : (info₀.register c.request).appId = appId := happ
  rw [hkey]
  have hget : (s.redis.set appId v).getAppInfo json appId = some (info₀.register c.request) := by
    simp [Redis.getAppInfo, json.parse_print _ v hv]
  have hother : ∀ {j : Nat} {c' : RegisterCall}, s.calls[j]? = some c' → i ≠ j →
      ¬ c'.pc.Engaged := fun hj hij hc' => hij (h.unique i _ c _ hc hj hengaged hc')
  exact {
    calls := (map_request_set hc).trans h.calls
    nonempty := by
      intro c' hc' he
      rcases mem_set_calls hc' with rfl | hc'
      · exact absurd he hne
      · exact h.nonempty c' hc' he
    unique := by
      intro j k c₁ c₂ hj hk h₁ h₂
      rcases getElem?_set_cases hj with ⟨rfl, rfl⟩ | ⟨hij, hj⟩
      · rcases getElem?_set_cases hk with ⟨rfl, rfl⟩ | ⟨hik, hk⟩
        · rfl
        · exact absurd h₂ (hother hk hik)
      · exact absurd h₁ (hother hj hij)
    locked := by
      intro c' _ _
      change s.redis.set appId v (lockKey appId) ≠ none
      rw [Redis.set_of_ne ne_lockKey.symm]
      exact h.locked c hmem (by rw [hpc]; trivial)
    stored := by
      intro info hinfo
      obtain rfl : info₀.register c.request = info := by simpa [hget] using hinfo
      refine ⟨hkey, fun r hr => consistent_register (hcons r hr) ?_⟩
      obtain ⟨c', hc', rfl⟩ := List.mem_map.mp (h.calls ▸ hr)
      obtain ⟨j, hj⟩ := List.mem_iff_getElem?.mp hc'
      by_cases hij : i = j
      · subst hij
        obtain rfl : c = c' := by simpa [hc] using hj
        exact consistent_pairInfo_self
      · exact consistent_pairInfo_of_disjoint (h.disjoint hw hc hj hij)
    writing := by
      intro c' hc' info hinfo
      obtain ⟨j, hj⟩ := List.mem_iff_getElem?.mp hc'
      rcases getElem?_set_cases hj with ⟨rfl, rfl⟩ | ⟨hij, hj⟩
      · cases hinfo
      · exact absurd (.inr (by rw [hinfo]; trivial)) (hother hj hij)
    done := by
      intro c' hc' hd
      refine ⟨_, hget, ?_⟩
      obtain ⟨j, hj⟩ := List.mem_iff_getElem?.mp hc'
      rcases getElem?_set_cases hj with ⟨rfl, rfl⟩ | ⟨hij, hj⟩
      · exact registered_register (hcons c.request (h.request_mem hmem))
      · obtain ⟨info, hinfo, hreg⟩ := h.done c' (List.mem_of_getElem? hj) hd
        obtain rfl : info₀ = info := by simpa [hinfo₀] using hinfo
        exact hreg.register_other (hcons c.request (h.request_mem hmem))
          (h.disjoint hw hj hc (Ne.symm hij)) }

/-! ## Steps -/

/-- After a failed attempt to lock a call asks again or gives up. -/
theorem nextAttempt_cases (lockTimes : Nat) (c : RegisterCall) (index : Nat) :
    (∃ n, c.nextAttempt lockTimes index = .lockGet n) ∨
      ∃ err, c.nextAttempt lockTimes index = .returned (some err) := by
  unfold RegisterCall.nextAttempt RegisterCall.lockFail
  split
  · exact .inl ⟨_, rfl⟩
  · exact .inr ⟨_, rfl⟩

/-- Neither asking for the lock nor returning an error engages a call. -/
theorem Inv.moveFree {redis : Redis} {pc : RegisterPc} (h : Inv json appId requests s)
    (hc : s.calls[i]? = some c) (hne : c.request.uuid ≠ []) (happ : redis appId = s.redis appId)
    (hlock : redis (lockKey appId) ≠ none ∨
      redis (lockKey appId) = s.redis (lockKey appId) ∨ c.pc.Engaged)
    (hpc : (∃ n, pc = .lockGet n) ∨ ∃ err, pc = .returned (some err)) :
    Inv json appId requests { redis, calls := s.calls.set i { c with pc } } := by
  have hengaged : ¬ pc.Engaged := by
    rcases hpc with ⟨n, rfl⟩ | ⟨err, rfl⟩ <;> simp [RegisterPc.Engaged, RegisterPc.Locking,
      RegisterPc.Holding]
  have hhold : ¬ pc.Holding := fun hh => hengaged (.inr hh)
  refine h.move hc hne happ (fun he => absurd he hengaged) ?_ ?_ ?_
  · rcases hlock with hlock | hlock | hlock
    · exact .inl hlock
    · exact .inr (.inl ⟨hlock, fun hh => absurd hh hhold⟩)
    · exact .inr (.inr ⟨hlock, hhold⟩)
  · rcases hpc with ⟨n, rfl⟩ | ⟨err, rfl⟩ <;> simp
  · rcases hpc with ⟨n, rfl⟩ | ⟨err, rfl⟩ <;> simp [RegisterPc.Done]

theorem Inv.step {a : Action} (h : Inv json appId requests s) (hw : Workload appId requests)
    (hexcl : s.Exclusive a) (hstep : s.step json lockTimes a = some s') :
    Inv json appId requests s' := by
  unfold Registry.step at hstep
  split at hstep
  · cases hstep
  · next c hc =>
    obtain ⟨⟨redis, pc⟩, hcall, rfl⟩ := Option.map_eq_some_iff.mp hstep
    have hmem : c ∈ s.calls := List.mem_of_getElem? hc
    have hne : c.request.uuid ≠ [] := by
      intro he
      obtain ⟨err, hret⟩ := h.nonempty c hmem he
      simp [RegisterCall.step, hret] at hcall
    have happ := hw.sameApp c.request (h.request_mem hmem) hne
    have hkeys := hw.keys c.request (h.request_mem hmem)
    rw [← happ] at h hkeys ⊢
    apply RegisterCall.step_elim hcall
    case msetRefused =>
      intro _ err
      exact h.moveFree hc hne rfl (.inr (.inl rfl)) (.inr ⟨err, rfl⟩)
    case mset =>
      intro _
      exact h.moveFree hc hne (Redis.mset_of_notMem hkeys.1)
        (.inr (.inl (Redis.mset_of_notMem hkeys.2))) (nextAttempt_cases lockTimes c 0)
    case taken =>
      intro index _ _
      exact h.moveFree hc hne rfl (.inr (.inl rfl)) (nextAttempt_cases lockTimes c index)
    case free =>
      intro index hpc hfree
      -- no other call is locking, by the condition, nor holding, since there is no lock
      have hidle : ∀ c' ∈ s.calls, ¬ c'.pc.Engaged := by
        rintro c' hc' (hlocking | hhold)
        · exact hexcl ⟨c, hc, by rw [hpc]; trivial⟩ c' hc' hlocking
        · exact h.locked c' hc' hhold hfree
      refine h.move hc hne rfl (fun _ => .inr hidle) (.inr (.inl ⟨rfl, fun hh => ?_⟩)) ?_ ?_
      · cases hh
      · simp
      · simp [RegisterPc.Done]
    case lockRefused =>
      intro index _ _
      exact h.moveFree hc hne rfl (.inr (.inl rfl)) (nextAttempt_cases lockTimes c index)
    case lockedLast =>
      intro index _ _ _
      exact h.moveFree hc hne (Redis.set_of_ne ne_lockKey) (.inl (by simp)) (.inr ⟨_, rfl⟩)
    case locked =>
      intro index hpc _ _
      have hengaged : c.pc.Engaged := by rw [hpc]; exact .inl trivial
      exact h.move hc hne (Redis.set_of_ne ne_lockKey) (fun _ => .inl hengaged) (.inl (by simp))
        (by simp) (by simp [RegisterPc.Done])
    case noApp =>
      intro hpc err
      have hhold : c.pc.Holding := by rw [hpc]; trivial
      exact h.move hc hne rfl (fun _ => .inl (.inr hhold)) (.inr (.inl ⟨rfl, fun _ => hhold⟩))
        (by simp) (by simp [RegisterPc.Done])
    case app =>
      intro info hpc hinfo
      have hhold : c.pc.Holding := by rw [hpc]; trivial
      refine h.move hc hne rfl (fun _ => .inl (.inr hhold)) (.inr (.inl ⟨rfl, fun _ => hhold⟩)) ?_
        (by simp [RegisterPc.Done])
      intro info' hinfo'
      exact ⟨info, hinfo, (RegisterPc.setApp.inj hinfo').symm⟩
    case written =>
      intro info v hpc hv
      exact happ.symm ▸ h.write (happ.symm ▸ hw) hc hpc hne hv
    case notWritten =>
      intro info hpc err
      have hhold : c.pc.Holding := by rw [hpc]; trivial
      exact h.move hc hne rfl (fun _ => .inl (.inr hhold)) (.inr (.inl ⟨rfl, fun _ => hhold⟩))
        (by simp) (by simp [RegisterPc.Done])
    case unlock =>
      intro err hpc
      have hhold : c.pc.Holding := by rw [hpc]; trivial
      refine h.move hc hne (Redis.del_of_ne ne_lockKey) (fun _ => .inl (.inr hhold))
        (.inr (.inr ⟨.inr hhold, id⟩)) (by simp) fun hd => ?_
      rw [hpc]
      simpa [RegisterPc.Done] using hd

/-! ## Runs -/

theorem inv_start {redis : Redis}
    (hinit : ∀ info, redis.getAppInfo json appId = some info →
      info.appId = appId ∧ ∀ r ∈ requests, ∀ p ∈ info.pairInfos, p.Consistent r) :
    Inv json appId requests (start redis requests) := by
  have hpc : ∀ c ∈ (start redis requests).calls,
      c.pc = .mset ∧ c.request.uuid ≠ [] ∨ ∃ err, c.pc = .returned (some err) := by
    intro c hc
    obtain ⟨r, -, rfl⟩ := List.mem_map.mp hc
    unfold Request.call
    by_cases hr : r.uuid = []
    · exact .inr ⟨"uuid is empty", by simp [hr]⟩
    · exact .inl (by simp [hr])
  have hidle : ∀ c ∈ (start redis requests).calls,
      ¬ c.pc.Engaged ∧ ¬ c.pc.Done ∧ ∀ info, c.pc ≠ .setApp info := by
    intro c hc
    rcases hpc c hc with ⟨h, -⟩ | ⟨err, h⟩
    · rw [h]
      simp [RegisterPc.Engaged, RegisterPc.Locking, RegisterPc.Holding, RegisterPc.Done]
    · rw [h]
      simp [RegisterPc.Engaged, RegisterPc.Locking, RegisterPc.Holding, RegisterPc.Done]
  exact {
    calls := by simp [start, Request.call, Function.comp_def]
    nonempty := by
      intro c hc he
      rcases hpc c hc with ⟨-, hne⟩ | hret
      · exact absurd he hne
      · exact hret
    unique := fun i j c c' hi _ hc => absurd hc (hidle c (List.mem_of_getElem? hi)).1
    locked := fun c hc hh => absurd (.inr hh) (hidle c hc).1
    stored := hinit
    writing := fun c hc info hinfo => absurd hinfo ((hidle c hc).2.2 info)
    done := fun c hc hd => absurd hd (hidle c hc).2.1 }

/-- In a run in which every `GET` of `Lock` finds no call between its own and its `SET EX`, the
    stored info has the registration of every call that has returned OK. -/
theorem registerUUID_not_lost {redis : Redis} {acts : List Action} (hw : Workload appId requests)
    (hinit : ∀ info, redis.getAppInfo json appId = some info →
      info.appId = appId ∧ ∀ r ∈ requests, ∀ p ∈ info.pairInfos, p.Consistent r)
    (hexcl : (machine json lockTimes).Meets Exclusive (start redis requests) acts)
    (hrun : (machine json lockTimes).run (start redis requests) acts = some s) :
    ∀ c ∈ s.calls, c.pc = .returned none →
      ∃ info, s.redis.getAppInfo json appId = some info ∧ Registered info.pairInfos c.request := by
  have h : Inv json appId requests s :=
    (machine json lockTimes).run_induct (fun _ _ _ hexcl h hstep => h.step hw hexcl hstep) hexcl
      hrun (inv_start hinit)
  intro c hc hret
  exact h.done c hc (.inr hret)

end Registry

namespace Registry.Sample

def first : Request := ⟨["app_worker_0"], "10.0.0.1:6666"⟩

def second : Request := ⟨["app_worker_1"], "10.0.0.2:6666"⟩

def empty : AppInfo := { appId := "app" }

/-- The infos that two workers can leave. -/
def infos : List AppInfo :=
  [empty, empty.register first, empty.register second, (empty.register first).register second,
    (empty.register second).register first]

def quote (s : String) : String := "\"" ++ s ++ "\""

def object (fields : List String) : String := "\x7b" ++ ",".intercalate fields ++ "\x7d"

def array (values : List String) : String := "[" ++ ",".intercalate values ++ "]"

def pairInfoJson (p : PairInfo) : String :=
  object ["\"ip_port\":" ++ quote p.ipPort,
    "\"service_pair\":" ++ array (p.uuids.map fun u => object ["\"local_uuid\":" ++ quote u])]

def appInfoJson (info : AppInfo) : String :=
  object (["\"conf_info\":" ++ object ["\"app_id\":" ++ quote info.appId]] ++
    if info.pairInfos = [] then []
    else ["\"pair_infos\":" ++ array (info.pairInfos.map pairInfoJson)])

/-- The JSON form, on these infos. -/
def protoJson : Json where
  messageToJsonString info := if info ∈ infos then some (appInfoJson info) else none
  jsonStringToMessage v := infos.find? fun info => appInfoJson info = v
  parse_print info v h := by
    have hinj : ∀ a ∈ infos, infos.find? (fun b => appInfoJson b = appInfoJson a) = some a := by
      decide +kernel
    split at h
    · next hmem =>
      obtain rfl : appInfoJson info = v := by simpa using h
      exact hinj info hmem
    · cases h

def redis : Redis := fun key => if key = "app" then some (appInfoJson empty) else none

/-- Both calls send their `GET` before either sends its `SET EX`. -/
def raced : List Action :=
  [⟨0, false⟩, ⟨1, false⟩, ⟨0, false⟩, ⟨1, false⟩, ⟨0, false⟩, ⟨1, false⟩, ⟨0, false⟩, ⟨1, false⟩,
    ⟨0, false⟩, ⟨1, false⟩, ⟨0, false⟩, ⟨1, false⟩]

theorem raced_isSome :
    ((machine protoJson 20).run (start redis [first, second]) raced).isSome := by
  decide +kernel

/-- Both calls return OK, and the registration of the first is lost. -/
theorem raced_registration_lost :
    ∃ s, (machine protoJson 20).run (start redis [first, second]) raced = some s ∧
      (∀ c ∈ s.calls, c.pc = .returned none) ∧
      ∃ info, s.redis.getAppInfo protoJson "app" = some info ∧ ¬ Registered info.pairInfos first :=
  ⟨_, (Option.some_get raced_isSome).symm, by decide +kernel, empty.register second, by decide +kernel,
    by decide +kernel⟩

/-- The second call finds the lock of the first, and asks again after its `DEL`. -/
def serialized : List Action :=
  [⟨0, false⟩, ⟨1, false⟩, ⟨0, false⟩, ⟨0, false⟩, ⟨1, false⟩, ⟨0, false⟩, ⟨0, false⟩, ⟨0, false⟩,
    ⟨1, false⟩, ⟨1, false⟩, ⟨1, false⟩, ⟨1, false⟩, ⟨1, false⟩]

theorem serialized_isSome :
    ((machine protoJson 20).run (start redis [first, second]) serialized).isSome := by
  decide +kernel

theorem workload : Workload "app" [first, second] where
  sameApp := by decide +kernel
  disjoint := by decide
  keys := by decide +kernel

theorem stored_empty (info : AppInfo) (h : redis.getAppInfo protoJson "app" = some info) :
    info.appId = "app" ∧ ∀ r ∈ [first, second], ∀ p ∈ info.pairInfos, p.Consistent r := by
  have hread : redis.getAppInfo protoJson "app" = some empty := by decide +kernel
  obtain rfl : empty = info := by simpa [hread] using h
  simp [empty]

theorem serialized_not_lost :
    ∃ s, (machine protoJson 20).run (start redis [first, second]) serialized = some s ∧
      (∀ c ∈ s.calls, c.pc = .returned none) ∧
      ∀ c ∈ s.calls, c.pc = .returned none →
        ∃ info, s.redis.getAppInfo protoJson "app" = some info ∧ Registered info.pairInfos c.request :=
  ⟨_, (Option.some_get serialized_isSome).symm, by decide +kernel,
    registerUUID_not_lost workload stored_empty (by decide +kernel)
      (Option.some_get serialized_isSome).symm⟩

end Registry.Sample

end Coordinator
