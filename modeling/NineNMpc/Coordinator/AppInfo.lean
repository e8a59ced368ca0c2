-- SUMMARY: The AppInfo of an application: registration of a worker's uuids, replacement of its address, and lookup of its pairs.
import Mathlib.Data.List.Basic

/-!
# Application info

The part of `Coordinator/services/internal_service_impl.cc` that computes on an `AppInfo`
between reading it from Redis and writing it back. Of the configuration only `app_id` is
read there.
-/

namespace Coordinator

structure ServicePair where
  localUuid : String
  remoteUuid : String := ""
deriving DecidableEq

structure PairInfo where
  ipPort : String
  servicePair : List ServicePair
deriving DecidableEq

structure AppInfo where
  appId : String
  pairInfos : List PairInfo := []
deriving DecidableEq

structure Request where
  uuid : List String
  ipPort : String
deriving DecidableEq

/-- `uuid.substr(0, uuid.find('_'))`. -/
def getAppIdFromUUID (uuid : String) : String :=
  String.ofList (uuid.toList.takeWhile (· ≠ '_'))

def Request.appId (r : Request) : String := getAppIdFromUUID (r.uuid.headD "")

def PairInfo.uuids (p : PairInfo) : List String := p.servicePair.map (·.localUuid)

/-- The pair info has a uuid of the request. -/
def PairInfo.Meets (p : PairInfo) (r : Request) : Prop := ∃ u ∈ p.uuids, u ∈ r.uuid

instance {p : PairInfo} {r : Request} : Decidable (p.Meets r) :=
  inferInstanceAs (Decidable (∃ u ∈ p.uuids, u ∈ r.uuid))

/-! ## Registration -/

/-- `ReplaceUUIDForNewIp`: the first pair info that has a uuid of the request gets its address. -/
def replaceUUIDForNewIp (r : Request) : List PairInfo → Option (List PairInfo)
  | [] => none
  | p :: ps =>
    if p.Meets r then some ({ p with ipPort := r.ipPort } :: ps)
    else (replaceUUIDForNewIp r ps).map (p :: ·)

/-- The pair info that `RegisterUUID` adds for a request whose uuids are all new. -/
def Request.pairInfo (r : Request) : PairInfo :=
  { ipPort := r.ipPort, servicePair := r.uuid.map fun u => { localUuid := u } }

/-- What `RegisterUUID` makes of the stored pair infos. -/
def registerPairInfos (r : Request) (ps : List PairInfo) : List PairInfo :=
  (replaceUUIDForNewIp r ps).getD (ps ++ [r.pairInfo])

def AppInfo.register (info : AppInfo) (r : Request) : AppInfo :=
  { info with pairInfos := registerPairInfos r info.pairInfos }

/-! ## Lookup -/

/-- `GetPairInfo` on the `AppInfo` read from Redis, `none` if it could not be read. The first
    message is never seen: without a pair it is replaced by the second. -/
def getPairInfo (stored : Option AppInfo) (r : Request) : Except String (List ServicePair) :=
  if r.uuid = [] then .error "uuid is empty"
  else
    let pairs := match stored with
      | none => []
      | some info => ((info.pairInfos.find? fun p => r.ipPort = p.ipPort).map (·.servicePair)).getD []
    if pairs = [] then .error ("lack of pair uuid info, app_id : " ++ r.appId)
    else if pairs.any fun sp => sp.remoteUuid = "" then
      .error ("lack of remote uuid pair, app_id : " ++ r.appId)
    else .ok pairs

theorem getPairInfo_eq_ok {info : AppInfo} {r : Request} {pairs : List ServicePair}
    (h : getPairInfo (some info) r = .ok pairs) :
    ∃ p, info.pairInfos.find? (fun p => r.ipPort = p.ipPort) = some p ∧ pairs = p.servicePair := by
  unfold getPairInfo at h
  dsimp only at h
  split at h
  · cases h
  · split at h
    · cases h
    · next hne =>
      split at h
      · cases h
      · cases hfind : info.pairInfos.find? fun p => r.ipPort = p.ipPort with
        | none => simp [hfind] at hne
        | some p => exact ⟨p, rfl, by simpa [hfind] using (Except.ok.inj h).symm⟩

/-! ## Facts about registration -/

variable {r r' : Request} {p : PairInfo} {ps ps' : List PairInfo}

@[simp] theorem uuids_pairInfo : r.pairInfo.uuids = r.uuid := by
  simp [Request.pairInfo, PairInfo.uuids, Function.comp_def]

/-- A pair info that has one uuid of the request has exactly its uuids. -/
def PairInfo.Consistent (p : PairInfo) (r : Request) : Prop :=
  p.Meets r → p.uuids ⊆ r.uuid ∧ r.uuid ⊆ p.uuids

instance : Decidable (p.Consistent r) :=
  inferInstanceAs (Decidable (p.Meets r → p.uuids ⊆ r.uuid ∧ r.uuid ⊆ p.uuids))

/-- The parts of the list a replacement leaves and changes. -/
theorem replaceUUIDForNewIp_eq_some (h : replaceUUIDForNewIp r ps = some ps') :
    ∃ before p after, ps = before ++ p :: after ∧ (∀ q ∈ before, ¬ q.Meets r) ∧ p.Meets r ∧
      ps' = before ++ { p with ipPort := r.ipPort } :: after := by
  induction ps generalizing ps' with
  | nil => cases h
  | cons q ps ih =>
    unfold replaceUUIDForNewIp at h
    split at h
    · next hq =>
      obtain rfl : { q with ipPort := r.ipPort } :: ps = ps' := by simpa using h
      exact ⟨[], q, ps, rfl, by simp, hq, rfl⟩
    · next hq =>
      obtain ⟨ps₁, h₁, rfl⟩ := Option.map_eq_some_iff.mp h
      obtain ⟨before, p, after, rfl, hbefore, hp, rfl⟩ := ih h₁
      refine ⟨q :: before, p, after, rfl, ?_, hp, rfl⟩
      intro q' hq'
      rcases List.mem_cons.mp hq' with rfl | hq'
      · exact hq
      · exact hbefore q' hq'

theorem replaceUUIDForNewIp_eq_none :
    replaceUUIDForNewIp r ps = none ↔ ∀ q ∈ ps, ¬ q.Meets r := by
  induction ps with
  | nil => simp [replaceUUIDForNewIp]
  | cons q ps ih =>
    unfold replaceUUIDForNewIp
    split
    · next hq => simp [hq]
    · next hq => simp [ih, hq]

/-- Registration changes the address of the first pair info of the worker, or adds one. -/
theorem registerPairInfos_cases (r : Request) (ps : List PairInfo) :
    (∃ before p after, ps = before ++ p :: after ∧ (∀ q ∈ before, ¬ q.Meets r) ∧ p.Meets r ∧
      registerPairInfos r ps = before ++ { p with ipPort := r.ipPort } :: after) ∨
    (∀ q ∈ ps, ¬ q.Meets r) ∧ registerPairInfos r ps = ps ++ [r.pairInfo] := by
  unfold registerPairInfos
  cases h : replaceUUIDForNewIp r ps with
  | none => exact .inr ⟨replaceUUIDForNewIp_eq_none.mp h, rfl⟩
  | some ps' =>
    obtain ⟨before, p, after, heq, hbefore, hp, rfl⟩ := replaceUUIDForNewIp_eq_some h
    exact .inl ⟨before, p, after, heq, hbefore, hp, rfl⟩

/-- A pair info after a registration has the uuids of one before it, or of the request. -/
theorem mem_registerPairInfos (h : p ∈ registerPairInfos r ps) :
    (∃ q ∈ ps, p.uuids = q.uuids) ∨ p = r.pairInfo := by
  obtain ⟨before, q, after, rfl, -, -, heq⟩ | ⟨-, heq⟩ := registerPairInfos_cases r ps
  · rw [heq] at h
    simp only [List.mem_append, List.mem_cons] at h
    rcases h with h | rfl | h
    · exact .inl ⟨p, by simp [h], rfl⟩
    · exact .inl ⟨q, by simp, rfl⟩
    · exact .inl ⟨p, by simp [h], rfl⟩
  · rw [heq] at h
    simp only [List.mem_append, List.mem_singleton] at h
    exact h.imp_left fun h => ⟨p, h, rfl⟩

/-- Every uuid of the request is in a pair info with its address. -/
def Registered (ps : List PairInfo) (r : Request) : Prop :=
  ∀ u ∈ r.uuid, ∃ p ∈ ps, p.ipPort = r.ipPort ∧ u ∈ p.uuids

instance : Decidable (Registered ps r) :=
  inferInstanceAs (Decidable (∀ u ∈ r.uuid, ∃ p ∈ ps, p.ipPort = r.ipPort ∧ u ∈ p.uuids))

theorem registered_register (hcons : ∀ p ∈ ps, p.Consistent r) :
    Registered (registerPairInfos r ps) r := by
  intro u hu
  obtain ⟨before, p, after, rfl, -, hp, heq⟩ | ⟨-, heq⟩ := registerPairInfos_cases r ps
  · refine ⟨{ p with ipPort := r.ipPort }, by simp [heq], rfl, ?_⟩
    exact (hcons p (by simp) hp).2 hu
  · exact ⟨r.pairInfo, by simp [heq], rfl, by simpa using hu⟩

/-- The registration of one worker leaves those of the others. -/
theorem Registered.register_other (h : Registered ps r') (hcons : ∀ p ∈ ps, p.Consistent r)
    (hdisj : ∀ u ∈ r'.uuid, u ∉ r.uuid) : Registered (registerPairInfos r ps) r' := by
  intro u hu
  obtain ⟨q, hq, hip, huq⟩ := h u hu
  obtain ⟨before, p, after, rfl, -, hp, heq⟩ | ⟨-, heq⟩ := registerPairInfos_cases r ps
  · simp only [List.mem_append, List.mem_cons] at hq
    rcases hq with hq | rfl | hq
    · exact ⟨q, by simp [heq, hq], hip, huq⟩
    · -- the replaced pair info is that of the request alone
      exact absurd ((hcons q (by simp) hp).1 huq) (hdisj u hu)
    · exact ⟨q, by simp [heq, hq], hip, huq⟩
  · exact ⟨q, by simp [heq, hq], hip, huq⟩

theorem PairInfo.Consistent.congr {q : PairInfo} (h : q.Consistent r) (heq : p.uuids = q.uuids) :
    p.Consistent r := by
  unfold PairInfo.Consistent PairInfo.Meets at h ⊢
  rwa [heq]

theorem consistent_pairInfo_self : r.pairInfo.Consistent r := by
  intro _
  simp

theorem consistent_pairInfo_of_disjoint (hdisj : ∀ u ∈ r.uuid, u ∉ r'.uuid) :
    r.pairInfo.Consistent r' := by
  rintro ⟨u, hu, hu'⟩
  exact absurd hu' (hdisj u (by simpa using hu))

theorem consistent_register (hcons : ∀ p ∈ ps, p.Consistent r') (hnew : r.pairInfo.Consistent r') :
    ∀ p ∈ registerPairInfos r ps, p.Consistent r' := by
  intro p hp
  rcases mem_registerPairInfos hp with ⟨q, hq, heq⟩ | rfl
  · exact (hcons q hq).congr heq
  · exact hnew

end Coordinator
