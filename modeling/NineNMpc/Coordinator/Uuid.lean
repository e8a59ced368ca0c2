-- SUMMARY: The uuid of a trainer worker: how it is built from the model's name and version, and when the coordinator reads the app id and the service back.
import NineNMpc.Coordinator.AppInfo

/-!
# Uuids of workers

`StartApplication` of `Coordinator/services/internal_service_impl.cc` makes the app id
from the model's uri, its version and the time, `_parse_mconfig` of
`Trainer/fl_comm_libs/flenv.py` makes the uuid of a worker from it, and
`GetAppIdFromUUID` and `GetServiceFromUUID` of `Coordinator/common/util.h` take it apart
again. `Split` runs forever on an empty separator, so a separator is not empty.
-/

namespace Coordinator

/-! ## Split -/

/-- `str.find(sep, pos)`, in the part of the string that begins at `pos`. -/
def find (sep : List Char) : List Char → Option Nat
  | [] => if sep = [] then some 0 else none
  | c :: cs => if sep.isPrefixOf (c :: cs) then some 0 else (find sep cs).map (· + 1)

theorem find_le {sep str : List Char} {k : Nat} (h : find sep str = some k) :
    k + sep.length ≤ str.length := by
  induction str generalizing k with
  | nil =>
    simp only [find] at h
    split at h
    case isTrue hsep =>
      cases h
      simp [hsep]
    case isFalse => cases h
  | cons c cs ih =>
    simp only [find] at h
    split at h
    case isTrue hsep =>
      cases h
      simpa using (List.isPrefixOf_iff_prefix.mp hsep).length_le
    case isFalse =>
      obtain ⟨j, hj, rfl⟩ := Option.map_eq_some_iff.mp h
      have := ih hj
      simp only [List.length_cons]
      omega

abbrev Separator := {sep : List Char // sep ≠ []}

/-- The `while` loop of `Split`, on the part of the string that begins at `pos_begin`. -/
def splitLoop (sep : Separator) (str : List Char) : List String :=
  match _hfind : find sep.1 str with
  | some commaPos =>
    let tmp := str.take commaPos
    let values := splitLoop sep (str.drop (commaPos + sep.1.length))
    if tmp = [] then values else String.ofList tmp :: values
  | none => if str = [] then [] else [String.ofList str]
termination_by str.length
decreasing_by
  have hle := find_le _hfind
  have hpos := List.length_pos_of_ne_nil sep.2
  rw [List.length_drop]
  omega

/-- `find_first_not_of` skips the characters of the separator, whatever their order. -/
def split (str : String) (sep : Separator) : List String :=
  splitLoop sep (str.toList.dropWhile (· ∈ sep.1))

def underscore : Separator := ⟨['_'], by simp⟩

def getServiceFromUUID (uuid : String) : String :=
  match split uuid underscore with
  | _ :: service :: _ => service
  | _ => ""

/-! ## The app id and the uuid -/

structure ConfInfo where
  modelUri : String
deriving DecidableEq

/-- Redis with the configurations of the models, and the parser of their JSON. -/
structure ConfStore where
  get : String → Option String
  jsonStringToMessage : String → Option ConfInfo

def getJsonConfFromRedis (redis : ConfStore) (modelUri version : String) : Option ConfInfo := do
  let value ← redis.get (modelUri ++ "-" ++ version)
  let conf ← redis.jsonStringToMessage value
  if modelUri = conf.modelUri then some conf else none

/-- The app id that `StartApplication` gives to an accepted request at the second `tvSec`. -/
def startApplication (redis : ConfStore) (modelUri version : String) (tvSec : Int) :
    Except String String :=
  match getJsonConfFromRedis redis modelUri version with
  | none =>
    .error ("model_uri conf error. model_uri: " ++ modelUri ++ " version: " ++ version)
  | some _ => .ok ("flapp-jd-" ++ modelUri ++ "-" ++ version ++ "-" ++ toString tvSec)

/-- `'%s_TrainerWorkerService_%s' % (appli_id, worker_id)`. -/
def channelAppliId (appliId workerId : String) : String :=
  appliId ++ "_TrainerWorkerService_" ++ workerId

/-! ## Reading the uuid -/

variable {a b : List Char}

theorem find_underscore (h : '_' ∉ a) : find ['_'] (a ++ '_' :: b) = some a.length := by
  induction a with
  | nil => simp [find, List.isPrefixOf]
  | cons c a ih =>
    simp only [List.mem_cons, not_or] at h
    simp [find, List.isPrefixOf, h.1, ih h.2]

theorem splitLoop_underscore (h : '_' ∉ a) (hne : a ≠ []) :
    splitLoop underscore (a ++ '_' :: b) = String.ofList a :: splitLoop underscore b := by
  rw [splitLoop]
  split
  case h_1 k hk =>
    rw [show underscore.1 = ['_'] from rfl, find_underscore h, Option.some.injEq] at hk
    subst hk
    simp [underscore, hne]
  case h_2 hk => simp [underscore, find_underscore h] at hk

theorem getServiceFromUUID_eq (h : '_' ∉ a) (hne : a ≠ []) {service rest : List Char}
    (hservice : '_' ∉ service) (hne' : service ≠ []) :
    getServiceFromUUID (String.ofList (a ++ '_' :: (service ++ '_' :: rest))) =
      String.ofList service := by
  obtain ⟨c, a, rfl⟩ := List.exists_cons_of_ne_nil hne
  have hc : c ≠ '_' := fun hc => h (by simp [hc])
  have hsplit : split (String.ofList ((c :: a) ++ '_' :: (service ++ '_' :: rest))) underscore =
      String.ofList (c :: a) :: String.ofList service :: splitLoop underscore rest := by
    unfold split
    rw [String.toList_ofList, List.cons_append,
      List.dropWhile_cons_of_neg (by simpa [underscore] using hc), ← List.cons_append,
      splitLoop_underscore h hne, splitLoop_underscore hservice hne']
  rw [getServiceFromUUID, hsplit]

/-- The app id is what stands before the first underscore. -/
theorem getAppIdFromUUID_eq_iff :
    getAppIdFromUUID (String.ofList (a ++ '_' :: b)) = String.ofList a ↔ '_' ∉ a := by
  unfold getAppIdFromUUID
  rw [String.toList_ofList, String.ofList_inj]
  constructor
  · intro h hmem
    have hall := List.all_takeWhile (p := (· ≠ '_')) (l := a ++ '_' :: b)
    rw [h, List.all_eq_true] at hall
    simpa using hall '_' hmem
  · intro h
    rw [List.takeWhile_append_of_pos fun c hc => by simpa using ne_of_mem_of_not_mem hc h]
    simp

theorem underscore_notMem_toString (i : Int) : '_' ∉ (toString i).toList := by
  rw [Int.toString_eq_repr, Int.repr_eq_if]
  split <;> simp

variable {redis : ConfStore} {modelUri version appId : String} {tvSec : Int}

/-- Where the underscores of an app id come from. -/
theorem underscore_mem_appId (h : startApplication redis modelUri version tvSec = .ok appId) :
    '_' ∈ appId.toList ↔ '_' ∈ modelUri.toList ∨ '_' ∈ version.toList := by
  have hsec := underscore_notMem_toString tvSec
  rw [Int.toString_eq_repr] at hsec
  unfold startApplication at h
  split at h
  case h_1 => cases h
  case h_2 =>
    obtain rfl := Except.ok.inj h
    simp [hsec]

theorem appId_ne_nil (h : startApplication redis modelUri version tvSec = .ok appId) :
    appId.toList ≠ [] := by
  unfold startApplication at h
  split at h
  case h_1 => cases h
  case h_2 =>
    obtain rfl := Except.ok.inj h
    simp

/-- The uuid of a worker is read back if and only if neither the model's uri nor its version has
    an underscore. -/
theorem uuid_read_back_iff (h : startApplication redis modelUri version tvSec = .ok appId)
    (workerId : String) :
    (getAppIdFromUUID (channelAppliId appId workerId) = appId ∧
      getServiceFromUUID (channelAppliId appId workerId) = "TrainerWorkerService") ↔
    '_' ∉ modelUri.toList ∧ '_' ∉ version.toList := by
  have huuid : channelAppliId appId workerId = String.ofList (appId.toList ++
      '_' :: ("TrainerWorkerService".toList ++ '_' :: workerId.toList)) := by
    rw [← String.toList_inj]
    simp [channelAppliId]
  have happ := getAppIdFromUUID_eq_iff (a := appId.toList)
    (b := "TrainerWorkerService".toList ++ '_' :: workerId.toList)
  rw [← huuid, String.ofList_toList, underscore_mem_appId h, not_or] at happ
  rw [happ]
  constructor
  · exact fun hread => hread.1
  · intro hnone
    refine ⟨hnone, ?_⟩
    have hnotMem : '_' ∉ appId.toList := by rwa [underscore_mem_appId h, not_or]
    rw [huuid, getServiceFromUUID_eq hnotMem (appId_ne_nil h) (by decide) (by decide)]
    rfl

namespace Sample

def confJson (modelUri : String) : String :=
  "\x7b\"conf_info\": \x7b\"model_uri\": \"" ++ modelUri ++ "\"\x7d\x7d"

/-- Redis has version 1 of two models. -/
def confStore : ConfStore where
  get key :=
    if key = "fl-1" then some (confJson "fl")
    else if key = "fl_mnist-1" then some (confJson "fl_mnist")
    else none
  jsonStringToMessage value :=
    if value = confJson "fl" then some { modelUri := "fl" }
    else if value = confJson "fl_mnist" then some { modelUri := "fl_mnist" }
    else none

theorem fl_read_back :
    startApplication confStore "fl" "1" 1600000000 = .ok "flapp-jd-fl-1-1600000000" ∧
    getAppIdFromUUID "flapp-jd-fl-1-1600000000_TrainerWorkerService_3" =
      "flapp-jd-fl-1-1600000000" ∧
    getServiceFromUUID "flapp-jd-fl-1-1600000000_TrainerWorkerService_3" =
      "TrainerWorkerService" := by
  have h : startApplication confStore "fl" "1" 1600000000 = .ok "flapp-jd-fl-1-1600000000" := by
    decide +kernel
  exact ⟨h, (uuid_read_back_iff h "3").mpr (by decide)⟩

/-- The uuid of a model with an underscore in its name has the app id `flapp-jd-fl`. -/
theorem fl_mnist_not_read_back :
    startApplication confStore "fl_mnist" "1" 1600000000 = .ok "flapp-jd-fl_mnist-1-1600000000" ∧
    ¬ (getAppIdFromUUID (channelAppliId "flapp-jd-fl_mnist-1-1600000000" "3") =
        "flapp-jd-fl_mnist-1-1600000000" ∧
      getServiceFromUUID (channelAppliId "flapp-jd-fl_mnist-1-1600000000" "3") =
        "TrainerWorkerService") := by
  refine ⟨by decide +kernel, fun hread => ?_⟩
  have happ : getAppIdFromUUID (channelAppliId "flapp-jd-fl_mnist-1-1600000000" "3") =
      "flapp-jd-fl" := by
    decide +kernel
  rw [happ] at hread
  exact absurd hread.1 (by decide +kernel)

end Sample

end Coordinator
