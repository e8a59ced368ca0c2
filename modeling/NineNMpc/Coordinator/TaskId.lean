-- SUMMARY: Task ids of the Kubernetes jobs: the hash of the app id padded to a width, when the id is of that width and tells hashes apart, and the commands that carry it.
import NineNMpc.Lib.Decimal

/-!
# Task ids

`GetTaskId` of `Coordinator/services/common.cc` and the three functions that call a script of
the `ResourceManager` with it. The hash function of the standard library, the number of
`ConfInfo::FOLLOWER` and `system` are parameters.
-/

namespace Coordinator

/-- The loop of `GetTaskId` with `i` passes to go: a pass takes a digit off the hash, or appends a
    zero when none is left. -/
def padTaskId : Nat → UInt64 → String → String
  | 0, _, re => re
  | i + 1, h, re => if 0 < h then padTaskId i (h / 10) re else padTaskId i h (re ++ "0")

/-- The configuration of an application, as far as its jobs depend on it. -/
structure AppInfo.ConfInfo where
  role : Int := 0
  appId : String := ""
  workerNum : Int := 0
  trainDataStart : String := ""
  trainDataEnd : String := ""
  dataSourceName : String := ""
  dataNumEpoch : Int := 0
deriving DecidableEq

def checkK8SParaInfo (conf : AppInfo.ConfInfo) : Bool :=
  conf.workerNum ≠ 0 ∧ conf.trainDataStart ≠ "" ∧ conf.trainDataEnd ≠ "" ∧
    conf.dataSourceName ≠ "" ∧ conf.dataNumEpoch ≠ 0

/-- `WIFEXITED` and `WEXITSTATUS` of a status of `system`. -/
def wIfExited (status : BitVec 32) : Bool := status &&& 0x7f = 0

def wExitStatus (status : BitVec 32) : Int := ((status &&& 0xff00) >>> 8).toNat

section

variable (hash : String → UInt64) (follower : Int)

def getTaskId (str : String) : String :=
  let h := hash str
  padTaskId 31 h (toString h)

/-- The digit that is appended for the role. -/
def roleDigit (role : Int) : String := if role = follower then "0" else "1"

def taskId (appId : String) (role : Int) : String := getTaskId hash appId ++ roleDigit follower role

def createJob (conf : AppInfo.ConfInfo) : String :=
  "python ../ResourceManager/create_job.py " ++ toString conf.role ++ " " ++
    taskId hash follower conf.appId conf.role ++ " " ++ conf.appId ++ " " ++
    toString conf.workerNum ++ " " ++ conf.trainDataStart ++ " " ++ conf.trainDataEnd ++ " " ++
    conf.dataSourceName ++ " " ++ toString conf.dataNumEpoch

def checkJob (appId : String) (conf : AppInfo.ConfInfo) : String :=
  "python ../ResourceManager/check_job.py " ++ toString conf.role ++ " " ++
    taskId hash follower appId conf.role

def deleteJob (appId : String) (conf : AppInfo.ConfInfo) : String :=
  "python ../ResourceManager/delete_job.py " ++ toString conf.role ++ " " ++
    taskId hash follower appId conf.role

variable (system : String → BitVec 32)

def startK8SFromAppInfo (conf : AppInfo.ConfInfo) : Bool :=
  if checkK8SParaInfo conf then system (createJob hash follower conf) = 0 else false

/-- `stored` is what `GetAppInfoFromRedis` reads. Its failure is not looked at: the message is then
    the cleared one. -/
def checkK8S (appId : String) (stored : Option AppInfo.ConfInfo) : Int :=
  let status := system (checkJob hash follower appId (stored.getD {}))
  if wIfExited status then wExitStatus status else -1

def stopK8S (appId : String) (stored : Option AppInfo.ConfInfo) : Bool :=
  system (deleteJob hash follower appId (stored.getD {})) = 0

end

/-! ## The padded hash -/

variable {hash : String → UInt64} {follower : Int} {a b s : String}

/-- A pass is used up by each digit, and `0` has none. -/
theorem toList_padTaskId {i : Nat} {h : UInt64} {re : String} : (padTaskId i h re).toList =
    re.toList ++ List.replicate (i - (Nat.digits 10 h.toNat).length) '0' := by
  induction i generalizing h re with
  | zero => simp [padTaskId]
  | succ i ih =>
    rw [padTaskId]
    split
    · next hpos =>
      have hdigits := Nat.digits_def' (b := 10) (by decide) (UInt64.lt_iff_toNat_lt.mp hpos)
      rw [ih, hdigits, UInt64.toNat_div, List.length_cons, Nat.succ_sub_succ]
      rfl
    · next hzero =>
      obtain rfl : h = 0 := by simpa using hzero
      rw [ih, String.toList_append, List.append_assoc]
      simp [List.replicate_succ]

theorem toList_getTaskId : (getTaskId hash s).toList = Nat.toDigits 10 (hash s).toNat ++
    List.replicate (31 - (Nat.digits 10 (hash s).toNat).length) '0' := by
  have hrepr : (toString (hash s)).toList = Nat.toDigits 10 (hash s).toNat := Nat.toList_repr
  rw [getTaskId, toList_padTaskId, hrepr]

theorem toNat_pos {h : UInt64} (hne : h ≠ 0) : 0 < h.toNat :=
  Nat.pos_of_ne_zero fun h0 => hne (UInt64.toNat_inj.mp h0)

theorem mul_pow_ne {h : UInt64} {k : Nat} (hne : h ≠ 0) (hk : 0 < k) : h.toNat ≠ h.toNat * 10 ^ k := by
  have hpow : 1 < 10 ^ k := Nat.one_lt_pow (by omega) (by decide)
  exact Nat.ne_of_lt ((Nat.lt_mul_iff_one_lt_right (toNat_pos hne)).mpr hpow)

/-- A numeral is written, and then padded, for a hash with digits. -/
theorem toList_getTaskId_of_pos (h : hash s ≠ 0) :
    (getTaskId hash s).toList = (Nat.toDigits 10 (hash s).toNat).rightpad 31 '0' := by
  rw [toList_getTaskId, List.rightpad, Nat.length_toDigits (by decide) (toNat_pos h)]

/-- `to_string` writes a zero that the loop does not count. -/
theorem toList_getTaskId_zero (h : hash s = 0) : (getTaskId hash s).toList = List.replicate 32 '0' := by
  rw [toList_getTaskId, h]
  rfl

theorem length_toDigits_hash {h : UInt64} : (Nat.toDigits 10 h.toNat).length ≤ 31 :=
  (Nat.length_toDigits_le_iff (by decide) (by decide)).mpr (by have := h.toNat_lt; omega)

theorem length_getTaskId : (getTaskId hash s).length = if hash s = 0 then 32 else 31 := by
  rw [← String.length_toList]
  split
  · next h => rw [toList_getTaskId_zero h, List.length_replicate]
  · next h =>
    rw [toList_getTaskId_of_pos h, List.length_rightpad]
    exact Nat.max_eq_left length_toDigits_hash

theorem getTaskId_eq_of_mul_pow {k : Nat} (h : (hash b).toNat = (hash a).toNat * 10 ^ k) :
    getTaskId hash b = getTaskId hash a := by
  by_cases ha : hash a = 0
  · have hb : hash b = 0 := UInt64.toNat_inj.mp (by simpa [ha] using h)
    rw [getTaskId, getTaskId, ha, hb]
  · have hpos : 0 < (hash a).toNat := toNat_pos ha
    have hb : hash b ≠ 0 := by
      rintro hb
      have hpow : 0 < (hash a).toNat * 10 ^ k := Nat.mul_pos hpos (Nat.pow_pos (by decide))
      rw [← h, hb] at hpow
      exact absurd hpow (by decide)
    have hwidth : (Nat.toDigits 10 (hash b).toNat).length ≤ 31 := length_toDigits_hash
    rw [← String.toList_inj, toList_getTaskId_of_pos ha, toList_getTaskId_of_pos hb]
    rw [h] at hwidth ⊢
    exact Nat.rightpad_toDigits_mul_pow (by decide) hpos hwidth

/-- Task ids are the same for hashes that differ by a power of ten. -/
theorem getTaskId_eq_iff : getTaskId hash a = getTaskId hash b ↔
    ∃ k, (hash b).toNat = (hash a).toNat * 10 ^ k ∨ (hash a).toNat = (hash b).toNat * 10 ^ k := by
  constructor
  · intro h
    rw [← String.toList_inj, toList_getTaskId, toList_getTaskId] at h
    exact Nat.eq_mul_pow_of_append_eq (by decide) (by decide) h
  · rintro ⟨k, h | h⟩
    · exact (getTaskId_eq_of_mul_pow h).symm
    · exact getTaskId_eq_of_mul_pow h

theorem deleteJob_eq_iff {conf conf' : AppInfo.ConfInfo} (hrole : conf.role = conf'.role) :
    deleteJob hash follower a conf = deleteJob hash follower b conf' ↔
      getTaskId hash a = getTaskId hash b := by
  unfold deleteJob taskId
  rw [hrole]
  exact (String.append_right_inj _).trans (String.append_left_inj _)

/-- Two applications of one role share their job exactly where they share the id: whatever the
    scripts do, checking and stopping the one is checking and stopping the other. -/
theorem sameJob_iff {stored stored' : Option AppInfo.ConfInfo}
    (hrole : (stored.getD {}).role = (stored'.getD {}).role) :
    (∀ system, checkK8S hash follower system a stored = checkK8S hash follower system b stored' ∧
        stopK8S hash follower system a stored = stopK8S hash follower system b stored') ↔
      ∃ k, (hash b).toNat = (hash a).toNat * 10 ^ k ∨ (hash a).toNat = (hash b).toNat * 10 ^ k := by
  rw [← getTaskId_eq_iff]
  constructor
  · intro h
    -- a script that fails for every other job
    have hstop := (h fun c => if c = deleteJob hash follower a (stored.getD {}) then 0 else 1).2
    have hsame : deleteJob hash follower b (stored'.getD {}) =
        deleteJob hash follower a (stored.getD {}) := by
      by_contra hne
      simp [stopK8S, hne] at hstop
    exact (deleteJob_eq_iff hrole).mp hsame.symm
  · intro htask system
    have hcheck : checkJob hash follower a (stored.getD {}) =
        checkJob hash follower b (stored'.getD {}) := by
      unfold checkJob taskId
      rw [hrole, htask]
    have hdelete : deleteJob hash follower a (stored.getD {}) =
        deleteJob hash follower b (stored'.getD {}) :=
      (deleteJob_eq_iff hrole).mpr htask
    unfold checkK8S stopK8S
    exact ⟨by rw [hcheck], by rw [hdelete]⟩

/-! ## Fixed width -/

/-- The task ids of two app ids tell different hashes apart, both have 31 characters, and the role
    digit is the one behind these. -/
structure TaskIds (hash : String → UInt64) (follower : Int) (a b : String) : Prop where
  distinct : hash a ≠ hash b → getTaskId hash a ≠ getTaskId hash b
  width : ∀ s, s = a ∨ s = b → (getTaskId hash s).length = 31
  roleDigit : ∀ s role, s = a ∨ s = b →
    (taskId hash follower s role).toList.drop 31 = (roleDigit follower role).toList

theorem drop_taskId {role : Int} (h : (getTaskId hash s).length = 31) :
    (taskId hash follower s role).toList.drop 31 = (roleDigit follower role).toList := by
  rw [taskId, String.toList_append]
  exact List.drop_left' (by rw [String.length_toList, h])

/-- Where the ids are not all zeros, they fail only for hashes that differ by a power of ten. -/
theorem taskIds_iff (hash : String → UInt64) (follower : Int) (a b : String) :
    TaskIds hash follower a b ↔ hash a ≠ 0 ∧ hash b ≠ 0 ∧ ∀ k, 0 < k →
      (hash a).toNat ≠ (hash b).toNat * 10 ^ k ∧ (hash b).toNat ≠ (hash a).toNat * 10 ^ k := by
  have hwidth : ∀ s, (getTaskId hash s).length = 31 ↔ hash s ≠ 0 := by
    intro s
    rw [length_getTaskId]
    split <;> simp_all
  constructor
  · intro h
    have ha := (hwidth a).mp (h.width a (.inl rfl))
    have hb := (hwidth b).mp (h.width b (.inr rfl))
    refine ⟨ha, hb, fun k hk => ⟨fun heq => ?_, fun heq => ?_⟩⟩
    · refine h.distinct (fun hab => ?_) (getTaskId_eq_of_mul_pow heq)
      exact absurd (hab ▸ heq) (mul_pow_ne hb hk)
    · refine h.distinct (fun hab => ?_) (getTaskId_eq_of_mul_pow heq).symm
      exact absurd (hab ▸ heq) (mul_pow_ne ha hk)
  · rintro ⟨ha, hb, hk⟩
    have hne : ∀ s, s = a ∨ s = b → (getTaskId hash s).length = 31 := by
      rintro s (rfl | rfl)
      · exact (hwidth s).mpr ha
      · exact (hwidth s).mpr hb
    refine ⟨fun hab heq => ?_, hne, fun s role hs => drop_taskId (hne s hs)⟩
    obtain ⟨k, h⟩ := getTaskId_eq_iff.mp heq
    rcases Nat.eq_zero_or_pos k with rfl | hpos
    · refine hab (UInt64.toNat_inj.mp ?_)
      simp only [Nat.pow_zero, Nat.mul_one] at h
      exact h.elim Eq.symm id
    · exact h.elim (hk k hpos).2 (hk k hpos).1

namespace TaskIds.Sample

/-- `std::hash` of libstdc++ on three app ids, of which `job-0000036887337jj8-wyf` has the hash 0. -/
def stdHash (str : String) : UInt64 :=
  if str = "job-000001662219g7y7zw3v" then 1
  else if str = "job-000006772287xr6tyzap" then 10
  else 0

/-- Two applications with one task id, and a task id of 32 characters. -/
theorem shared_taskId :
    stdHash "job-000001662219g7y7zw3v" ≠ stdHash "job-000006772287xr6tyzap" ∧
      getTaskId stdHash "job-000001662219g7y7zw3v" = getTaskId stdHash "job-000006772287xr6tyzap" ∧
      (getTaskId stdHash "job-0000036887337jj8-wyf").length = 32 ∧
      ¬ TaskIds stdHash 1 "job-000001662219g7y7zw3v" "job-000006772287xr6tyzap" ∧
      ¬ TaskIds stdHash 1 "job-0000036887337jj8-wyf" "job-000001662219g7y7zw3v" := by
  have hone : stdHash "job-000001662219g7y7zw3v" = 1 := by decide
  have hten : stdHash "job-000006772287xr6tyzap" = 10 := by decide
  have hzero : stdHash "job-0000036887337jj8-wyf" = 0 := by decide
  have hne : stdHash "job-000001662219g7y7zw3v" ≠ stdHash "job-000006772287xr6tyzap" := by
    rw [hone, hten]
    decide
  have hshared : getTaskId stdHash "job-000001662219g7y7zw3v" =
      getTaskId stdHash "job-000006772287xr6tyzap" :=
    getTaskId_eq_iff.mpr ⟨1, .inl (by rw [hone, hten]; rfl)⟩
  have hlong : (getTaskId stdHash "job-0000036887337jj8-wyf").length = 32 := by
    rw [length_getTaskId, if_pos hzero]
  refine ⟨hne, hshared, hlong, fun h => h.distinct hne hshared, fun h => ?_⟩
  rw [h.width _ (.inl rfl)] at hlong
  exact absurd hlong (by decide)

end TaskIds.Sample

end Coordinator
