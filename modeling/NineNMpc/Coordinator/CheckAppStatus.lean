-- SUMMARY: The monitor of the running applications: what a pass of DoCheckAppStatus does with each app id, and the failed Syn that ends it.
import Mathlib.Data.Finset.Sort
import Mathlib.Data.String.Basic
import NineNMpc.Lib.Machine
import NineNMpc.Coordinator.AppInfo

/-!
# The monitor of the applications

`Coordinator/services/check_app_status.cc`. A pass goes through the set of app ids under
the read lock, and the ids of the applications that have ended are erased under the write
lock afterwards. `AddAppId` runs in other threads, before a pass or between its two parts.
When the `Syn` call of an application fails, `DoCheckAppStatus` returns, and with it the
thread of the monitor.
-/

namespace Coordinator

inductive AppStatus where
  | finish
  | shutdown
deriving DecidableEq

/-- An `AppInfo` with the field of its configuration that the monitor sets. -/
structure MonitoredApp extends AppInfo where
  localStatus : Option AppStatus := none
deriving DecidableEq

/-- What the calls of a pass return for each app id; a reply of `InvokeSyn` has a status. -/
structure PassOutcomes where
  getAppInfoFromRedis : String → Option MonitoredApp
  checkK8S : String → Int
  invokeSyn : String → Option Int

/-- The status set for a result of `CheckK8S`, `none` while the application runs. -/
def statusOfK8S : Int → Option AppStatus
  | 0 => none
  | 1 => some .finish
  | 2 => some .shutdown
  | _ => some .shutdown

theorem statusOfK8S_eq_none {res : Int} : statusOfK8S res = none ↔ res = 0 := by
  unfold statusOfK8S
  split <;> simp_all

/-! ## A pass -/

/-- `written` are the infos given to `SetAppInfoToRedis`, `examined` and `requests` the app ids
    looked up and the requests sent; `returned` is the `return` out of the loops. -/
structure Pass where
  examined : List String := []
  written : List MonitoredApp := []
  requests : List (String × AppStatus) := []
  appIdArr : List String := []
  returned : Bool := false
deriving DecidableEq

/-- The loop over `app_id_set_`. -/
def checkApps (o : PassOutcomes) : List String → Pass → Pass
  | [], p => p
  | appId :: ids, p =>
    let p := { p with examined := p.examined ++ [appId] }
    match o.getAppInfoFromRedis appId with
    | none => checkApps o ids p
    | some info =>
      match statusOfK8S (o.checkK8S appId) with
      | none => checkApps o ids p
      | some status =>
        let p := { p with
          appIdArr := p.appIdArr ++ [appId]
          written := p.written ++ [{ info with localStatus := some status }]
          requests := p.requests ++ [(appId, status)] }
        match o.invokeSyn appId with
        | none => { p with returned := true }
        | some _ => checkApps o ids p

namespace PassOutcomes

/-- The app's info could be read, and `CheckK8S` says that it does not run. -/
def Ended (o : PassOutcomes) (appId : String) : Prop :=
  (o.getAppInfoFromRedis appId).isSome ∧ o.checkK8S appId ≠ 0

instance {o : PassOutcomes} {appId : String} : Decidable (o.Ended appId) :=
  inferInstanceAs (Decidable (_ ∧ _))

/-- The info of an ended application with its status. -/
def endedInfo (o : PassOutcomes) (appId : String) : Option MonitoredApp := do
  let info ← o.getAppInfoFromRedis appId
  let status ← statusOfK8S (o.checkK8S appId)
  return { info with localStatus := some status }

variable {o : PassOutcomes} {appId : String} {ids : List String} {p : Pass}

theorem endedInfo_isSome : (o.endedInfo appId).isSome ↔ o.Ended appId := by
  unfold endedInfo Ended
  rw [ne_eq, ← statusOfK8S_eq_none]
  cases o.getAppInfoFromRedis appId <;> cases statusOfK8S (o.checkK8S appId) <;> simp

theorem checkApps_running (h : ¬ o.Ended appId) :
    checkApps o (appId :: ids) p = checkApps o ids { p with examined := p.examined ++ [appId] } := by
  conv_lhs => unfold checkApps
  cases hinfo : o.getAppInfoFromRedis appId with
  | none => rfl
  | some info =>
    have hres : o.checkK8S appId = 0 := by simpa [Ended, hinfo] using h
    simp [hres, statusOfK8S]

/-- An application that has ended: its info is written, and the pass goes on if `Syn` succeeds. -/
theorem checkApps_ended (h : o.Ended appId) :
    ∃ info status, o.endedInfo appId = some info ∧ info.localStatus = some status ∧
      checkApps o (appId :: ids) p =
        if (o.invokeSyn appId).isSome then
          checkApps o ids { p with
            examined := p.examined ++ [appId]
            written := p.written ++ [info]
            requests := p.requests ++ [(appId, status)]
            appIdArr := p.appIdArr ++ [appId] }
        else
          { p with
            examined := p.examined ++ [appId]
            written := p.written ++ [info]
            requests := p.requests ++ [(appId, status)]
            appIdArr := p.appIdArr ++ [appId]
            returned := true } := by
  obtain ⟨info, hinfo⟩ := Option.isSome_iff_exists.mp h.1
  obtain ⟨status, hstatus⟩ := Option.ne_none_iff_exists'.mp (mt statusOfK8S_eq_none.mp h.2)
  refine ⟨{ info with localStatus := some status }, status, by simp [endedInfo, hinfo, hstatus], rfl, ?_⟩
  conv_lhs => unfold checkApps
  simp only [hinfo, hstatus]
  cases o.invokeSyn appId <;> rfl

/-- The request sent for an application, if it has ended. -/
def request (o : PassOutcomes) (appId : String) : Option (String × AppStatus) := do
  let info ← o.endedInfo appId
  let status ← info.localStatus
  return (appId, status)

/-- What a pass adds if no `Syn` call fails. -/
structure Added (o : PassOutcomes) (ids : List String) (p p' : Pass) : Prop where
  examined : p'.examined = p.examined ++ ids
  written : p'.written = p.written ++ ids.filterMap o.endedInfo
  requests : p'.requests = p.requests ++ ids.filterMap o.request
  appIdArr : p'.appIdArr = p.appIdArr ++ ids.filter (o.Ended ·)
  returned : p'.returned = p.returned

/-- No `Syn` call of an application that has ended fails. -/
def Answered (o : PassOutcomes) (ids : List String) : Prop :=
  ∀ a ∈ ids, o.Ended a → (o.invokeSyn a).isSome

instance : Decidable (o.Answered ids) :=
  inferInstanceAs (Decidable (∀ a ∈ ids, o.Ended a → (o.invokeSyn a).isSome))

theorem checkApps_added (h : o.Answered ids) : o.Added ids p (checkApps o ids p) := by
  induction ids generalizing p with
  | nil => exact ⟨by simp [checkApps], by simp [checkApps], by simp [checkApps], by simp [checkApps], rfl⟩
  | cons a ids ih =>
    have htail : o.Answered ids := fun b hb => h b (by simp [hb])
    by_cases hended : o.Ended a
    · obtain ⟨info, status, hinfo, hstatus, heq⟩ := checkApps_ended hended
      rw [heq, if_pos (h a (by simp) hended)]
      obtain ⟨hexamined, hwritten, hrequests, harr, hreturned⟩ := ih htail (p := { p with
        examined := p.examined ++ [a]
        written := p.written ++ [info]
        requests := p.requests ++ [(a, status)]
        appIdArr := p.appIdArr ++ [a] })
      exact {
        examined := by simp [hexamined]
        written := by simp [hwritten, hinfo]
        requests := by simp [hrequests, request, hinfo, hstatus]
        appIdArr := by simp [harr, hended]
        returned := hreturned }
    · have hinfo : o.endedInfo a = none := by
        rw [← Option.not_isSome_iff_eq_none, endedInfo_isSome]
        exact hended
      rw [checkApps_running hended]
      obtain ⟨hexamined, hwritten, hrequests, harr, hreturned⟩ :=
        ih htail (p := { p with examined := p.examined ++ [a] })
      exact {
        examined := by simp [hexamined]
        written := by simp [hwritten, hinfo]
        requests := by simp [hrequests, request, hinfo]
        appIdArr := by simp [harr, hended]
        returned := hreturned }

theorem checkApps_returned (h : ¬ o.Answered ids) : (checkApps o ids p).returned = true := by
  induction ids generalizing p with
  | nil => exact absurd (fun _ hmem => nomatch hmem) h
  | cons a ids ih =>
    by_cases hended : o.Ended a
    · obtain ⟨info, status, -, -, heq⟩ := checkApps_ended hended
      rw [heq]
      split
      · next hsyn =>
        refine ih fun htail => h fun b hb hb' => ?_
        rcases List.mem_cons.mp hb with rfl | hb
        · exact hsyn
        · exact htail b hb hb'
      · rfl
    · rw [checkApps_running hended]
      refine ih fun htail => h fun b hb hb' => ?_
      rcases List.mem_cons.mp hb with rfl | hb
      · exact absurd hb' hended
      · exact htail b hb hb'

end PassOutcomes

/-! ## The monitor -/

/-- `deleteAppId` is the call of `DeleteAppId` behind the loop, and `returned` the end of the thread. -/
inductive MonitorPc where
  | loop
  | deleteAppId (appIdArr : List String)
  | returned
deriving DecidableEq

/-- `app_id_set_`, with the passes' records added up. -/
structure Monitor where
  appIdSet : Finset String := ∅
  pc : MonitorPc := .loop
  examined : List String := []
  written : List MonitoredApp := []
  requests : List (String × AppStatus) := []

namespace Monitor

inductive Action where
  | addAppId (appId : String)
  | pass (o : PassOutcomes)
  | deleteAppId

def step (s : Monitor) : Action → Option Monitor
  | .addAppId appId => some { s with appIdSet := insert appId s.appIdSet }
  | .pass o =>
    match s.pc with
    | .loop =>
      let p := checkApps o (s.appIdSet.sort (· ≤ ·)) {}
      some { s with
        pc := if p.returned then .returned else .deleteAppId p.appIdArr
        examined := s.examined ++ p.examined
        written := s.written ++ p.written
        requests := s.requests ++ p.requests }
    | _ => none
  | .deleteAppId =>
    match s.pc with
    | .deleteAppId appIdArr =>
      some { s with appIdSet := appIdArr.foldl Finset.erase s.appIdSet, pc := .loop }
    | _ => none

def machine : Machine Monitor Action := ⟨step⟩

variable {s t : Monitor} {o : PassOutcomes} {added : List String}

theorem run_addAppId {as : List Action} :
    machine.run s (added.map .addAppId ++ as) =
      machine.run { s with appIdSet := added.foldl (fun ids a => insert a ids) s.appIdSet } as := by
  induction added generalizing s with
  | nil => rfl
  | cons a added ih => exact ih

theorem mem_foldl_insert {a : String} {ids : Finset String} :
    a ∈ added.foldl (fun ids a => insert a ids) ids ↔ a ∈ ids ∨ a ∈ added := by
  induction added generalizing ids with
  | nil => simp
  | cons b added ih =>
    rw [List.foldl_cons, ih, Finset.mem_insert, List.mem_cons]
    tauto

theorem mem_foldl_erase {a : String} {arr : List String} {ids : Finset String} :
    a ∈ arr.foldl Finset.erase ids ↔ a ∈ ids ∧ a ∉ arr := by
  induction arr generalizing ids with
  | nil => simp
  | cons b arr ih =>
    rw [List.foldl_cons, ih, Finset.mem_erase, List.mem_cons]
    tauto

/-- A pass that has done its work: every app is examined, those that have ended get their status
    and leave the set, and the monitor is back at its loop. -/
structure PassDone (o : PassOutcomes) (added : List String) (s t : Monitor) : Prop where
  examined : t.examined = s.examined ++ s.appIdSet.sort (· ≤ ·)
  written : t.written = s.written ++ (s.appIdSet.sort (· ≤ ·)).filterMap o.endedInfo
  requests : t.requests = s.requests ++ (s.appIdSet.sort (· ≤ ·)).filterMap o.request
  appIdSet : ∀ a, a ∈ t.appIdSet ↔ (a ∈ s.appIdSet ∨ a ∈ added) ∧ ¬ (a ∈ s.appIdSet ∧ o.Ended a)
  next : t.pc = .loop

/-- No `Syn` call of an application in the set that has ended fails. -/
def Answered (s : Monitor) (o : PassOutcomes) : Prop :=
  ∀ a ∈ s.appIdSet, o.Ended a → (o.invokeSyn a).isSome

instance : Decidable (s.Answered o) :=
  inferInstanceAs (Decidable (∀ a ∈ s.appIdSet, o.Ended a → (o.invokeSyn a).isSome))

theorem answered_sort : o.Answered (s.appIdSet.sort (· ≤ ·)) ↔ s.Answered o := by
  simp [PassOutcomes.Answered, Answered]

/-- A pass does its work, with any `AddAppId` between its two parts, exactly when no `Syn` call of an
    application that has ended fails. -/
theorem pass_done_iff (hpc : s.pc = .loop) :
    (∃ t, machine.run s (.pass o :: (added.map .addAppId ++ [.deleteAppId])) = some t ∧
      PassDone o added s t) ↔ s.Answered o := by
  rw [← answered_sort]
  constructor
  · rintro ⟨t, hrun, -⟩
    by_contra hnot
    have hreturned := PassOutcomes.checkApps_returned (p := {}) hnot
    obtain ⟨s', hs, hrun⟩ := machine.run_cons.mp hrun
    simp only [machine, step, hpc, hreturned, if_true, Option.some.injEq] at hs
    rw [run_addAppId] at hrun
    obtain ⟨t', ht, -⟩ := machine.run_cons.mp hrun
    simp [machine, step, ← hs] at ht
  · intro hans
    obtain ⟨hexamined, hwritten, hrequests, harr, hreturned⟩ :=
      PassOutcomes.checkApps_added (p := {}) hans
    simp only [List.nil_append] at hexamined hwritten hrequests harr
    let ids := s.appIdSet.sort (· ≤ ·)
    let passed : Monitor := { s with
      pc := .deleteAppId (ids.filter (o.Ended ·))
      examined := s.examined ++ ids
      written := s.written ++ ids.filterMap o.endedInfo
      requests := s.requests ++ ids.filterMap o.request }
    have hpass : machine.step s (.pass o) = some passed := by
      simp [machine, step, hpc, hexamined, hwritten, hrequests, harr, hreturned, passed, ids]
    refine ⟨{ passed with
      appIdSet := (ids.filter (o.Ended ·)).foldl Finset.erase
        (added.foldl (fun ids a => insert a ids) s.appIdSet)
      pc := .loop }, machine.run_cons.mpr ⟨passed, hpass, ?_⟩, rfl, rfl, rfl, fun a => ?_, rfl⟩
    · rw [run_addAppId]
      rfl
    · simp only [mem_foldl_erase, mem_foldl_insert, List.mem_filter, ids, Finset.mem_sort,
        decide_eq_true_eq]

/-- The monitor is still there exactly if every pass so far was answered. -/
theorem monitors_iff {as : List Action} (hrun : machine.run s as = some t) :
    t.pc ≠ .returned ↔ s.pc ≠ .returned ∧
      machine.Meets (fun s a => ∀ o, a = .pass o → s.Answered o) s as := by
  refine machine.run_iff_meets (P := fun s => s.pc ≠ .returned) ?_ hrun
  intro s a s' hs
  cases a with
  | addAppId appId =>
    cases hs
    simp
  | pass o =>
    simp only [machine, step] at hs
    split at hs
    case h_1 hpc =>
      cases hs
      simp only [hpc, Action.pass.injEq, forall_eq', ← answered_sort]
      by_cases hans : o.Answered (s.appIdSet.sort (· ≤ ·))
      · have hreturned := (PassOutcomes.checkApps_added (p := {}) hans).returned
        simp [hans, hreturned]
      · simp [hans, PassOutcomes.checkApps_returned hans]
    case h_2 => cases hs
  | deleteAppId =>
    simp only [machine, step] at hs
    split at hs
    case h_1 appIdArr hpc =>
      cases hs
      simp [hpc]
    case h_2 => cases hs

end Monitor

namespace Monitor.Sample

def info (appId : String) : MonitoredApp := { appId }

/-- Two applications have finished, and the peer of the first one does not answer. -/
def unreachable : PassOutcomes where
  getAppInfoFromRedis appId := some (info appId)
  checkK8S _ := 1
  invokeSyn appId := if appId = "app-1" then none else some 0

def twoApps : Monitor := { appIdSet := ["app-1", "app-2"].toFinset }

theorem sort_twoApps : twoApps.appIdSet.sort (· ≤ ·) = ["app-1", "app-2"] :=
  (List.toFinset_sort (· ≤ ·) (by decide)).mpr (by decide +kernel)

theorem step_unreachable : machine.step twoApps (.pass unreachable) = some { twoApps with
    pc := .returned
    examined := ["app-1"]
    written := [{ info "app-1" with localStatus := some .finish }]
    requests := [("app-1", .finish)] } := by
  have hpc : twoApps.pc = .loop := rfl
  simp only [machine, step, hpc, sort_twoApps]
  rfl

/-- The second application is not examined, and the first one stays in the set. -/
theorem unreachable_not_done :
    ¬ ∃ t, machine.run twoApps (.pass unreachable :: ([].map .addAppId ++ [.deleteAppId])) = some t ∧
      PassDone unreachable [] twoApps t := by
  rintro ⟨t, hrun, -⟩
  obtain ⟨s, hs, hrun⟩ := machine.run_cons.mp hrun
  obtain rfl := Option.some.inj (step_unreachable.symm.trans hs)
  cases hrun

/-- The peer of the second application answers with an error status. -/
def refusing : PassOutcomes where
  getAppInfoFromRedis appId := if appId = "app-1" then none else some (info appId)
  checkK8S _ := 2
  invokeSyn appId := if appId = "app-1" then none else some 1

theorem refusing_done :
    ∃ t, machine.run twoApps (.pass refusing :: ([].map .addAppId ++ [.deleteAppId])) = some t ∧
      PassDone refusing [] twoApps t :=
  (pass_done_iff rfl).mpr (by decide +kernel)

end Monitor.Sample

end Coordinator
