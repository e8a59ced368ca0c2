-- SUMMARY: The configuration of a training process from TF_CONFIG: which processes of a cluster train, and that their worker ids are 0, 1, 2, …, each once.
import Mathlib.Data.List.Perm.Basic

/-!
# Worker configuration

`_parse_tf_config`, the worker id of `_parse_mconfig` and `run_cluster` of
`Trainer/fl_comm_libs/flenv.py`. Every process of a cluster reads the same job lists and its
own task from the environment. TensorFlow names a task by its job and its place in the list
of that job.
-/

namespace Trainer.WorkerConfig

inductive Job where
  | master
  | chief
  | worker
  | ps
  | other (name : String)
deriving DecidableEq

/-- The addresses of the tasks of each job. -/
structure Cluster where
  master : List String := []
  chief : List String := []
  worker : List String := []
  ps : List String := []
deriving DecidableEq

structure Task where
  job : Job
  index : Nat
deriving DecidableEq

structure TfConfig where
  cluster : Cluster
  job : Option Job
  index : Option Nat
deriving DecidableEq

structure MConfig where
  workerReplicas : Nat := 1
  workerId : Nat := 0
  isLocal : Bool := true
  task : Option Task := none
deriving DecidableEq

def Cluster.workerReplicas (c : Cluster) : Nat := c.worker.length + c.master.length + c.chief.length

def Cluster.workerId (c : Cluster) : Task → Nat
  | ⟨.master, i⟩ => i
  | ⟨.chief, i⟩ => c.master.length + i
  | ⟨.worker, i⟩ => c.chief.length + c.master.length + i
  | ⟨.ps, _⟩ | ⟨.other _, _⟩ => 0

def parseTfConfig : Option TfConfig → Except String MConfig
  | some ⟨cluster, some job, some index⟩ =>
    if 1 < cluster.workerReplicas ∧ cluster.ps.length < 1 then
      .error "At least 1 ps task is needed for distributed training."
    else
      .ok
        { workerReplicas := cluster.workerReplicas
          workerId := cluster.workerId ⟨job, index⟩
          isLocal := !decide (1 ≤ cluster.workerReplicas ∧ 0 < cluster.ps.length)
          task := some ⟨job, index⟩ }
  | _ => .ok {}

/-- What a process does: `train` is the user's function behind the registration. -/
inductive Start where
  | train (isChief : Bool)
  | serve
  | nothing
deriving DecidableEq

def MConfig.runCluster (c : MConfig) : Start :=
  if c.isLocal then .train true
  else
    match c.task with
    | some ⟨.ps, _⟩ => .serve
    | some ⟨job, _⟩ =>
      if job ∈ [.master, .worker, .chief] then .train (decide (job ≠ .worker)) else .nothing
    -- without a task the process is local
    | none => .nothing

/-- The worker id of a process that trains. -/
def trainingId (tfConfig : Option TfConfig) : Option Nat :=
  match parseTfConfig tfConfig with
  | .error _ => none
  | .ok c =>
    match c.runCluster with
    | .train _ => some c.workerId
    | .serve | .nothing => none

/-! ## The processes of a cluster -/

/-- The tasks of a job with `n` addresses. -/
def jobTasks (job : Job) (n : Nat) : List Task := (List.range n).map fun i => ⟨job, i⟩

def Cluster.tasks (c : Cluster) : List Task :=
  jobTasks .master c.master.length ++ jobTasks .chief c.chief.length ++
    jobTasks .worker c.worker.length ++ jobTasks .ps c.ps.length

/-- What the process of a task finds in the environment. -/
def Cluster.tfConfig (c : Cluster) (t : Task) : Option TfConfig := some ⟨c, some t.job, some t.index⟩

/-- Some task trains, and several have a parameter server. -/
structure Cluster.Valid (c : Cluster) : Prop where
  trains : 0 < c.workerReplicas
  served : 1 < c.workerReplicas → 0 < c.ps.length

instance {c : Cluster} : Decidable c.Valid :=
  decidable_of_iff (0 < c.workerReplicas ∧ (1 < c.workerReplicas → 0 < c.ps.length))
    ⟨fun h => ⟨h.1, h.2⟩, fun h => ⟨h.1, h.2⟩⟩

variable {c : Cluster} {t : Task}

theorem parseTfConfig_task (h : c.Valid) :
    parseTfConfig (c.tfConfig t) = .ok
      { workerReplicas := c.workerReplicas
        workerId := c.workerId t
        isLocal := !decide (0 < c.ps.length)
        task := some t } := by
  have hserved : ¬ (1 < c.workerReplicas ∧ c.ps.length < 1) := by
    have := h.served
    omega
  have htrains : 1 ≤ c.workerReplicas := h.trains
  rw [Cluster.tfConfig, parseTfConfig, if_neg hserved]
  simp [htrains]

theorem trainingId_eq_some (h : c.Valid) (ht : t.job ∈ [Job.master, .worker, .chief]) :
    trainingId (c.tfConfig t) = some (c.workerId t) := by
  obtain ⟨job, index⟩ := t
  rw [trainingId, parseTfConfig_task h]
  by_cases hps : 0 < c.ps.length
  · cases job <;> simp_all [MConfig.runCluster]
  · simp [MConfig.runCluster, hps]

theorem filterMap_jobTasks {job : Job} {n : Nat} (h : c.Valid)
    (hjob : job ∈ [Job.master, .worker, .chief]) :
    (jobTasks job n).filterMap (fun t => trainingId (c.tfConfig t)) =
      (List.range n).map fun i => c.workerId ⟨job, i⟩ := by
  rw [jobTasks, List.filterMap_map, ← List.filterMap_eq_map]
  exact List.filterMap_congr fun i _ => trainingId_eq_some h hjob

theorem filterMap_ps (h : c.Valid) :
    (jobTasks .ps c.ps.length).filterMap (fun t => trainingId (c.tfConfig t)) = [] := by
  rw [List.filterMap_eq_nil_iff]
  intro t ht
  obtain ⟨i, hi, rfl⟩ := List.mem_map.mp ht
  have hpos : 0 < c.ps.length := Nat.zero_lt_of_lt (List.mem_range.mp hi)
  simp [trainingId, parseTfConfig_task h, MConfig.runCluster, hpos]

/-- The processes of the tasks that train, in the order of their ids. -/
theorem trainingIds_tasks (h : c.Valid) :
    c.tasks.filterMap (fun t => trainingId (c.tfConfig t)) = List.range c.workerReplicas := by
  have hids : ∀ job n m, (∀ i, c.workerId ⟨job, i⟩ = m + i) →
      (List.range n).map (fun i => c.workerId ⟨job, i⟩) = (List.range n).map (m + ·) := by
    intro job n m hid
    simp [hid]
  rw [Cluster.tasks, List.filterMap_append, List.filterMap_append, List.filterMap_append,
    filterMap_ps h, filterMap_jobTasks h (by simp), filterMap_jobTasks h (by simp),
    filterMap_jobTasks h (by simp), List.append_nil,
    hids .master _ 0 (by simp [Cluster.workerId]), hids .chief _ c.master.length (fun _ => rfl),
    hids .worker _ (c.master.length + c.chief.length) (by simp [Cluster.workerId, Nat.add_comm])]
  rw [show c.workerReplicas = c.master.length + c.chief.length + c.worker.length by
    unfold Cluster.workerReplicas; omega, List.range_add, List.range_add]
  simp

/-- Whatever order the processes of a cluster are in, those that train have the ids 0, 1, 2, …, each
    once. -/
theorem trainingIds_perm {environs : List (Option TfConfig)} (h : c.Valid)
    (hperm : environs.Perm (c.tasks.map c.tfConfig)) :
    (environs.filterMap trainingId).Perm (List.range c.workerReplicas) := by
  refine (hperm.filterMap trainingId).trans ?_
  rw [List.filterMap_map, ← trainingIds_tasks h]
  exact .refl _

end Trainer.WorkerConfig
