-- SUMMARY: The block scheduler of the PSI: run_app, the actors it dispatches blocks to, and the BlockDispatchActor with the status messages on their way to it.
import NineNMpc.Lib.Machine
import Mathlib.Logic.Function.Basic

/-!
# The block scheduler

`run_app`, `BlockDispatchActor` and `PsiPirActor.do_action` of `psi_actors.py`. The driver
talks to the dispatch actor by calls that it waits for; a worker's `change_data_status`
calls are not waited for, so they are messages on their way, in order for each worker. What
`do_action` computes from the data of a block is a parameter, and a job that fails (which
makes `run_app` raise) is left out. Between the loop and `get_results` the driver only writes
the outputs.
-/

namespace Psi.RunApp

inductive FileType where
  | file
  | directory
  deriving DecidableEq

inductive BlockStatus where
  | init
  | prepared
  | procssing
  | processed
  | failed
  deriving DecidableEq

/-- `(rows, total_feature_values, total_null_values)`. -/
abbrev Stats := Nat × Nat × Nat

def Stats.add (x y : Stats) : Stats := (x.1 + y.1, x.2.1 + y.2.1, x.2.2 + y.2.2)

/-- An entry of `data_status`. -/
structure BlockEntry where
  status : BlockStatus
  original : Option Stats
  joined : Option Stats
  deriving DecidableEq

/-- `change_data_status.remote(..)`, on its way. -/
structure StatusMessage where
  blockId : Nat
  entry : BlockEntry
  deriving DecidableEq

/-- The data of the blocks (tables of a file, or paths in a directory), the parameter `max_actors`,
    and what `do_action` computes: the two statistics and the output. -/
structure Config (β γ : Type) where
  dataType : FileType
  data : List β
  maxActors : Nat
  doAction : (blockId : Nat) → (data : β) → Stats × Stats × γ

variable {β γ : Type}

/-! ## The dispatch actor -/

structure BlockDispatchActor (β : Type) where
  dataType : FileType
  dataPaths : List β := []
  dataBlocks : List (Option β) := []
  dataStatus : List BlockEntry

namespace BlockDispatchActor

/-- After `init_data` and, for a file, `update_blocks`. -/
def new (cfg : Config β γ) : BlockDispatchActor β where
  dataType := cfg.dataType
  dataPaths := if cfg.dataType = .directory then cfg.data else []
  dataBlocks := if cfg.dataType = .file then cfg.data.map some else []
  dataStatus := List.replicate cfg.data.length ⟨.init, none, none⟩

/-- The data of the block with this index; `none` is an `IndexError`. -/
def takeData (d : BlockDispatchActor β) (i : Nat) : Option (BlockDispatchActor β × Option β) :=
  match d.dataType with
  | .file => d.dataBlocks[i]?.map fun data => ({ d with dataBlocks := d.dataBlocks.set i none }, data)
  | .directory => d.dataPaths[i]?.map fun path => (d, some path)

/-- The first block that is still `INIT` becomes `PREPARED`. -/
def getNextUnprocessedDataAndUse (d : BlockDispatchActor β) :
    Option (BlockDispatchActor β × Option (Nat × Option β)) :=
  match d.dataStatus.findIdx? (·.status = .init) with
  | none => some (d, none)
  | some i =>
    let prepared := d.dataStatus.modify i fun e => { e with status := .prepared }
    ({ d with dataStatus := prepared }.takeData i).map fun (d, data) => (d, some (i, data))

/-- A block id out of range raises in the actor, and nobody waits for the answer. -/
def changeDataStatus (d : BlockDispatchActor β) (msg : StatusMessage) : BlockDispatchActor β :=
  if msg.blockId < d.dataStatus.length then
    { d with dataStatus := d.dataStatus.set msg.blockId msg.entry }
  else d

/-- The loop body of `get_results`: a block without statistics is skipped. -/
def addEntry (total : Stats × Stats) (e : BlockEntry) : Stats × Stats :=
  (match e.original with
    | some stats => total.1.add stats
    | none => total.1,
   match e.joined with
    | some stats => total.2.add stats
    | none => total.2)

def getResults (d : BlockDispatchActor β) : Stats × Stats :=
  d.dataStatus.foldl addEntry ((0, 0, 0), (0, 0, 0))

end BlockDispatchActor

/-! ## Jobs and driver -/

/-- A job is submitted, has sent `PROCSSING`, or has sent `PROCESSED` and returned the reference of
    its output. -/
inductive Phase (γ : Type) where
  | submitted
  | began
  | completed (ref : Option γ)
  deriving DecidableEq

/-- A call of `do_action`. -/
structure Job (β γ : Type) where
  actorIndex : Nat
  blockId : Nat
  data : Option β
  phase : Phase γ := .submitted

def Job.isCompleted (j : Job β γ) : Bool :=
  match j.phase with
  | .completed _ => true
  | _ => false

/-- `dispatch` is the loop that fills the actors, `wait` the head of the `while` loop, and `next`
    is behind `ray.wait`, before the next block is asked for. -/
inductive Pc where
  | dispatch (i : Nat)
  | wait
  | next (actorIndex : Nat) (remainingRefs : List (Option Nat))
  | results
  | returned (results : Stats × Stats)
  | raised
  deriving DecidableEq

/-- A reference is the number of its job. `mail` are the messages of each worker. -/
structure App (β γ : Type) where
  dispatchActor : BlockDispatchActor β
  pc : Pc := .dispatch 0
  maxActors : Nat
  jobs : List (Job β γ) := []
  resultRefs : List (Option Nat)
  dataOutputRefs : List (Option γ)
  mail : Nat → List StatusMessage := fun _ => []

/-- `run_app` up to the first dispatch. -/
def init (cfg : Config β γ) : App β γ :=
  let n := cfg.data.length
  let maxActors := if n ≤ cfg.maxActors then n else cfg.maxActors
  { dispatchActor := .new cfg
    maxActors
    resultRefs := List.replicate maxActors none
    dataOutputRefs := List.replicate n none }

namespace App

/-- `result_refs[a] = actors[a].do_action.remote(..)`. -/
def submit (s : App β γ) (a blockId : Nat) (data : Option β) : App β γ :=
  { s with
    jobs := s.jobs ++ [{ actorIndex := a, blockId, data }]
    resultRefs := s.resultRefs.set a (some s.jobs.length)
    pc := if a < s.resultRefs.length then s.pc else .raised }

def stepDispatch (s : App β γ) (i : Nat) : App β γ :=
  if i < s.maxActors then
    match s.dispatchActor.getNextUnprocessedDataAndUse with
    | some (d, some (blockId, data)) =>
      { s with dispatchActor := d, pc := .dispatch (i + 1) }.submit i blockId data
    -- `None` has no entries
    | some (d, none) => { s with dispatchActor := d, pc := .raised }
    | none => { s with pc := .raised }
  else { s with pc := .wait }

/-- `ray.wait` raises on an empty list and on an entry that is no reference; else it times out or
    reports a reference whose job has completed. -/
def stepWait (s : App β γ) (ready : Option Nat) : Option (App β γ) :=
  if s.resultRefs = [] ∨ none ∈ s.resultRefs then some { s with pc := .raised }
  else
    match ready with
    | none => some s
    | some k =>
      match s.jobs[k]? with
      | some { actorIndex, blockId, phase := .completed ref, .. } =>
        if some k ∈ s.resultRefs then
          let s := { s with pc := .next actorIndex (s.resultRefs.erase (some k)) }
          if s.dispatchActor.dataType = .file ∧ ref.isSome then
            if blockId < s.dataOutputRefs.length then
              some { s with dataOutputRefs := s.dataOutputRefs.set blockId ref }
            else some { s with pc := .raised }
          else some s
        else none
      | _ => none

/-- The rest of the loop body: refill the actor, or go on without it. -/
def stepNext (s : App β γ) (a : Nat) (remainingRefs : List (Option Nat)) : App β γ :=
  match s.dispatchActor.getNextUnprocessedDataAndUse with
  | some (d, some (blockId, data)) =>
    { s with dispatchActor := d, pc := .wait }.submit a blockId data
  | some (d, none) =>
    { s with
      dispatchActor := d
      resultRefs := remainingRefs
      pc := if remainingRefs = [] then .results else .wait }
  | none => { s with pc := .raised }

/-- One step of the driver; `ready` is what `ray.wait` reports. -/
def stepDriver (s : App β γ) (ready : Option Nat) : Option (App β γ) :=
  match s.pc with
  | .dispatch i => some (s.stepDispatch i)
  | .wait => s.stepWait ready
  | .next a remainingRefs => some (s.stepNext a remainingRefs)
  | .results => some { s with pc := .returned s.dispatchActor.getResults }
  | .returned _ | .raised => none

/-- `_sync_block_status` of the worker `a`. -/
def sync (s : App β γ) (a : Nat) (msg : StatusMessage) : App β γ :=
  { s with mail := Function.update s.mail a (s.mail a ++ [msg]) }

def setPhase (s : App β γ) (k : Nat) (phase : Phase γ) : App β γ :=
  { s with jobs := s.jobs.modify k fun j => { j with phase } }

/-- An actor works on one job at a time, in the order of their submission. -/
def stepBegin (s : App β γ) (k : Nat) : Option (App β γ) :=
  match s.jobs[k]? with
  | some { actorIndex := a, blockId, phase := .submitted, .. } =>
    if (s.jobs.take k).all fun j => j.actorIndex ≠ a || j.isCompleted then
      some ((s.sync a ⟨blockId, .procssing, none, none⟩).setPhase k .began)
    else none
  | _ => none

/-- The end of `do_action`; only for a file is the output put into the store. -/
def stepComplete (cfg : Config β γ) (s : App β γ) (k : Nat) : Option (App β γ) :=
  match s.jobs[k]? with
  | some { actorIndex := a, blockId, data := some data, phase := .began } =>
    let (original, joined, output) := cfg.doAction blockId data
    let ref := if cfg.dataType = .file then some output else none
    some ((s.sync a ⟨blockId, .processed, some original, some joined⟩).setPhase k (.completed ref))
  | _ => none

/-- The next message of a worker arrives at the dispatch actor. -/
def stepDeliver (s : App β γ) (a : Nat) : Option (App β γ) :=
  match s.mail a with
  | [] => none
  | msg :: rest =>
    some { s with
      dispatchActor := s.dispatchActor.changeDataStatus msg
      mail := Function.update s.mail a rest }

end App

inductive Action where
  | driver (ready : Option Nat)
  | begin (k : Nat)
  | complete (k : Nat)
  | deliver (a : Nat)
  deriving DecidableEq

def runApp (cfg : Config β γ) : Machine (App β γ) Action where
  step s
    | .driver ready => s.stepDriver ready
    | .begin k => s.stepBegin k
    | .complete k => s.stepComplete cfg k
    | .deliver a => s.stepDeliver a

end Psi.RunApp
