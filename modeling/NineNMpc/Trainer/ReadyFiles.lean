-- SUMMARY: The queue of training files: OnReceived of files and of the end, the parts of QueryReadyFile, and that files come out in order and the end is neither early nor lost.
import NineNMpc.Trainer.RecvCache

/-!
# Training files

`files_ready_cache_` of `RpcBridgeRecvCache` in `Trainer/rpc/rpc_bridge/rpc_bridge_agent.cc`
and `rpc_bridge_agent.h`. `QueryReadyFile` is split where it gives up `q_mu_`: the locked
check, the end of the wait, and the locked reset of the callback, after which it checks
again. Calls of it may overlap; the callback is that of the call that waited last.
-/

namespace Trainer

structure TrainFilesCache where
  state : RecvCache.State := .idle
  recvCount : Nat := 0
  /-- The call of `QueryReadyFile` whose notification `callback_` refers to. -/
  callback : Option Nat := none
  qFiles : List String := []

def TrainFilesCache.onReceived (c : TrainFilesCache) (fname : String) (endOfFiles : Bool) :
    TrainFilesCache :=
  if !endOfFiles then { c with qFiles := c.qFiles ++ [fname], recvCount := c.recvCount + 1 }
  else { c with state := .active }

namespace ReadyFiles

/-- A call of `QueryReadyFile`: before its locked check, in its wait, past it, or returned. -/
inductive QueryPc where
  | check (retries : Nat)
  | wait (retries : Nat) (notified : Bool)
  | reset (retries : Nat)
  | returned
deriving DecidableEq

def QueryPc.notify : QueryPc → QueryPc
  | wait retries _ => wait retries true
  | pc => pc

/-- What a call returned, with the status it gave to `cb`. -/
structure Returned where
  ok : Bool
  result : String
  endOfFiles : Bool
  status : Except String Unit

def Returned.file? (r : Returned) : Option String := if r.ok then some r.result else none

/-- What the locked check returns; `none` if the call has to wait. -/
def checked (c : TrainFilesCache) (retries : Nat) : Option Returned :=
  match c.qFiles with
  | fname :: _ => some ⟨true, fname, false, .ok ()⟩
  | [] =>
    if c.state = .active then some ⟨false, "", true, .ok ()⟩
    else if 1 < retries then some ⟨false, "", false, .error "Already Try max times ... "⟩
    else none

end ReadyFiles

/-- `received`, `endReceived` and `returned` are history. -/
structure ReadyFiles where
  cache : TrainFilesCache := {}
  queries : List ReadyFiles.QueryPc := []
  received : List String := []
  endReceived : Bool := false
  returned : List ReadyFiles.Returned := []

namespace ReadyFiles

def setPc (s : ReadyFiles) (i : Nat) (pc : QueryPc) : ReadyFiles :=
  { s with queries := s.queries.set i pc }

def onReceived (s : ReadyFiles) (fname : String) (endOfFiles : Bool) : ReadyFiles :=
  { s with
    cache := s.cache.onReceived fname endOfFiles
    received := if endOfFiles then s.received else s.received ++ [fname]
    endReceived := s.endReceived || endOfFiles
    queries := match s.cache.callback with
      | some i => s.queries.modify i QueryPc.notify
      | none => s.queries }

def check (s : ReadyFiles) (i retries : Nat) : ReadyFiles :=
  match checked s.cache retries with
  | some r =>
    { s.setPc i .returned with
      cache := { s.cache with qFiles := s.cache.qFiles.drop 1 }
      returned := s.returned ++ [r] }
  | none =>
    { s.setPc i (.wait (retries + 1) false) with
      cache := { s.cache with state := .wait, callback := some i } }

inductive Action where
  | onReceived (fname : String) (endOfFiles : Bool)
  | queryReadyFile
  | check (query : Nat)
  | endWait (query : Nat)
  | reset (query : Nat)

/-- A wait ends by its notification or by its timeout, whether or not it was notified. -/
def step (s : ReadyFiles) : Action → Option ReadyFiles
  | .onReceived fname endOfFiles => some (s.onReceived fname endOfFiles)
  | .queryReadyFile => some { s with queries := s.queries ++ [.check 0] }
  | .check i =>
    match s.queries[i]? with
    | some (.check retries) => some (s.check i retries)
    | _ => none
  | .endWait i =>
    match s.queries[i]? with
    | some (.wait retries _) => some (s.setPc i (.reset retries))
    | _ => none
  | .reset i =>
    match s.queries[i]? with
    | some (.reset retries) =>
      some { s.setPc i (.check retries) with cache := { s.cache with callback := none } }
    | _ => none

def machine : Machine ReadyFiles Action := ⟨step⟩

/-! ## The invariant -/

variable {s s' : ReadyFiles} {i : Nat}

/-- The names of the files that calls have returned, in order. -/
def handed (s : ReadyFiles) : List String := s.returned.filterMap Returned.file?

structure Inv (s : ReadyFiles) : Prop where
  fifo : s.received = s.handed ++ s.cache.qFiles
  ended : s.endReceived = true ↔ s.cache.state = .active

theorem inv_init : Inv {} := ⟨rfl, by simp⟩

theorem Inv.onReceived (h : Inv s) (fname : String) (endOfFiles : Bool) :
    Inv (s.onReceived fname endOfFiles) := by
  cases endOfFiles with
  | false =>
    refine ⟨?_, ?_⟩
    · simp [ReadyFiles.onReceived, TrainFilesCache.onReceived, handed, h.fifo]
    · simpa [ReadyFiles.onReceived, TrainFilesCache.onReceived] using h.ended
  | true =>
    refine ⟨?_, ?_⟩
    · simpa [ReadyFiles.onReceived, TrainFilesCache.onReceived, handed] using h.fifo
    · simp [ReadyFiles.onReceived, TrainFilesCache.onReceived]

/-- The three returns of the locked check, and the wait. -/
theorem checked_cases (c : TrainFilesCache) (retries : Nat) :
    (∃ fname rest, c.qFiles = fname :: rest ∧
      checked c retries = some ⟨true, fname, false, .ok ()⟩) ∨
    (c.qFiles = [] ∧ c.state = .active ∧ checked c retries = some ⟨false, "", true, .ok ()⟩) ∨
    (c.qFiles = [] ∧ c.state ≠ .active ∧
      (checked c retries = some ⟨false, "", false, .error "Already Try max times ... "⟩ ∨
        checked c retries = none)) := by
  cases hfiles : c.qFiles with
  | cons fname rest => exact .inl ⟨fname, rest, rfl, by simp [checked, hfiles]⟩
  | nil =>
    by_cases hactive : c.state = .active
    · exact .inr (.inl ⟨rfl, hactive, by simp [checked, hfiles, hactive]⟩)
    · refine .inr (.inr ⟨rfl, hactive, ?_⟩)
      by_cases hretries : 1 < retries
      · exact .inl (by simp [checked, hfiles, hactive, hretries])
      · exact .inr (by simp [checked, hfiles, hactive, hretries])

/-- A check that returns hands out the first file, if there is one. -/
theorem Inv.returned {i retries : Nat} {r : Returned} (h : Inv s)
    (hchecked : checked s.cache retries = some r)
    (hfiles : s.cache.qFiles = r.file?.toList ++ s.cache.qFiles.drop 1) : Inv (s.check i retries) where
  fifo := by
    have hhanded : (s.check i retries).handed = s.handed ++ r.file?.toList := by
      simp only [ReadyFiles.check, hchecked, handed, List.filterMap_append]
      cases hfile : r.file? <;> simp [hfile]
    rw [hhanded, List.append_assoc]
    simp only [ReadyFiles.check, hchecked, setPc]
    rw [← hfiles]
    exact h.fifo
  ended := by simpa [ReadyFiles.check, hchecked, setPc] using h.ended

theorem Inv.check (h : Inv s) (i retries : Nat) : Inv (s.check i retries) := by
  obtain ⟨fname, rest, hfiles, hchecked⟩ | ⟨hfiles, hactive, hchecked⟩ |
    ⟨hfiles, hactive, hchecked | hchecked⟩ := checked_cases s.cache retries
  · exact h.returned hchecked (by simp [hfiles, Returned.file?])
  · exact h.returned hchecked (by simp [hfiles, Returned.file?])
  · exact h.returned hchecked (by simp [hfiles, Returned.file?])
  · refine ⟨?_, ?_⟩
    · simpa [ReadyFiles.check, hchecked, handed, setPc] using h.fifo
    -- a call waits only while the end has not been received
    · have hnot : s.endReceived = false := by
        simpa using mt h.ended.mp hactive
      simp [ReadyFiles.check, hchecked, setPc, hnot]

theorem Inv.step {a : Action} (h : Inv s) (hs : s.step a = some s') : Inv s' := by
  cases a with
  | onReceived fname endOfFiles =>
    cases hs
    exact h.onReceived fname endOfFiles
  | queryReadyFile =>
    cases hs
    exact ⟨h.fifo, h.ended⟩
  | check i =>
    simp only [ReadyFiles.step] at hs
    split at hs
    case h_1 retries _ =>
      cases hs
      exact h.check i retries
    case h_2 => cases hs
  | endWait i =>
    simp only [ReadyFiles.step] at hs
    split at hs
    case h_1 =>
      cases hs
      exact ⟨h.fifo, h.ended⟩
    case h_2 => cases hs
  | reset i =>
    simp only [ReadyFiles.step] at hs
    split at hs
    case h_1 =>
      cases hs
      exact ⟨h.fifo, h.ended⟩
    case h_2 => cases hs

theorem inv_run {as : List Action} (hrun : machine.run {} as = some s) : Inv s :=
  machine.run_invariant (fun _ _ _ => Inv.step) hrun inv_init

/-! ## Reports of the end -/

/-- The call that an action is a part of. -/
def Action.query? : Action → Option Nat
  | check i | endWait i | reset i => some i
  | onReceived _ _ | queryReadyFile => none

theorem step_check {retries : Nat} (h : s.queries[i]? = some (.check retries)) :
    machine.step s (.check i) = some (s.check i retries) := by
  simp [machine, step, h]

/-- Only the locked check on an empty queue behind the end reports it. -/
theorem check_endOfFiles {retries : Nat} {r : Returned}
    (hr : (s.check i retries).returned = s.returned ++ [r]) (hend : r.endOfFiles = true) :
    s.cache.qFiles = [] ∧ s.cache.state = .active := by
  obtain ⟨fname, rest, _, hchecked⟩ | ⟨hfiles, hactive, _⟩ | ⟨_, _, hchecked | hchecked⟩ :=
    checked_cases s.cache retries
  · simp only [ReadyFiles.check, hchecked, List.append_cancel_left_eq, List.cons.injEq,
      and_true] at hr
    rw [← hr] at hend
    cases hend
  · exact ⟨hfiles, hactive⟩
  · simp only [ReadyFiles.check, hchecked, List.append_cancel_left_eq, List.cons.injEq,
      and_true] at hr
    rw [← hr] at hend
    cases hend
  · simp [ReadyFiles.check, hchecked, setPc] at hr

theorem check_reports {retries : Nat} (hfiles : s.cache.qFiles = [])
    (hactive : s.cache.state = .active) :
    (s.check i retries).returned = s.returned ++ [⟨false, "", true, .ok ()⟩] := by
  simp [ReadyFiles.check, checked, hfiles, hactive]

/-- Behind the end, a call that has not returned gets to its report by itself. -/
theorem exists_report {pc : QueryPc} (hfiles : s.cache.qFiles = [])
    (hactive : s.cache.state = .active) (hi : s.queries[i]? = some pc) (hpc : pc ≠ .returned) :
    ∃ as s' r, (∀ a ∈ as, a.query? = some i) ∧ machine.run s as = some s' ∧
      s'.returned = s.returned ++ [r] ∧ r.endOfFiles = true := by
  have hlt := (List.getElem?_eq_some_iff.mp hi).1
  have hcheck : ∀ (t : ReadyFiles) (retries : Nat), t.queries[i]? = some (.check retries) →
      t.cache.qFiles = [] → t.cache.state = .active →
      machine.run t [.check i] = some (t.check i retries) ∧
        (t.check i retries).returned = t.returned ++ [⟨false, "", true, .ok ()⟩] := by
    intro t retries ht hfiles hactive
    refine ⟨?_, check_reports hfiles hactive⟩
    exact machine.run_cons.mpr ⟨_, step_check ht, rfl⟩
  have hreset : ∀ (t : ReadyFiles) (retries : Nat), t.queries[i]? = some (.reset retries) →
      t.cache.qFiles = [] → t.cache.state = .active →
      ∃ t', machine.run t [.reset i, .check i] = some t' ∧
        t'.returned = t.returned ++ [⟨false, "", true, .ok ()⟩] := by
    intro t retries ht hfiles hactive
    have hlt := (List.getElem?_eq_some_iff.mp ht).1
    let t₁ : ReadyFiles := { t.setPc i (.check retries) with cache := { t.cache with callback := none } }
    have hstep : machine.step t (.reset i) = some t₁ := by simp [machine, step, ht, t₁]
    obtain ⟨hrun, hret⟩ := hcheck t₁ retries (by simp [t₁, setPc, hlt]) hfiles hactive
    exact ⟨_, machine.run_cons.mpr ⟨t₁, hstep, hrun⟩, hret⟩
  cases pc with
  | returned => exact absurd rfl hpc
  | check retries =>
    obtain ⟨hrun, hret⟩ := hcheck s retries hi hfiles hactive
    exact ⟨_, _, _, by simp [Action.query?], hrun, hret, rfl⟩
  | reset retries =>
    obtain ⟨t, hrun, hret⟩ := hreset s retries hi hfiles hactive
    exact ⟨_, t, _, by simp [Action.query?], hrun, hret, rfl⟩
  | wait retries notified =>
    have hstep : machine.step s (.endWait i) = some (s.setPc i (.reset retries)) := by
      simp [machine, step, hi]
    obtain ⟨t, hrun, hret⟩ := hreset (s.setPc i (.reset retries)) retries (by simp [setPc, hlt])
      hfiles hactive
    exact ⟨_, t, _, by simp [Action.query?], machine.run_cons.mpr ⟨_, hstep, hrun⟩, hret, rfl⟩

/-- In every reachable state the files that were returned, followed by the queue, are the files that
    were received; a call reports the end only when it has been received and nothing is left; and
    once it has been received, on an empty queue every check reports it, and every call gets there. -/
theorem queryReadyFile_fifo {as : List Action} (hrun : machine.run {} as = some s) :
    s.received = s.handed ++ s.cache.qFiles ∧
    (∀ i s' r, machine.step s (.check i) = some s' → s'.returned = s.returned ++ [r] →
      r.endOfFiles = true → s.endReceived = true ∧ s.handed = s.received) ∧
    (s.endReceived = true → s.cache.qFiles = [] →
      (∀ i s', machine.step s (.check i) = some s' →
        ∃ r, s'.returned = s.returned ++ [r] ∧ r.endOfFiles = true) ∧
      ∀ i pc, s.queries[i]? = some pc → pc ≠ .returned →
        ∃ bs s' r, (∀ b ∈ bs, b.query? = some i) ∧ machine.run s bs = some s' ∧
          s'.returned = s.returned ++ [r] ∧ r.endOfFiles = true) := by
  have hinv := inv_run hrun
  have hstep : ∀ i s', machine.step s (.check i) = some s' → ∃ retries, s' = s.check i retries := by
    intro i s' hs
    simp only [machine, step] at hs
    split at hs
    case h_1 retries _ => exact ⟨retries, (Option.some.inj hs).symm⟩
    case h_2 => cases hs
  refine ⟨hinv.fifo, ?_, fun hend hfiles => ⟨?_, ?_⟩⟩
  · intro i s' r hs hr hend
    obtain ⟨retries, rfl⟩ := hstep i s' hs
    obtain ⟨hfiles, hactive⟩ := check_endOfFiles hr hend
    refine ⟨hinv.ended.mpr hactive, ?_⟩
    rw [hinv.fifo, hfiles, List.append_nil]
  · intro i s' hs
    obtain ⟨retries, rfl⟩ := hstep i s' hs
    exact ⟨_, check_reports hfiles (hinv.ended.mp hend), rfl⟩
  · intro i pc hi hpc
    exact exists_report hfiles (hinv.ended.mp hend) hi hpc

namespace Sample

/-- A call waits, two files arrive, the end arrives, and three calls are made. -/
def twoFiles : List Action :=
  [.queryReadyFile, .check 0, .onReceived "part-0" false, .endWait 0, .onReceived "part-1" false,
    .reset 0, .check 0, .onReceived "" true, .queryReadyFile, .check 1, .queryReadyFile]

theorem twoFiles_fifo : ∃ s, machine.run {} twoFiles = some s ∧ s.handed = ["part-0", "part-1"] ∧
    s.received = s.handed ++ s.cache.qFiles ∧
    ∀ s', machine.step s (.check 2) = some s' → ∃ r, s'.returned = s.returned ++ [r] ∧
      r.endOfFiles = true := by
  obtain ⟨s, hrun⟩ : ∃ s, machine.run {} twoFiles = some s := ⟨_, rfl⟩
  obtain ⟨hfifo, -, hend⟩ := queryReadyFile_fifo hrun
  obtain rfl := Option.some.inj hrun
  exact ⟨_, hrun, rfl, hfifo, (hend rfl rfl).1 2⟩

end Sample

end ReadyFiles

end Trainer
