-- SUMMARY: The follower's sender of metas with its last step: no run of it ever sends FinishPartition to the leader.
import NineNMpc.DataJoin.FinishPartition
import NineNMpc.DataJoin.JoinerFinished

/-!
# Notifying the leader

`_send_data_block_meta_processor` of `DataJoin/data_join/data_block_producer.py`, from one
call of the leader to the next, with `notify_consumer_finish_send_meta`. It runs beside the
joiner and against the leader's `DataBlockConsumer`. `sent`, `returned` and `raised` are
history: no step reads them.
-/

namespace DataJoin

namespace Notify

variable {ι ρ : Type}

structure DataJoinerWrapper where
  nextDataBlockIndex : Int := 0
  dataBlockProducerFinished : Bool := false

/-- `start`, `sync` and `finish` wait for a response, `loop` is the head of the `while` loop. -/
inductive SenderPc where
  | idle
  | start
  | loop
  | sync
  | finish
  deriving DecidableEq

/-- `leader` is its `data_block_consumer_wrap`. -/
structure State (ι ρ : Type) where
  follower : Follower ι ρ := {}
  dataJoinWrap : DataJoinerWrapper := {}
  pc : SenderPc := .idle
  call : Call (Service.Request (DataBlockMeta ι)) (Option Service.Response) := .idle
  leader : Option (Replication.DataBlockSaver ι ρ) := some (.init {})
  sent : List (Service.Request (DataBlockMeta ι)) := []
  returned : Nat := 0
  raised : Nat := 0

namespace State

def request (s : State ι ρ) (pc : SenderPc) (req : Service.Request (DataBlockMeta ι)) : State ι ρ :=
  { s with pc, call := .request req, sent := s.sent ++ [req] }

/-- The processor returns, or ends by an exception; it will be run again. -/
def ends (s : State ι ρ) : State ι ρ :=
  { s with pc := .idle, call := .idle, returned := s.returned + 1 }

def raise (s : State ι ρ) : State ι ρ :=
  { s with pc := .idle, call := .idle, raised := s.raised + 1 }

end State

def notifyConsumerFinishSendMeta (s : State ι ρ) : State ι ρ :=
  if !s.follower.joiner.dataJoinerFinished then s.raise
  else if !s.dataJoinWrap.dataBlockProducerFinished then s.request .finish .finishPartition
  else s.ends

/-- What `_send_data_block_meta_processor` does with the value of `send_executor`. -/
def afterExecutor (joinedFinished : Bool) (s : State ι ρ) : State ι ρ :=
  if joinedFinished || s.dataJoinWrap.dataBlockProducerFinished then notifyConsumerFinishSendMeta s
  else s.ends

/-- `join_state` in `send_executor`, which nothing assigns after its first value. -/
def joinState : Bool := false

def stepSender (s : State ι ρ) : Option (State ι ρ) :=
  let wrap := s.dataJoinWrap
  match s.pc, s.call with
  | .idle, .idle =>
    if !wrap.dataBlockProducerFinished then some (s.request .start .startPartition)
    else some (afterExecutor false s)
  | .start, .response (some (.start nextIndex finished)) =>
    some { s with dataJoinWrap := ⟨nextIndex, finished⟩, pc := .loop, call := .idle }
  | .loop, .idle =>
    if wrap.dataBlockProducerFinished then some (afterExecutor joinState s)
    -- the assertion of `get_next_data_block_meta`
    else if wrap.nextDataBlockIndex < 0 then some s.raise
    else
      match s.follower.acquireDataBlockMetaByIndex wrap.nextDataBlockIndex.toNat with
      | (follower, _, .none) => some (afterExecutor joinState { s with follower })
      | (follower, _, .found m) =>
        some (({ s with follower } : State ι ρ).request .sync (.syncPartition m))
      | (follower, _, .raised) => some ({ s with follower } : State ι ρ).raise
  | .sync, .response (some (.status 0)) =>
    some { s with
      dataJoinWrap := { wrap with nextDataBlockIndex := wrap.nextDataBlockIndex + 1 }
      pc := .loop
      call := .idle }
  | .finish, .response (some (.finish finished)) =>
    let s : State ι ρ := { s with dataJoinWrap := { wrap with dataBlockProducerFinished := finished } }
    some s.ends
  | .start, .response _ | .sync, .response _ | .finish, .response _ => some s.raise
  | _, _ => none

inductive Action (ι : Type) where
  | follower (a : Follower.Action ι)
  | sender
  | server
  | loseRequest
  | loseResponse
  | saver
  | restartLeader

variable [DecidableEq ι]

def stepServer (cfg : Config ι ρ) (s : State ι ρ) : Option (State ι ρ) :=
  match s.call with
  | .request req =>
    let (leader, rsp) := Service.serve (Service.dataBlockConsumer cfg.replication) s.leader req
    some { s with leader, call := .response rsp }
  | _ => none

/-- The sender beside the joiner, with the leader's services and its saver. -/
def sender (cfg : Config ι ρ) : Machine (State ι ρ) (Action ι) where
  step s
    | .follower a =>
      ((Follower.machine cfg).step s.follower a).map fun follower => { s with follower }
    | .sender => stepSender s
    | .server => stepServer cfg s
    | .loseRequest => (s.call.loseRequest none).map fun call => { s with call }
    | .loseResponse => (s.call.loseResponse none).map fun call => { s with call }
    | .saver =>
      match s.leader with
      | none => none
      | some sv =>
        (sv.step cfg.naming cfg.leaderItems).map fun sv => { s with leader := some sv }
    | .restartLeader => s.leader.map fun sv => { s with leader := some (.init sv.store) }

/-! ## What the sender never does -/

/-- Nobody asks the leader to finish, so it does not report `finished`. -/
def CallSilent : Call (Service.Request (DataBlockMeta ι)) (Option Service.Response) → Prop
  | .request .finishPartition => False
  | .response (some (.start _ finished)) => finished = false
  | _ => True

structure Silent (s : State ι ρ) : Prop where
  sent : .finishPartition ∉ s.sent
  pc : s.pc ≠ .finish
  idle : s.pc = .idle → s.call = .idle
  wrap : s.dataJoinWrap.dataBlockProducerFinished = false
  call : CallSilent s.call
  leader : ∃ sv, s.leader = some sv ∧ sv.sendDataBlockMetaFinish = false

variable {cfg : Config ι ρ} {s s' t : State ι ρ} {a : Action ι}

omit [DecidableEq ι] in
theorem Silent.ends (h : Silent s) : Silent s.ends :=
  { h with pc := by simp [State.ends], idle := fun _ => rfl, call := trivial }

omit [DecidableEq ι] in
theorem Silent.raise (h : Silent s) : Silent s.raise :=
  { h with pc := by simp [State.raise], idle := fun _ => rfl, call := trivial }

omit [DecidableEq ι] in
theorem Silent.request (h : Silent s) {pc : SenderPc} {req : Service.Request (DataBlockMeta ι)}
    (hpc : pc ≠ .finish) (hidle : pc ≠ .idle) (hreq : req ≠ .finishPartition) :
    Silent (s.request pc req) where
  sent := by
    intro hmem
    obtain hmem | hmem := List.mem_append.mp hmem
    · exact h.sent hmem
    · exact hreq (List.mem_singleton.mp hmem).symm
  pc := hpc
  idle := fun hpc' => absurd hpc' hidle
  wrap := h.wrap
  call := by
    cases req with
    | finishPartition => exact hreq rfl
    | _ => trivial
  leader := h.leader

omit [DecidableEq ι] in
theorem Silent.follower (h : Silent s) {follower : Follower ι ρ} : Silent { s with follower } :=
  { h with }

omit [DecidableEq ι] in
theorem Silent.lost (h : Silent s) (hcall : s.call ≠ .idle) :
    Silent { s with call := .response none } :=
  { h with idle := fun hpc => absurd (h.idle hpc) hcall, call := trivial }

omit [DecidableEq ι] in
/-- `send_executor` returns `join_state`, so that the leader is not notified here. -/
theorem Silent.afterExecutor (h : Silent s) : Silent (afterExecutor joinState s) := by
  simpa [Notify.afterExecutor, joinState, h.wrap] using h.ends

omit [DecidableEq ι] in
theorem stepSender_silent (h : Silent s) (hs : stepSender s = some s') : Silent s' := by
  simp only [stepSender, h.wrap] at hs
  split at hs
  case h_1 =>
    cases hs
    exact h.request (by simp) (by simp) (by simp)
  case h_2 nextIndex finished hpc hcall =>
    cases hs
    have hfin : finished = false := by
      have hc := h.call
      rw [hcall] at hc
      exact hc
    exact { h with pc := by simp, idle := by simp, wrap := hfin, call := trivial }
  case h_3 =>
    simp only [Bool.false_eq_true, if_false] at hs
    split at hs
    · cases hs
      exact h.raise
    · split at hs
      · cases hs
        exact h.follower.afterExecutor
      · cases hs
        exact h.follower.request (by simp) (by simp) (by simp)
      · cases hs
        exact h.follower.raise
  case h_4 =>
    cases hs
    exact { h with pc := by simp, idle := by simp, wrap := rfl, call := trivial }
  case h_5 hpc _ => exact absurd hpc h.pc
  case h_6 =>
    cases hs
    exact h.raise
  case h_7 =>
    cases hs
    exact h.raise
  case h_8 hpc _ => exact absurd ‹s.pc = .finish› h.pc
  case h_9 => cases hs

theorem serve_start {sv : Replication.DataBlockSaver ι ρ} :
    Service.serve (Service.dataBlockConsumer cfg.replication) (some sv) .startPartition =
      (some sv, some (.start sv.nextDataBlockIndex sv.sendDataBlockMetaFinish)) := by
  simp [Service.serve, Service.handle, Service.dataBlockConsumer]

/-- The services that the sender does call leave the saver open. -/
theorem serve_silent (cfg : Config ι ρ) {sv : Replication.DataBlockSaver ι ρ} {req : Service.Request (DataBlockMeta ι)}
    {leader : Option (Replication.DataBlockSaver ι ρ)} {rsp : Option Service.Response}
    (hsv : sv.sendDataBlockMetaFinish = false) (hreq : req ≠ .finishPartition)
    (hserve : Service.serve (Service.dataBlockConsumer cfg.replication) (some sv) req = (leader, rsp)) :
    CallSilent (ι := ι) (.response rsp) ∧
      ∃ sv', leader = some sv' ∧ sv'.sendDataBlockMetaFinish = false := by
  cases req with
  | finishPartition => exact absurd rfl hreq
  | startPartition =>
    rw [serve_start] at hserve
    cases hserve
    exact ⟨hsv, sv, rfl, hsv⟩
  | syncPartition m =>
    by_cases hindex : sv.nextDataBlockIndex = m.dataBlockIndex
    · simp [Service.serve, Service.handle, Service.dataBlockConsumer,
        Replication.DataBlockSaver.appendSentDataBlockMetaToBuffer, hsv, hindex] at hserve
      obtain ⟨rfl, rfl⟩ := hserve
      exact ⟨trivial, _, rfl, rfl⟩
    · simp [Service.serve, Service.handle, Service.dataBlockConsumer,
        Replication.DataBlockSaver.appendSentDataBlockMetaToBuffer, hsv, hindex] at hserve
      obtain ⟨rfl, rfl⟩ := hserve
      exact ⟨trivial, sv, rfl, hsv⟩

theorem saver_sendDataBlockMetaFinish {sv sv' : Replication.DataBlockSaver ι ρ}
    (hs : sv.step cfg.naming cfg.leaderItems = some sv') :
    sv'.sendDataBlockMetaFinish = sv.sendDataBlockMetaFinish := by
  simp only [Replication.DataBlockSaver.step] at hs
  split at hs
  case h_1 =>
    split at hs
    · cases hs
    · have hfinish : sv.notifyDataBlockManagerSyncState.1.sendDataBlockMetaFinish = _ :=
        sv.notify_sendDataBlockMetaFinish
      split at hs
      case h_1 sv₁ hsv =>
        cases hs
        rwa [hsv] at hfinish
      case h_2 sv₁ hsv =>
        cases hs
        rwa [hsv] at hfinish
  case h_2 =>
    split at hs <;> cases hs <;> rfl
  case h_3 =>
    split at hs <;> cases hs <;> rfl
  case h_4 =>
    split at hs <;> cases hs <;> rfl
  case h_5 =>
    split at hs
    · cases hs
      rfl
    · split at hs <;> cases hs <;> rfl

theorem step_silent (h : Silent s) (hs : (sender cfg).step s a = some s') : Silent s' := by
  obtain ⟨sv, hleader, hsv⟩ := h.leader
  cases a with
  | follower a =>
    obtain ⟨follower, _, rfl⟩ := Option.map_eq_some_iff.mp hs
    exact h.follower
  | sender => exact stepSender_silent h hs
  | server =>
    simp only [sender, stepServer] at hs
    split at hs
    case h_2 => cases hs
    case h_1 req hcall =>
      cases hs
      have hreq : req ≠ .finishPartition := by
        rintro rfl
        have hc := h.call
        rw [hcall] at hc
        exact hc
      have hidle : s.pc ≠ .idle := by
        intro hpc
        rw [h.idle hpc] at hcall
        cases hcall
      have hserve := serve_silent cfg hsv hreq rfl
      rw [hleader]
      exact { h with idle := fun hpc => absurd hpc hidle, call := hserve.1, leader := hserve.2 }
  | loseRequest =>
    obtain ⟨call, hlose, rfl⟩ := Option.map_eq_some_iff.mp hs
    cases hcall : s.call with
    | request req =>
      rw [hcall] at hlose
      cases hlose
      exact h.lost (by simp [hcall])
    | _ => simp [hcall, Call.loseRequest] at hlose
  | loseResponse =>
    obtain ⟨call, hlose, rfl⟩ := Option.map_eq_some_iff.mp hs
    cases hcall : s.call with
    | response rsp =>
      rw [hcall] at hlose
      cases hlose
      exact h.lost (by simp [hcall])
    | _ => simp [hcall, Call.loseResponse] at hlose
  | saver =>
    simp only [sender, hleader] at hs
    obtain ⟨sv', hstep, rfl⟩ := Option.map_eq_some_iff.mp hs
    exact { h with leader := ⟨sv', rfl, (saver_sendDataBlockMetaFinish hstep).trans hsv⟩ }
  | restartLeader =>
    simp only [sender, hleader, Option.map_some, Option.some.injEq] at hs
    cases hs
    exact { h with leader := ⟨_, rfl, rfl⟩ }

/-- A sender on the directory of the follower, and the leader on its own. -/
def init (dir leaderDir : Store ι ρ) : State ι ρ where
  follower := { store := dir }
  leader := some (.init leaderDir)

theorem run_silent {dir leaderDir : Store ι ρ} {as : List (Action ι)}
    (hrun : (sender cfg).run (init dir leaderDir) as = some s) : Silent s := by
  refine (sender cfg).run_invariant (fun _ _ _ => step_silent) hrun ?_
  exact { sent := by simp [init], pc := by simp [init], idle := fun _ => rfl, wrap := rfl,
          call := trivial, leader := ⟨_, rfl, rfl⟩ }

/-! ## A complete join -/

/-- The joiner has finished, the leader has accepted the metas of all the blocks that the follower's
    manager counts, and has not reported `finished`. -/
def JoinComplete (s : State ι ρ) : Prop :=
  s.follower.joiner.dataJoinerFinished = true ∧
  (∃ sv ∈ s.leader, ∃ n ∈ s.follower.store.acquireProducedDataBlockNumber.2,
    n ≤ sv.nextDataBlockIndex) ∧
  s.dataJoinWrap.dataBlockProducerFinished = false

instance : Decidable (JoinComplete s) :=
  inferInstanceAs (Decidable (_ ∧ (∃ sv ∈ s.leader, ∃ n ∈ _, n ≤ sv.nextDataBlockIndex) ∧ _))

/-- A run of the processor that meets no failure, while nobody else moves. -/
def execution : List (Action ι) := [.sender, .server, .sender, .sender]

omit [DecidableEq ι] in
/-- Behind the blocks that the manager counts there is no meta. -/
theorem acquire_none {f : Follower ι ρ} {n index : Nat}
    (h : f.store.acquireProducedDataBlockNumber.2 = some n) (hn : n ≤ index) :
    ∃ f', f.acquireDataBlockMetaByIndex index = (f', f.joiner.dataJoinerFinished, .none) := by
  simp only [Store.acquireProducedDataBlockNumber] at h
  split at h
  case h_2 => cases h
  case h_1 st hsync =>
    cases h
    refine ⟨{ f with store := st }, ?_⟩
    simp [Follower.acquireDataBlockMetaByIndex, Store.acquireDataBlockMetaByIndex, hsync, hn]

/-- The processor returns without an exception, and `StartPartition` is all that it has sent. -/
theorem run_execution (h : Silent s) (hcomplete : JoinComplete s) (hidle : s.pc = .idle) :
    ∃ t, (sender cfg).run s execution = some t ∧ t.pc = .idle ∧ t.returned = s.returned + 1 ∧
      t.raised = s.raised ∧ t.sent = s.sent ++ [.startPartition] := by
  obtain ⟨_, ⟨sv, hleader, n, hcount, hn⟩, _⟩ := hcomplete
  obtain ⟨sv', hleader', hopen⟩ := h.leader
  rw [Option.mem_def] at hleader
  cases hleader.symm.trans hleader'
  obtain ⟨f', hacquire⟩ := acquire_none hcount hn
  have hcall := h.idle hidle
  let s₁ : State ι ρ := s.request .start .startPartition
  let s₂ : State ι ρ :=
    { s₁ with leader := some sv, call := .response (some (.start sv.nextDataBlockIndex false)) }
  let s₃ : State ι ρ :=
    { s₂ with dataJoinWrap := ⟨sv.nextDataBlockIndex, false⟩, pc := .loop, call := .idle }
  let s₄ : State ι ρ := { s₃ with follower := f' }
  have hstart : stepSender s = some s₁ := by
    simp [stepSender, hidle, hcall, h.wrap, s₁]
  have hserve : stepServer cfg s₁ = some s₂ := by
    simp [stepServer, s₁, s₂, State.request, hleader, serve_start, hopen]
  have hloop : stepSender s₂ = some s₃ := rfl
  -- the reader finds no meta, and `join_state` is still `False`
  have hbreak : stepSender s₃ = some s₄.ends := by
    have hacquire₃ : s₃.follower.acquireDataBlockMetaByIndex sv.nextDataBlockIndex =
        (f', s₃.follower.joiner.dataJoinerFinished, .none) := hacquire
    have hnat : ¬ (sv.nextDataBlockIndex : Int) < 0 := by omega
    simp [stepSender, s₃, s₄, hnat, hacquire₃, afterExecutor, joinState]
  refine ⟨s₄.ends, ?_, rfl, rfl, rfl, rfl⟩
  simp [execution, Machine.run, sender, hstart, hserve, hloop, hbreak]

/-- No run of the processor sends `FinishPartition`: not even one without a failure after the join
    is complete, and such a run there is. -/
theorem finishPartition_never_sent {dir leaderDir : Store ι ρ} {as : List (Action ι)}
    (hrun : (sender cfg).run (init dir leaderDir) as = some s) (hcomplete : JoinComplete s)
    (hidle : s.pc = .idle) :
    (∃ t, (sender cfg).run s execution = some t ∧ t.pc = .idle ∧ t.returned = s.returned + 1 ∧
      t.raised = s.raised ∧ t.sent = s.sent ++ [.startPartition]) ∧
    ∀ bs t, (sender cfg).run s bs = some t → .finishPartition ∉ t.sent := by
  have hsilent := run_silent hrun
  refine ⟨run_execution hsilent hcomplete hidle, ?_⟩
  intro bs t hrun'
  exact ((sender cfg).run_invariant (fun _ _ _ => step_silent) hrun' hsilent).sent

/-! ## A join of one block -/

namespace Sample

/-- Both sides have the id `7`, and a block is closed at its first example. -/
def config : Config Nat String where
  naming := .padded Nat "sample"
  leaderItems := { items := [⟨7, 0, "leader"⟩], nodup := by simp }
  followerItems := { items := [⟨7, 0, "follower"⟩], nodup := by simp }
  dumpDataBlockThreshold := 1

/-- The only batch is joined, and the leader accepts the meta of its block. -/
def joinAndSend : List (Action Nat) :=
  .follower (.put ⟨[7], true⟩) :: List.replicate 5 (.follower (.join false)) ++
    [.sender, .server, .sender, .sender, .server, .sender, .sender]

/-- `joinAndSend` completes the join and leaves the sender idle. -/
theorem joinAndSend_complete : ∃ s, (sender config).run (init {} {}) joinAndSend = some s ∧
    JoinComplete s ∧ s.pc = .idle ∧ s.raised = 0 := by
  have heval : ((sender config).run (init {} {}) joinAndSend).any (fun s =>
      decide (JoinComplete s ∧ s.pc = .idle ∧ s.raised = 0)) = true := by
    decide +kernel
  obtain ⟨s, hs, hprops⟩ := Option.any_eq_true _ _ |>.mp heval
  exact ⟨s, hs, of_decide_eq_true hprops⟩

theorem joinAndSend_never_notified : ∃ s, (sender config).run (init {} {}) joinAndSend = some s ∧
    JoinComplete s ∧ s.pc = .idle ∧
    ∀ bs t, (sender config).run s bs = some t → .finishPartition ∉ t.sent := by
  obtain ⟨s, hs, hcomplete, hidle, _⟩ := joinAndSend_complete
  exact ⟨s, hs, hcomplete, hidle, (finishPartition_never_sent hs hcomplete hidle).2⟩

def isFinishPartition : Service.Request (DataBlockMeta Nat) → Bool
  | .finishPartition => true
  | _ => false

/-- After the join is complete, the processor runs once more without a failure, and it has not
    sent a `FinishPartition`. -/
theorem execution_not_notified : ∃ s t, (sender config).run (init {} {}) joinAndSend = some s ∧
    JoinComplete s ∧ s.pc = .idle ∧ (sender config).run s execution = some t ∧
    t.pc = .idle ∧ t.returned = s.returned + 1 ∧ t.raised = 0 ∧ .finishPartition ∉ t.sent := by
  obtain ⟨s, hs, hcomplete, hidle, _⟩ := joinAndSend_complete
  have heval : ((sender config).run (init {} {}) joinAndSend).any (fun s =>
      ((sender config).run s execution).any fun t =>
        decide (t.pc = .idle ∧ t.returned = s.returned + 1 ∧ t.raised = 0 ∧
          ∀ req ∈ t.sent, isFinishPartition req = false)) = true := by
    decide +kernel
  rw [hs, Option.any_some] at heval
  obtain ⟨t, ht, hprops⟩ := Option.any_eq_true _ _ |>.mp heval
  obtain ⟨hpc, hreturned, hraised, hsent⟩ := of_decide_eq_true hprops
  refine ⟨s, t, hs, hcomplete, hidle, ht, hpc, hreturned, hraised, fun hmem => ?_⟩
  cases hsent _ hmem

end Sample

end Notify

end DataJoin
