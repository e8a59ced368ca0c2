-- SUMMARY: Two trainers end to end: the sender's agent, its calls and the receiver's service with its cache as one machine, and that the tensors of a name reach their consumer exactly once and in order.
import NineNMpc.Trainer.TransmitCorrect
import NineNMpc.Trainer.ServiceCorrect

/-!
# From a trainer to its peer

The agent of one trainer, the calls it streams its messages on, and the service of the other
one. A message leaves the network by the receiver's `StreamTransmitHandler`, which files it in
the receive cache or answers why not; connects, data blocks and the receiver's own calls come
at any time. The bridge refines the transmission with an unspecified receiver on one side, and
the service with an unspecified peer on the other.
-/

namespace Trainer

variable {δ : Type}

namespace System

variable {μ : Type} {s s' : System μ}

/-- The receiver has not moved. -/
def SameReceiver (s s' : System μ) : Prop :=
  s'.nextRecvSeqNum = s.nextRecvSeqNum ∧ s'.accepted = s.accepted

theorem SameReceiver.enqueueRequest {request : TrainerWorkerMessage μ}
    (hstep : s.enqueueRequest request = some s') : s.SameReceiver s' := by
  unfold System.enqueueRequest at hstep
  split at hstep
  · split at hstep
    all_goals
      obtain rfl := Option.some.inj hstep
      exact ⟨rfl, rfl⟩
  · cases hstep

theorem SameReceiver.stepEnqueue (hstep : s.stepEnqueue = some s') : s.SameReceiver s' := by
  unfold System.stepEnqueue at hstep
  split at hstep
  · cases hstep
  · next e _ =>
    obtain ⟨st, created, i, ok, hsend⟩ := s.sendNextRequest_eq ⟨e, .enqueued⟩
    rw [hsend] at hstep
    cases ok with
    | true | false =>
      obtain rfl := Option.some.inj hstep
      exact ⟨rfl, rfl⟩
  · obtain rfl := Option.some.inj hstep
    exact ⟨rfl, rfl⟩

theorem SameReceiver.complete {i : Nat} (hstep : s.complete i = some s') : s.SameReceiver s' := by
  unfold System.complete at hstep
  split at hstep
  · obtain rfl := Option.some.inj hstep
    exact ⟨rfl, rfl⟩
  · cases hstep

theorem SameReceiver.stepRetry (hstep : s.stepRetry = some s') : s.SameReceiver s' := by
  have hmove : ∀ {a : RpcBridgeAgent μ}, some { s with agent := a } = some s' →
      s.SameReceiver s' := by
    intro a ha
    obtain rfl := Option.some.inj ha
    exact ⟨rfl, rfl⟩
  unfold System.stepRetry at hstep
  split at hstep
  · split at hstep <;> exact hmove hstep
  · exact hmove (Option.ite_none_right_eq_some.mp hstep).2
  · exact hmove (Option.ite_none_right_eq_some.mp hstep).2
  · exact hmove hstep
  · exact hmove (Option.ite_none_right_eq_some.mp hstep).2
  · split at hstep <;> exact hmove hstep
  · next e _ =>
    replace hstep := (Option.ite_none_right_eq_some.mp hstep).2
    obtain ⟨st, created, i, ok, hsend⟩ := s.sendNextRequest_eq ⟨e, .resent⟩
    rw [hsend] at hstep
    cases ok with
    | true | false =>
      obtain rfl := Option.some.inj hstep
      exact ⟨rfl, rfl⟩
  · cases hstep
  · exact hmove hstep
  · split at hstep <;> exact hmove hstep
  · exact hmove (Option.ite_none_right_eq_some.mp hstep).2
  · exact hmove hstep

theorem SameReceiver.step {a : Trainer.Action μ}
    (ha : ∀ i linkUp onReceived, a ≠ .deliver i linkUp onReceived) (hstep : s.step a = some s') :
    s.SameReceiver s' := by
  cases a with
  | enqueueRequest request => exact .enqueueRequest hstep
  | enqueue => exact .stepEnqueue hstep
  | complete i => exact .complete hstep
  | callback =>
    obtain ⟨agent, -, rfl⟩ := Option.map_eq_some_iff.mp hstep
    exact ⟨rfl, rfl⟩
  | retry => exact .stepRetry hstep
  | deliver i linkUp onReceived => exact absurd rfl (ha i linkUp onReceived)
  | breakCall i =>
    obtain rfl := Option.some.inj hstep
    exact ⟨rfl, rfl⟩

end System

structure Bridge (δ : Type) where
  agent : RpcBridgeAgent (WorkerMsg δ) := {}
  calls : Nat → StreamingCall (WorkerMsg δ) := fun _ => {}
  created : Nat := 0
  copies : List (TrainerWorkerMessage (WorkerMsg δ)) := []
  /-- The exchanges whose enqueue returned OK. -/
  enqueued : List (ExchangeEntry (WorkerMsg δ)) := []
  service : Service δ := {}

namespace Bridge

/-- The sender's side, with what it is to know of the receiver. -/
def system (b : Bridge δ) : System (WorkerMsg δ) where
  agent := b.agent
  calls := b.calls
  created := b.created
  copies := b.copies
  enqueued := b.enqueued
  nextRecvSeqNum := b.service.nextRecvSeqNum
  accepted := b.service.accepted

def withSystem (b : Bridge δ) (s : System (WorkerMsg δ)) : Bridge δ :=
  { b with
    agent := s.agent, calls := s.calls, created := s.created, copies := s.copies
    enqueued := s.enqueued }

def setCall (b : Bridge δ) (i : Nat) (c : StreamingCall (WorkerMsg δ)) : Bridge δ :=
  { b with calls := Function.update b.calls i c }

/-- The receiver gets the next request of call `i` and answers on it, or finishes the call. -/
def deliver (b : Bridge δ) (i : Nat) : Option (Bridge δ) :=
  match (b.calls i).finished, (b.calls i).network with
  | false, m :: ms =>
    if b.service.aborting || b.service.exited then none
    else
      match b.service.streamTransmitHandler m with
      | (service, some r) =>
        some { b.setCall i
            { b.calls i with network := ms, responses := (b.calls i).responses ++ [r] } with
          service := Service.answer m (service, some r) }
      | (service, none) => some { b.setCall i { b.calls i with finished := true } with service }
  | _, _ => none

inductive Action (δ : Type) where
  | sender (a : Trainer.Action (WorkerMsg δ))
  | deliver (call : Nat)
  | service (a : Service.Action δ)

/-- Deliveries are steps of the bridge. -/
def step (p : Params) (b : Bridge δ) : Action δ → Option (Bridge δ)
  | .sender (.deliver ..) => none
  | .sender a => (b.system.step a).map b.withSystem
  | .deliver i => b.deliver i
  | .service (.transmit _) | .service (.streamTransmit _) => none
  | .service a => (Service.step p b.service a).map fun service => { b with service }

def machine (δ : Type) (p : Params) : Machine (Bridge δ) (Action δ) := ⟨step p⟩

variable {p : Params} {b b' : Bridge δ} {k : CacheKey}

/-! ## The transmission -/

/-- With the link up, the service answers as the receiver of a transmission that is told what
    `OnReceived` returns. -/
theorem system_streamTransmitHandler (hlink : b.service.linkUp = true)
    (m : TrainerWorkerMessage (WorkerMsg δ)) :
    ∃ r, (b.service.onMessage m).2 = some r ∧
      b.system.streamTransmitHandler m (b.service.cache.onReceived m).2 =
        ({ b with service := (b.service.onMessage m).1 }.system, r) := by
  obtain ⟨cache, result, hc⟩ : ∃ cache result, b.service.cache.onReceived m = (cache, result) :=
    ⟨_, _, rfl⟩
  rw [hc]
  by_cases hseq : m.seqNum = b.service.nextRecvSeqNum
  · cases result with
    | ok _ =>
      refine ⟨⟨.success, "", b.service.nextRecvSeqNum + 1⟩, ?_, ?_⟩
      · simp [Service.onMessage, Service.stateMove, hlink, hseq, hc]
      · simp [System.streamTransmitHandler, Service.onMessage, Service.stateMove, system, hlink,
          hseq, hc]
    | error e =>
      refine ⟨⟨.unknownError, e, b.service.nextRecvSeqNum⟩, ?_, ?_⟩
      · simp [Service.onMessage, Service.stateMove, hlink, hseq, hc]
      · simp [System.streamTransmitHandler, Service.onMessage, Service.stateMove, system, hlink,
          hseq, hc]
  · by_cases hlt : b.service.nextRecvSeqNum < m.seqNum
    · refine ⟨⟨.messageMissing, "", b.service.nextRecvSeqNum⟩, ?_, ?_⟩
      · simp [Service.onMessage, Service.stateMove, hlink, hseq, hlt]
      · simp [System.streamTransmitHandler, Service.onMessage, Service.stateMove, system, hlink,
          hseq, hlt]
    · refine ⟨⟨.messageDuplicated, "", b.service.nextRecvSeqNum⟩, ?_, ?_⟩
      · simp [Service.onMessage, Service.stateMove, hlink, hseq, hlt]
      · simp [System.streamTransmitHandler, Service.onMessage, Service.stateMove, system, hlink,
          hseq, hlt]

/-- A delivery is one of the transmission, and one message of the service. -/
theorem deliver_eq_some {i : Nat} (hstep : b.deliver i = some b') :
    ∃ m, b.service.aborting = false ∧ b.service.exited = false ∧
      b'.service = Service.answer m (b.service.streamTransmitHandler m) ∧
      b.system.deliver i b.service.linkUp (b.service.cache.onReceived m).2 = some b'.system := by
  unfold Bridge.deliver at hstep
  split at hstep
  · next m ms hfin hnet =>
    have hfin' : (b.system.calls i).finished = false := hfin
    have hnet' : (b.system.calls i).network = m :: ms := hnet
    split at hstep
    · cases hstep
    · next hlive =>
      obtain ⟨habort, hexited⟩ : b.service.aborting = false ∧ b.service.exited = false := by
        simpa using hlive
      refine ⟨m, habort, hexited, ?_⟩
      by_cases hlink : b.service.linkUp = true
      · obtain ⟨r, hr, hsys⟩ := system_streamTransmitHandler hlink m
        obtain ⟨service, result, hm⟩ : ∃ service result, b.service.onMessage m = (service, result) :=
          ⟨_, _, rfl⟩
        rw [hm] at hr hsys
        obtain rfl : result = some r := hr
        have hhandler : b.service.streamTransmitHandler m = (service, some r) := hm
        rw [hhandler] at hstep ⊢
        obtain rfl := Option.some.inj hstep
        refine ⟨rfl, ?_⟩
        simp only [System.deliver, hfin', hnet', hlink, hsys, ↓reduceIte]
        simp [system, System.setCall, Bridge.setCall, Service.answer, hfin]
      · have hhandler : b.service.streamTransmitHandler m = (b.service, none) := by
          simp [Service.streamTransmitHandler, Service.onMessage, hlink]
        rw [hhandler] at hstep ⊢
        obtain rfl := Option.some.inj hstep
        refine ⟨rfl, ?_⟩
        simp only [System.deliver, hfin', hnet', hlink, Bool.false_eq_true, ↓reduceIte]
        simp [system, System.setCall, Bridge.setCall, hnet]
  · cases hstep

/-- A step that leaves the sender's side and the messages taken as they are. -/
theorem system_service {service : Service δ} (hseq : service.nextRecvSeqNum = b.service.nextRecvSeqNum)
    (haccepted : service.accepted = b.service.accepted) : { b with service }.system = b.system := by
  simp [system, hseq, haccepted]

/-- The calls of the local trainer, connects and data blocks take no message. -/
theorem accepted_step {s s' : Service δ} {a : Service.Action δ} (htransmit : ∀ m, a ≠ .transmit m)
    (hstream : ∀ m, a ≠ .streamTransmit m) (hstep : Service.step p s a = some s') :
    s'.nextRecvSeqNum = s.nextRecvSeqNum ∧ s'.accepted = s.accepted := by
  have hlive := Service.step_eq_some hstep
  simp only [Service.step, hlive, Bool.false_eq_true, ↓reduceIte] at hstep
  cases a with
  | transmit m => exact absurd rfl (htransmit m)
  | streamTransmit m => exact absurd rfl (hstream m)
  | connect req =>
    obtain ⟨-, rfl⟩ := Service.stepTcq_eq_some hstep
    unfold Service.connectHandler
    split
    · split <;> exact ⟨rfl, rfl⟩
    all_goals exact ⟨rfl, rfl⟩
  | loadDataBlock req =>
    obtain ⟨-, ⟨-, rfl⟩ | ⟨-, ⟨-, rfl⟩ | ⟨-, rfl⟩⟩⟩ := Service.loadDataBlockHandler_cases hstep
    all_goals exact ⟨rfl, rfl⟩
  | loaded env =>
    obtain ⟨-, nextId, files, rfl, -⟩ := Service.loaded_cases hstep
    exact ⟨rfl, rfl⟩
  | exit =>
    obtain ⟨-, hs⟩ := Option.ite_none_right_eq_some.mp hstep
    obtain rfl := Option.some.inj hs
    exact ⟨rfl, rfl⟩
  | trainStartInternal =>
    obtain rfl := Option.some.inj hstep
    exact ⟨rfl, rfl⟩
  | queryResult k | endQuery i | finishQuery i =>
    obtain ⟨cache, -, rfl⟩ := Service.withCache_eq_some hstep
    exact ⟨rfl, rfl⟩
  | waitPeerReady | endPeerWait i | finishPeerWait i =>
    obtain ⟨peer, -, rfl⟩ := Service.withPeer_eq_some hstep
    exact ⟨rfl, rfl⟩
  | queryReadyFile | checkReadyFile i | endReadyFileWait i | resetReadyFile i =>
    obtain ⟨files, -, rfl⟩ := Service.withFiles_eq_some hstep
    exact ⟨rfl, rfl⟩

theorem system_withSystem {s : System (WorkerMsg δ)} (h : b.system.SameReceiver s) :
    (b.withSystem s).system = s := by
  obtain ⟨hseq, haccepted⟩ := h
  have hseq : b.service.nextRecvSeqNum = s.nextRecvSeqNum := hseq.symm
  have haccepted : b.service.accepted = s.accepted := haccepted.symm
  simp only [system, withSystem, hseq, haccepted]

theorem step_sender {a : Trainer.Action (WorkerMsg δ)} (hstep : step p b (.sender a) = some b') :
    (∀ i linkUp onReceived, a ≠ .deliver i linkUp onReceived) ∧
      ∃ s, b.system.step a = some s ∧ b' = b.withSystem s := by
  cases a with
  | deliver i linkUp onReceived => cases hstep
  | _ =>
    simp only [step, Option.map_eq_some_iff] at hstep
    obtain ⟨s, hs, rfl⟩ := hstep
    exact ⟨by simp, s, hs, rfl⟩

theorem step_other {a : Service.Action δ} (hstep : step p b (.service a) = some b') :
    (∀ m, a ≠ .transmit m) ∧ (∀ m, a ≠ .streamTransmit m) ∧
      ∃ service, Service.step p b.service a = some service ∧ b' = { b with service } := by
  cases a with
  | transmit m | streamTransmit m => cases hstep
  | _ =>
    simp only [step, Option.map_eq_some_iff] at hstep
    obtain ⟨service, hs, rfl⟩ := hstep
    exact ⟨by simp, by simp, service, hs, rfl⟩

/-- Every step of the bridge is a step of the transmission, or none of it. -/
theorem step_system {a : Action δ} (hstep : step p b a = some b') :
    b'.system = b.system ∨ ∃ a', System.step b.system a' = some b'.system := by
  cases a with
  | sender a =>
    obtain ⟨hnot, s, hs, rfl⟩ := step_sender hstep
    exact .inr ⟨a, by rw [system_withSystem (.step hnot hs), hs]⟩
  | deliver i =>
    obtain ⟨m, -, -, -, hdeliver⟩ := deliver_eq_some hstep
    exact .inr ⟨.deliver i _ _, hdeliver⟩
  | service a =>
    obtain ⟨htransmit, hstream, service, hs, rfl⟩ := step_other hstep
    obtain ⟨hseq, haccepted⟩ := accepted_step htransmit hstream hs
    exact .inl (system_service hseq haccepted)

/-- A delivery is a message of the service. -/
theorem step_deliver {i : Nat} (hstep : b.deliver i = some b') :
    ∃ m, Service.step p b.service (.streamTransmit m) = some b'.service := by
  obtain ⟨m, habort, hexited, hservice, -⟩ := deliver_eq_some hstep
  exact ⟨m, by simp [Service.step, Service.stepTcq, habort, hexited, hservice]⟩

/-! ## The receive cache -/

/-- The entry a call of `QueryResult` begins to ask for. -/
def Action.query? : Action δ → Option CacheKey
  | .service (.queryResult k) => some k
  | _ => none

/-- A query of `k` begins only when no other one is outstanding. -/
def OneQuery (k : CacheKey) (b : Bridge δ) (a : Action δ) : Prop :=
  ∀ k' ∈ a.query?, RecvCache.OneQuery k b.service.cache (.queryResult k')

instance {a : Action δ} : Decidable (OneQuery k b a) :=
  inferInstanceAs (Decidable (∀ k' ∈ a.query?, RecvCache.OneQuery k b.service.cache (.queryResult k')))

theorem cache_onMessage (s : Service δ) (m : TrainerWorkerMessage (WorkerMsg δ)) :
    (Service.answer m (s.onMessage m)).cache = s.cache ∨
      (Service.answer m (s.onMessage m)).cache = (s.cache.onReceived m).1 := by
  obtain ⟨-, heq⟩ | ⟨-, -, k, cache, -, hc, -, heq⟩ | ⟨-, r, heq, -, -, -⟩ := s.onMessage_cases m
  · exact .inl (by rw [heq]; rfl)
  · exact .inr (by rw [heq, hc]; rfl)
  · exact .inl (by rw [heq]; rfl)

/-- Every step of the bridge is a step of the receive cache, or none of it. -/
theorem step_cache {a : Action δ} (hone : OneQuery k b a) (hstep : step p b a = some b') :
    b'.service.cache = b.service.cache ∨ ∃ c, RecvCache.OneQuery k b.service.cache c ∧
      b.service.cache.step c = some b'.service.cache := by
  cases a with
  | sender a =>
    obtain ⟨-, s, -, rfl⟩ := step_sender hstep
    exact .inl rfl
  | deliver i =>
    obtain ⟨m, -, -, hservice, -⟩ := deliver_eq_some hstep
    rw [hservice]
    rcases cache_onMessage b.service m with hsame | hmove
    · exact .inl hsame
    · exact .inr ⟨.onReceived m, trivial, congrArg some hmove.symm⟩
  | service a =>
    obtain ⟨htransmit, hstream, service, hs, rfl⟩ := step_other hstep
    have hlive := Service.step_eq_some hs
    simp only [Service.step, hlive, Bool.false_eq_true, ↓reduceIte] at hs
    cases a with
    | transmit m => exact absurd rfl (htransmit m)
    | streamTransmit m => exact absurd rfl (hstream m)
    | connect req =>
      obtain ⟨-, rfl⟩ := Service.stepTcq_eq_some hs
      left
      simp only [Service.connectHandler]
      split
      · split <;> rfl
      all_goals rfl
    | loadDataBlock req =>
      obtain ⟨-, ⟨-, rfl⟩ | ⟨-, ⟨-, rfl⟩ | ⟨-, rfl⟩⟩⟩ := Service.loadDataBlockHandler_cases hs
      all_goals exact .inl rfl
    | loaded env =>
      obtain ⟨-, nextId, files, rfl, -⟩ := Service.loaded_cases hs
      exact .inl rfl
    | exit =>
      obtain ⟨-, hs⟩ := Option.ite_none_right_eq_some.mp hs
      obtain rfl := Option.some.inj hs
      exact .inl rfl
    | trainStartInternal =>
      obtain rfl := Option.some.inj hs
      exact .inl rfl
    | queryResult k' =>
      obtain ⟨cache, hcache, rfl⟩ := Service.withCache_eq_some hs
      exact .inr ⟨.queryResult k', hone k' rfl, hcache⟩
    | endQuery i =>
      obtain ⟨cache, hcache, rfl⟩ := Service.withCache_eq_some hs
      exact .inr ⟨.endWait i, trivial, hcache⟩
    | finishQuery i =>
      obtain ⟨cache, hcache, rfl⟩ := Service.withCache_eq_some hs
      exact .inr ⟨.finish i, trivial, hcache⟩
    | waitPeerReady | endPeerWait i | finishPeerWait i =>
      obtain ⟨peer, -, rfl⟩ := Service.withPeer_eq_some hs
      exact .inl rfl
    | queryReadyFile | checkReadyFile i | endReadyFileWait i | resetReadyFile i =>
      obtain ⟨files, -, rfl⟩ := Service.withFiles_eq_some hs
      exact .inl rfl

/-! ## Runs -/

variable {acts : List (Action δ)}

theorem system_inv_run (hrun : (machine δ p).run {} acts = some b) : b.system.Inv := by
  obtain ⟨as, has⟩ := (machine δ p).run_image (transmission (WorkerMsg δ)) system
    (fun _ _ _ hstep => step_system hstep) hrun
  exact System.inv_run has

/-- A step of the bridge keeps the invariant of the service. -/
theorem service_inv_run (hrun : (machine δ p).run {} acts = some b) : Service.Inv p b.service := by
  refine (machine δ p).run_invariant (P := fun b => Service.Inv p b.service) ?_ hrun
    Service.inv_init
  intro b a b' h hstep
  cases a with
  | sender a =>
    obtain ⟨-, s, -, rfl⟩ := step_sender hstep
    exact h
  | deliver i =>
    obtain ⟨m, hm⟩ := step_deliver (p := p) hstep
    exact h.step hm
  | service a =>
    obtain ⟨-, -, service, hs, rfl⟩ := step_other hstep
    exact h.step hs

theorem cache_inv_run (hk : RecvCache.Waits δ k) (hone : (machine δ p).Meets (OneQuery k) {} acts)
    (hrun : (machine δ p).run {} acts = some b) : RecvCache.Inv k b.service.cache := by
  obtain ⟨cs, hmeets, hcs⟩ := (machine δ p).run_project (RecvCache.machine δ)
    (fun b => b.service.cache) (fun b a b' hone hstep => step_cache hone hstep) hone hrun
  exact (RecvCache.machine δ).run_induct (fun _ _ _ hone h hstep => h.step hk hone hstep) hmeets
    hcs RecvCache.inv_init

/-- The messages for an entry that were enqueued. -/
def sent (b : Bridge δ) (k : CacheKey) : List (TrainerWorkerMessage (WorkerMsg δ)) :=
  (b.enqueued.map (·.request)).filter (·.key? = some k)

theorem accepted_filed {s : Service δ} (h : Service.Inv p s) :
    s.cache.accepted k = s.accepted.filter (·.key? = some k) := by
  unfold RecvCache.accepted
  rw [h.filed, List.filterMap_filterMap, ← List.filterMap_eq_filter]
  congr 1
  funext m
  cases hm : m.key? with
  | none => simp [Option.guard, hm]
  | some k' => by_cases hk : k' = k <;> simp [Option.guard, hm, hk]

/-- End to end, over all interleavings of the sender's threads, broken calls, refused and repeated
    messages, connects and timeouts: the tensors of a name that were handed to their consumer, and the
    one at most that waits in its entry, are the first ones enqueued under that name, each once and
    in order; and a tensor that has not got there is still in the hands of the sender. -/
theorem tensors_exactly_once {name : String}
    (hone : (machine δ p).Meets (OneQuery (dataKey name)) {} acts)
    (hrun : (machine δ p).run {} acts = some b) (hseq : b.system.Consecutive) :
    b.service.cache.handed (dataKey name) ++ b.service.cache.pending (dataKey name) <+:
        b.sent (dataKey name) ∧
      (b.service.cache.pending (dataKey name)).length ≤ 1 ∧
      ∀ e ∈ b.enqueued, e.request.key? = some (dataKey name) →
        e.request ∈ b.service.cache.handed (dataKey name) ++
            b.service.cache.pending (dataKey name) ∨
          e ∈ b.agent.msgExchangesCache ∨ e ∈ b.agent.msgReexchanges ∨ e ∈ b.agent.retry.hand ∨
          e ∈ b.agent.callback.hand := by
  have hsystem := system_inv_run hrun
  have hcache := cache_inv_run RecvCache.waits_dataKey hone hrun
  have hfiled : b.service.cache.handed (dataKey name) ++ b.service.cache.pending (dataKey name) =
      b.service.accepted.filter (·.key? = some (dataKey name)) :=
    hcache.conserved.symm.trans (accepted_filed (service_inv_run hrun))
  refine ⟨?_, ?_, fun e he hkey => ?_⟩
  · rw [hfiled]
    exact (hsystem.accepted_prefix hseq).filter _
  · unfold RecvCache.pending
    split <;> simp
  · rcases hsystem.agent.held e he with hlt | hheld
    · have hmem : e.request ∈ b.service.accepted := hsystem.mem_accepted hseq he hlt
      exact .inl (hfiled ▸ List.mem_filter.mpr ⟨hmem, by simpa using hkey⟩)
    · exact .inr hheld

namespace Sample

def params : Params := ⟨"app", 0, "follower"⟩

def tensor (seqNum : Nat) : TrainerWorkerMessage (WorkerMsg Nat) := ⟨seqNum, .data "w" seqNum⟩

/-- The first message comes before the connect, so its call is finished; the retry thread sends it on
    the next one, where a second message follows. -/
def schedule : List (Action Nat) :=
  [.sender .retry, .sender .retry, .sender (.enqueueRequest (tensor 0)), .sender .enqueue,
    .deliver 0, .sender (.breakCall 0), .sender (.complete 0), .sender .callback, .sender .callback,
    .service (.connect ⟨"app", 0, "1"⟩),
    .sender .retry, .sender .retry, .sender .retry, .sender .retry, .sender .retry, .deliver 1,
    .sender (.complete 1), .sender .retry, .sender .retry, .sender .retry,
    .service (.queryResult (dataKey "w")),
    .sender (.enqueueRequest (tensor 1)), .sender .enqueue, .deliver 1]

theorem bridge_exactly_once : ∃ b, (machine Nat params).run {} schedule = some b ∧
    b.service.cache.handed (dataKey "w") = [tensor 0] ∧
    b.service.cache.pending (dataKey "w") = [tensor 1] ∧
    b.service.cache.handed (dataKey "w") ++ b.service.cache.pending (dataKey "w") <+:
      b.sent (dataKey "w") :=
  ⟨_, rfl, by decide, by decide,
    (@tensors_exactly_once Nat params _ schedule "w" (by decide) rfl (by decide)).1⟩

end Sample

end Bridge

end Trainer
