-- SUMMARY: Streamed transmission is in order and exactly once: every step keeps the invariant, and a run from the start accepts a prefix of what was enqueued.
import NineNMpc.Trainer.TransmitInvariant

/-! # Correctness of streamed transmission -/

namespace Trainer

namespace System

variable {μ : Type} {s s' : System μ}

/-! ## Steps of the sender -/

theorem Inv.enqueueRequest {request : TrainerWorkerMessage μ} (h : s.Inv)
    (hstep : s.enqueueRequest request = some s') : s'.Inv := by
  unfold System.enqueueRequest at hstep
  split at hstep
  · split at hstep
    · simp only [Option.some.injEq] at hstep
      exact hstep ▸ h
    · simp only [Option.some.injEq] at hstep
      subst hstep
      exact {
        copied := fun e he => (h.copied e he).append _
        agent := h.agent.push h.copied
        calls := h.calls
        resent := h.resent
        received := h.received
        accepted := h.accepted }
  · cases hstep

/-- The enqueue returns OK: its exchange is outstanding, and from now on counts as enqueued. -/
theorem Inv.sent {e : ExchangeEntry μ} {st : Option Nat} {created i : Nat} (h : s.Inv)
    (he : s.agent.enqueue = .send e) :
    Inv { s with
      agent := { s.agent with state := st, enqueue := .idle }
      created := created
      calls := Function.update s.calls i ((s.calls i).write ⟨e, .enqueued⟩)
      enqueued := s.enqueued ++ [e] } := by
  have hsub : s.enqueued ⊆ s.enqueued ++ [e] := List.subset_append_left _ _
  have hcached := (h.agent.pending e (by simp [he, EnqueuePc.hand])).1
  exact {
    copied := by
      intro e' he'
      rcases List.mem_append.mp he' with he' | he'
      · exact h.copied e' he'
      · rw [List.mem_singleton.mp he']
        exact h.agent.cache e hcached
    agent := (h.agent.sent he).congr rfl rfl rfl rfl rfl
    calls := by
      intro j
      have hj := (h.calls j).mono hsub (Nat.le_refl _)
      by_cases hji : j = i
      · subst hji
        simpa using hj.write (x := ⟨e, .enqueued⟩) (by simp)
      · simpa [hji] using hj
    resent := by
      intro j
      by_cases hji : j = i
      · subst hji
        simpa [StreamingCall.resent_write] using h.resent j
      · simpa [hji] using h.resent j
    received := h.received
    accepted := fun m hm => List.map_subset _ hsub (h.accepted m hm) }

theorem Inv.stepEnqueue (h : s.Inv) (hstep : s.stepEnqueue = some s') : s'.Inv := by
  unfold System.stepEnqueue at hstep
  split at hstep
  · cases hstep
  · next e he =>
    obtain ⟨st, created, i, ok, hsend⟩ := s.sendNextRequest_eq ⟨e, .enqueued⟩
    rw [hsend] at hstep
    cases ok with
    | true =>
      simp only [Option.some.injEq, ↓reduceIte] at hstep
      exact hstep ▸ h.sent he
    | false =>
      simp only [Option.some.injEq, Bool.false_eq_true, ↓reduceIte] at hstep
      subst hstep
      have hagent : RpcBridgeAgent.Inv s.copies s.enqueued s.nextRecvSeqNum
          { s.agent with state := st, enqueue := .failed e } :=
        { h.agent with pending := by simpa [he, EnqueuePc.hand] using h.agent.pending }
      have := h.withAgent hagent fun _ => rfl
      exact ⟨this.copied, this.agent, this.calls, this.resent, this.received, this.accepted⟩
  · next e he =>
    simp only [Option.some.injEq] at hstep
    exact hstep ▸ h.withAgent (h.agent.unsent he) fun _ => rfl

/-! ## Completions -/

theorem retry_takeExchange {a : RpcBridgeAgent μ} {ptr : Nat}
    {result : Option TrainerWorkerResponse} : (a.takeExchange ptr result).retry = a.retry := by
  unfold RpcBridgeAgent.takeExchange
  split <;> rfl

/-- An exchange of the retry loop completes only while the loop waits for it. -/
theorem Inv.awaited {i : Nat} {x : Exchange μ} {c : StreamingCall μ}
    {result : Option TrainerWorkerResponse} (h : s.Inv)
    (hc : (s.calls i).complete = some (x, result, c)) (hx : x.done = .resent) :
    s.agent.retry = .await x.entry i ∧ c.resent = [] := by
  have hres := StreamingCall.resent_complete hc
  rw [h.resent i, if_pos hx, List.singleton_append] at hres
  unfold RetryPc.awaited at hres
  split at hres
  · next e j hpc =>
    split at hres
    · next hij =>
      simp only [List.cons.injEq] at hres
      exact ⟨by rw [hpc, hres.1, hij], hres.2.symm⟩
    · cases hres
  · cases hres

theorem Inv.complete {i : Nat} (h : s.Inv) (hstep : s.complete i = some s') : s'.Inv := by
  unfold System.complete at hstep
  split at hstep
  · next x result c hidle hc =>
    simp only [Option.some.injEq] at hstep
    subst hstep
    obtain ⟨hmem, hinv, htold⟩ := (h.calls i).complete hc
    have hcalls : ∀ j, ((s.setCall i c).calls j).Inv s.enqueued s.nextRecvSeqNum := by
      intro j
      unfold setCall
      by_cases hj : j = i
      · subst hj
        simpa using hinv
      · simpa [hj] using h.calls j
    cases hx : x.done with
    | enqueued =>
      refine ⟨h.copied, h.agent.takeExchange h.copied hmem hidle htold, hcalls, fun j => ?_,
        h.received, h.accepted⟩
      simp only [retry_takeExchange]
      by_cases hj : j = i
      · subst hj
        rw [← h.resent j, StreamingCall.resent_complete hc]
        simp [setCall, hx]
      · simpa [setCall, hj] using h.resent j
    | resent =>
      obtain ⟨hpc, hnone⟩ := h.awaited hc hx
      have hnotify : s.agent.notifyRetry result =
          { s.agent with retry := .notified x.entry result } := by
        unfold RpcBridgeAgent.notifyRetry
        simp [hpc]
      simp only [hnotify]
      refine ⟨h.copied, ?_, hcalls, fun j => ?_, h.received, h.accepted⟩
      · refine h.agent.moveRetry (by rw [hpc]; rfl) fun e r hr => ?_
        simp only [RetryPc.notified.injEq] at hr
        exact hr.1 ▸ htold r hr.2
      · by_cases hj : j = i
        · subst hj
          simpa [setCall, RetryPc.awaited] using hnone
        · have := h.resent j
          rw [hpc] at this
          simpa [setCall, hj, RetryPc.awaited] using this
  · cases hstep

/-! ## The retry thread -/

theorem Inv.resend {e : ExchangeEntry μ} {st : Option Nat} {created i : Nat} (h : s.Inv)
    (he : s.agent.retry = .send e) :
    Inv { s with
      agent := { s.agent with state := st, retry := .await e i }
      created := created
      calls := Function.update s.calls i ((s.calls i).write ⟨e, .resent⟩) } where
  copied := h.copied
  agent := h.agent.moveRetry (by rw [he]; rfl) (by simp)
  calls j := by
    have hmem : e ∈ s.enqueued := h.agent.retryHand e (by rw [he]; exact List.mem_singleton.mpr rfl)
    by_cases hj : j = i
    · subst hj
      simpa using (h.calls j).write (x := ⟨e, .resent⟩) hmem
    · simpa [hj] using h.calls j
  resent j := by
    have hnone : (s.calls j).resent = [] := by rw [h.resent j, he]; rfl
    by_cases hj : j = i
    · subst hj
      simp [StreamingCall.resent_write, hnone, RetryPc.awaited]
    · simp [hj, hnone, RetryPc.awaited]
  received := h.received
  accepted := h.accepted

/-- The loop takes the first entry to resend. -/
theorem Inv.takeResend {e : ExchangeEntry μ} {es : List (ExchangeEntry μ)} (h : s.Inv)
    (hpc : s.agent.retry = .loop) (hre : s.agent.msgReexchanges = e :: es) :
    Inv { s with agent := { s.agent with msgReexchanges := es, retry := .send e } } := by
  refine h.withAgent (h.agent.setRetry ?_ ?_ (by simp)) fun i => by rw [hpc]; rfl
  · rintro e' (he' | he')
    · exact .inl (by simp [hre, he'])
    · exact .inl (by simp [hre, List.mem_singleton.mp he'])
  · rintro e' (he' | he')
    · rw [hre, List.mem_cons] at he'
      exact .inr (he'.symm.imp_right List.mem_singleton.mpr)
    · rw [hpc] at he'
      cases he'

/-- An entry that the receiver has is dropped. -/
theorem Inv.dropResent {e : ExchangeEntry μ} {r : TrainerWorkerResponse} (h : s.Inv)
    (hpc : s.agent.retry = .notified e (some r))
    (hr : r.resultCode = .success ∨ r.resultCode = .messageDuplicated) :
    Inv { s with agent := { s.agent with retry := .loop } } := by
  have hlt : e.seqNum < s.nextRecvSeqNum := h.agent.retryTold e r hpc hr
  refine h.withAgent (h.agent.setRetry ?_ ?_ (by simp)) fun i => by rw [hpc]; rfl
  · rintro e' (he' | he')
    · exact .inl he'
    · cases he'
  · rintro e' (he' | he')
    · exact .inr (.inl he')
    · rw [hpc] at he'
      exact .inl (List.mem_singleton.mp he' ▸ hlt)

theorem Inv.stepRetry (h : s.Inv) (hstep : s.stepRetry = some s') : s'.Inv := by
  -- A move that pops nothing, drops nothing and neither starts nor ends a wait.
  have hmove : ∀ {cs cb n st} {pc : RetryPc μ}, pc.hand = s.agent.retry.hand →
      (∀ i, pc.awaited i = s.agent.retry.awaited i) → (∀ e r, pc ≠ .notified e (some r)) →
      Inv { s with agent := { s.agent with
        channelState := cs, retryCb := cb, notification := n, state := st, retry := pc } } :=
    fun hhand hawaited hnot =>
      h.withAgent (h.agent.moveRetry hhand fun e r hr => absurd hr (hnot e r)) hawaited
  unfold System.stepRetry at hstep
  cases hpc : s.agent.retry with
  | start =>
    simp only [hpc] at hstep
    split at hstep
    all_goals
      simp only [Option.some.injEq] at hstep
      exact hstep ▸ hmove (by rw [hpc]; rfl) (fun i => by rw [hpc]; rfl) (by simp)
  | register =>
    simp only [hpc, Option.ite_none_right_eq_some, Option.some.injEq] at hstep
    exact hstep.2 ▸ hmove (by rw [hpc]; rfl) (fun i => by rw [hpc]; rfl) (by simp)
  | wait =>
    simp only [hpc, Option.ite_none_right_eq_some, Option.some.injEq] at hstep
    exact hstep.2 ▸ hmove (by rw [hpc]; rfl) (fun i => by rw [hpc]; rfl) (by simp)
  | clear =>
    simp only [hpc, Option.some.injEq] at hstep
    exact hstep ▸ hmove (by rw [hpc]; rfl) (fun i => by rw [hpc]; rfl) (by simp)
  | reset =>
    simp only [hpc, Option.ite_none_right_eq_some, Option.some.injEq] at hstep
    exact hstep.2 ▸ hmove (by rw [hpc]; rfl) (fun i => by rw [hpc]; rfl) (by simp)
  | loop =>
    simp only [hpc] at hstep
    split at hstep
    · simp only [Option.some.injEq] at hstep
      exact hstep ▸ hmove (by rw [hpc]; rfl) (fun i => by rw [hpc]; rfl) (by simp)
    · next e es hre =>
      simp only [Option.some.injEq] at hstep
      exact hstep ▸ h.takeResend hpc hre
  | send e =>
    simp only [hpc, Option.ite_none_right_eq_some] at hstep
    obtain ⟨-, hstep⟩ := hstep
    obtain ⟨st, created, i, ok, hsend⟩ := s.sendNextRequest_eq ⟨e, .resent⟩
    rw [hsend] at hstep
    cases ok with
    | true =>
      simp only [Option.some.injEq, ↓reduceIte] at hstep
      exact hstep ▸ h.resend hpc
    | false =>
      simp only [Option.some.injEq, Bool.false_eq_true, ↓reduceIte] at hstep
      subst hstep
      have hsleep : Inv { s with agent := { s.agent with state := st, retry := .sleep e } } :=
        hmove (by rw [hpc]; rfl) (fun i => by rw [hpc]; rfl) (by simp)
      exact ⟨hsleep.copied, hsleep.agent, hsleep.calls, hsleep.resent, hsleep.received,
        hsleep.accepted⟩
  | await e i =>
    simp only [hpc] at hstep
    cases hstep
  | notified e result =>
    cases result with
    | none =>
      simp only [hpc, Option.some.injEq] at hstep
      exact hstep ▸ hmove (by rw [hpc]; rfl) (fun i => by rw [hpc]; rfl) (by simp)
    | some r =>
      simp only [hpc] at hstep
      split at hstep
      · next hr =>
        simp only [Option.some.injEq] at hstep
        exact hstep ▸ h.dropResent hpc (.inl hr)
      · next hr =>
        simp only [Option.some.injEq] at hstep
        exact hstep ▸ h.dropResent hpc (.inr hr)
      · simp only [Option.some.injEq] at hstep
        exact hstep ▸ hmove (by rw [hpc]; rfl) (fun i => by rw [hpc]; rfl) (by simp)
  | sleep e =>
    simp only [hpc, Option.ite_none_right_eq_some, Option.some.injEq] at hstep
    exact hstep.2 ▸ hmove (by rw [hpc]; rfl) (fun i => by rw [hpc]; rfl) (by simp)
  | activate =>
    simp only [hpc, Option.some.injEq] at hstep
    exact hstep ▸ hmove (by rw [hpc]; rfl) (fun i => by rw [hpc]; rfl) (by simp)

/-! ## Deliveries -/

theorem Inv.accept {m : TrainerWorkerMessage μ} (h : s.Inv)
    (hm : m ∈ s.enqueued.map (·.request)) (hseq : m.seqNum = s.nextRecvSeqNum) :
    Inv { s with nextRecvSeqNum := s.nextRecvSeqNum + 1, accepted := s.accepted ++ [m] } where
  copied := h.copied
  agent := h.agent.mono (Nat.le_succ _)
  calls i := (h.calls i).mono (List.Subset.refl _) (Nat.le_succ _)
  resent := h.resent
  received := by simp [h.received, hseq, List.range_succ]
  accepted m' hm' := by
    rcases List.mem_append.mp hm' with hm' | hm'
    · exact h.accepted m' hm'
    · rw [List.mem_singleton.mp hm']
      exact hm

/-- The receiver keeps the invariant, and answers truthfully. -/
theorem Inv.streamTransmitHandler {m : TrainerWorkerMessage μ} {onReceived : Except String Unit}
    {r : TrainerWorkerResponse} (h : s.Inv) (hm : m ∈ s.enqueued.map (·.request))
    (hstep : s.streamTransmitHandler m onReceived = (s', r)) :
    s'.Inv ∧ s'.calls = s.calls ∧ Truthful s'.nextRecvSeqNum m r := by
  unfold System.streamTransmitHandler at hstep
  split at hstep
  · next hseq =>
    split at hstep
    · simp only [Prod.mk.injEq] at hstep
      obtain ⟨rfl, rfl⟩ := hstep
      refine ⟨h.accept hm hseq, rfl, fun _ => ?_⟩
      exact hseq ▸ Nat.lt_succ_self _
    · simp only [Prod.mk.injEq] at hstep
      obtain ⟨rfl, rfl⟩ := hstep
      exact ⟨h, rfl, by simp [Truthful]⟩
  · next hseq =>
    split at hstep
    · simp only [Prod.mk.injEq] at hstep
      obtain ⟨rfl, rfl⟩ := hstep
      exact ⟨h, rfl, by simp [Truthful]⟩
    · next hle =>
      simp only [Prod.mk.injEq] at hstep
      obtain ⟨rfl, rfl⟩ := hstep
      exact ⟨h, rfl, fun _ => by omega⟩

theorem Inv.deliver {i : Nat} {linkUp : Bool} {onReceived : Except String Unit} (h : s.Inv)
    (hstep : s.deliver i linkUp onReceived = some s') : s'.Inv := by
  unfold System.deliver at hstep
  split at hstep
  · next m ms _ hnet =>
    split at hstep
    · obtain ⟨t, r, ht⟩ : ∃ t r, s.streamTransmitHandler m onReceived = (t, r) := ⟨_, _, rfl⟩
      simp only [ht, Option.some.injEq] at hstep
      subst hstep
      have hm := (h.calls i).network m (by simp [hnet])
      obtain ⟨htinv, hcalls, htold⟩ := h.streamTransmitHandler hm ht
      rw [← hcalls] at hnet ⊢
      exact htinv.withCall ((htinv.calls i).answer hnet htold) rfl
    · simp only [Option.some.injEq] at hstep
      exact hstep ▸ h.withCall (h.calls i).finish rfl
  · cases hstep

/-! ## Runs -/

theorem Inv.step {a : Action μ} (h : s.Inv) (hstep : s.step a = some s') : s'.Inv := by
  cases a with
  | enqueueRequest request => exact h.enqueueRequest hstep
  | enqueue => exact h.stepEnqueue hstep
  | complete i => exact h.complete hstep
  | callback =>
    obtain ⟨a, ha, rfl⟩ := Option.map_eq_some_iff.mp hstep
    refine h.withAgent (h.agent.stepCallback ha) fun i => ?_
    rw [RpcBridgeAgent.retry_stepCallback ha]
  | retry => exact h.stepRetry hstep
  | deliver i linkUp onReceived => exact h.deliver hstep
  | breakCall i =>
    simp only [System.step, Option.some.injEq] at hstep
    exact hstep ▸ h.withCall (h.calls i).fail rfl

theorem inv_run {acts : List (Action μ)} (hrun : (transmission μ).run {} acts = some s) : s.Inv :=
  (transmission μ).run_invariant (fun _ _ _ h hstep => h.step hstep) hrun inv_init

/-- The enqueues that returned OK had the numbers 0, 1, 2, … -/
def Consecutive (s : System μ) : Prop :=
  s.enqueued.map (·.seqNum) = List.range s.enqueued.length

instance : Decidable s.Consecutive := inferInstanceAs (Decidable (_ = _))

/-- An enqueued message stands at its own number. -/
theorem Consecutive.getElem?_seqNum {m : TrainerWorkerMessage μ} (h : s.Consecutive)
    (hm : m ∈ s.enqueued.map (·.request)) : (s.enqueued.map (·.request))[m.seqNum]? = some m := by
  obtain ⟨e, he, rfl⟩ := List.mem_map.mp hm
  obtain ⟨i, hi, rfl⟩ := List.getElem_of_mem he
  have hnum : (s.enqueued.map (·.seqNum))[i]? = some i := by
    rw [h]
    simp [hi]
  simp only [List.getElem?_map, List.getElem?_eq_getElem hi, Option.map_some,
    Option.some.injEq] at hnum
  rw [show s.enqueued[i].request.seqNum = i from hnum]
  simp [hi]

theorem Inv.length_accepted (h : s.Inv) : s.accepted.length = s.nextRecvSeqNum := by
  simpa using congrArg List.length h.received

theorem Inv.accepted_prefix (h : s.Inv) (hseq : s.Consecutive) :
    s.accepted <+: s.enqueued.map (·.request) := by
  refine List.prefix_iff_getElem?.mpr fun i hi => ?_
  have hnum : (s.accepted.map (·.seqNum))[i]? = some i := by
    rw [h.length_accepted] at hi
    rw [h.received]
    simp [hi]
  simp only [List.getElem?_map, List.getElem?_eq_getElem hi, Option.map_some,
    Option.some.injEq] at hnum
  have hmem := h.accepted s.accepted[i] (List.getElem_mem hi)
  simpa [hnum] using hseq.getElem?_seqNum hmem

/-- What is behind the receiver's counter was accepted. -/
theorem Inv.mem_accepted {e : ExchangeEntry μ} (h : s.Inv) (hseq : s.Consecutive)
    (he : e ∈ s.enqueued) (hlt : e.seqNum < s.nextRecvSeqNum) : e.request ∈ s.accepted := by
  have hi : e.request.seqNum < s.accepted.length := h.length_accepted ▸ hlt
  have hthere := hseq.getElem?_seqNum (List.mem_map_of_mem (f := (·.request)) he)
  have hprefix := List.prefix_iff_getElem?.mp (h.accepted_prefix hseq) _ hi
  rw [hthere, Option.some.injEq] at hprefix
  exact hprefix ▸ List.getElem_mem hi

/-- In every reachable state the receiver has accepted the numbers 0, 1, 2, … once each and in
    order, a prefix of what was enqueued, and what it has not accepted the agent still has: in the
    cache, in the retry queue, in the retry loop's hand, or in the hand of the completion callback
    that has taken it from the cache. -/
theorem transmission_exactly_once {acts : List (Action μ)}
    (hrun : (transmission μ).run {} acts = some s) (hseq : s.Consecutive) :
    s.accepted.map (·.seqNum) = List.range s.accepted.length ∧
      s.accepted <+: s.enqueued.map (·.request) ∧
      ∀ e ∈ s.enqueued, e.request ∈ s.accepted ∨ e ∈ s.agent.msgExchangesCache ∨
        e ∈ s.agent.msgReexchanges ∨ e ∈ s.agent.retry.hand ∨ e ∈ s.agent.callback.hand := by
  have h := inv_run hrun
  refine ⟨?_, h.accepted_prefix hseq, fun e he => ?_⟩
  · rw [h.length_accepted, h.received]
  · rcases h.agent.held e he with hlt | hheld
    · exact .inl (h.mem_accepted hseq he hlt)
    · exact .inr hheld

namespace Sample

def first : TrainerWorkerMessage Unit := ⟨0, ()⟩

def second : TrainerWorkerMessage Unit := ⟨1, ()⟩

/-- The call breaks before the receiver has got the message; the callback has begun. -/
def interrupted : List (Action Unit) :=
  [.enqueueRequest first, .enqueue, .breakCall 0, .complete 0]

/-- Inside its callback a message is in none of the queues, nor in the retry loop's hand. -/
theorem interrupted_held_by_callback :
    ∃ s, (transmission Unit).run {} interrupted = some s ∧ s.Consecutive ∧
      ∃ e ∈ s.enqueued, e.request ∉ s.accepted ∧ e ∉ s.agent.msgExchangesCache ∧
        e ∉ s.agent.msgReexchanges ∧ e ∉ s.agent.retry.hand :=
  ⟨_, rfl, by decide, ⟨first, 0⟩, by decide, by decide, by decide, by decide, by decide⟩

/-- The first message is rejected once and the second then missing; the retry thread resends the
    first, its response is lost, and its second resend is a duplicate. -/
def recovered : List (Action Unit) :=
  [.retry, .retry, .enqueueRequest first, .enqueue, .enqueueRequest second, .enqueue,
    .deliver 0 true (.error "busy"), .deliver 0 true (.ok ()), .complete 0, .callback, .callback,
    .callback, .complete 0, .callback, .callback, .callback,
    .retry, .retry, .retry, .retry, .retry,
    .deliver 1 true (.ok ()), .breakCall 1, .complete 1, .retry, .retry, .retry,
    .deliver 2 true (.ok ()), .complete 2, .retry, .retry, .retry, .deliver 2 true (.ok ())]

theorem recovered_exactly_once :
    ∃ s, (transmission Unit).run {} recovered = some s ∧ s.Consecutive ∧
      s.accepted.map (·.seqNum) = List.range s.accepted.length ∧
      s.accepted <+: s.enqueued.map (·.request) ∧
      ∀ e ∈ s.enqueued, e.request ∈ s.accepted ∨ e ∈ s.agent.msgExchangesCache ∨
        e ∈ s.agent.msgReexchanges ∨ e ∈ s.agent.retry.hand ∨ e ∈ s.agent.callback.hand :=
  ⟨_, rfl, by decide, @transmission_exactly_once _ _ recovered rfl (by decide)⟩

end Sample

end System

end Trainer
