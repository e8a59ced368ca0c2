-- SUMMARY: The invariant of streamed transmission: who owns an exchange, what a response tells about its request, and that no exchange is lost.
import NineNMpc.Trainer.Transmit

/-!
# Invariant of streamed transmission

The argument has three parts. Whatever is on the network was enqueued, so a message of
the awaited number is the one enqueued under it. On a living call the responses answer
the first outstanding exchanges, in order, so a callback that hears success or
duplication holds an accepted message. An exchange leaves the agent only through such a
callback.
-/

namespace Trainer

variable {μ : Type} {next next' : Nat}

/-! ## Responses -/

/-- A response that lets the agent forget the request `m` tells the truth: `m` is behind `next`. -/
def Truthful (next : Nat) (m : TrainerWorkerMessage μ) (r : TrainerWorkerResponse) : Prop :=
  r.resultCode = .success ∨ r.resultCode = .messageDuplicated → m.seqNum < next

theorem Truthful.mono {m : TrainerWorkerMessage μ} {r : TrainerWorkerResponse}
    (h : Truthful next m r) (hle : next ≤ next') : Truthful next' m r :=
  fun hr => Nat.lt_of_lt_of_le (h hr) hle

/-! ## Calls -/

structure StreamingCall.Inv (enqueued : List (ExchangeEntry μ)) (next : Nat)
    (c : StreamingCall μ) : Prop where
  outstanding : ∀ x ∈ c.outstanding, x.entry ∈ enqueued
  network : ∀ m ∈ c.network, m ∈ enqueued.map (·.request)
  answered : c.broken = false → ∃ answered,
    c.outstanding.map (·.entry.request) = answered ++ c.network ∧
      List.Forall₂ (Truthful next) answered c.responses

/-- The outstanding exchanges of the retry loop. -/
def StreamingCall.resent (c : StreamingCall μ) : List (ExchangeEntry μ) :=
  (c.outstanding.filter fun x => x.done = .resent).map (·.entry)

namespace StreamingCall

variable {enqueued enqueued' : List (ExchangeEntry μ)} {c c' : StreamingCall μ} {x : Exchange μ}
  {result : Option TrainerWorkerResponse}

theorem inv_new : Inv enqueued next ({} : StreamingCall μ) where
  outstanding := by simp
  network := by simp
  answered _ := ⟨[], rfl, .nil⟩

theorem Inv.mono (h : Inv enqueued next c) (hsub : enqueued ⊆ enqueued') (hle : next ≤ next') :
    Inv enqueued' next' c where
  outstanding x hx := hsub (h.outstanding x hx)
  network m hm := List.map_subset _ hsub (h.network m hm)
  answered hc := by
    obtain ⟨answered, heq, hall⟩ := h.answered hc
    exact ⟨answered, heq, hall.imp fun _ _ ht => ht.mono hle⟩

theorem Inv.write (h : Inv enqueued next c) (hx : x.entry ∈ enqueued) :
    Inv enqueued next (c.write x) where
  outstanding y hy := by
    simp only [StreamingCall.write, List.mem_append, List.mem_singleton] at hy
    rcases hy with hy | rfl
    · exact h.outstanding y hy
    · exact hx
  network m hm := by
    simp only [StreamingCall.write, List.mem_append, List.mem_singleton] at hm
    rcases hm with hm | rfl
    · exact h.network m hm
    · exact List.mem_map_of_mem hx
  answered hc := by
    obtain ⟨answered, heq, hall⟩ := h.answered hc
    exact ⟨answered, by simp [StreamingCall.write, heq], hall⟩

theorem resent_write : (c.write x).resent =
    c.resent ++ if x.done = .resent then [x.entry] else [] := by
  unfold resent StreamingCall.write
  cases hx : x.done with
  | enqueued => simp [List.filter_append, hx]
  | resent => simp [List.filter_append, hx]

theorem complete_eq_some (h : c.complete = some (x, result, c')) :
    ∃ xs, c.outstanding = x :: xs ∧
      (c.broken = true ∧ result = none ∧ c' = { c with outstanding := xs } ∨
        ∃ r rs, c.broken = false ∧ c.responses = r :: rs ∧ result = some r ∧
          c' = { c with outstanding := xs, responses := rs }) := by
  unfold StreamingCall.complete at h
  split at h
  · next hb ho =>
    simp only [Option.some.injEq, Prod.mk.injEq] at h
    obtain ⟨rfl, rfl, rfl⟩ := h
    exact ⟨_, ho, .inl ⟨hb, rfl, rfl⟩⟩
  · next hb ho hr =>
    simp only [Option.some.injEq, Prod.mk.injEq] at h
    obtain ⟨rfl, rfl, rfl⟩ := h
    exact ⟨_, ho, .inr ⟨_, _, hb, hr, rfl, rfl⟩⟩
  · cases h

theorem resent_complete (h : c.complete = some (x, result, c')) :
    c.resent = (if x.done = .resent then [x.entry] else []) ++ c'.resent := by
  obtain ⟨xs, ho, ⟨-, -, rfl⟩ | ⟨r, rs, -, -, -, rfl⟩⟩ := complete_eq_some h
  all_goals
    unfold resent
    rw [ho]
    cases hx : x.done with
    | enqueued => simp [hx]
    | resent => simp [hx]

/-- The response a callback hears is about the exchange it completes. -/
theorem Inv.complete (h : Inv enqueued next c) (hc : c.complete = some (x, result, c')) :
    x.entry ∈ enqueued ∧ Inv enqueued next c' ∧
      ∀ r ∈ result, Truthful next x.entry.request r := by
  obtain ⟨xs, ho, hcase⟩ := complete_eq_some hc
  have hx : x.entry ∈ enqueued := h.outstanding x (by simp [ho])
  have hxs : ∀ y ∈ xs, y.entry ∈ enqueued := fun y hy => h.outstanding y (by simp [ho, hy])
  rcases hcase with ⟨hb, rfl, rfl⟩ | ⟨r, rs, hb, hr, rfl, rfl⟩
  · exact ⟨hx, ⟨hxs, h.network, fun hn => by simp [hb] at hn⟩, by simp⟩
  · obtain ⟨answered, heq, hall⟩ := h.answered hb
    rw [hr] at hall
    obtain ⟨m, ms, hm, hms, rfl⟩ := List.forall₂_cons_right_iff.mp hall
    simp only [ho, List.map_cons, List.cons_append, List.cons.injEq] at heq
    refine ⟨hx, ⟨hxs, h.network, fun _ => ⟨ms, heq.2, hms⟩⟩, fun r' hr' => ?_⟩
    obtain rfl : r = r' := by simpa using hr'
    exact heq.1 ▸ hm

/-- The receiver answers the next request of the call. -/
theorem Inv.answer {m : TrainerWorkerMessage μ} {ms : List (TrainerWorkerMessage μ)}
    {r : TrainerWorkerResponse} (h : Inv enqueued next c) (hm : c.network = m :: ms)
    (hr : Truthful next m r) :
    Inv enqueued next { c with network := ms, responses := c.responses ++ [r] } where
  outstanding := h.outstanding
  network m' hm' := h.network m' (by simp [hm, show m' ∈ ms from hm'])
  answered hc := by
    obtain ⟨answered, heq, hall⟩ := h.answered hc
    refine ⟨answered ++ [m], by simpa [hm] using heq, ?_⟩
    exact List.rel_append hall (.cons hr .nil)

theorem Inv.finish (h : Inv enqueued next c) : Inv enqueued next { c with finished := true } :=
  ⟨h.outstanding, h.network, h.answered⟩

theorem Inv.fail (h : Inv enqueued next c) : Inv enqueued next { c with broken := true } :=
  ⟨h.outstanding, h.network, fun hc => by simp at hc⟩

end StreamingCall

/-! ## The agent -/

/-- The entry is the one made for the copy at its pointer. -/
def ExchangeEntry.Copied (copies : List (TrainerWorkerMessage μ)) (e : ExchangeEntry μ) : Prop :=
  copies[e.responsePtr]? = some e.request

theorem ExchangeEntry.Copied.unique {copies : List (TrainerWorkerMessage μ)}
    {e e' : ExchangeEntry μ} (h : e.Copied copies) (h' : e'.Copied copies)
    (hptr : e.responsePtr = e'.responsePtr) : e = e' := by
  unfold ExchangeEntry.Copied at h h'
  rw [hptr, h', Option.some.injEq] at h
  cases e
  cases e'
  simp_all

theorem ExchangeEntry.Copied.append {copies : List (TrainerWorkerMessage μ)}
    {e : ExchangeEntry μ} (h : e.Copied copies) (m : TrainerWorkerMessage μ) :
    e.Copied (copies ++ [m]) := by
  unfold ExchangeEntry.Copied at h ⊢
  rw [List.getElem?_append_left (List.getElem?_eq_some_iff.mp h).1, h]

namespace RpcBridgeAgent

variable {copies : List (TrainerWorkerMessage μ)} {enqueued : List (ExchangeEntry μ)}
  {a a' : RpcBridgeAgent μ} {e : ExchangeEntry μ} {result : Option TrainerWorkerResponse}

/-- The agent has the exchange in the cache, in the retry queue, or in the hand of one of its
    threads. -/
def Holds (a : RpcBridgeAgent μ) (e : ExchangeEntry μ) : Prop :=
  e ∈ a.msgExchangesCache ∨ e ∈ a.msgReexchanges ∨ e ∈ a.retry.hand ∨ e ∈ a.callback.hand

structure Inv (copies : List (TrainerWorkerMessage μ)) (enqueued : List (ExchangeEntry μ))
    (next : Nat) (a : RpcBridgeAgent μ) : Prop where
  cache : ∀ e ∈ a.msgExchangesCache, e.Copied copies
  pending : ∀ e ∈ a.enqueue.hand, e ∈ a.msgExchangesCache ∧ e ∉ enqueued
  reexchanges : ∀ e ∈ a.msgReexchanges, e ∈ enqueued
  callbackHand : ∀ e ∈ a.callback.hand, e ∈ enqueued
  retryHand : ∀ e ∈ a.retry.hand, e ∈ enqueued
  callbackTold : ∀ e r, a.callback = .taken e (some r) → Truthful next e.request r
  retryTold : ∀ e r, a.retry = .notified e (some r) → Truthful next e.request r
  held : ∀ e ∈ enqueued, e.seqNum < next ∨ a.Holds e

theorem Inv.mono (h : Inv copies enqueued next a) (hle : next ≤ next') :
    Inv copies enqueued next' a :=
  { h with
    callbackTold := fun e r hr => (h.callbackTold e r hr).mono hle
    retryTold := fun e r hr => (h.retryTold e r hr).mono hle
    held := fun e he => (h.held e he).imp_left fun hlt => Nat.lt_of_lt_of_le hlt hle }

theorem inv_new : Inv copies [] next ({} : RpcBridgeAgent μ) where
  cache := by simp
  pending := by simp [EnqueuePc.hand]
  reexchanges := by simp
  callbackHand := by simp [CallbackPc.hand]
  retryHand := by simp [RetryPc.hand]
  callbackTold := by simp
  retryTold := by simp
  held := by simp

/-- Only the bookkeeping of the channel and of the notifications differs. -/
theorem Inv.congr (h : Inv copies enqueued next a) (hcache : a'.msgExchangesCache = a.msgExchangesCache)
    (henq : a'.enqueue = a.enqueue) (hre : a'.msgReexchanges = a.msgReexchanges)
    (hcb : a'.callback = a.callback) (hretry : a'.retry = a.retry) :
    Inv copies enqueued next a' where
  cache := hcache ▸ h.cache
  pending := by
    rw [henq, hcache]
    exact h.pending
  reexchanges := hre ▸ h.reexchanges
  callbackHand := hcb ▸ h.callbackHand
  retryHand := hretry ▸ h.retryHand
  callbackTold := hcb ▸ h.callbackTold
  retryTold := hretry ▸ h.retryTold
  held e he := by
    unfold Holds
    rw [hcache, hre, hcb, hretry]
    exact h.held e he

theorem Inv.triggerResend (h : Inv copies enqueued next a) :
    Inv copies enqueued next a.triggerResend :=
  h.congr rfl rfl rfl rfl rfl

theorem mem_emplace {e' : ExchangeEntry μ} :
    e' ∈ (a.emplace e).msgReexchanges ↔ e' = e ∨ e' ∈ a.msgReexchanges := by
  unfold emplace
  exact List.mem_orderedInsert _

/-- Erasing one exchange from the cache keeps the others. -/
theorem Inv.mem_eraseCache {e' : ExchangeEntry μ} (h : Inv copies enqueued next a)
    (he : e.Copied copies) (hmem : e' ∈ a.msgExchangesCache) (hne : e' ≠ e) :
    e' ∈ (a.eraseCache e.responsePtr).msgExchangesCache := by
  refine List.mem_filter.mpr ⟨hmem, ?_⟩
  have hptr : e'.responsePtr ≠ e.responsePtr := fun hp => hne ((h.cache e' hmem).unique he hp)
  simpa using hptr

/-! ### Enqueueing -/

theorem Inv.push {request : TrainerWorkerMessage μ} {ptrs : List Nat}
    (h : Inv copies enqueued next a) (hcopied : ∀ e ∈ enqueued, e.Copied copies) :
    Inv (copies ++ [request]) enqueued next
      { a with
        msgExchanges := ptrs
        msgExchangesCache := a.msgExchangesCache ++ [⟨request, copies.length⟩]
        enqueue := .send ⟨request, copies.length⟩ } := by
  have hnew : ExchangeEntry.Copied (copies ++ [request]) ⟨request, copies.length⟩ := by
    simp [ExchangeEntry.Copied]
  have hfresh : (⟨request, copies.length⟩ : ExchangeEntry μ) ∉ enqueued := by
    intro hmem
    have hlt := (List.getElem?_eq_some_iff.mp (hcopied _ hmem)).1
    exact Nat.lt_irrefl _ hlt
  exact {
    cache := by
      intro e he
      rcases List.mem_append.mp he with he | he
      · exact (h.cache e he).append _
      · rw [List.mem_singleton.mp he]
        exact hnew
    pending := by
      intro e he
      rw [List.mem_singleton.mp he]
      exact ⟨by simp, hfresh⟩
    reexchanges := h.reexchanges
    callbackHand := h.callbackHand
    retryHand := h.retryHand
    callbackTold := h.callbackTold
    retryTold := h.retryTold
    held := by
      intro e he
      rcases h.held e he with hlt | hc | hrest
      · exact .inl hlt
      · exact .inr (.inl (List.mem_append_left _ hc))
      · exact .inr (.inr hrest) }

/-- The enqueue returns OK: its exchange is in the cache. -/
theorem Inv.sent (h : Inv copies enqueued next a) (he : a.enqueue = .send e) :
    Inv copies (enqueued ++ [e]) next { a with enqueue := .idle } where
  cache := h.cache
  pending := by simp [EnqueuePc.hand]
  reexchanges e he := List.mem_append_left _ (h.reexchanges e he)
  callbackHand e he := List.mem_append_left _ (h.callbackHand e he)
  retryHand e he := List.mem_append_left _ (h.retryHand e he)
  callbackTold := h.callbackTold
  retryTold := h.retryTold
  held e' he' := by
    rcases List.mem_append.mp he' with he' | he'
    · exact h.held e' he'
    · rw [List.mem_singleton.mp he']
      exact .inr (.inl (h.pending e (by simp [he, EnqueuePc.hand])).1)

/-- The enqueue fails: its exchange leaves the cache, no other does. -/
theorem Inv.unsent {ptrs : List Nat} (h : Inv copies enqueued next a)
    (he : a.enqueue = .failed e) :
    Inv copies enqueued next
      { a.eraseCache e.responsePtr with msgExchanges := ptrs, enqueue := .idle } where
  cache e' he' := h.cache e' (List.mem_filter.mp he').1
  pending := by simp [EnqueuePc.hand]
  reexchanges := h.reexchanges
  callbackHand := h.callbackHand
  retryHand := h.retryHand
  callbackTold := h.callbackTold
  retryTold := h.retryTold
  held e' he' := by
    obtain ⟨hmem, hnot⟩ := h.pending e (by simp [he, EnqueuePc.hand])
    rcases h.held e' he' with hlt | hc | hrest
    · exact .inl hlt
    · refine .inr (.inl (h.mem_eraseCache (h.cache e hmem) hc fun heq => ?_))
      exact hnot (heq ▸ he')
    · exact .inr (.inr hrest)

/-! ### The completion callback -/

theorem Inv.takeExchange (h : Inv copies enqueued next a)
    (hcopied : ∀ e ∈ enqueued, e.Copied copies) (he : e ∈ enqueued) (hidle : a.callback = .idle)
    (htold : ∀ r ∈ result, Truthful next e.request r) :
    Inv copies enqueued next (a.takeExchange e.responsePtr result) := by
  unfold RpcBridgeAgent.takeExchange
  split
  · exact h
  · next e' hfind =>
    -- The cache has the exchange itself under its pointer.
    have hmem := List.mem_of_find?_eq_some hfind
    have hptr : e'.responsePtr = e.responsePtr := by simpa using List.find?_some hfind
    obtain rfl := (h.cache e' hmem).unique (hcopied e he) hptr
    exact {
      cache := fun e'' he'' => h.cache e'' (List.mem_filter.mp he'').1
      pending := by
        intro e'' he''
        obtain ⟨hc, hnot⟩ := h.pending e'' he''
        refine ⟨h.mem_eraseCache (hcopied e' he) hc fun heq => ?_, hnot⟩
        exact hnot (heq ▸ he)
      reexchanges := h.reexchanges
      callbackHand := by
        intro e'' he''
        rw [List.mem_singleton.mp he'']
        exact he
      retryHand := h.retryHand
      callbackTold := by
        intro e'' r hr
        simp only [CallbackPc.taken.injEq] at hr
        exact hr.1 ▸ htold r hr.2
      retryTold := h.retryTold
      held := by
        intro e'' he''
        by_cases heq : e'' = e'
        · exact .inr (.inr (.inr (.inr (List.mem_singleton.mpr heq))))
        rcases h.held e'' he'' with hlt | hc | hre | hret | hcb
        · exact .inl hlt
        · exact .inr (.inl (h.mem_eraseCache (hcopied e' he) hc heq))
        · exact .inr (.inr (.inl hre))
        · exact .inr (.inr (.inr (.inl hret)))
        · rw [hidle] at hcb
          cases hcb }

/-- The callback lets go of an accepted exchange. -/
theorem Inv.forget (h : Inv copies enqueued next a) (hlt : ∀ e ∈ a.callback.hand, e.seqNum < next)
    {cs : ChannelState} {pc : CallbackPc μ} (hpc : pc = .idle ∨ pc = .trigger) :
    Inv copies enqueued next { a with channelState := cs, callback := pc } := by
  have hhand : pc.hand = [] := by rcases hpc with rfl | rfl <;> rfl
  exact {
    cache := h.cache
    pending := h.pending
    reexchanges := h.reexchanges
    callbackHand := by simp [hhand]
    retryHand := h.retryHand
    callbackTold := by rcases hpc with rfl | rfl <;> simp
    retryTold := h.retryTold
    held := by
      intro e he
      rcases h.held e he with hn | hc | hre | hret | hcb
      · exact .inl hn
      · exact .inr (.inl hc)
      · exact .inr (.inr (.inl hre))
      · exact .inr (.inr (.inr (.inl hret)))
      · exact .inl (hlt e hcb) }

/-- The callback keeps its exchange, to put it into the retry queue. -/
theorem Inv.retryLater {ok : Bool} (h : Inv copies enqueued next a)
    (hhand : a.callback.hand = [e]) :
    Inv copies enqueued next
      { a with channelState := .inactive, callback := .retryLater e ok } where
  cache := h.cache
  pending := h.pending
  reexchanges := h.reexchanges
  callbackHand e' he' := h.callbackHand e' (by rw [hhand]; exact he')
  retryHand := h.retryHand
  callbackTold := by simp
  retryTold := h.retryTold
  held e' he' := by
    have := h.held e' he'
    unfold Holds at this ⊢
    rwa [hhand] at this

theorem Inv.emplace {pc : CallbackPc μ} (h : Inv copies enqueued next a)
    (hhand : a.callback.hand = [e]) (hpc : pc = .idle ∨ pc = .trigger) :
    Inv copies enqueued next { a.emplace e with callback := pc } := by
  have he : e ∈ enqueued := h.callbackHand e (by simp [hhand])
  have hpchand : pc.hand = [] := by rcases hpc with rfl | rfl <;> rfl
  exact {
    cache := h.cache
    pending := h.pending
    reexchanges := by
      intro e' he'
      rcases mem_emplace.mp he' with rfl | he'
      · exact he
      · exact h.reexchanges e' he'
    callbackHand := by simp [hpchand]
    retryHand := h.retryHand
    callbackTold := by rcases hpc with rfl | rfl <;> simp
    retryTold := h.retryTold
    held := by
      intro e' he'
      rcases h.held e' he' with hn | hc | hre | hret | hcb
      · exact .inl hn
      · exact .inr (.inl hc)
      · exact .inr (.inr (.inl (mem_emplace.mpr (.inr hre))))
      · exact .inr (.inr (.inr (.inl hret)))
      · rw [hhand, List.mem_singleton] at hcb
        exact .inr (.inr (.inl (mem_emplace.mpr (.inl hcb)))) }

theorem Inv.stepCallback (h : Inv copies enqueued next a) (hstep : a.stepCallback = some a') :
    Inv copies enqueued next a' := by
  unfold RpcBridgeAgent.stepCallback at hstep
  split at hstep
  · cases hstep
  · next e hpc =>
    simp only [Option.some.injEq] at hstep
    exact hstep ▸ h.retryLater (by rw [hpc]; rfl)
  · next e r hpc =>
    have hforget : r.resultCode = .success ∨ r.resultCode = .messageDuplicated →
        ∀ e' ∈ a.callback.hand, e'.seqNum < next := by
      intro hr e' he'
      rw [hpc] at he'
      rw [List.mem_singleton.mp he']
      exact h.callbackTold e r hpc hr
    split at hstep
    · next hr =>
      simp only [Option.some.injEq] at hstep
      exact hstep ▸ h.forget (hforget (.inl hr)) (.inr rfl)
    · next hr =>
      simp only [Option.some.injEq] at hstep
      exact hstep ▸ h.forget (hforget (.inr hr)) (.inr rfl)
    · simp only [Option.some.injEq] at hstep
      exact hstep ▸ h.retryLater (by rw [hpc]; rfl)
  · next e ok hpc =>
    have hhand : a.callback.hand = [e] := by rw [hpc]; rfl
    split at hstep
    · simp only [Option.some.injEq] at hstep
      exact hstep ▸ h.emplace hhand (.inr rfl)
    · simp only [Option.some.injEq] at hstep
      subst hstep
      have hidle := h.emplace hhand (.inl rfl)
      exact hidle.triggerResend.congr rfl rfl rfl rfl rfl
  · next hpc =>
    simp only [Option.some.injEq] at hstep
    have hhand : a.triggerResend.callback.hand = [] := by
      change a.callback.hand = []
      rw [hpc]
      rfl
    exact hstep ▸ h.triggerResend.forget (by simp [hhand]) (.inl rfl)

theorem retry_stepCallback (hstep : a.stepCallback = some a') : a'.retry = a.retry := by
  unfold RpcBridgeAgent.stepCallback at hstep
  split at hstep
  case h_1 => cases hstep
  all_goals
    try split at hstep
    all_goals
      simp only [Option.some.injEq] at hstep
      subst hstep
      rfl

/-! ### The retry thread -/

/-- A move of the retry thread keeps what it has popped and what is queued, or lets go of what the
    receiver has. -/
theorem Inv.setRetry {cs : ChannelState} {re : List (ExchangeEntry μ)} {cb n : Bool}
    {st : Option Nat} {pc : RetryPc μ} (h : Inv copies enqueued next a)
    (hfrom : ∀ e, e ∈ re ∨ e ∈ pc.hand → e ∈ a.msgReexchanges ∨ e ∈ a.retry.hand)
    (hkeep : ∀ e, e ∈ a.msgReexchanges ∨ e ∈ a.retry.hand →
      e.seqNum < next ∨ e ∈ re ∨ e ∈ pc.hand)
    (htold : ∀ e r, pc = .notified e (some r) → Truthful next e.request r) :
    Inv copies enqueued next
      { a with channelState := cs, msgReexchanges := re, retryCb := cb, notification := n,
               state := st, retry := pc } := by
  have hold : ∀ e, e ∈ re ∨ e ∈ pc.hand → e ∈ enqueued := fun e he =>
    (hfrom e he).elim (h.reexchanges e) (h.retryHand e)
  exact {
    cache := h.cache
    pending := h.pending
    reexchanges := fun e he => hold e (.inl he)
    callbackHand := h.callbackHand
    retryHand := fun e he => hold e (.inr he)
    callbackTold := h.callbackTold
    retryTold := htold
    held := by
      intro e he
      have hmoved : e ∈ a.msgReexchanges ∨ e ∈ a.retry.hand →
          e.seqNum < next ∨ e ∈ a.msgExchangesCache ∨ e ∈ re ∨ e ∈ pc.hand ∨
            e ∈ a.callback.hand := by
        intro hm
        rcases hkeep e hm with hlt | hre | hpc
        · exact .inl hlt
        · exact .inr (.inr (.inl hre))
        · exact .inr (.inr (.inr (.inl hpc)))
      rcases h.held e he with hlt | hc | hre | hret | hcb
      · exact .inl hlt
      · exact .inr (.inl hc)
      · exact hmoved (.inl hre)
      · exact hmoved (.inr hret)
      · exact .inr (.inr (.inr (.inr hcb))) }

/-- The retry thread keeps its hand and the queue. -/
theorem Inv.moveRetry {cs : ChannelState} {cb n : Bool} {st : Option Nat} {pc : RetryPc μ}
    (h : Inv copies enqueued next a) (hhand : pc.hand = a.retry.hand)
    (htold : ∀ e r, pc = .notified e (some r) → Truthful next e.request r) :
    Inv copies enqueued next
      { a with channelState := cs, retryCb := cb, notification := n, state := st, retry := pc } :=
  h.setRetry (fun _ he => hhand ▸ he) (fun _ he => .inr (hhand ▸ he)) htold

end RpcBridgeAgent

/-! ## The system -/

/-- The exchange the retry thread waits for on call `i`. -/
def RetryPc.awaited (i : Nat) : RetryPc μ → List (ExchangeEntry μ)
  | await e j => if i = j then [e] else []
  | _ => []

namespace System

variable {s s' : System μ}

structure Inv (s : System μ) : Prop where
  copied : ∀ e ∈ s.enqueued, e.Copied s.copies
  agent : s.agent.Inv s.copies s.enqueued s.nextRecvSeqNum
  calls : ∀ i, (s.calls i).Inv s.enqueued s.nextRecvSeqNum
  resent : ∀ i, (s.calls i).resent = s.agent.retry.awaited i
  received : s.accepted.map (·.seqNum) = List.range s.nextRecvSeqNum
  accepted : ∀ m ∈ s.accepted, m ∈ s.enqueued.map (·.request)

theorem inv_init : Inv ({} : System μ) where
  copied := by simp
  agent := RpcBridgeAgent.inv_new
  calls _ := StreamingCall.inv_new
  resent _ := rfl
  received := rfl
  accepted := by simp

/-- A move of the agent alone. -/
theorem Inv.withAgent {a : RpcBridgeAgent μ} (h : s.Inv)
    (ha : a.Inv s.copies s.enqueued s.nextRecvSeqNum)
    (hretry : ∀ i, a.retry.awaited i = s.agent.retry.awaited i) : Inv { s with agent := a } where
  copied := h.copied
  agent := ha
  calls := h.calls
  resent i := (h.resent i).trans (hretry i).symm
  received := h.received
  accepted := h.accepted

/-- A move of one call that leaves its outstanding exchanges. -/
theorem Inv.withCall {i : Nat} {c : StreamingCall μ} (h : s.Inv)
    (hc : c.Inv s.enqueued s.nextRecvSeqNum) (hout : c.outstanding = (s.calls i).outstanding) :
    (s.setCall i c).Inv where
  copied := h.copied
  agent := h.agent
  calls j := by
    unfold setCall Function.update
    by_cases hj : j = i
    · subst hj
      simpa using hc
    · simpa [hj] using h.calls j
  resent j := by
    by_cases hj : j = i
    · subst hj
      simpa [setCall, StreamingCall.resent, hout] using h.resent j
    · simpa [setCall, hj] using h.resent j
  received := h.received
  accepted := h.accepted

/-! ### Sending -/

theorem sendNextRequest_eq (s : System μ) (x : Exchange μ) :
    ∃ st created i ok, s.sendNextRequest x =
      ({ s with
          agent := { s.agent with state := st }
          created := created
          calls := if ok then Function.update s.calls i ((s.calls i).write x) else s.calls },
        i, ok) := by
  unfold sendNextRequest
  cases hst : s.agent.state with
  | some i =>
    refine ⟨some i, s.created, i, !(s.calls i).broken, ?_⟩
    cases hb : (s.calls i).broken with
    | true => simp [hb, ← hst]
    | false => simp [hb, ← hst, setCall]
  | none =>
    refine ⟨some s.created, s.created + 1, s.created, !(s.calls s.created).broken, ?_⟩
    cases hb : (s.calls s.created).broken with
    | true => simp [hb, createStreamingState]
    | false => simp [hb, createStreamingState, setCall]

end System

end Trainer
