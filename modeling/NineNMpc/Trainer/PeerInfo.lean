-- SUMMARY: The connected peer: OnReceived of a ConnectRequest, the three parts of WaitPeerReady, and that every call that succeeds hands back the same first request.
import NineNMpc.Trainer.RecvCache

/-!
# The connected peer

`peer_info_` of `RpcBridgeRecvCache` in `Trainer/rpc/rpc_bridge/rpc_bridge_agent.cc` and
`rpc_bridge_agent.h`. A call of `WaitPeerReady` that finds no peer is split where it gives
up `connect_mu_`: its locked check, the end of its wait, and its locked finish. Calls may
overlap; the callback is that of the call that began to wait last.
-/

namespace Trainer

structure ConnectRequest where
  appId : String
  workerRank : Nat
  identifier : String
deriving DecidableEq

structure PeerInfo where
  state : RecvCache.State := .idle
  /-- The call of `WaitPeerReady` whose notification `callback_` refers to. -/
  callback : Option Nat := none
  peerConnected : Bool := false
  rdata : ConnectRequest := ⟨"", 0, ""⟩

namespace PeerReady

open RecvCache (QueryPc)

def notify : QueryPc → QueryPc
  | .wait _ => .wait true
  | pc => pc

/-- What a call returned, and what it gave to `cb` and to its caller. -/
structure Returned where
  ok : Bool
  result : Except String ConnectRequest

end PeerReady

open RecvCache (QueryPc)

/-- `received` and `returned` are history. -/
structure PeerReady where
  peerInfo : PeerInfo := {}
  waiters : List QueryPc := []
  received : List ConnectRequest := []
  returned : List PeerReady.Returned := []

namespace PeerReady

def onReceived (s : PeerReady) (peerdata : ConnectRequest) : PeerReady :=
  if !s.peerInfo.peerConnected then
    { s with
      peerInfo := { s.peerInfo with peerConnected := true, rdata := peerdata, state := .active }
      received := s.received ++ [peerdata]
      waiters := match s.peerInfo.callback with
        | some i => s.waiters.modify i notify
        | none => s.waiters }
  else { s with received := s.received ++ [peerdata] }

/-- The locked check of `WaitPeerReady`. -/
def waitPeerReady (s : PeerReady) : PeerReady :=
  if s.peerInfo.peerConnected then
    { s with returned := s.returned ++ [⟨true, .ok s.peerInfo.rdata⟩] }
  else
    { s with
      peerInfo := { s.peerInfo with state := .wait, callback := some s.waiters.length }
      waiters := s.waiters ++ [.wait false] }

/-- The wait of the `i`-th waiter ends, by its notification or else by its timeout. -/
def endWait (s : PeerReady) (i : Nat) : Option PeerReady :=
  match s.waiters[i]? with
  | some (.wait notified) => some { s with waiters := s.waiters.set i (.finish notified) }
  | _ => none

/-- The locked finish of the `i`-th waiter. -/
def finish (s : PeerReady) (i : Nat) : Option PeerReady :=
  match s.waiters[i]? with
  | some (.finish ok) =>
    let result := if ok || s.peerInfo.state = .active then .ok s.peerInfo.rdata
      else .error "Timeout"
    some { s with
      peerInfo := { s.peerInfo with state := .idle, callback := none }
      waiters := s.waiters.set i .returned
      returned := s.returned ++ [⟨ok, result⟩] }
  | _ => none

inductive Action where
  | onReceived (peerdata : ConnectRequest)
  | waitPeerReady
  | endWait (waiter : Nat)
  | finish (waiter : Nat)

def step (s : PeerReady) : Action → Option PeerReady
  | .onReceived peerdata => some (s.onReceived peerdata)
  | .waitPeerReady => some s.waitPeerReady
  | .endWait i => s.endWait i
  | .finish i => s.finish i

def machine : Machine PeerReady Action := ⟨step⟩

/-! ## The invariant -/

variable {s s' : PeerReady} {i : Nat} {pc : QueryPc}

/-- The call has been told that the peer is there. -/
def Told (pc : QueryPc) : Prop := pc = .wait true ∨ pc = .finish true

structure Inv (s : PeerReady) : Prop where
  first : s.received.head? = if s.peerInfo.peerConnected then some s.peerInfo.rdata else none
  active : s.peerInfo.state = .active → s.peerInfo.peerConnected = true
  told : ∀ pc ∈ s.waiters, Told pc → s.peerInfo.peerConnected = true
  agreed : ∀ r ∈ s.returned, ∀ peer, r.result = .ok peer → s.received.head? = some peer

theorem inv_init : Inv {} where
  first := rfl
  active := by simp
  told := by simp
  agreed := by simp

theorem Inv.onReceived (h : Inv s) (peerdata : ConnectRequest) : Inv (s.onReceived peerdata) := by
  unfold PeerReady.onReceived
  split
  · next hnew =>
    have hempty : s.received = [] := by
      rw [Bool.not_eq_true'] at hnew
      simpa [hnew] using h.first
    exact {
      first := by simp [hempty]
      active := fun _ => rfl
      told := fun _ _ _ => rfl
      agreed := by
        intro r hr peer hpeer
        have := h.agreed r hr peer hpeer
        simp [hempty] at this }
  · next hold =>
    have hconn : s.peerInfo.peerConnected = true := by
      simpa using hold
    have hfirst : s.received.head? = some s.peerInfo.rdata := by
      simpa [hconn] using h.first
    exact {
      first := by rw [List.head?_append, hfirst, Option.some_or, if_pos hconn]
      active := h.active
      told := h.told
      agreed := by
        intro r hr peer hpeer
        rw [List.head?_append, h.agreed r hr peer hpeer, Option.some_or] }

theorem Inv.waitPeerReady (h : Inv s) : Inv s.waitPeerReady := by
  unfold PeerReady.waitPeerReady
  split
  · next hconn =>
    exact {
      first := h.first
      active := h.active
      told := h.told
      agreed := by
        intro r hr peer hpeer
        rcases List.mem_append.mp hr with hr | hr
        · exact h.agreed r hr peer hpeer
        · rw [List.mem_singleton.mp hr, Except.ok.injEq] at hpeer
          simpa [hconn, hpeer] using h.first }
  · exact {
      first := h.first
      active := by simp
      told := by
        intro pc hpc ht
        rcases List.mem_append.mp hpc with hpc | hpc
        · exact h.told pc hpc ht
        · simp [List.mem_singleton.mp hpc, Told] at ht
      agreed := h.agreed }

theorem endWait_eq_some (h : s.endWait i = some s') :
    ∃ notified, s.waiters[i]? = some (.wait notified) ∧
      s' = { s with waiters := s.waiters.set i (.finish notified) } := by
  unfold PeerReady.endWait at h
  split at h
  · next notified hi => exact ⟨notified, hi, by simpa using h.symm⟩
  · cases h

theorem finish_eq_some (h : s.finish i = some s') :
    ∃ ok, s.waiters[i]? = some (.finish ok) ∧
      s' = { s with
        peerInfo := { s.peerInfo with state := .idle, callback := none }
        waiters := s.waiters.set i .returned
        returned := s.returned ++ [⟨ok,
          if ok || s.peerInfo.state = .active then .ok s.peerInfo.rdata
          else .error "Timeout"⟩] } := by
  unfold PeerReady.finish at h
  split at h
  · next ok hi => exact ⟨ok, hi, by simpa using h.symm⟩
  · cases h

theorem Inv.endWait (h : Inv s) (hstep : s.endWait i = some s') : Inv s' := by
  obtain ⟨notified, hi, rfl⟩ := endWait_eq_some hstep
  refine ⟨h.first, h.active, fun pc hpc ht => ?_, h.agreed⟩
  rcases List.mem_or_eq_of_mem_set hpc with hpc | rfl
  · exact h.told pc hpc ht
  · refine h.told _ (List.mem_of_getElem? hi) ?_
    simpa [Told] using ht

theorem Inv.finish (h : Inv s) (hstep : s.finish i = some s') : Inv s' := by
  obtain ⟨ok, hi, rfl⟩ := finish_eq_some hstep
  refine ⟨h.first, by simp, fun pc hpc ht => ?_, fun r hr peer hpeer => ?_⟩
  · rcases List.mem_or_eq_of_mem_set hpc with hpc | rfl
    · exact h.told pc hpc ht
    · simp [Told] at ht
  · rcases List.mem_append.mp hr with hr | hr
    · exact h.agreed r hr peer hpeer
    · rw [List.mem_singleton.mp hr] at hpeer
      -- told, or past a connect that has told somebody else
      have hconn : s.peerInfo.peerConnected = true := by
        by_cases hact : s.peerInfo.state = .active
        · exact h.active hact
        · cases ok with
          | true => exact h.told _ (List.mem_of_getElem? hi) (.inr rfl)
          | false => simp [hact] at hpeer
      have hdata : s.peerInfo.rdata = peer := by
        split at hpeer
        · simpa using hpeer
        · cases hpeer
      simpa [hconn, hdata] using h.first

theorem Inv.step {a : Action} (h : Inv s) (hstep : s.step a = some s') : Inv s' := by
  cases a with
  | onReceived peerdata => exact Option.some.inj hstep ▸ h.onReceived peerdata
  | waitPeerReady => exact Option.some.inj hstep ▸ h.waitPeerReady
  | endWait i => exact h.endWait hstep
  | finish i => exact h.finish hstep

/-! ## One waiter at a time -/

def Outstanding (s : PeerReady) : Prop := ∃ pc ∈ s.waiters, pc ≠ .returned

/-- A call begins only when no other one is outstanding. -/
def OneWaiter (s : PeerReady) : Action → Prop
  | .waitPeerReady => ∀ pc ∈ s.waiters, pc = .returned
  | .onReceived _ | .endWait _ | .finish _ => True

instance : (a : Action) → Decidable (OneWaiter s a)
  | .waitPeerReady => inferInstanceAs (Decidable (∀ pc ∈ s.waiters, pc = .returned))
  | .onReceived _ | .endWait _ | .finish _ => inferInstanceAs (Decidable True)

/-- There is one waiter at most, and it sees the peer that has come. -/
structure Alone (s : PeerReady) : Prop where
  unique : ∀ (i j : Nat) (pc pc' : QueryPc), s.waiters[i]? = some pc → s.waiters[j]? = some pc' →
    pc ≠ .returned → pc' ≠ .returned → i = j
  active : s.peerInfo.peerConnected = true → s.Outstanding → s.peerInfo.state = .active

theorem alone_init : Alone {} where
  unique := by simp
  active := by simp

/-- The waiters move on, but none is new. -/
theorem Alone.of_waiters (h : Alone s)
    (hfrom : ∀ (i : Nat) (pc : QueryPc), s'.waiters[i]? = some pc → pc ≠ .returned →
      ∃ pc₀, s.waiters[i]? = some pc₀ ∧ pc₀ ≠ .returned)
    (hactive : s'.peerInfo.peerConnected = true → s'.Outstanding → s'.peerInfo.state = .active) :
    Alone s' where
  unique i j pc pc' hi hj hpc hpc' := by
    obtain ⟨pc₀, hi₀, hpc₀⟩ := hfrom i pc hi hpc
    obtain ⟨pc₁, hj₁, hpc₁⟩ := hfrom j pc' hj hpc'
    exact h.unique i j pc₀ pc₁ hi₀ hj₁ hpc₀ hpc₁
  active := hactive

theorem Outstanding.of_waiters
    (hfrom : ∀ (i : Nat) (pc : QueryPc), s'.waiters[i]? = some pc → pc ≠ .returned →
      ∃ pc₀, s.waiters[i]? = some pc₀ ∧ pc₀ ≠ .returned) (h : s'.Outstanding) :
    s.Outstanding := by
  obtain ⟨pc, hpc, hne⟩ := h
  obtain ⟨i, hi⟩ := List.mem_iff_getElem?.mp hpc
  obtain ⟨pc₀, hi₀, hne₀⟩ := hfrom i pc hi hne
  exact ⟨pc₀, List.mem_of_getElem? hi₀, hne₀⟩

theorem Alone.onReceived (h : Alone s) (peerdata : ConnectRequest) :
    Alone (s.onReceived peerdata) := by
  unfold PeerReady.onReceived
  split
  · refine h.of_waiters (fun j pc hj hpc => ?_) fun _ _ => rfl
    dsimp only at hj
    split at hj
    · rw [List.getElem?_modify] at hj
      obtain ⟨pc₀, hpc₀, rfl⟩ := Option.map_eq_some_iff.mp hj
      refine ⟨pc₀, hpc₀, fun hret => hpc ?_⟩
      split <;> simp [hret, notify]
    · exact ⟨pc, hj, hpc⟩
  · exact ⟨h.unique, h.active⟩

theorem Alone.waitPeerReady (h : Alone s) (hone : OneWaiter s .waitPeerReady) :
    Alone s.waitPeerReady := by
  unfold PeerReady.waitPeerReady
  split
  · exact ⟨h.unique, h.active⟩
  · next hconn =>
    -- everybody else has returned
    have hlast : ∀ (i : Nat) (pc : QueryPc), (s.waiters ++ [.wait false])[i]? = some pc →
        pc ≠ .returned → i = s.waiters.length := by
      intro i pc hi hpc
      rcases Nat.lt_or_ge i s.waiters.length with hlt | hge
      · rw [List.getElem?_append_left hlt] at hi
        exact absurd (hone pc (List.mem_of_getElem? hi)) hpc
      · have := (List.getElem?_eq_some_iff.mp hi).1
        simp only [List.length_append, List.length_singleton] at this
        omega
    refine ⟨fun i j pc pc' hi hj hpc hpc' => ?_, fun hc => absurd hc hconn⟩
    rw [hlast i pc hi hpc, hlast j pc' hj hpc']

theorem Alone.endWait (h : Alone s) (hstep : s.endWait i = some s') : Alone s' := by
  obtain ⟨notified, hi, rfl⟩ := endWait_eq_some hstep
  have hfrom : ∀ (j : Nat) (pc : QueryPc), (s.waiters.set i (.finish notified))[j]? = some pc →
      pc ≠ .returned → ∃ pc₀, s.waiters[j]? = some pc₀ ∧ pc₀ ≠ .returned := by
    intro j pc hj hpc
    by_cases hij : i = j
    · subst hij
      exact ⟨_, hi, by simp⟩
    · rw [List.getElem?_set_ne hij] at hj
      exact ⟨pc, hj, hpc⟩
  exact h.of_waiters hfrom fun hc ho => h.active hc (ho.of_waiters hfrom)

theorem Alone.finish (h : Alone s) (hstep : s.finish i = some s') : Alone s' := by
  obtain ⟨ok, hi, rfl⟩ := finish_eq_some hstep
  have hfrom : ∀ (j : Nat) (pc : QueryPc), (s.waiters.set i .returned)[j]? = some pc →
      pc ≠ .returned → ∃ pc₀, s.waiters[j]? = some pc₀ ∧ pc₀ ≠ .returned ∧ i ≠ j := by
    intro j pc hj hpc
    by_cases hij : i = j
    · subst hij
      rw [List.getElem?_set_self (List.getElem?_eq_some_iff.mp hi).1, Option.some.injEq] at hj
      exact absurd hj.symm hpc
    · rw [List.getElem?_set_ne hij] at hj
      exact ⟨pc, hj, hpc, hij⟩
  refine h.of_waiters (fun j pc hj hpc => ?_) fun _ ho => ?_
  · obtain ⟨pc₀, hpc₀, hne, -⟩ := hfrom j pc hj hpc
    exact ⟨pc₀, hpc₀, hne⟩
  · obtain ⟨pc, hpc, hne⟩ := ho
    obtain ⟨j, hj⟩ := List.mem_iff_getElem?.mp hpc
    obtain ⟨pc₀, hj₀, hne₀, hij⟩ := hfrom j pc hj hne
    exact absurd (h.unique i j _ _ hi hj₀ (by simp) hne₀) hij

theorem Alone.step {a : Action} (h : Alone s) (hone : OneWaiter s a) (hstep : s.step a = some s') :
    Alone s' := by
  cases a with
  | onReceived peerdata => exact Option.some.inj hstep ▸ h.onReceived peerdata
  | waitPeerReady => exact Option.some.inj hstep ▸ h.waitPeerReady hone
  | endWait i => exact h.endWait hstep
  | finish i => exact h.finish hstep

/-- A lone waiter reports a timeout only while there is no peer. -/
theorem Alone.timeout (h : Alone s) (hinv : Inv s) (hstep : s.finish i = some s') {ok : Bool}
    {e : String} (hret : s'.returned = s.returned ++ [⟨ok, .error e⟩]) : s.received = [] := by
  obtain ⟨ok', hi, rfl⟩ := finish_eq_some hstep
  simp only [List.append_cancel_left_eq, List.cons.injEq, Returned.mk.injEq, and_true] at hret
  have hidle : s.peerInfo.state ≠ .active := by
    intro hact
    simp [hact] at hret
  have hconn : s.peerInfo.peerConnected = false := by
    by_contra hc
    exact hidle (h.active (by simpa using hc) ⟨_, List.mem_of_getElem? hi, by simp⟩)
  simpa [hconn] using hinv.first

/-- Every call that succeeds hands back the first connect request that was received, whatever came
    later; and where calls do not overlap, one reports a timeout only if none was received yet. -/
theorem waitPeerReady_agrees {acts : List Action} (hrun : machine.run {} acts = some s) :
    (∀ r ∈ s.returned, ∀ peer, r.result = .ok peer → s.received.head? = some peer) ∧
      (machine.Meets OneWaiter {} acts → ∀ i s' ok e, s.finish i = some s' →
        s'.returned = s.returned ++ [⟨ok, .error e⟩] → s.received = []) := by
  have hinv : Inv s := machine.run_invariant (fun _ _ _ h hstep => h.step hstep) hrun inv_init
  refine ⟨hinv.agreed, fun hone i s' ok e hstep hret => ?_⟩
  have halone : Alone s :=
    machine.run_induct (fun _ _ _ hone h hstep => h.step hone hstep) hone hrun alone_init
  exact halone.timeout hinv hstep hret

namespace Sample

def peer : ConnectRequest := ⟨"app", 0, "1"⟩

def restarted : ConnectRequest := ⟨"app", 0, "2"⟩

/-- The peer comes just after the wait has timed out, and connects once more. -/
def schedule : List Action :=
  [.waitPeerReady, .endWait 0, .onReceived peer, .onReceived restarted, .finish 0, .waitPeerReady]

theorem schedule_agrees : ∃ s, machine.run {} schedule = some s ∧
    (∀ r ∈ s.returned, ∀ p, r.result = .ok p → s.received.head? = some p) ∧
    (machine.Meets OneWaiter {} schedule → ∀ i s' ok e, s.finish i = some s' →
      s'.returned = s.returned ++ [⟨ok, .error e⟩] → s.received = []) :=
  ⟨_, rfl, @waitPeerReady_agrees _ schedule rfl⟩

end Sample

end PeerReady

end Trainer
