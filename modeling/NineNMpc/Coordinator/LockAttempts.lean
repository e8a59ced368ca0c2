-- SUMMARY: The loop in which RegisterUUID tries to lock: which outcomes of its attempts it uses, and the lock of the last attempt.
import NineNMpc.Coordinator.Register

/-!
# Attempts to lock

One call of `RegisterUUID` of `Coordinator/services/internal_service_impl.cc` against any
other clients: each command finds Redis in any state and may be refused. `index++` counts
an attempt before it is made, and `index >= FLAGS_lock_times` behind the loop holds both
when all attempts have failed and when the last one has succeeded.
-/

namespace Coordinator

/-- What a command of the call finds. -/
structure Answer where
  redis : Redis
  refused : Bool := false

/-- A call with its history: what `Lock` returned, how often `Unlock` was called, and whether the
    call went on past the locking step. No step reads these. -/
structure Attempts where
  call : RegisterCall
  outcomes : List Bool := []
  unlocks : Nat := 0
  passed : Bool := false

/-- The value that `Lock` returns with this command, if it returns. -/
def RegisterCall.lockOutcome (c : RegisterCall) (a : Answer) : List Bool :=
  match c.pc with
  | .lockGet _ => if (a.redis (lockKey c.request.appId)).isSome then [false] else []
  | .lockSet _ => [!a.refused]
  | _ => []

def RegisterPc.isUnlock : RegisterPc → Bool
  | unlock _ => true
  | _ => false

namespace Attempts

variable {json : Json} {lockTimes : Nat} {s s' : Attempts} {a : Answer}

def step (json : Json) (lockTimes : Nat) (s : Attempts) (a : Answer) : Option Attempts :=
  (s.call.step json lockTimes a.redis a.refused).map fun (_, pc) =>
    { call := { s.call with pc }
      outcomes := s.outcomes ++ s.call.lockOutcome a
      unlocks := if s.call.pc.isUnlock then s.unlocks + 1 else s.unlocks
      passed := s.passed || pc = .getApp }

def machine (json : Json) (lockTimes : Nat) : Machine Attempts Answer := ⟨step json lockTimes⟩

/-! ## The call returns -/

/-- An upper bound of the number of commands to come. -/
def rank (lockTimes : Nat) : RegisterPc → Nat
  | .mset => 2 * lockTimes + 4
  | .lockGet index => 2 * (lockTimes - index) + 5
  | .lockSet index => 2 * (lockTimes - index) + 4
  | .getApp => 3
  | .setApp _ => 2
  | .unlock _ => 1
  | .returned _ => 0

theorem rank_nextAttempt {c : RegisterCall} {index : Nat} :
    rank lockTimes (c.nextAttempt lockTimes index) ≤ 2 * (lockTimes - index) + 3 := by
  unfold RegisterCall.nextAttempt
  split
  · simp only [rank]
    omega
  · simp [RegisterCall.lockFail, rank]

theorem step_rank (hs : (machine json lockTimes).step s a = some s') :
    rank lockTimes s'.call.pc < rank lockTimes s.call.pc := by
  obtain ⟨⟨redis, pc⟩, hcall, rfl⟩ := Option.map_eq_some_iff.mp hs
  apply RegisterCall.step_elim (motive := fun _ pc => rank lockTimes pc < rank lockTimes s.call.pc) hcall
  case mset =>
    intro hpc
    refine Nat.lt_of_le_of_lt rank_nextAttempt ?_
    simp only [hpc, rank]
    omega
  case taken =>
    intro index hpc _
    refine Nat.lt_of_le_of_lt rank_nextAttempt ?_
    simp only [hpc, rank]
    omega
  case lockRefused =>
    intro index hpc _
    refine Nat.lt_of_le_of_lt rank_nextAttempt ?_
    simp only [hpc, rank]
    omega
  all_goals
    intros
    simp [*, rank, RegisterCall.lockFail]

/-- Only a call that has returned is blocked. -/
theorem step_eq_none (hs : (machine json lockTimes).step s a = none) : ∃ err, s.call.pc = .returned err := by
  simp only [machine, step, Option.map_eq_none_iff, RegisterCall.step] at hs
  split at hs
  case h_7 err hpc => exact ⟨err, hpc⟩
  all_goals
    repeat' split at hs
    all_goals cases hs

/-- Whatever Redis answers, the call returns. -/
theorem returns (r : Request) (answers : Nat → Answer) :
    ∃ n s err, (machine json lockTimes).run { call := r.call } ((List.range n).map answers) = some s ∧
      s.call.pc = .returned err := by
  obtain ⟨n, s, -, hrun, hblocked⟩ := (machine json lockTimes).exists_blocked
    (fun s => rank lockTimes s.call.pc) (fun _ _ _ => step_rank) answers { call := r.call }
  obtain ⟨err, hret⟩ := step_eq_none hblocked
  exact ⟨n, s, err, hrun, hret⟩

/-! ## The outcomes -/

/-- The call is behind an attempt that has succeeded and was not the last one. -/
def Succeeded (lockTimes : Nat) (s : Attempts) : Prop :=
  s.passed = true ∧ ∃ n, n + 1 < lockTimes ∧ s.outcomes = List.replicate n false ++ [true]

/-- All attempts have failed, or only the last one has succeeded. -/
def Failed (lockTimes : Nat) (s : Attempts) : Prop :=
  s.passed = false ∧ s.unlocks = 0 ∧ ((∃ n ≤ lockTimes, s.outcomes = List.replicate n false) ∨
    0 < lockTimes ∧ s.outcomes = List.replicate (lockTimes - 1) false ++ [true])

def Trying (lockTimes index : Nat) (s : Attempts) : Prop :=
  s.passed = false ∧ s.unlocks = 0 ∧ 0 < index ∧ index ≤ lockTimes ∧
    s.outcomes = List.replicate (index - 1) false

def Inv (lockTimes : Nat) (s : Attempts) : Prop :=
  match s.call.pc with
  | .mset => s.passed = false ∧ s.unlocks = 0 ∧ s.outcomes = []
  | .lockGet index | .lockSet index => s.Trying lockTimes index
  | .getApp | .setApp _ | .unlock _ => s.Succeeded lockTimes ∧ s.unlocks = 0
  | .returned _ => s.Succeeded lockTimes ∧ s.unlocks = 1 ∨ s.Failed lockTimes

/-- A failed attempt is followed by another one, or was the last. -/
theorem inv_nextAttempt {c : RegisterCall} {index unlocks : Nat} {outcomes : List Bool}
    {passed : Bool} (hle : index ≤ lockTimes) (hpassed : passed = false) (hunlocks : unlocks = 0)
    (hout : outcomes = List.replicate index false) :
    Inv lockTimes
      { call := { c with pc := c.nextAttempt lockTimes index }
        outcomes := outcomes
        unlocks := unlocks
        passed := passed || c.nextAttempt lockTimes index = .getApp } := by
  subst hpassed hunlocks hout
  unfold RegisterCall.nextAttempt
  split
  case isTrue hlt => exact ⟨rfl, rfl, by omega, by omega, by simp⟩
  case isFalse hge => exact .inr ⟨rfl, rfl, .inl ⟨index, hle, rfl⟩⟩

theorem Trying.outcomes_append {index : Nat} (h : s.Trying lockTimes index) :
    s.outcomes ++ [false] = List.replicate index false := by
  obtain ⟨-, -, hpos, -, hout⟩ := h
  rw [hout, ← List.replicate_succ', Nat.sub_add_cancel hpos]

/-- A command behind the loop that is not `Unlock`. -/
theorem Succeeded.keep {pc : RegisterPc} (h : s.Succeeded lockTimes ∧ s.unlocks = 0)
    (hout : s.call.lockOutcome a = []) (hunlock : s.call.pc.isUnlock = false) :
    Succeeded lockTimes
      { call := { s.call with pc }
        outcomes := s.outcomes ++ s.call.lockOutcome a
        unlocks := if s.call.pc.isUnlock then s.unlocks + 1 else s.unlocks
        passed := s.passed || pc = .getApp } ∧
      (if s.call.pc.isUnlock then s.unlocks + 1 else s.unlocks) = 0 := by
  obtain ⟨⟨hpassed, n, hn, hn'⟩, hunlocks⟩ := h
  rw [hout, hunlock, List.append_nil]
  exact ⟨⟨by simp [hpassed], n, hn, hn'⟩, hunlocks⟩

theorem Inv.step (h : s.Inv lockTimes) (hs : (machine json lockTimes).step s a = some s') :
    s'.Inv lockTimes := by
  obtain ⟨⟨redis, pc⟩, hcall, rfl⟩ := Option.map_eq_some_iff.mp hs
  unfold Inv at h
  apply RegisterCall.step_elim (motive := fun _ pc => Inv lockTimes
    { call := { s.call with pc }
      outcomes := s.outcomes ++ s.call.lockOutcome a
      unlocks := if s.call.pc.isUnlock then s.unlocks + 1 else s.unlocks
      passed := s.passed || pc = .getApp }) hcall
  case msetRefused =>
    intro hpc err
    simp only [hpc] at h
    obtain ⟨hpassed, hunlocks, hout⟩ := h
    refine .inr ⟨by simp [hpassed], by simp [hpc, hunlocks, RegisterPc.isUnlock], .inl ⟨0, by omega, ?_⟩⟩
    simp [hout, RegisterCall.lockOutcome, hpc]
  case mset =>
    intro hpc
    simp only [hpc] at h
    obtain ⟨hpassed, hunlocks, hout⟩ := h
    refine inv_nextAttempt (by omega) hpassed (by simp [hpc, hunlocks, RegisterPc.isUnlock]) ?_
    simp [hout, RegisterCall.lockOutcome, hpc]
  case taken =>
    intro index hpc hlock
    simp only [hpc] at h
    refine inv_nextAttempt h.2.2.2.1 h.1 (by simp [hpc, h.2.1, RegisterPc.isUnlock]) ?_
    rw [← h.outcomes_append]
    simp [RegisterCall.lockOutcome, hpc, Option.isSome_iff_ne_none, hlock]
  case free =>
    intro index hpc hlock
    simp only [hpc] at h
    obtain ⟨hpassed, hunlocks, hpos, hle, hout⟩ := h
    refine ⟨by simp [hpassed], by simp [hpc, hunlocks, RegisterPc.isUnlock], hpos, hle, ?_⟩
    simp [hout, RegisterCall.lockOutcome, hpc, hlock]
  case lockRefused =>
    intro index hpc href
    simp only [hpc] at h
    refine inv_nextAttempt h.2.2.2.1 h.1 (by simp [hpc, h.2.1, RegisterPc.isUnlock]) ?_
    rw [← h.outcomes_append]
    simp [RegisterCall.lockOutcome, hpc, href]
  case lockedLast =>
    -- the last attempt succeeds, and the call fails without giving the lock back
    intro index hpc href hlast
    simp only [hpc] at h
    obtain ⟨hpassed, hunlocks, hpos, hle, hout⟩ := h
    obtain rfl : index = lockTimes := by omega
    refine .inr ⟨by simp [hpassed, RegisterCall.lockFail], by simp [hpc, hunlocks, RegisterPc.isUnlock],
      .inr ⟨hpos, ?_⟩⟩
    simp [hout, RegisterCall.lockOutcome, hpc, href]
  case locked =>
    intro index hpc href hlt
    simp only [hpc] at h
    obtain ⟨hpassed, hunlocks, hpos, hle, hout⟩ := h
    refine ⟨⟨by simp, index - 1, by omega, ?_⟩, by simp [hpc, hunlocks, RegisterPc.isUnlock]⟩
    simp [hout, RegisterCall.lockOutcome, hpc, href]
  case noApp =>
    intro hpc err
    simp only [hpc] at h
    exact Succeeded.keep h (by simp [RegisterCall.lockOutcome, hpc]) (by simp [hpc, RegisterPc.isUnlock])
  case app =>
    intro info hpc _
    simp only [hpc] at h
    exact Succeeded.keep h (by simp [RegisterCall.lockOutcome, hpc]) (by simp [hpc, RegisterPc.isUnlock])
  case written =>
    intro info v hpc _
    simp only [hpc] at h
    exact Succeeded.keep h (by simp [RegisterCall.lockOutcome, hpc]) (by simp [hpc, RegisterPc.isUnlock])
  case notWritten =>
    intro info hpc err
    simp only [hpc] at h
    exact Succeeded.keep h (by simp [RegisterCall.lockOutcome, hpc]) (by simp [hpc, RegisterPc.isUnlock])
  case unlock =>
    intro err hpc
    simp only [hpc] at h
    refine .inl ?_
    simpa [Succeeded, hpc, RegisterPc.isUnlock, RegisterCall.lockOutcome] using h

/-! ## Runs -/

/-- A call that returns has used its successful attempt, and given the lock back once, exactly when
    the attempt that succeeded was not the last of those it may make. -/
theorem lock_used_iff {r : Request} {as : List Answer} {err : Option String}
    (hrun : (machine json lockTimes).run { call := r.call } as = some s)
    (hret : s.call.pc = .returned err) :
    s.outcomes.length ≤ lockTimes ∧
      ((s.passed = true ↔ true ∈ s.outcomes) ∧ (true ∈ s.outcomes → s.unlocks = 1) ↔
        s.outcomes ≠ List.replicate (lockTimes - 1) false ++ [true]) := by
  have hstart : Inv lockTimes { call := r.call } := by
    unfold Inv Request.call
    by_cases hr : r.uuid = []
    · simp only [hr, if_true]
      exact .inr ⟨rfl, rfl, .inl ⟨0, by omega, rfl⟩⟩
    · simp only [hr, if_false]
      exact ⟨trivial, trivial, trivial⟩
  have h : s.Inv lockTimes := (machine json lockTimes).run_invariant (fun _ _ _ => Inv.step) hrun hstart
  unfold Inv at h
  simp only [hret] at h
  rcases h with ⟨⟨hpassed, n, hn, hout⟩, hunlocks⟩ | ⟨hpassed, hunlocks, ⟨n, hn, hout⟩ | ⟨hpos, hout⟩⟩
  · refine ⟨by simp [hout]; omega, iff_of_true ⟨by simp [hpassed, hout], fun _ => hunlocks⟩ ?_⟩
    intro heq
    have hlen := congrArg List.length (hout.symm.trans heq)
    simp only [List.length_append, List.length_replicate, List.length_singleton] at hlen
    omega
  · have hnot : true ∉ s.outcomes := by simp [hout, List.mem_replicate]
    refine ⟨by simp [hout, hn], iff_of_true ⟨by simp [hpassed, hnot], fun h => absurd h hnot⟩ ?_⟩
    intro heq
    rw [heq] at hnot
    simp at hnot
  · refine ⟨by simp [hout]; omega, iff_of_false ?_ (by simp [hout])⟩
    simp [hpassed, hout]

end Attempts

namespace Attempts.Sample

open Registry.Sample (protoJson first)

def free : Answer := ⟨fun _ => none, false⟩

/-- Another client holds the lock. -/
def taken : Answer := ⟨Redis.set (fun _ => none) (lockKey "app") "fl_lock_", false⟩

/-- The only attempt succeeds. -/
theorem onlyAttempt_not_used :
    ∃ s, (machine protoJson 1).run { call := first.call } [free, free, free] = some s ∧
      s.call.pc = .returned (some "lock fail for many times! app_id : app") ∧ s.outcomes = [true] ∧
      s.passed = false ∧ s.unlocks = 0 ∧
      ¬ ((s.passed = true ↔ true ∈ s.outcomes) ∧ (true ∈ s.outcomes → s.unlocks = 1)) :=
  ⟨_, rfl, by decide +kernel, rfl, by decide +kernel, rfl, by decide +kernel⟩

/-- Another client has the lock during the first attempt, and no info is stored. -/
def answers : List Answer := [free, taken, free, free, free, free]

theorem answers_isSome :
    ((machine protoJson 3).run { call := first.call } answers).isSome := by
  decide +kernel

theorem secondOfThree_used :
    ∃ s, (machine protoJson 3).run { call := first.call } answers = some s ∧
      s.outcomes.length ≤ 3 ∧
        ((s.passed = true ↔ true ∈ s.outcomes) ∧ (true ∈ s.outcomes → s.unlocks = 1) ↔
          s.outcomes ≠ List.replicate (3 - 1) false ++ [true]) := by
  have hret : (Option.get _ answers_isSome).call.pc =
      .returned (some "get app fail! app_id: app") := by decide +kernel
  exact ⟨_, (Option.some_get answers_isSome).symm,
    lock_used_iff (Option.some_get answers_isSome).symm hret⟩

end Attempts.Sample

end Coordinator
