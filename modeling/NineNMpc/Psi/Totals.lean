-- SUMMARY: The totals that run_app reports: which status messages the dispatch actor has seen when it answers get_results.
import Mathlib
import NineNMpc.Psi.RunAppCorrect

/-!
# The reported totals

The messages of a job reach the dispatch actor in the order in which they were sent, but
nothing orders them before the driver's `get_results`. An entry of `data_status` is the
last message of its block that has been delivered, so a block counts only when its
`PROCESSED` message is among them.
-/

namespace Psi.RunApp

variable {β γ : Type} {cfg : Config β γ}

/-- The two statistics that `do_action` computes for a block. -/
def Config.stats (cfg : Config β γ) (k : Nat) : Stats × Stats :=
  match cfg.data[k]? with
  | some data => ((cfg.doAction k data).1, (cfg.doAction k data).2.1)
  | none => ((0, 0, 0), (0, 0, 0))

/-! ## Messages of a block -/

/-- What the job of a block has sent. -/
def Config.messages (cfg : Config β γ) (k : Nat) : Phase γ → List StatusMessage
  | .submitted => []
  | .began => [⟨k, .procssing, none, none⟩]
  | .completed _ => [⟨k, .procssing, none, none⟩,
      ⟨k, .processed, some (cfg.stats k).1, some (cfg.stats k).2⟩]

/-- The entry of a block that has been handed out. -/
def lastEntry (delivered : List StatusMessage) : BlockEntry :=
  (delivered.getLast?.map (·.entry)).getD ⟨.prepared, none, none⟩

namespace App

variable {s s' : App β γ} {k a : Nat}

/-- The messages of a block that are on their way from the worker `a`. -/
def pending (s : App β γ) (a k : Nat) : List StatusMessage := (s.mail a).filter (·.blockId = k)

structure Reported (cfg : Config β γ) (s : App β γ) : Prop where
  inv : s.Inv cfg
  sender : ∀ a, ∀ msg ∈ s.mail a, s.actorOf msg.blockId = some a
  fresh : ∀ i e, s.jobs.length ≤ i → s.dispatchActor.dataStatus[i]? = some e → e = ⟨.init, none, none⟩
  sent : ∀ k j, s.jobs[k]? = some j → ∃ delivered,
    cfg.messages k j.phase = delivered ++ s.pending j.actorIndex k ∧
      s.dispatchActor.dataStatus[k]? = some (lastEntry delivered)

theorem reported_init (hn : cfg.data ≠ []) (hm : 1 ≤ cfg.maxActors) : (init cfg).Reported cfg where
  inv := inv_init hn hm
  sender := by simp [init]
  fresh := by
    intro i e _ he
    exact List.eq_of_mem_replicate (List.mem_of_getElem? he)
  sent := by simp [init]

/-! ## Steps -/

theorem pending_sync_self {msg : StatusMessage} (h : msg.blockId = k) :
    (s.sync a msg).pending a k = s.pending a k ++ [msg] := by
  simp [pending, sync, h]

theorem pending_sync_of_ne {msg : StatusMessage} {b i : Nat} (h : msg.blockId ≠ i) :
    (s.sync a msg).pending b i = s.pending b i := by
  by_cases hb : b = a
  · subst hb
    simp [pending, sync, h]
  · simp [pending, sync, Function.update_of_ne hb]

/-- A worker sends the next message of its job. -/
theorem Reported.sync_setPhase {j : Job β γ} {phase : Phase γ} {msg : StatusMessage}
    (h : s.Reported cfg) (hinv : ((s.sync j.actorIndex msg).setPhase k phase).Inv cfg)
    (hj : s.jobs[k]? = some j) (hid : msg.blockId = k)
    (hphase : cfg.messages k phase = cfg.messages k j.phase ++ [msg]) :
    ((s.sync j.actorIndex msg).setPhase k phase).Reported cfg := by
  set s' := (s.sync j.actorIndex msg).setPhase k phase with hs'
  have hget : ∀ i, s'.jobs[i]? = s.jobs[i]?.map fun j => if k = i then { j with phase } else j :=
    fun i => getElem?_setPhase
  have hactor : ∀ i, s'.actorOf i = s.actorOf i := by
    intro i
    rw [actorOf, hget, actorOf]
    cases s.jobs[i]? with
    | none => rfl
    | some j => by_cases hki : k = i <;> simp [hki]
  refine ⟨hinv, fun b msg' hmsg' => ?_, fun i e hi he => ?_, fun i j' hj' => ?_⟩
  · rw [hactor]
    have hmem : msg' ∈ Function.update s.mail j.actorIndex (s.mail j.actorIndex ++ [msg]) b := hmsg'
    by_cases hb : b = j.actorIndex
    · subst hb
      rw [Function.update_self] at hmem
      obtain hmem | hmem := List.mem_append.mp hmem
      · exact h.sender _ msg' hmem
      · rw [List.mem_singleton.mp hmem, hid]
        simp [actorOf, hj]
    · rw [Function.update_of_ne hb] at hmem
      exact h.sender b msg' hmem
  · exact h.fresh i e (by simpa [hs', setPhase, sync] using hi) he
  · rw [hget] at hj'
    obtain ⟨j₀, hj₀, rfl⟩ := Option.map_eq_some_iff.mp hj'
    obtain ⟨delivered, hsent, hentry⟩ := h.sent i j₀ hj₀
    by_cases hki : k = i
    · subst hki
      rw [hj] at hj₀
      obtain rfl := Option.some.inj hj₀
      refine ⟨delivered, ?_, hentry⟩
      have hpending : s'.pending j.actorIndex k = s.pending j.actorIndex k ++ [msg] :=
        pending_sync_self hid
      simp only [if_true, hphase, hsent, hpending, List.append_assoc]
    · refine ⟨delivered, ?_, hentry⟩
      have hpending : ∀ b, s'.pending b i = s.pending b i := fun b =>
        pending_sync_of_ne (hid ▸ hki)
      simp only [hki, if_false, hpending]
      exact hsent

theorem Reported.stepBegin (h : s.Reported cfg) (hs : s.stepBegin k = some s') : s'.Reported cfg := by
  have hinv := h.inv.stepBegin hs
  unfold App.stepBegin at hs
  split at hs
  case h_2 => cases hs
  case h_1 a blockId data hj =>
    obtain ⟨hid, _, _⟩ := h.inv.job k _ hj
    obtain rfl : k = blockId := hid.symm
    split at hs
    case isFalse => cases hs
    case isTrue =>
      cases hs
      exact h.sync_setPhase hinv hj rfl rfl

theorem Reported.stepComplete (h : s.Reported cfg) (hs : s.stepComplete cfg k = some s') :
    s'.Reported cfg := by
  have hinv := h.inv.stepComplete hs
  unfold App.stepComplete at hs
  split at hs
  case h_2 => cases hs
  case h_1 a blockId data hj =>
    obtain ⟨hid, hdata, _⟩ := h.inv.job k _ hj
    obtain rfl : k = blockId := hid.symm
    have hdata : cfg.data[k]? = some data := hdata.symm
    cases hs
    refine h.sync_setPhase hinv hj rfl ?_
    simp [Config.messages, Config.stats, hdata]

theorem lastEntry_append {delivered : List StatusMessage} {msg : StatusMessage} :
    lastEntry (delivered ++ [msg]) = msg.entry := by
  simp [lastEntry]

theorem Reported.stepDeliver (h : s.Reported cfg) (hs : s.stepDeliver a = some s') :
    s'.Reported cfg := by
  have hinv := h.inv.stepDeliver hs
  unfold App.stepDeliver at hs
  split at hs
  case h_1 => cases hs
  case h_2 msg rest hmail =>
    have hlt := (h.inv.mail a msg (by simp [hmail])).1
    have hactor := h.sender a msg (by simp [hmail])
    have hrange : msg.blockId < s.dispatchActor.dataStatus.length := by
      rw [h.inv.ready.length]
      exact Nat.lt_of_lt_of_le hlt h.inv.le
    have hset : (s.dispatchActor.changeDataStatus msg).dataStatus =
        s.dispatchActor.dataStatus.set msg.blockId msg.entry := by
      rw [BlockDispatchActor.changeDataStatus, if_pos hrange]
    cases hs
    refine ⟨hinv, fun b msg' hmsg' => ?_, fun i e hi he => ?_, fun i j hj => ?_⟩
    · refine h.sender b msg' ?_
      by_cases hb : b = a
      · subst hb
        dsimp only at hmsg'
        rw [Function.update_self] at hmsg'
        rw [hmail]
        exact List.mem_cons_of_mem _ hmsg'
      · dsimp only at hmsg'
        rwa [Function.update_of_ne hb] at hmsg'
    · dsimp only at hi he
      rw [hset, List.getElem?_set_ne (by omega)] at he
      exact h.fresh i e hi he
    · obtain ⟨delivered, hsent, hentry⟩ := h.sent i j hj
      by_cases hi : msg.blockId = i
      · -- the first message of the block on its way
        subst hi
        have ha : j.actorIndex = a := by simpa [actorOf, hj] using hactor
        refine ⟨delivered ++ [msg], ?_, ?_⟩
        · rw [hsent, ha]
          simp [pending, hmail]
        · rw [hset, List.getElem?_set_self hrange, lastEntry_append]
      · refine ⟨delivered, ?_, ?_⟩
        · rw [hsent]
          by_cases hb : j.actorIndex = a
          · simp [pending, hb, hmail, hi]
          · simp [pending, Function.update_of_ne hb]
        · rw [hset, List.getElem?_set_ne hi]
          exact hentry

/-- What a step of the driver does to the jobs and to the dispatch actor. -/
theorem Inv.stepDriver_cases {ready : Option Nat} (h : s.Inv cfg)
    (hs : s.stepDriver ready = some s') : s'.mail = s.mail ∧
    (s'.jobs = s.jobs ∧ s'.dispatchActor.dataStatus = s.dispatchActor.dataStatus ∨
      ∃ a data, s'.jobs = s.jobs ++ [{ actorIndex := a, blockId := s.jobs.length, data }] ∧
        s'.dispatchActor.dataStatus =
          s.dispatchActor.dataStatus.modify s.jobs.length fun e => { e with status := .prepared }) := by
  unfold App.stepDriver at hs
  split at hs
  case h_1 i hpc =>
    cases hs
    unfold App.stepDispatch
    split
    case isFalse => exact ⟨rfl, .inl ⟨rfl, rfl⟩⟩
    case isTrue =>
      by_cases hlt : s.jobs.length < cfg.data.length
      · obtain ⟨d, hnext, _, hstatus⟩ := h.ready.getNext hlt
        rw [hnext]
        exact ⟨rfl, .inr ⟨i, _, rfl, hstatus⟩⟩
      · rw [h.ready.getNext_none (Nat.le_of_not_lt hlt)]
        exact ⟨rfl, .inl ⟨rfl, rfl⟩⟩
  case h_2 hpc =>
    unfold App.stepWait at hs
    grind
  case h_3 a remainingRefs hpc =>
    cases hs
    unfold App.stepNext
    by_cases hlt : s.jobs.length < cfg.data.length
    · obtain ⟨d, hnext, _, hstatus⟩ := h.ready.getNext hlt
      rw [hnext]
      exact ⟨rfl, .inr ⟨a, _, rfl, hstatus⟩⟩
    · rw [h.ready.getNext_none (Nat.le_of_not_lt hlt)]
      exact ⟨rfl, .inl ⟨rfl, rfl⟩⟩
  case h_4 hpc =>
    cases hs
    exact ⟨rfl, .inl ⟨rfl, rfl⟩⟩
  case h_5 => cases hs
  case h_6 => cases hs

theorem Reported.stepDriver {ready : Option Nat} (h : s.Reported cfg)
    (hs : s.stepDriver ready = some s') : s'.Reported cfg := by
  have hinv := h.inv.stepDriver hs
  obtain ⟨hmail, ⟨hjobs, hstatus⟩ | ⟨a, data, hjobs, hstatus⟩⟩ := h.inv.stepDriver_cases hs
  · refine ⟨hinv, fun b msg hmsg => ?_, fun i e hi he => ?_, fun i j hj => ?_⟩
    · rw [actorOf, hjobs]
      exact h.sender b msg (hmail ▸ hmsg)
    · exact h.fresh i e (hjobs ▸ hi) (hstatus ▸ he)
    · rw [pending, hmail, hstatus]
      exact h.sent i j (hjobs ▸ hj)
  · refine ⟨hinv, fun b msg hmsg => ?_, fun i e hi he => ?_, fun i j hj => ?_⟩
    · rw [hmail] at hmsg
      rw [actorOf, hjobs, List.getElem?_append_left (h.inv.mail b msg hmsg).1]
      exact h.sender b msg hmsg
    · rw [hjobs, List.length_append, List.length_singleton] at hi
      rw [hstatus, List.getElem?_modify_ne _ _ (by omega)] at he
      exact h.fresh i e (Nat.le_of_succ_le hi) he
    · rw [pending, hmail, hstatus]
      rw [hjobs, List.getElem?_append] at hj
      split at hj
      case isTrue hlt =>
        obtain ⟨delivered, hsent, hentry⟩ := h.sent i j hj
        refine ⟨delivered, hsent, ?_⟩
        rw [List.getElem?_modify_ne _ _ (by omega)]
        exact hentry
      case isFalse hge =>
        rw [List.getElem?_singleton] at hj
        split at hj
        case isFalse => cases hj
        case isTrue hi =>
          -- the new job: its block has neither messages nor statistics
          obtain rfl : i = s.jobs.length := by omega
          cases hj
          refine ⟨[], ?_, ?_⟩
          · have hnone : (s.mail a).filter (fun msg => msg.blockId = s.jobs.length) = [] := by
              rw [List.filter_eq_nil_iff]
              intro msg hmsg
              have := (h.inv.mail a msg hmsg).1
              simp only [decide_eq_true_eq]
              omega
            rw [hnone]
            rfl
          · have hlt : s.jobs.length < s.dispatchActor.dataStatus.length := by
              rw [h.inv.ready.length]
              have := hinv.le
              rw [hjobs, List.length_append, List.length_singleton] at this
              omega
            have hentry := List.getElem?_eq_getElem hlt
            rw [List.getElem?_modify_eq, hentry, h.fresh _ _ (Nat.le_refl _) hentry]
            rfl

theorem Reported.step {action : Action} (h : s.Reported cfg)
    (hs : (runApp cfg).step s action = some s') : s'.Reported cfg := by
  cases action with
  | driver ready => exact h.stepDriver hs
  | begin k => exact h.stepBegin hs
  | complete k => exact h.stepComplete hs
  | deliver a => exact h.stepDeliver hs

end App

theorem App.reported_run {as : List Action} {s : App β γ} (hn : cfg.data ≠ []) (hm : 1 ≤ cfg.maxActors)
    (hrun : (runApp cfg).run (init cfg) as = some s) : s.Reported cfg :=
  (runApp cfg).run_invariant (fun _ _ _ => App.Reported.step) hrun (App.reported_init hn hm)

/-! ## The totals -/

/-- What an entry adds to the totals. -/
def BlockEntry.value (e : BlockEntry) : Stats × Stats := (e.original.getD 0, e.joined.getD 0)

theorem addEntry_eq (total : Stats × Stats) (e : BlockEntry) :
    BlockDispatchActor.addEntry total e = total + e.value := by
  obtain ⟨status, original, joined⟩ := e
  cases original <;> cases joined <;> simp [BlockDispatchActor.addEntry, BlockEntry.value] <;> rfl

theorem foldl_addEntry (l : List BlockEntry) :
    l.foldl BlockDispatchActor.addEntry ((0, 0, 0), (0, 0, 0)) =
      ∑ k ∈ Finset.range l.length, (l[k]?.map BlockEntry.value).getD 0 := by
  induction l using List.reverseRecOn with
  | nil => rfl
  | append_singleton l e ih =>
    have hold : ∑ k ∈ Finset.range l.length, ((l ++ [e])[k]?.map BlockEntry.value).getD 0 =
        ∑ k ∈ Finset.range l.length, (l[k]?.map BlockEntry.value).getD 0 := by
      refine Finset.sum_congr rfl fun k hk => ?_
      rw [List.getElem?_append_left (Finset.mem_range.mp hk)]
    rw [List.foldl_append, List.length_append, List.length_singleton, Finset.sum_range_succ, hold, ← ih]
    simp [addEntry_eq]

/-- What the dispatch actor has counted for a block. -/
def BlockDispatchActor.counted (d : BlockDispatchActor β) (k : Nat) : Stats × Stats :=
  (d.dataStatus[k]?.map BlockEntry.value).getD 0

theorem getResults_eq_sum {d : BlockDispatchActor β} :
    d.getResults = ∑ k ∈ Finset.range d.dataStatus.length, d.counted k :=
  foldl_addEntry _

/-- A completed job has been counted, or its last message is still on its way. -/
theorem App.Reported.counted_cases {s : App β γ} {k : Nat} (h : s.Reported cfg) (hk : s.Completed k) :
    s.dispatchActor.counted k = cfg.stats k ∧
        (∀ a, s.actorOf k = some a → s.pending a k = []) ∨
      s.dispatchActor.counted k = 0 ∧
        ∃ a, ∃ msg ∈ s.mail a, msg.blockId = k ∧ msg.entry.status = .processed := by
  obtain ⟨j, hj, hdone⟩ := hk
  obtain ⟨delivered, hsent, hentry⟩ := h.sent k j hj
  have hphase : ∃ ref, j.phase = .completed ref := by
    unfold Job.isCompleted at hdone
    split at hdone
    case h_1 ref href => exact ⟨ref, href⟩
    case h_2 => cases hdone
  obtain ⟨ref, href⟩ := hphase
  rw [href] at hsent
  have hlate : ∀ msg, msg ∈ s.pending j.actorIndex k → msg.entry.status = .processed →
      ∃ a, ∃ msg ∈ s.mail a, msg.blockId = k ∧ msg.entry.status = .processed := by
    intro msg hmsg hstatus
    obtain ⟨hmem, hid⟩ := List.mem_filter.mp hmsg
    exact ⟨j.actorIndex, msg, hmem, by simpa using hid, hstatus⟩
  rw [BlockDispatchActor.counted, hentry]
  -- by how many of the two messages have been delivered
  match delivered, hsent with
  | [], hsent =>
    refine .inr ⟨rfl, hlate ⟨k, .processed, some (cfg.stats k).1, some (cfg.stats k).2⟩ ?_ rfl⟩
    rw [← List.nil_append (s.pending j.actorIndex k), ← hsent]
    simp [Config.messages]
  | [m₁], hsent =>
    simp only [Config.messages, List.cons_append, List.nil_append, List.cons.injEq] at hsent
    obtain ⟨rfl, hsent⟩ := hsent
    refine .inr ⟨rfl, hlate ⟨k, .processed, some (cfg.stats k).1, some (cfg.stats k).2⟩ ?_ rfl⟩
    rw [← hsent]
    simp
  | m₁ :: m₂ :: rest, hsent =>
    simp only [Config.messages, List.cons_append, List.cons.injEq] at hsent
    obtain ⟨rfl, rfl, hsent⟩ := hsent
    obtain ⟨rfl, hpending⟩ := List.append_eq_nil_iff.mp hsent.symm
    refine .inl ⟨rfl, fun a ha => ?_⟩
    obtain rfl : j.actorIndex = a := by simpa [App.actorOf, hj] using ha
    exact hpending

/-- The totals are right exactly if no message that counts is still on its way. -/
theorem getResults_total_iff {as : List Action} {s s' : App β γ} {ready : Option Nat}
    (hn : cfg.data ≠ []) (hm : 1 ≤ cfg.maxActors) (hrun : (runApp cfg).run (init cfg) as = some s)
    (hpc : s.pc = .results) (hs : (runApp cfg).step s (.driver ready) = some s') :
    s'.pc = .returned (∑ k ∈ Finset.range cfg.data.length, cfg.stats k) ↔
      ∀ a, ∀ msg ∈ s.mail a, msg.entry.status = .processed → cfg.stats msg.blockId = 0 := by
  have h := App.reported_run hn hm hrun
  obtain ⟨_, hhandled⟩ := h.inv.of_leftLoop (by rw [hpc]; rfl)
  have hcounted := fun k (hk : k < cfg.data.length) => h.counted_cases (hhandled k hk).completed
  have hpc' : s'.pc = .returned (∑ k ∈ Finset.range cfg.data.length, s.dispatchActor.counted k) := by
    simp only [runApp, App.stepDriver, hpc] at hs
    cases hs
    rw [getResults_eq_sum, h.inv.ready.length]
  have hle : ∀ k ∈ Finset.range cfg.data.length, s.dispatchActor.counted k ≤ cfg.stats k := by
    intro k hk
    obtain ⟨heq, _⟩ | ⟨hzero, _⟩ := hcounted k (Finset.mem_range.mp hk)
    · exact heq.le
    · rw [hzero]
      exact ⟨⟨Nat.zero_le _, Nat.zero_le _, Nat.zero_le _⟩, Nat.zero_le _, Nat.zero_le _, Nat.zero_le _⟩
  rw [hpc', Pc.returned.injEq, Finset.sum_eq_sum_iff_of_le hle]
  constructor
  · intro heq a msg hmsg hstatus
    have hk := Nat.lt_of_lt_of_le (h.inv.mail a msg hmsg).1 h.inv.le
    obtain ⟨_, hnone⟩ | ⟨hzero, _⟩ := hcounted msg.blockId hk
    · have hmem : msg ∈ s.pending a msg.blockId := List.mem_filter.mpr ⟨hmsg, by simp⟩
      rw [hnone a (h.sender a msg hmsg)] at hmem
      cases hmem
    · rw [← heq _ (Finset.mem_range.mpr hk)]
      exact hzero
  · intro hlate k hk
    obtain ⟨heq, _⟩ | ⟨hzero, a, msg, hmsg, rfl, hstatus⟩ := hcounted k (Finset.mem_range.mp hk)
    · exact heq
    · exact hzero.trans (hlate a msg hmsg hstatus).symm

namespace Sample

/-- Two blocks on two actors, up to `get_results`; the messages of the first block have arrived. -/
def upToResults : List Action :=
  [.driver none, .driver none, .driver none, .begin 0, .begin 1, .complete 0, .complete 1, .deliver 0,
    .deliver 0, .driver (some 0), .driver none, .driver (some 1), .driver none]

/-- `get_results` overtakes the messages of the second block. -/
theorem overtaken_not_total : ∃ s s',
    (runApp (config 2 2)).run (init (config 2 2)) upToResults = some s ∧
    (runApp (config 2 2)).step s (.driver none) = some s' ∧
    s'.pc = .returned ((0, 0, 0), (0, 0, 0)) ∧
    ∑ k ∈ Finset.range (config 2 2).data.length, (config 2 2).stats k = ((10, 1, 0), (1, 0, 0)) := by
  have hsome : ((runApp (config 2 2)).run (init (config 2 2)) upToResults).isSome = true := by
    decide +kernel
  obtain ⟨s, hs⟩ := Option.isSome_iff_exists.mp hsome
  have hpc : ((runApp (config 2 2)).run (init (config 2 2)) upToResults).any (fun s =>
      s.pc = .results ∧ s.dispatchActor.getResults = ((0, 0, 0), (0, 0, 0))) = true := by
    decide +kernel
  rw [hs, Option.any_some, decide_eq_true_iff] at hpc
  refine ⟨s, { s with pc := .returned s.dispatchActor.getResults }, hs, ?_, ?_, by decide +kernel⟩
  · simp [runApp, App.stepDriver, hpc.1]
  · rw [hpc.2]

/-- With all messages delivered the totals are right. -/
theorem delivered_total : ∃ s s',
    (runApp (config 2 2)).run (init (config 2 2)) (upToResults ++ [.deliver 1, .deliver 1]) = some s ∧
    (runApp (config 2 2)).step s (.driver none) = some s' ∧
    s'.pc = .returned (∑ k ∈ Finset.range (config 2 2).data.length, (config 2 2).stats k) := by
  have hsome : ((runApp (config 2 2)).run (init (config 2 2))
      (upToResults ++ [.deliver 1, .deliver 1])).isSome = true := by decide +kernel
  obtain ⟨s, hs⟩ := Option.isSome_iff_exists.mp hsome
  have hpc : ((runApp (config 2 2)).run (init (config 2 2))
      (upToResults ++ [.deliver 1, .deliver 1])).any (fun s =>
        s.pc = .results ∧ ∀ j ∈ s.jobs, s.mail j.actorIndex = []) = true := by decide +kernel
  rw [hs, Option.any_some, decide_eq_true_iff] at hpc
  have hstep : (runApp (config 2 2)).step s (.driver none) =
      some { s with pc := .returned s.dispatchActor.getResults } := by
    simp [runApp, App.stepDriver, hpc.1]
  refine ⟨s, _, hs, hstep, (getResults_total_iff (by decide) (by decide) hs hpc.1 hstep).mpr ?_⟩
  intro a msg hmsg _
  have h := App.reported_run (by decide) (by decide) hs
  obtain ⟨j, hj, rfl⟩ := Option.map_eq_some_iff.mp (h.sender a msg hmsg)
  rw [hpc.2 j (List.mem_of_getElem? hj)] at hmsg
  cases hmsg

end Sample

end Psi.RunApp
