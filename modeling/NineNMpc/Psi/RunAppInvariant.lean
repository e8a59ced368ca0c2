-- SUMMARY: The invariant of the block scheduler: blocks are handed out in order, and every job is in exactly one result slot until the driver has taken its output.
import NineNMpc.Psi.RunApp
import Mathlib.Data.List.Nodup
import Mathlib.Data.Option.Basic

/-!
# The invariant of the scheduler

The blocks `0, …, k-1` have been handed out, one job each, so the number of a job is the
id of its block. As long as there are blocks left, `result_refs` has one reference for each
actor; behind that it only shrinks. A job without a reference there has completed, and the
driver has kept its output.
-/

namespace Psi.RunApp

variable {β γ : Type} {cfg : Config β γ}

/-! ## The dispatch actor -/

namespace BlockDispatchActor

/-- The blocks before `k` have been handed out. -/
structure Ready (cfg : Config β γ) (d : BlockDispatchActor β) (k : Nat) : Prop where
  dataType : d.dataType = cfg.dataType
  length : d.dataStatus.length = cfg.data.length
  init : ∀ i e, d.dataStatus[i]? = some e → (e.status = .init ↔ k ≤ i)
  paths : cfg.dataType = .directory → d.dataPaths = cfg.data
  blocks : cfg.dataType = .file → ∀ i, k ≤ i → d.dataBlocks[i]? = cfg.data[i]?.map some

variable {d : BlockDispatchActor β} {k : Nat}

theorem ready_new : (new cfg).Ready cfg 0 where
  dataType := rfl
  length := by simp [new]
  init := by
    intro i e he
    have := List.eq_of_mem_replicate (List.mem_of_getElem? he)
    simp [this]
  paths := fun h => by simp [new, h]
  blocks := fun h i _ => by simp [new, h]

theorem Ready.findIdx? (h : d.Ready cfg k) :
    d.dataStatus.findIdx? (·.status = .init) = if k < cfg.data.length then some k else none := by
  split
  case isTrue hk =>
    rw [List.findIdx?_eq_some_iff_getElem]
    have hlt : k < d.dataStatus.length := h.length ▸ hk
    refine ⟨hlt, ?_, fun i hi => ?_⟩
    · simpa using (h.init k _ (List.getElem?_eq_getElem hlt)).mpr (Nat.le_refl k)
    · have := h.init i _ (List.getElem?_eq_getElem (Nat.lt_trans hi hlt))
      simp only [decide_eq_true_eq, this]
      omega
  case isFalse hk =>
    rw [List.findIdx?_eq_none_iff]
    intro e he
    obtain ⟨i, hi⟩ := List.getElem?_of_mem he
    obtain ⟨hlt, _⟩ := List.getElem?_eq_some_iff.mp hi
    have := h.init i e hi
    rw [h.length] at hlt
    simp only [decide_eq_false_iff_not, this]
    omega

theorem Ready.getNext_none (h : d.Ready cfg k) (hk : cfg.data.length ≤ k) :
    d.getNextUnprocessedDataAndUse = some (d, none) := by
  rw [getNextUnprocessedDataAndUse, h.findIdx?, if_neg (Nat.not_lt.mpr hk)]

/-- The next block, with its data. -/
theorem Ready.getNext (h : d.Ready cfg k) (hk : k < cfg.data.length) :
    ∃ d', d.getNextUnprocessedDataAndUse = some (d', some (k, cfg.data[k]?)) ∧ d'.Ready cfg (k + 1) ∧
      d'.dataStatus = d.dataStatus.modify k fun e => { e with status := .prepared } := by
  set prepared := d.dataStatus.modify k fun e => { e with status := .prepared } with hprepared
  have hinit : ∀ i e, prepared[i]? = some e → (e.status = .init ↔ k + 1 ≤ i) := by
    intro i e he
    rw [hprepared, List.getElem?_modify] at he
    obtain ⟨e', he', rfl⟩ := Option.map_eq_some_iff.mp he
    have := h.init i e' he'
    by_cases hik : k = i
    · simp [hik]
    · simp only [hik, if_false, this]
      omega
  have hlength : prepared.length = cfg.data.length := by simp [hprepared, h.length]
  have hnext : d.getNextUnprocessedDataAndUse =
      ({ d with dataStatus := prepared }.takeData k).map
        fun p : BlockDispatchActor β × Option β => (p.1, some (k, p.2)) := by
    rw [getNextUnprocessedDataAndUse, h.findIdx?, if_pos hk]
  have hdata : cfg.data[k]? = some cfg.data[k] := List.getElem?_eq_getElem hk
  rw [hnext]
  cases htype : cfg.dataType with
  | file =>
    have hblock := h.blocks htype k (Nat.le_refl k)
    refine ⟨{ d with dataStatus := prepared, dataBlocks := d.dataBlocks.set k none }, ?_, ?_, rfl⟩
    · simp [takeData, h.dataType.trans htype, hblock, hdata]
    · refine ⟨h.dataType, hlength, hinit, h.paths, fun hfile i hi => ?_⟩
      have hne : k ≠ i := by omega
      rw [List.getElem?_set_ne hne]
      exact h.blocks hfile i (Nat.le_of_succ_le hi)
  | directory =>
    refine ⟨{ d with dataStatus := prepared }, ?_, ⟨h.dataType, hlength, hinit, h.paths, ?_⟩, rfl⟩
    · simp [takeData, h.dataType.trans htype, h.paths htype, hdata]
    · intro hfile
      rw [htype] at hfile
      cases hfile

theorem Ready.changeDataStatus (h : d.Ready cfg k) {msg : StatusMessage} (hid : msg.blockId < k)
    (hstatus : msg.entry.status ≠ .init) : (d.changeDataStatus msg).Ready cfg k := by
  unfold BlockDispatchActor.changeDataStatus
  split
  case isFalse => exact h
  case isTrue hlt =>
    refine { h with length := by simp [h.length], init := fun i e he => ?_ }
    by_cases hi : msg.blockId = i
    · subst hi
      rw [List.getElem?_set_self hlt] at he
      obtain rfl := Option.some.inj he
      simp only [hstatus, false_iff]
      omega
    · rw [List.getElem?_set_ne hi] at he
      exact h.init i e he

end BlockDispatchActor

/-! ## Jobs and slots -/

/-- The reference that the job of a block returns. -/
def Config.ref (cfg : Config β γ) (k : Nat) : Option γ :=
  if cfg.dataType = .file then cfg.data[k]?.map fun data => (cfg.doAction k data).2.2 else none

namespace App

variable {s s' : App β γ} {k a : Nat}

def actorOf (s : App β γ) (k : Nat) : Option Nat := s.jobs[k]?.map (·.actorIndex)

def Completed (s : App β γ) (k : Nat) : Prop := ∃ j, s.jobs[k]? = some j ∧ j.isCompleted = true

/-- The job has completed, and the driver has kept its output. -/
structure Handled (cfg : Config β γ) (s : App β γ) (k : Nat) : Prop where
  completed : s.Completed k
  output : cfg.dataType = .file → s.dataOutputRefs[k]? = some (cfg.ref k)

/-- `refs` are the references the driver waits for. -/
structure Slots (cfg : Config β γ) (s : App β γ) (refs : List Nat) : Prop where
  actor : ∀ k ∈ refs, ∃ a < s.maxActors, s.actorOf k = some a
  nodup : (refs.map s.actorOf).Nodup
  full : s.jobs.length < cfg.data.length → refs.map s.actorOf = (List.range s.maxActors).map some
  handled : ∀ k < s.jobs.length, k ∉ refs → s.Handled cfg k

/-- One reference for each actor, in their order. -/
theorem Slots.of_full {refs : List Nat}
    (hmap : refs.map s.actorOf = (List.range s.maxActors).map some)
    (hhandled : ∀ k < s.jobs.length, k ∉ refs → s.Handled cfg k) : s.Slots cfg refs where
  actor := by
    intro k hk
    have : s.actorOf k ∈ (List.range s.maxActors).map some := hmap ▸ List.mem_map_of_mem hk
    obtain ⟨a, ha, heq⟩ := List.mem_map.mp this
    exact ⟨a, List.mem_range.mp ha, heq.symm⟩
  nodup := hmap ▸ List.Nodup.map (Option.some_injective _) List.nodup_range
  full := fun _ => hmap
  handled := hhandled

/-- Behind the last block a slot is given up with its job. -/
theorem Slots.erase {refs : List Nat} (h : s.Slots cfg refs) (hk : s.Handled cfg k)
    (hlen : cfg.data.length ≤ s.jobs.length) : s.Slots cfg (refs.erase k) where
  actor := fun i hi => h.actor i (List.mem_of_mem_erase hi)
  nodup := h.nodup.sublist (List.erase_sublist.map _)
  full := fun hlt => absurd hlt (Nat.not_lt.mpr hlen)
  handled := by
    intro i hi hmem
    by_cases hik : i = k
    · exact hik ▸ hk
    · exact h.handled i hi fun hin => hmem ((List.mem_erase_of_ne hik).mpr hin)

def PcInv (cfg : Config β γ) (s : App β γ) : Pc → Prop
  | .dispatch i => i ≤ s.maxActors ∧ s.jobs.length = i ∧ (∀ k < i, s.actorOf k = some k) ∧
      s.resultRefs = (List.range i).map some ++ List.replicate (s.maxActors - i) none
  | .wait => ∃ refs, refs ≠ [] ∧ s.resultRefs = refs.map some ∧ s.Slots cfg refs
  | .next a remainingRefs => ∃ refs k, k ∈ refs ∧ s.actorOf k = some a ∧ s.Handled cfg k ∧
      s.resultRefs = refs.map some ∧ remainingRefs = (refs.erase k).map some ∧ s.Slots cfg refs
  | .results | .returned _ => s.jobs.length = cfg.data.length ∧ s.Slots cfg []
  | .raised => False

structure Inv (cfg : Config β γ) (s : App β γ) : Prop where
  ready : s.dispatchActor.Ready cfg s.jobs.length
  le : s.jobs.length ≤ cfg.data.length
  actors : 1 ≤ s.maxActors ∧ s.maxActors ≤ cfg.data.length
  job : ∀ k j, s.jobs[k]? = some j → j.blockId = k ∧ j.data = cfg.data[k]? ∧
    ∀ ref, j.phase = .completed ref → ref = cfg.ref k
  mail : ∀ a, ∀ msg ∈ s.mail a, msg.blockId < s.jobs.length ∧ msg.entry.status ≠ .init
  outputs : s.dataOutputRefs.length = cfg.data.length
  pc : s.PcInv cfg s.pc

theorem inv_init (hn : cfg.data ≠ []) (hm : 1 ≤ cfg.maxActors) : (init cfg).Inv cfg where
  ready := BlockDispatchActor.ready_new
  le := Nat.zero_le _
  actors := by
    have := List.length_pos_iff.mpr hn
    dsimp only [init]
    split <;> omega
  job := by simp [init]
  mail := by simp [init]
  outputs := by simp [init]
  pc := ⟨Nat.zero_le _, rfl, by simp, by simp [init]⟩

/-! ## Frames -/

/-- What the slots depend on. -/
structure Frame (cfg : Config β γ) (s s' : App β γ) : Prop where
  length : s'.jobs.length = s.jobs.length
  actorOf : ∀ k, s'.actorOf k = s.actorOf k
  maxActors : s'.maxActors = s.maxActors
  handled : ∀ k, s.Handled cfg k → s'.Handled cfg k

theorem Slots.frame {refs : List Nat} (h : s.Slots cfg refs) (hf : Frame cfg s s') :
    s'.Slots cfg refs := by
  have hmap : refs.map s'.actorOf = refs.map s.actorOf := List.map_congr_left fun k _ => hf.actorOf k
  refine ⟨fun k hk => ?_, hmap ▸ h.nodup, fun hlt => ?_, fun k hk hmem => ?_⟩
  · rw [hf.maxActors, hf.actorOf]
    exact h.actor k hk
  · rw [hmap, hf.maxActors]
    exact h.full (hf.length ▸ hlt)
  · exact hf.handled k (h.handled k (hf.length ▸ hk) hmem)

theorem PcInv.frame {pc : Pc} (h : s.PcInv cfg pc) (hf : Frame cfg s s')
    (hsame : s'.resultRefs = s.resultRefs) : s'.PcInv cfg pc := by
  cases pc with
  | dispatch i =>
    obtain ⟨hi, hlen, hactor, hrefs⟩ := h
    refine ⟨hf.maxActors ▸ hi, hf.length.trans hlen, fun k hk => ?_, ?_⟩
    · rw [hf.actorOf]
      exact hactor k hk
    · rw [hsame, hf.maxActors]
      exact hrefs
  | wait =>
    obtain ⟨refs, hne, hrefs, hslots⟩ := h
    exact ⟨refs, hne, hsame.trans hrefs, hslots.frame hf⟩
  | next a remainingRefs =>
    obtain ⟨refs, k, hk, hactor, hhandled, hrefs, hremaining, hslots⟩ := h
    exact ⟨refs, k, hk, (hf.actorOf k).trans hactor, hf.handled k hhandled,
      hsame.trans hrefs, hremaining, hslots.frame hf⟩
  | results => exact ⟨hf.length.trans h.1, h.2.frame hf⟩
  | returned results => exact ⟨hf.length.trans h.1, h.2.frame hf⟩
  | raised => exact h

theorem getElem?_setPhase {phase : Phase γ} {i : Nat} :
    (s.setPhase k phase).jobs[i]? =
      s.jobs[i]?.map fun j => if k = i then { j with phase } else j := by
  rw [setPhase, List.getElem?_modify]
  by_cases h : k = i
  · simp [h]
  · simp [h]

/-- A worker goes on with a job that has not completed. -/
theorem Inv.sync_setPhase {j : Job β γ} {phase : Phase γ} {msg : StatusMessage} (h : s.Inv cfg)
    (hj : s.jobs[k]? = some j) (hopen : j.isCompleted = false) (hid : msg.blockId = j.blockId)
    (hstatus : msg.entry.status ≠ .init) (hphase : ∀ ref, phase = .completed ref → ref = cfg.ref k) :
    ((s.sync a msg).setPhase k phase).Inv cfg := by
  set s' := (s.sync a msg).setPhase k phase with hs'
  have hlen : s'.jobs.length = s.jobs.length := by simp [hs', setPhase, sync]
  have hget : ∀ i, s'.jobs[i]? = s.jobs[i]?.map fun j => if k = i then { j with phase } else j :=
    fun i => getElem?_setPhase
  have hframe : Frame cfg s s' := by
    refine ⟨hlen, fun i => ?_, rfl, fun i hi => ⟨?_, hi.output⟩⟩
    · rw [actorOf, hget, actorOf, Option.map_map]
      refine congrFun (congrArg Option.map (funext fun j => ?_)) _
      by_cases hki : k = i
      · simp [hki]
      · simp [hki]
    · obtain ⟨j', hj', hdone⟩ := hi.completed
      have hki : k ≠ i := by
        rintro rfl
        rw [hj] at hj'
        obtain rfl := Option.some.inj hj'
        rw [hopen] at hdone
        cases hdone
      exact ⟨j', by rw [hget, hj']; simp [hki], hdone⟩
  have hk := (List.getElem?_eq_some_iff.mp hj).1
  refine ⟨?_, hlen ▸ h.le, h.actors, fun i j' hj' => ?_, fun b msg' hmsg' => ?_, h.outputs,
    h.pc.frame hframe rfl⟩
  · rw [hlen]
    exact h.ready
  · rw [hget] at hj'
    obtain ⟨j₀, hj₀, rfl⟩ := Option.map_eq_some_iff.mp hj'
    obtain ⟨hblock, hdata, href⟩ := h.job i j₀ hj₀
    by_cases hki : k = i
    · subst hki
      simp only [if_true]
      exact ⟨hblock, hdata, hphase⟩
    · simp only [hki, if_false]
      exact ⟨hblock, hdata, href⟩
  · rw [hlen]
    have hmem : msg' ∈ Function.update s.mail a (s.mail a ++ [msg]) b := hmsg'
    by_cases hb : b = a
    · subst hb
      rw [Function.update_self] at hmem
      obtain hmem | hmem := List.mem_append.mp hmem
      · exact h.mail b msg' hmem
      · obtain rfl := List.mem_singleton.mp hmem
        rw [hid, (h.job k j hj).1]
        exact ⟨hk, hstatus⟩
    · rw [Function.update_of_ne hb] at hmem
      exact h.mail b msg' hmem

/-! ## The steps of the workers and of the dispatch actor -/

theorem Inv.stepBegin (h : s.Inv cfg) (hs : s.stepBegin k = some s') : s'.Inv cfg := by
  unfold App.stepBegin at hs
  split at hs
  case h_2 => cases hs
  case h_1 a blockId data hj =>
    split at hs
    case isFalse => cases hs
    case isTrue =>
      cases hs
      exact h.sync_setPhase hj rfl rfl (by simp) (by simp)

theorem Inv.stepComplete (h : s.Inv cfg) (hs : s.stepComplete cfg k = some s') : s'.Inv cfg := by
  unfold App.stepComplete at hs
  split at hs
  case h_2 => cases hs
  case h_1 a blockId data hj =>
    obtain ⟨rfl, hdata, _⟩ := h.job k _ hj
    cases hs
    refine h.sync_setPhase hj rfl rfl (by simp) ?_
    rintro ref ⟨⟩
    simp only [Config.ref, ← hdata, Option.map_some]

theorem Inv.stepDeliver (h : s.Inv cfg) (hs : s.stepDeliver a = some s') : s'.Inv cfg := by
  unfold App.stepDeliver at hs
  split at hs
  case h_1 => cases hs
  case h_2 msg rest hmail =>
    cases hs
    obtain ⟨hid, hstatus⟩ := h.mail a msg (by simp [hmail])
    have hframe : Frame cfg s { s with
        dispatchActor := s.dispatchActor.changeDataStatus msg
        mail := Function.update s.mail a rest } :=
      ⟨rfl, fun _ => rfl, rfl, fun _ hi => ⟨hi.completed, hi.output⟩⟩
    refine ⟨h.ready.changeDataStatus hid hstatus, h.le, h.actors, h.job, fun b msg' hmsg' => ?_,
      h.outputs, h.pc.frame hframe rfl⟩
    by_cases hb : b = a
    · subst hb
      dsimp only at hmsg'
      rw [Function.update_self] at hmsg'
      exact h.mail b msg' (by simp [hmail, hmsg'])
    · dsimp only at hmsg'
      rw [Function.update_of_ne hb] at hmsg'
      exact h.mail b msg' hmsg'

/-! ## The steps of the driver -/

/-- A job for the next block, on the actor `a`. -/
theorem Inv.submit {d : BlockDispatchActor β} {pc : Pc} (h : s.Inv cfg)
    (hlt : s.jobs.length < cfg.data.length) (hd : d.Ready cfg (s.jobs.length + 1))
    (ha : a < s.resultRefs.length)
    (hpc : PcInv cfg ({ s with dispatchActor := d, pc }.submit a s.jobs.length
      cfg.data[s.jobs.length]?) pc) :
    ({ s with dispatchActor := d, pc }.submit a s.jobs.length cfg.data[s.jobs.length]?).Inv cfg := by
  refine ⟨?_, ?_, h.actors, fun k j hj => ?_, fun b msg hmsg => ?_, h.outputs, ?_⟩
  · simpa [App.submit] using hd
  · simpa [App.submit] using Nat.succ_le_of_lt hlt
  · dsimp only [App.submit] at hj
    rw [List.getElem?_append] at hj
    split at hj
    · exact h.job k j hj
    · rw [List.getElem?_singleton] at hj
      split at hj
      case isFalse => cases hj
      case isTrue hge hk =>
        obtain rfl : k = s.jobs.length := by omega
        cases hj
        exact ⟨rfl, rfl, by simp⟩
  · obtain ⟨hid, hstatus⟩ := h.mail b msg hmsg
    refine ⟨?_, hstatus⟩
    simp only [App.submit, List.length_append]
    omega
  · have hpc' : ({ s with dispatchActor := d, pc }.submit a s.jobs.length
        cfg.data[s.jobs.length]?).pc = pc := if_pos ha
    rw [hpc']
    exact hpc

theorem actorOf_submit_lt {blockId : Nat} {data : Option β} (hk : k < s.jobs.length) :
    (s.submit a blockId data).actorOf k = s.actorOf k := by
  simp [actorOf, App.submit, List.getElem?_append_left hk]

theorem actorOf_submit_self {blockId : Nat} {data : Option β} :
    (s.submit a blockId data).actorOf s.jobs.length = some a := by
  simp [actorOf, App.submit]

theorem Handled.submit {blockId : Nat} {data : Option β} (h : s.Handled cfg k) :
    (s.submit a blockId data).Handled cfg k := by
  obtain ⟨j, hj, hdone⟩ := h.completed
  obtain ⟨hlt, _⟩ := List.getElem?_eq_some_iff.mp hj
  refine ⟨⟨j, ?_, hdone⟩, h.output⟩
  rw [App.submit, List.getElem?_append_left hlt]
  exact hj

theorem Inv.stepDispatch {i : Nat} (h : s.Inv cfg) (hpc : s.pc = .dispatch i) :
    (s.stepDispatch i).Inv cfg := by
  have hinv := h.pc
  rw [hpc] at hinv
  obtain ⟨hle, rfl, hactor, hrefs⟩ := hinv
  unfold App.stepDispatch
  split
  case isTrue hlt =>
    have hlt' : s.jobs.length < cfg.data.length := Nat.lt_of_lt_of_le hlt h.actors.2
    have hlen : s.resultRefs.length = s.maxActors := by
      rw [hrefs, List.length_append, List.length_map, List.length_range, List.length_replicate]
      omega
    obtain ⟨d, hnext, hd, _⟩ := h.ready.getNext hlt'
    rw [hnext]
    refine h.submit hlt' hd (by rw [hlen]; exact hlt) ⟨hlt, by simp [App.submit], fun k hk => ?_, ?_⟩
    · obtain hk | rfl := Nat.lt_succ_iff_lt_or_eq.mp hk
      · exact (actorOf_submit_lt hk).trans (hactor k hk)
      · exact actorOf_submit_self
    · -- the slot of the actor is the first one without a reference
      obtain ⟨m, hm⟩ : ∃ m, s.maxActors = s.jobs.length + 1 + m := ⟨_, (Nat.add_sub_of_le hlt).symm⟩
      simp only [App.submit, hrefs, hm]
      rw [List.set_append_right _ _ (by simp)]
      have hrest : s.jobs.length + 1 + m - s.jobs.length = m + 1 := by omega
      rw [hrest, Nat.add_sub_cancel_left]
      simp [List.range_succ, List.replicate_succ]
  case isFalse hge =>
    have hM : s.jobs.length = s.maxActors := by omega
    refine { h with pc := ⟨List.range s.maxActors, ?_, ?_, ?_⟩ }
    · have := h.actors.1
      simp
      omega
    · rw [hM] at hrefs
      simpa using hrefs
    · have hmap : (List.range s.maxActors).map s.actorOf = (List.range s.maxActors).map some :=
        List.map_congr_left fun k hk => hactor k (by rw [hM]; exact List.mem_range.mp hk)
      refine Slots.of_full hmap fun k hk hmem => ?_
      exact absurd (List.mem_range.mpr (hM ▸ hk)) hmem

/-- The output of a completed job is kept, and nothing else changes. -/
theorem Inv.stepWait {ready : Option Nat} (h : s.Inv cfg) (hpc : s.pc = .wait)
    (hs : s.stepWait ready = some s') : s'.Inv cfg := by
  have hinv := h.pc
  rw [hpc] at hinv
  obtain ⟨refs, hne, hrefs, hslots⟩ := hinv
  have hgood : ¬ (s.resultRefs = [] ∨ none ∈ s.resultRefs) := by
    rw [hrefs]
    simp [hne]
  unfold App.stepWait at hs
  rw [if_neg hgood] at hs
  split at hs
  case h_1 =>
    cases hs
    exact h
  case h_2 k =>
    split at hs
    case h_2 => cases hs
    case h_1 a blockId data ref hj =>
      obtain ⟨hblock, hdata, href⟩ := h.job k _ hj
      obtain rfl : k = blockId := hblock.symm
      obtain rfl : ref = cfg.ref k := href ref rfl
      have hdata : data = cfg.data[k]? := hdata
      have hlt : k < s.jobs.length := (List.getElem?_eq_some_iff.mp hj).1
      have hactor : s.actorOf k = some a := by simp [actorOf, hj]
      have hdone : s.Completed k := ⟨_, hj, rfl⟩
      split at hs
      case isFalse => cases hs
      case isTrue hmem =>
        have hmem : k ∈ refs := by simpa [hrefs] using hmem
        have herase : s.resultRefs.erase (some k) = (refs.erase k).map some := by
          rw [hrefs, List.map_erase (Option.some_injective _)]
        dsimp only at hs
        split at hs
        case isTrue hfile =>
          rw [if_pos (h.outputs ▸ Nat.lt_of_lt_of_le hlt h.le)] at hs
          cases hs
          have hframe : Frame cfg s { s with
              pc := .next a (s.resultRefs.erase (some k))
              dataOutputRefs := s.dataOutputRefs.set k (cfg.ref k) } := by
            refine ⟨rfl, fun _ => rfl, rfl, fun i hi => ⟨hi.completed, fun hty => ?_⟩⟩
            dsimp only
            by_cases hik : k = i
            · subst hik
              rw [List.getElem?_set_self (h.outputs ▸ Nat.lt_of_lt_of_le hlt h.le)]
            · rw [List.getElem?_set_ne hik]
              exact hi.output hty
          refine { h with outputs := ?_, pc := ⟨refs, k, hmem, hactor, ⟨hdone, fun _ => ?_⟩, hrefs,
            herase, hslots.frame hframe⟩ }
          · simp [h.outputs]
          · exact List.getElem?_set_self (h.outputs ▸ Nat.lt_of_lt_of_le hlt h.le)
        case isFalse hfile =>
          cases hs
          have hframe : Frame cfg s { s with pc := .next a (s.resultRefs.erase (some k)) } :=
            ⟨rfl, fun _ => rfl, rfl, fun _ hi => ⟨hi.completed, hi.output⟩⟩
          refine { h with pc := ⟨refs, k, hmem, hactor, ⟨hdone, fun hty => absurd ?_ hfile⟩, hrefs,
            herase, hslots.frame hframe⟩ }
          -- the job of a block of a file returns a reference
          rw [h.ready.dataType]
          exact ⟨hty, by simp [Config.ref, hty, Nat.lt_of_lt_of_le hlt h.le]⟩

/-- The slot of the actor gets the next block, or is given up. -/
theorem Inv.stepNext {remainingRefs : List (Option Nat)} (h : s.Inv cfg)
    (hpc : s.pc = .next a remainingRefs) : (s.stepNext a remainingRefs).Inv cfg := by
  have hinv := h.pc
  rw [hpc] at hinv
  obtain ⟨refs, k, hk, hactor, hhandled, hrefs, rfl, hslots⟩ := hinv
  unfold App.stepNext
  by_cases hlt : s.jobs.length < cfg.data.length
  · obtain ⟨d, hnext, hd, _⟩ := h.ready.getNext hlt
    rw [hnext]
    have hmap := hslots.full hlt
    have hlen : refs.length = s.maxActors := by simpa using congrArg List.length hmap
    -- the reference at the place of the actor is the one that has been reported
    obtain ⟨p, hp⟩ := List.getElem?_of_mem hk
    obtain rfl : p = a := by
      have hplt : p < s.maxActors := hlen ▸ (List.getElem?_eq_some_iff.mp hp).1
      have := congrArg (·[p]?) hmap
      simpa [hp, hactor, hplt] using this.symm
    have hplt : p < refs.length := (List.getElem?_eq_some_iff.mp hp).1
    refine h.submit hlt hd (by rw [hrefs, List.length_map]; exact hplt)
      ⟨refs.set p s.jobs.length, ?_, ?_, Slots.of_full ?_ fun i hi hmem => ?_⟩
    · have := h.actors.1
      rw [← List.length_pos_iff, List.length_set]
      omega
    · simp only [App.submit, hrefs, List.map_set]
    · rw [List.map_set, actorOf_submit_self (s := { s with dispatchActor := d, pc := .wait })]
      have hold : refs.map (App.actorOf ({ s with dispatchActor := d, pc := .wait }.submit p
          s.jobs.length cfg.data[s.jobs.length]?)) = refs.map s.actorOf := by
        refine List.map_congr_left fun i hi => ?_
        obtain ⟨b, _, hb⟩ := hslots.actor i hi
        have hilt : i < s.jobs.length := by
          by_contra hge
          simp [actorOf, List.getElem?_eq_none (Nat.le_of_not_lt hge)] at hb
        exact actorOf_submit_lt (s := { s with dispatchActor := d, pc := .wait }) hilt
      have hself : ((List.range s.maxActors).map some)[p]? = some (some p) := by
        simp [hlen ▸ hplt]
      obtain ⟨hp', hval⟩ := List.getElem?_eq_some_iff.mp hself
      rw [hold, hmap, ← hval]
      exact List.set_getElem_self hp'
    · have hne : i ≠ s.jobs.length := by
        rintro rfl
        exact hmem (List.mem_set hplt _)
      have hi : i < s.jobs.length := by
        simp only [App.submit, List.length_append, List.length_singleton] at hi
        omega
      have hhandled' : s.Handled cfg i := by
        by_cases hin : i ∈ refs
        · -- only the reference at the place of the actor has been overwritten
          obtain ⟨q, hq⟩ := List.getElem?_of_mem hin
          have hpq : p = q := by
            by_contra hpq
            exact hmem (List.mem_of_getElem? ((List.getElem?_set_ne hpq).trans hq))
          rw [← hpq, hp] at hq
          exact Option.some.inj hq ▸ hhandled
        · exact hslots.handled i hi hin
      exact Handled.submit (s := { s with dispatchActor := d, pc := .wait })
        ⟨hhandled'.completed, hhandled'.output⟩
  · have hge := Nat.le_of_not_lt hlt
    rw [h.ready.getNext_none hge]
    have herase := hslots.erase hhandled hge
    have hframe : ∀ pc, Frame cfg s { s with resultRefs := (refs.erase k).map some, pc } := fun _ =>
      ⟨rfl, fun _ => rfl, rfl, fun _ hi => ⟨hi.completed, hi.output⟩⟩
    refine { h with pc := ?_ }
    dsimp only
    split
    case isTrue hnil =>
      have hnil : refs.erase k = [] := List.map_eq_nil_iff.mp hnil
      exact ⟨Nat.le_antisymm h.le hge, (hnil ▸ herase).frame (hframe _)⟩
    case isFalse hne =>
      exact ⟨refs.erase k, fun hnil => hne (by rw [hnil]; rfl), rfl, herase.frame (hframe _)⟩

theorem Inv.stepDriver {ready : Option Nat} (h : s.Inv cfg) (hs : s.stepDriver ready = some s') :
    s'.Inv cfg := by
  unfold App.stepDriver at hs
  split at hs
  case h_1 i hpc =>
    cases hs
    exact h.stepDispatch hpc
  case h_2 hpc => exact h.stepWait hpc hs
  case h_3 a remainingRefs hpc =>
    cases hs
    exact h.stepNext hpc
  case h_4 hpc =>
    cases hs
    have hinv := h.pc
    rw [hpc] at hinv
    have hframe : Frame cfg s { s with pc := .returned s.dispatchActor.getResults } :=
      ⟨rfl, fun _ => rfl, rfl, fun _ hi => ⟨hi.completed, hi.output⟩⟩
    exact { h with pc := ⟨hinv.1, hinv.2.frame hframe⟩ }
  case h_5 => cases hs
  case h_6 => cases hs

theorem Inv.step {action : Action} (h : s.Inv cfg) (hs : (runApp cfg).step s action = some s') :
    s'.Inv cfg := by
  cases action with
  | driver ready => exact h.stepDriver hs
  | begin k => exact h.stepBegin hs
  | complete k => exact h.stepComplete hs
  | deliver a => exact h.stepDeliver hs

theorem inv_run {as : List Action} (hn : cfg.data ≠ []) (hm : 1 ≤ cfg.maxActors)
    (hrun : (runApp cfg).run (init cfg) as = some s) : s.Inv cfg :=
  (runApp cfg).run_invariant (fun _ _ _ => Inv.step) hrun (inv_init hn hm)

end App

end Psi.RunApp
