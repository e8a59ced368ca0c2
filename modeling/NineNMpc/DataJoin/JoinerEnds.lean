-- SUMMARY: When the joiner has consumed the last batch: exactly when its flag is set.
import NineNMpc.DataJoin.JoinerFinished
import NineNMpc.DataJoin.JoinerInvariant

/-!
# The end of the joiner

`_data_join_finalizer` of `data_joiner.py` is the only place that sets the flag, and it is
called for an open block. A last batch that finds no block open and adds nothing to one
is consumed without it, and the loop goes on for good.
-/

namespace DataJoin

variable {ι ρ : Type}

namespace Follower

/-- The batches that arrive, in order. -/
def arrivals (as : List (Action ι)) : List (LiteExampleIds ι) :=
  as.filterMap fun
    | .put batch => some batch
    | _ => none

/-- Exactly the last batch has `finished`. -/
structure OnlyLast (batches : List (LiteExampleIds ι)) : Prop where
  last : ∃ b, batches.getLast? = some b ∧ b.finished = true
  before : ∀ b ∈ batches.dropLast, b.finished = false

instance {batches : List (LiteExampleIds ι)} : Decidable (OnlyLast batches) :=
  decidable_of_iff
    ((batches.getLast?.any (·.finished)) = true ∧ ∀ b ∈ batches.dropLast, b.finished = false)
    ⟨fun h => ⟨(Option.any_eq_true _ _).mp h.1, h.2⟩,
      fun h => ⟨(Option.any_eq_true _ _).mpr h.last, h.before⟩⟩

variable [DecidableEq ι]

/-- A batch with `finished` is taken only with a block open, or with an id that the follower has. -/
def ClosesBlock (cfg : Config ι ρ) (f : Follower ι ρ) : Action ι → Prop
  | .join _ =>
    f.joiner.pc = .top → ∀ b ∈ f.queue.head?, b.finished = true →
      f.joiner.dataBlockMaker.isSome = true ∨ cfg.common b.exampleIds ≠ []
  | _ => True

instance {cfg : Config ι ρ} {f : Follower ι ρ} {a : Action ι} : Decidable (ClosesBlock cfg f a) :=
  match a with
  | .join _ => inferInstanceAs (Decidable (_ → ∀ b ∈ f.queue.head?, _ → _ ∨ _))
  | .put _ | .read _ => isTrue trivial

end Follower

/-! ## One step -/

namespace Joiner

variable [DecidableEq ι] {cfg : Config ι ρ} {st st' : Store ι ρ} {j j' : Joiner ι ρ}
  {queue queue' : List (LiteExampleIds ι)} {span : Bool}

/-- The last batch has been taken, and nothing is left that sets the flag. -/
def Doomed (cfg : Config ι ρ) (j : Joiner ι ρ) : Prop :=
  j.gotFinal = true ∧ j.dataJoinerFinished = false ∧ j.dataBlockMaker = none ∧ j.pc.Quiet cfg

theorem not_doomed_of_maker (h : j.dataBlockMaker.isSome = true) : ¬ j.Doomed cfg := by
  rintro ⟨-, -, hnone, -⟩
  rw [hnone] at h
  cases h

theorem not_doomed_of_finished (h : j.dataJoinerFinished = true) : ¬ j.Doomed cfg := by
  rintro ⟨-, hfin, -⟩
  rw [h] at hfin
  cases hfin

theorem not_doomed_of_gotFinal (h : j.gotFinal = false) : ¬ j.Doomed cfg := by
  rintro ⟨hgot, -⟩
  rw [h] at hgot
  cases hgot

theorem not_doomed_of_not_quiet (h : ¬ j.pc.Quiet cfg) : ¬ j.Doomed cfg :=
  fun hd => h hd.2.2.2

omit [DecidableEq ι] in
/-- Inside a batch the last one has not been consumed. -/
theorem Waiting.not_finalConsumed (h : j.Waiting) (htop : j.pc ≠ .top) (hflush : j.pc ≠ .flush) :
    j.finalConsumed = false := by
  by_contra hfinal
  obtain ⟨-, hpc | hpc⟩ := h (by simpa using hfinal)
  · exact htop hpc
  · exact hflush hpc

/-- A joiner that raises has lost the batch. -/
theorem raise_not_doomed (h : j.finalConsumed = false) : ¬ j.raise.Doomed cfg :=
  not_doomed_of_gotFinal (by simp [gotFinal, raise, h, JoinerPc.gotFinal])

theorem stepExample_doomed {x : ι} {rest : List ι} {finished : Bool} (h : j.Waiting)
    (hpc : j.pc = .batch (x :: rest) finished) :
    (stepExample cfg.joiner st j x rest finished).2.Doomed cfg ↔ j.Doomed cfg := by
  have hfinal := h.not_finalConsumed (by simp [hpc]) (by simp [hpc])
  -- A common id opens a block or makes the joiner raise.
  have hbefore : ∀ item, cfg.joiner.items.get? x = some item → ¬ j.Doomed cfg := by
    intro item hx
    exact not_doomed_of_not_quiet (by simp [hpc, JoinerPc.Quiet, common_cons_of_get? hx])
  refine stepExample_elim (motive := fun _ j' => j'.Doomed cfg ↔ j.Doomed cfg)
    ?skipped ?raised ?saved
  case skipped =>
    intro hx
    simp only [Doomed, gotFinal, hpc, JoinerPc.gotFinal, JoinerPc.Quiet, common_cons_of_get?_none hx]
  case raised =>
    intro item st' maker hx _ _
    exact iff_of_false (raise_not_doomed hfinal) (hbefore item hx)
  case saved =>
    intro item st' mk mk' hx _ _
    exact iff_of_false (not_doomed_of_maker rfl) (hbefore item hx)

theorem stepEndOfBatch_doomed {finished : Bool} (hpc : j.pc = .batch [] finished) :
    (stepEndOfBatch j finished).Doomed cfg ↔ j.Doomed cfg := by
  cases finished with
  | false =>
    simp [stepEndOfBatch, Doomed, gotFinal, hpc, JoinerPc.gotFinal, JoinerPc.Quiet]
  | true =>
    cases hmk : j.dataBlockMaker with
    | some mk =>
      refine iff_of_false (not_doomed_of_maker ?_) (not_doomed_of_maker (by rw [hmk]; rfl))
      simp [stepEndOfBatch, hmk]
    | none => simp [stepEndOfBatch, hmk, Doomed, gotFinal, hpc, JoinerPc.gotFinal, JoinerPc.Quiet]

theorem stepFlush_doomed (hpc : j.pc = .flush) :
    (stepFlush j span).Doomed cfg ↔ j.Doomed cfg := by
  cases hmk : j.dataBlockMaker with
  | none => simp [stepFlush, hmk, Doomed, gotFinal, hpc, JoinerPc.gotFinal, JoinerPc.Quiet]
  | some mk =>
    refine iff_of_false (not_doomed_of_maker ?_) (not_doomed_of_maker (by rw [hmk]; rfl))
    simp only [stepFlush]
    split
    · split <;> simp [raise, hmk]
    · simp [hmk]

theorem stepStore_doomed {k : Finalizing ι} :
    ¬ (stepStore cfg.joiner st j k).2.Doomed cfg := by
  refine not_doomed_of_not_quiet ?_
  simp only [stepStore]
  split
  · simp [JoinerPc.Quiet]
  · split <;> simp [JoinerPc.Quiet]

theorem stepUpdate_doomed {k : Finalizing ι} (h : j.finalConsumed = false) :
    ¬ (stepUpdate cfg.joiner st j k).2.Doomed cfg := by
  simp only [stepUpdate]
  split
  · exact not_doomed_of_not_quiet (by simp [JoinerPc.Quiet])
  · split
    · exact not_doomed_of_not_quiet (by simp [JoinerPc.Quiet])
    · exact raise_not_doomed h

/-- A block that is closed in the last batch sets the flag. -/
theorem stepClose_doomed {k : Finalizing ι} (h : j.finalConsumed = false) :
    ¬ (stepClose j k).Doomed cfg := by
  cases k with
  | afterBatch =>
    exact not_doomed_of_finished (by simp [stepClose, resume, Finalizing.isDataJoinerFinished])
  | afterFlush finished =>
    exact not_doomed_of_gotFinal (by simp [stepClose, resume, gotFinal, h, JoinerPc.gotFinal])
  | inBatch rest finished =>
    cases finished with
    | true =>
      exact not_doomed_of_finished (by simp [stepClose, resume, Finalizing.isDataJoinerFinished])
    | false =>
      exact not_doomed_of_gotFinal (by simp [stepClose, resume, gotFinal, h, JoinerPc.gotFinal])

/-- Only taking a last batch that closes no block makes the joiner lose its end. -/
theorem step_doomed (h : j.Waiting) (hqueue : j.finalConsumed = true → queue = [])
    (hs : j.step cfg.joiner span st queue = some (st', queue', j')) :
    j'.Doomed cfg ↔ j.Doomed cfg ∨ j.pc = .top ∧ ∃ b ∈ queue.head?, b.finished = true ∧
      j.dataBlockMaker = none ∧ cfg.common b.exampleIds = [] := by
  apply step_elim hs
  case idle =>
    intro hpc _ hnil
    simp [Doomed, gotFinal, hpc, hnil, JoinerPc.gotFinal, JoinerPc.Quiet]
  case take =>
    intro b rest hpc hfin hcons
    have hfinal : j.finalConsumed = false := by
      by_contra hfinal
      rw [hqueue (by simpa using hfinal)] at hcons
      cases hcons
    simp [Doomed, gotFinal, hpc, hfinal, hfin, hcons, JoinerPc.gotFinal, JoinerPc.Quiet]
  case next =>
    intro x rest finished hpc
    rw [stepExample_doomed h hpc]
    simp [hpc]
  case endOfBatch =>
    intro finished hpc
    rw [stepEndOfBatch_doomed hpc]
    simp [hpc]
  case flush =>
    intro hpc
    rw [stepFlush_doomed hpc]
    simp [hpc]
  all_goals
    intro k hpc
    have hfinal := h.not_finalConsumed (by simp [hpc]) (by simp [hpc])
    have hbefore : ¬ j.Doomed cfg := not_doomed_of_not_quiet (by simp [hpc, JoinerPc.Quiet])
  case store => simp [stepStore_doomed, hbefore, hpc]
  case update => simp [stepUpdate_doomed hfinal, hbefore, hpc]
  case close => simp [stepClose_doomed hfinal, hbefore, hpc]

omit [DecidableEq ι] in
theorem raise_gotFinal {finished : Bool} (h : (j.finalConsumed || j.raise.pc.gotFinal) = true) :
    (j.finalConsumed || finished) = true := by
  have hfinal : j.finalConsumed = true := by simpa [raise, JoinerPc.gotFinal] using h
  simp [hfinal]

/-- Only taking a batch with `finished` makes the joiner be in the last one. -/
theorem step_gotFinal (hs : j.step cfg.joiner span st queue = some (st', queue', j')) :
    (queue' = queue ∧ (j'.gotFinal = true → j.gotFinal = true)) ∨
      ∃ b, queue = b :: queue' ∧ (j'.gotFinal = true → j.gotFinal = true ∨ b.finished = true) := by
  apply step_elim hs
  case idle =>
    intro hpc _ hnil
    exact .inl ⟨hnil.symm, by simp [gotFinal, hpc, JoinerPc.gotFinal]⟩
  case take =>
    intro b rest hpc _ hcons
    refine .inr ⟨b, hcons, ?_⟩
    simp [gotFinal, hpc, JoinerPc.gotFinal]
  case next =>
    intro x rest finished hpc
    refine .inl ⟨rfl, ?_⟩
    rw [gotFinal, gotFinal, stepExample_finalConsumed, hpc]
    refine stepExample_elim (motive := fun _ j' =>
      j.finalConsumed || j'.pc.gotFinal → j.finalConsumed || finished) ?skipped ?raised ?saved
    case skipped =>
      intro _
      exact id
    case raised =>
      intro _ _ _ _ _ _
      exact raise_gotFinal
    case saved =>
      intro _ _ _ _ _ _ _
      dsimp only
      split <;> exact id
  case endOfBatch =>
    intro finished hpc
    refine .inl ⟨rfl, ?_⟩
    simp only [stepEndOfBatch]
    split
    case isTrue hfin => simp [gotFinal, hpc, hfin, JoinerPc.gotFinal]
    case isFalse hfin => simp [gotFinal, hpc, hfin, JoinerPc.gotFinal]
  case flush =>
    intro hpc
    refine .inl ⟨rfl, ?_⟩
    simp only [stepFlush]
    split
    · split <;> simp [gotFinal, hpc, raise, JoinerPc.gotFinal, Finalizing.gotFinal]
    · simp [gotFinal, hpc, JoinerPc.gotFinal]
  case store =>
    intro k hpc
    refine .inl ⟨rfl, ?_⟩
    rw [gotFinal, gotFinal, stepStore_finalConsumed, hpc]
    simp only [stepStore]
    split
    · exact id
    · split <;> exact id
  case update =>
    intro k hpc
    refine .inl ⟨rfl, ?_⟩
    rw [gotFinal, gotFinal, stepUpdate_finalConsumed, hpc]
    simp only [stepUpdate]
    split
    · exact id
    · split
      · exact id
      · exact raise_gotFinal
  case close =>
    intro k hpc
    refine .inl ⟨rfl, ?_⟩
    cases k <;> simp [gotFinal, hpc, stepClose, resume, JoinerPc.gotFinal, Finalizing.gotFinal]

end Joiner

/-! ## Runs -/

namespace Follower

variable {batches : List (LiteExampleIds ι)} {b : LiteExampleIds ι}

theorem OnlyLast.tail (h : OnlyLast (b :: batches)) :
    batches = [] ∨ b.finished = false ∧ OnlyLast batches := by
  cases batches with
  | nil => exact .inl rfl
  | cons c cs =>
    refine .inr ⟨h.before b (by simp), by simpa using h.last, fun d hd => h.before d ?_⟩
    simp [hd]

variable [DecidableEq ι] {cfg : Config ι ρ} {f f' : Follower ι ρ} {a : Action ι}
  {as : List (Action ι)}

/-- The last batch is still to be taken, or none is. -/
structure Pending (f : Follower ι ρ) (as : List (Action ι)) : Prop where
  waiting : f.joiner.Waiting
  coming : f.joiner.gotFinal = false ∧ OnlyLast (f.queue ++ arrivals as) ∨
    f.queue = [] ∧ arrivals as = []

omit [DecidableEq ι] in
theorem Pending.queue_nil (h : Pending f as) (hfinal : f.joiner.finalConsumed = true) :
    f.queue = [] := by
  obtain ⟨hgot, -⟩ | ⟨hqueue, -⟩ := h.coming
  · simp [Joiner.gotFinal, hfinal] at hgot
  · exact hqueue

theorem step_pending (h : Pending f (a :: as)) (hs : (machine cfg).step f a = some f') :
    Pending f' as := by
  cases a with
  | put batch =>
    cases hs
    refine ⟨h.waiting, ?_⟩
    obtain ⟨hgot, hlast⟩ | ⟨-, hnil⟩ := h.coming
    · exact .inl ⟨hgot, by simpa [arrivals] using hlast⟩
    · simp [arrivals] at hnil
  | read index =>
    cases hs
    exact ⟨h.waiting, h.coming⟩
  | join span =>
    obtain ⟨⟨store, queue, joiner⟩, hstep, rfl⟩ := Option.map_eq_some_iff.mp hs
    refine ⟨Joiner.step_waiting h.waiting h.queue_nil hstep, ?_⟩
    have hcoming : f.joiner.gotFinal = false ∧ OnlyLast (f.queue ++ arrivals as) ∨
      f.queue = [] ∧ arrivals as = [] := h.coming
    obtain ⟨hqueue, hgot⟩ | ⟨b, hcons, hgot⟩ := Joiner.step_gotFinal hstep
    · refine hcoming.imp (fun hc => ⟨?_, by simpa [hqueue] using hc.2⟩) fun hc => ?_
      · by_contra hnot
        simp [hgot (by simpa using hnot)] at hc
      · simpa [hqueue] using hc
    · obtain ⟨hnot, hlast⟩ | ⟨hnil, -⟩ := hcoming
      · rw [hcons, List.cons_append] at hlast
        obtain hnil | ⟨hb, hlast⟩ := hlast.tail
        · exact .inr (List.append_eq_nil_iff.mp hnil)
        · refine .inl ⟨?_, hlast⟩
          by_contra hgot'
          simpa [hnot, hb] using hgot (by simpa using hgot')
      · simp [hnil] at hcons

/-- The joiner keeps its end as long as every last batch that it takes closes a block. -/
theorem step_not_doomed_iff (h : Pending f (a :: as)) (hs : (machine cfg).step f a = some f') :
    ¬ f'.joiner.Doomed cfg ↔ ¬ f.joiner.Doomed cfg ∧ ClosesBlock cfg f a := by
  cases a with
  | put batch =>
    cases hs
    simp [ClosesBlock]
  | read index =>
    cases hs
    simp [ClosesBlock, acquireDataBlockMetaByIndex]
  | join span =>
    obtain ⟨⟨store, queue, joiner⟩, hstep, rfl⟩ := Option.map_eq_some_iff.mp hs
    rw [Joiner.step_doomed h.waiting h.queue_nil hstep, not_or]
    refine and_congr_right fun _ => ?_
    simp only [ClosesBlock, not_and, not_exists, Option.isSome_iff_ne_none]
    refine forall_congr' fun _ => forall_congr' fun b => forall_congr' fun _ =>
      forall_congr' fun _ => ?_
    rw [or_iff_not_imp_left, not_not]

/-- After the last batch, the flag is set if and only if a block was open when the joiner took that
    batch or the batch has an id of the follower; and then the loop ends with the current pass. -/
theorem finished_iff_closesBlock {dir : Store ι ρ} (hlast : OnlyLast (arrivals as))
    (hrun : (machine cfg).run { store := dir } as = some f)
    (hdone : f.joiner.finalConsumed = true) :
    (f.joiner.dataJoinerFinished = true ↔
      (machine cfg).Meets (ClosesBlock cfg) { store := dir } as) ∧
    (f.joiner.dataJoinerFinished = true →
      ∀ span span', (machine cfg).run f [.join span, .join span'] = none) := by
  have hpending : Pending ({ store := dir } : Follower ι ρ) as :=
    ⟨by simp [Joiner.Waiting], .inl ⟨rfl, by simpa using hlast⟩⟩
  have hiff := (machine cfg).run_iff_meets_of (fun _ _ _ _ => step_pending)
    (fun _ _ _ _ => step_not_doomed_iff) hrun hpending
  have hend : Pending f [] := (machine cfg).run_rest (fun _ _ _ _ => step_pending) hrun hpending
  obtain ⟨hmk, hpc⟩ := hend.waiting hdone
  constructor
  · have hinit : ¬ ({ store := dir } : Follower ι ρ).joiner.Doomed cfg := by
      simp [Joiner.Doomed, Joiner.gotFinal, JoinerPc.gotFinal]
    have hdoomed : f.joiner.Doomed cfg ↔ f.joiner.dataJoinerFinished = false := by
      obtain hpc | hpc := hpc <;> simp [Joiner.Doomed, Joiner.gotFinal, hdone, hmk, hpc, JoinerPc.Quiet]
    rw [hdoomed, Bool.not_eq_false] at hiff
    rw [hiff]
    exact and_iff_right hinit
  · intro hfin span span'
    obtain hpc | hpc := hpc
    · simp [Machine.run, machine, Joiner.step, hpc, hfin]
    · simp [Machine.run, machine, Joiner.step, hpc, hfin, Joiner.stepFlush, hmk]

namespace Sample

/-- A batch with the id `1`, and then an empty last batch. -/
def emptyLast (n : Nat) : List (Action Nat) := .put ⟨[1], false⟩ :: .put ⟨[], true⟩ :: joins n

/-- With the threshold `2` the last batch closes the open block. -/
theorem emptyLast_finished : ∃ f, (machine (config 2)).run {} (emptyLast 9) = some f ∧
    f.joiner.finalConsumed = true ∧ f.joiner.dataJoinerFinished = true := by
  obtain ⟨f, hf, hdone⟩ := (Option.any_eq_true _ _).mp (show ((machine (config 2)).run {}
    (emptyLast 9)).any (fun f => f.joiner.finalConsumed) = true by decide +kernel)
  have hiff := (finished_iff_closesBlock (by decide) hf hdone).1
  exact ⟨f, hf, hdone, hiff.mpr (by decide +kernel)⟩

/-- With the threshold `1` the block is closed before the last batch, and the flag is never set. -/
theorem emptyLast_not_finished : OnlyLast (arrivals (emptyLast 9)) ∧
    ∃ f, (machine (config 1)).run {} (emptyLast 9) = some f ∧
      f.joiner.finalConsumed = true ∧ f.joiner.dataJoinerFinished = false := by
  obtain ⟨f, hf, hdone⟩ := (Option.any_eq_true _ _).mp (show ((machine (config 1)).run {}
    (emptyLast 9)).any (fun f => f.joiner.finalConsumed && !f.joiner.dataJoinerFinished) = true by
      decide +kernel)
  rw [Bool.and_eq_true, Bool.not_eq_true'] at hdone
  exact ⟨by decide, f, hf, hdone.1, hdone.2⟩

end Sample

end Follower

end DataJoin
