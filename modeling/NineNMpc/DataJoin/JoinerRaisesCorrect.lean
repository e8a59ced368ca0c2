-- SUMMARY: Whole runs of a joiner whose block closes raise: exactly when every common id is in one stored block.
import NineNMpc.Lib.Buckets
import NineNMpc.DataJoin.JoinerRaisesInvariant

/-!
# What a joiner whose block closes raise has stored

The rest of a batch is lost with every close that raises in it, a block whose data file
has been renamed is never stored by a later close, and a maker that is kept after a failed
close takes no more ids.
-/

namespace DataJoin

variable {ι ρ : Type}

namespace RaisingFollower

open Follower (arrivals OnlyLast)

variable [DecidableEq ι]

variable {cfg : Config ι ρ} {f f' : RaisingFollower ι ρ} {as : List (Follower.Action ι × Outcome)}

/-! ## Runs -/

/-- One step of the joiner loses nothing exactly if it meets the condition. -/
theorem join_progress {span : Bool} {o : Outcome} (h : f.Inv as)
    (hs : (machine cfg).step f (.join span, o) = some f') :
    Progress cfg f f' as (KeepsIdsAt cfg o f f.joiner.pc) := by
  cases hpc : f.joiner.pc with
  | store k =>
    have hs : some (f.stepStore cfg.joiner o k) = some f' := by simpa [machine, hpc] using hs
    obtain rfl := Option.some.inj hs
    exact store_progress h hpc
  | update k =>
    have hs : some (f.stepUpdate cfg.joiner o k) = some f' := by simpa [machine, hpc] using hs
    obtain rfl := Option.some.inj hs
    exact update_progress h hpc
  | close k =>
    have hs : some (f.stepClose o k) = some f' := by simpa [machine, hpc] using hs
    obtain rfl := Option.some.inj hs
    exact close_progress h hpc
  | flush =>
    have hs : some { f with joiner := Joiner.stepFlush f.joiner span } = some f' := by
      simpa [machine, Follower.machine, Joiner.step, hpc] using hs
    obtain rfl := Option.some.inj hs
    exact flush_progress h hpc
  | top =>
    have hfin : f.joiner.dataJoinerFinished = false := by
      by_contra hfin
      simp [machine, Follower.machine, Joiner.step, hpc, hfin] at hs
    cases hqueue : f.queue with
    | nil =>
      have hs : some { f with queue := [], joiner := { f.joiner with pc := .flush } } = some f' := by
        simpa [machine, Follower.machine, Joiner.step, hpc, hfin, hqueue] using hs
      obtain rfl := Option.some.inj hs
      rw [← hqueue]
      exact idle_progress h hpc
    | cons b queue =>
      have hs : some { f with
          queue := queue
          joiner := { f.joiner with
            pc := .batch b.exampleIds b.finished
            lastFinished := some b.finished } } = some f' := by
        simpa [machine, Follower.machine, Joiner.step, hpc, hfin, hqueue] using hs
      obtain rfl := Option.some.inj hs
      exact take_progress h hpc hqueue
  | batch ids finished =>
    cases ids with
    | nil =>
      have hs : some { f with joiner := Joiner.stepEndOfBatch f.joiner finished } = some f' := by
        simpa [machine, Follower.machine, Joiner.step, hpc] using hs
      obtain rfl := Option.some.inj hs
      exact endOfBatch_progress h hpc
    | cons x rest =>
      have hs : some { f with
          store := (Joiner.stepExample cfg.joiner f.store f.joiner x rest finished).1
          joiner := (Joiner.stepExample cfg.joiner f.store f.joiner x rest finished).2 } = some f' := by
        simpa [machine, Follower.machine, Joiner.step, hpc] using hs
      obtain rfl := Option.some.inj hs
      exact example_progress h hpc

omit [DecidableEq ι] in
/-- The actions that are still to come count only by their batches. -/
theorem Inv.of_coming {as' : List (Follower.Action ι × Outcome)} (h : f.Inv as)
    (hc : RaisingFollower.coming as' = RaisingFollower.coming as) : f.Inv as' :=
  { h with coming := by simpa only [Coming, hc] using h.coming }

theorem kept_of_coming {as' : List (Follower.Action ι × Outcome)} (hc : coming as' = coming as) :
    f.kept cfg as' = f.kept cfg as := by
  simp only [kept, liveIds, hc]

omit [DecidableEq ι] in
theorem put_inv {b : LiteExampleIds ι} {o : Outcome} (h : f.Inv ((.put b, o) :: as)) :
    ({ f with queue := f.queue ++ [b] } : RaisingFollower ι ρ).Inv as where
  coming := by
    obtain ⟨hgot, hlast⟩ | ⟨⟨-, hnil⟩, -⟩ := h.coming
    · exact .inl ⟨hgot, by simpa [RaisingFollower.coming, arrivals] using hlast⟩
    · simp [RaisingFollower.coming, arrivals] at hnil
  synced := h.synced
  finalizing := h.finalizing
  idle := h.idle
  ids := h.ids
  index := h.index
  renamed := h.renamed
  retried := h.retried
  fresh := h.fresh
  taken := h.taken

theorem put_kept {b : LiteExampleIds ι} {o : Outcome} :
    ({ f with queue := f.queue ++ [b] } : RaisingFollower ι ρ).kept cfg as =
      f.kept cfg ((.put b, o) :: as) := by
  have hcoming : coming ((.put b, o) :: as) = b :: coming as := rfl
  simp only [kept, liveIds, hcoming, List.append_assoc, List.cons_append, List.nil_append]

/-- A reader of the metas changes no file. -/
theorem read_progress (index : Nat) (h : f.Inv as) :
    Progress cfg f { f with store := (f.store.acquireDataBlockMetaByIndex index).1 } as True := by
  have hfiles : (f.store.acquireDataBlockMetaByIndex index).1.metaFiles = f.store.metaFiles :=
    congrArg Prod.fst (f.store.acquireDataBlockMetaByIndex_files index)
  refine Progress.of_kept ?_ ?_ trivial
  · refine { h with synced := fun hpc => ?_, index := fun mk hmk hpc => ?_ }
    · exact ((h.synced hpc).acquireDataBlockMetaByIndex index).1
    · exact (h.index mk hmk hpc).trans (congrArg List.length hfiles.symm)
  · simp only [kept, liveIds, Store.storedIds, hfiles]

theorem step_inv {a : Follower.Action ι × Outcome} (h : f.Inv (a :: as))
    (hs : (machine cfg).step f a = some f') : f'.Inv as := by
  obtain ⟨a, o⟩ := a
  cases a with
  | put b =>
    obtain rfl := Option.some.inj hs
    exact put_inv h
  | read index =>
    obtain rfl := Option.some.inj hs
    have hinv : f.Inv as := h.of_coming rfl
    have hread : Progress cfg f _ as _ := read_progress index hinv
    exact hread.inv
  | join span =>
    have hinv : f.Inv as := h.of_coming rfl
    exact (join_progress hinv hs).inv

theorem step_keeps {a : Follower.Action ι × Outcome} (h : f.Inv (a :: as))
    (hs : (machine cfg).step f a = some f') (hC : KeepsIds cfg f a) :
    f'.kept cfg as = f.kept cfg (a :: as) := by
  obtain ⟨a, o⟩ := a
  cases a with
  | put b =>
    obtain rfl := Option.some.inj hs
    exact put_kept
  | read index =>
    obtain rfl := Option.some.inj hs
    have hinv : f.Inv as := h.of_coming rfl
    exact ((read_progress index hinv).keeps trivial).trans (kept_of_coming rfl)
  | join span =>
    have hinv : f.Inv as := h.of_coming rfl
    exact ((join_progress hinv hs).keeps hC).trans (kept_of_coming rfl)

theorem step_loses {a : Follower.Action ι × Outcome} (h : f.Inv (a :: as))
    (hs : (machine cfg).step f a = some f') (hC : ¬ KeepsIds cfg f a) :
    (f'.kept cfg as).Sublist (f.kept cfg (a :: as)) ∧
      f'.kept cfg as ≠ f.kept cfg (a :: as) := by
  obtain ⟨a, o⟩ := a
  cases a with
  | put b => exact absurd trivial hC
  | read index => exact absurd trivial hC
  | join span =>
    have hinv : f.Inv as := h.of_coming rfl
    have hkept : f.kept cfg ((.join span, o) :: as) = f.kept cfg as := kept_of_coming rfl
    rw [hkept]
    exact (join_progress hinv hs).loses hC

omit [DecidableEq ι] in
theorem inv_init (hlast : OnlyLast (coming as)) : ({} : RaisingFollower ι ρ).Inv as where
  coming := .inl ⟨rfl, by simpa using hlast⟩
  synced := fun _ => Store.synced_empty
  finalizing := by rintro (hpc | hpc) <;> cases hpc
  idle := fun _ => ⟨rfl, rfl⟩
  ids := by rintro _ ⟨⟩
  index := by rintro _ ⟨⟩
  renamed := by rintro _ ⟨⟩
  retried := by rintro _ _ ⟨⟩
  fresh := by rintro _ ⟨⟩
  taken := fun _ => .inl rfl

/-- When all batches are consumed, nothing can be stored any more. -/
theorem Inv.kept_eq_stored (h : f.Inv []) (hpc : f.joiner.pc = .top) (hqueue : f.queue = []) :
    f.kept cfg [] = f.store.storedIds := by
  have hlive : f.liveIds [] = [] := by
    cases hmk : f.joiner.dataBlockMaker with
    | none => exact liveIds_of_none hmk
    | some mk =>
      have hlast : f.joiner.lastFinished = none := by
        obtain ⟨-, hlast⟩ | ⟨-, hgot | ⟨-, hnone | hlast⟩⟩ := h.coming
        · obtain ⟨b, hb, -⟩ := hlast.last
          simp [hqueue, RaisingFollower.coming, arrivals] at hb
        · simp [hpc, JoinerPc.gotFinal] at hgot
        · simp [hmk] at hnone
        · exact hlast
      have hclosed := h.fresh mk hmk hlast
      rw [liveIds_of_some hmk (by simp [hpc, JoinerPc.isUpdate]) (by simp [hpc, JoinerPc.isClose])]
      simp [hclosed, hpc, hqueue, JoinerPc.gotFinal, RaisingFollower.coming, arrivals]
  rw [kept, hlive, hpc, hqueue]
  simp [JoinerPc.rest, RaisingFollower.coming, arrivals]

/-- When all batches are consumed, the stored ids are the common ids of the batches, each one once
    and in order, if and only if every step meets the condition; and if no id comes twice, then
    every common id is in exactly one stored block under the same condition and no other. -/
theorem stored_iff_keepsIds (hlast : OnlyLast (coming as))
    (hrun : (machine cfg).run {} as = some f) (hpc : f.joiner.pc = .top) (hqueue : f.queue = []) :
    (f.store.storedIds = cfg.common (queuedIds (coming as)) ↔
      (machine cfg).Meets (KeepsIds cfg) {} as) ∧
    ((queuedIds (coming as)).Nodup →
      ((∀ x ∈ cfg.common (queuedIds (coming as)),
          ∃! i : Nat, ∃ m, f.store.metaFiles[i]? = some m ∧ x ∈ m.exampleIds) ↔
        (machine cfg).Meets (KeepsIds cfg) {} as)) := by
  have hinit : ({} : RaisingFollower ι ρ).Inv as := inv_init hlast
  have hinv : f.Inv [] := (machine cfg).run_rest (fun _ _ _ _ => step_inv) hrun hinit
  obtain ⟨hsub, hiff⟩ := (machine cfg).run_keeps_iff (fun _ _ _ _ => step_inv)
    (fun _ _ _ _ => step_keeps) (fun _ _ _ _ => step_loses) hrun hinit
  have htotal : ({} : RaisingFollower ι ρ).kept cfg as = cfg.common (queuedIds (coming as)) := by
    simp [kept, liveIds, Store.storedIds, JoinerPc.rest]
  rw [hinv.kept_eq_stored hpc hqueue, htotal] at hsub hiff
  refine ⟨hiff, fun hnodup => ?_⟩
  have hcommon : (cfg.common (queuedIds (coming as))).Nodup := hnodup.filter _
  rw [← hiff]
  constructor
  · intro hall
    refine hsub.eq_of_length_le (List.subperm_of_subset hcommon fun x hx => ?_).length_le
    obtain ⟨i, ⟨m, hm, hxm⟩, -⟩ := hall x hx
    exact List.mem_flatMap.mpr ⟨m, List.mem_of_getElem? hm, hxm⟩
  · intro heq x hx
    rw [← heq] at hcommon hx
    exact List.existsUnique_of_nodup_flatMap hcommon hx

namespace Sample

open Follower.Sample (config)

/-- The only batch has both ids, and in `n` steps of the joiner every notification raises. -/
def notified (n : Nat) : List (Follower.Action Nat × Outcome) :=
  (.put ⟨[1, 2], true⟩, {}) :: List.replicate n (.join false, { infoRaises := true })

/-- A run that ends with all batches consumed, evaluated. -/
theorem exists_consumed {t : Nat} {as : List (Follower.Action Nat × Outcome)}
    {P : RaisingFollower Nat String → Bool}
    (heval : ((machine (config t)).run {} as).any (fun f =>
      decide (f.joiner.pc = .top) && f.queue.isEmpty && P f) = true) :
    ∃ f, (machine (config t)).run {} as = some f ∧ f.joiner.pc = .top ∧ f.queue = [] ∧
      P f = true := by
  obtain ⟨f, hf, heval⟩ := Option.any_eq_true _ _ |>.mp heval
  simp only [Bool.and_eq_true, decide_eq_true_iff, List.isEmpty_iff] at heval
  exact ⟨f, hf, heval.1.1, heval.1.2, heval.2⟩

/-- With the threshold `2` the block is stored when the notification raises, and nothing is left of
    the batch. -/
theorem notified_stored : ∃ f, (machine (config 2)).run {} (notified 6) = some f ∧
    f.joiner.pc = .top ∧ f.queue = [] ∧ f.store.storedIds = [1, 2] := by
  obtain ⟨f, hf, hpc, hqueue, -⟩ :=
    @exists_consumed 2 (notified 6) (fun _ => true) (by decide +kernel)
  have hiff := (stored_iff_keepsIds (by decide +kernel) hf hpc hqueue).1
  exact ⟨f, hf, hpc, hqueue, hiff.mpr (by decide +kernel)⟩

/-- With the threshold `1` the id `2` is lost with the rest of the batch. -/
theorem notified_lost : OnlyLast (coming (notified 5)) ∧
    2 ∈ (config 1).common (queuedIds (coming (notified 5))) ∧
    ∃ f, (machine (config 1)).run {} (notified 5) = some f ∧ f.joiner.pc = .top ∧ f.queue = [] ∧
      ∀ m ∈ f.store.metaFiles, 2 ∉ m.exampleIds := by
  refine ⟨by decide +kernel, by decide +kernel, ?_⟩
  obtain ⟨f, hf, hpc, hqueue, hlost⟩ := @exists_consumed 1 (notified 5)
    (fun f => f.store.metaFiles.all fun m => decide (2 ∉ m.exampleIds)) (by decide +kernel)
  refine ⟨f, hf, hpc, hqueue, fun m hm => ?_⟩
  exact of_decide_eq_true (List.all_eq_true.mp hlost m hm)

end Sample

end RaisingFollower

end DataJoin
