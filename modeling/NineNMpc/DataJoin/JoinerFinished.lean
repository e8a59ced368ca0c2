-- SUMMARY: The joiner and a reader of its metas: when "finished and no meta" means that no block is produced any more.
import NineNMpc.DataJoin.Places

/-!
# The finished flag of the joiner

`acquire_data_block_meta_by_index` of `data_joiner.py` gives the flag together with the
meta. `_data_join_finalizer` sets the flag with the first block that it closes inside a
batch with `finished`, and the generator then goes on with the rest of that batch. Only
a final batch that closes a single block makes the flag final.
-/

namespace DataJoin

variable {ι ρ : Type}

deriving instance DecidableEq for Finalizing, JoinerPc, Store.Acquired

/-! ## The joiner and its reader -/

/-- The queue of the leader's batches, the joiner and its directory. -/
structure Follower (ι ρ : Type) where
  joiner : Joiner ι ρ := {}
  store : Store ι ρ := {}
  queue : List (LiteExampleIds ι) := []

namespace Follower

inductive Action (ι : Type) where
  | put (batch : LiteExampleIds ι)
  | join (span : Bool)
  | read (index : Nat)

/-- What the reader gets, and the follower after it. -/
def acquireDataBlockMetaByIndex (f : Follower ι ρ) (index : Nat) :
    Follower ι ρ × Bool × Store.Acquired ι :=
  let (store, acquired) := f.store.acquireDataBlockMetaByIndex index
  ({ f with store }, f.joiner.dataJoinerFinished, acquired)

variable [DecidableEq ι]

def machine (cfg : Config ι ρ) : Machine (Follower ι ρ) (Action ι) where
  step f
    | .put batch => some { f with queue := f.queue ++ [batch] }
    | .join span =>
      (f.joiner.step cfg.joiner span f.store f.queue).map fun (store, queue, joiner) =>
        { joiner, store, queue }
    | .read index => some (f.acquireDataBlockMetaByIndex index).1

/-- A batch with `finished` is taken only if it fits into the open block. -/
def FitsBlock (cfg : Config ι ρ) (f : Follower ι ρ) : Action ι → Prop
  | .join _ =>
    f.joiner.dataJoinerFinished = false → f.joiner.pc = .top → ∀ b ∈ f.queue.head?, b.finished = true →
      f.joiner.openIds.length + (cfg.common b.exampleIds).length ≤ cfg.dumpDataBlockThreshold
  | _ => True

instance {cfg : Config ι ρ} {f : Follower ι ρ} {a : Action ι} : Decidable (FitsBlock cfg f a) :=
  match a with
  | .join _ => inferInstanceAs (Decidable (_ → _ → ∀ b ∈ f.queue.head?, _ → _ ≤ _))
  | .put _ | .read _ => isTrue trivial

end Follower

/-! ## The flag and the blocks that are still to come -/

variable [DecidableEq ι]

/-- From here the generator closes no block, if none is open. -/
def JoinerPc.Quiet (cfg : Config ι ρ) : JoinerPc ι → Prop
  | top | flush => True
  | batch rest _ => cfg.common rest = []
  | _ => False

/-- Behind the block that is being closed, a batch with `finished` has no common id. -/
def Finalizing.Last (cfg : Config ι ρ) : Finalizing ι → Prop
  | inBatch rest true => cfg.common rest = []
  | _ => True

/-- With `n` ids in the open block, at most one more block is closed in a batch with `finished`. -/
def JoinerPc.AtMostOne (cfg : Config ι ρ) (n : Nat) : JoinerPc ι → Prop
  | batch rest true => n + (cfg.common rest).length ≤ cfg.dumpDataBlockThreshold
  | store k | update k | close k => k.Last cfg
  | _ => True

structure Joiner.Settled (cfg : Config ι ρ) (j : Joiner ι ρ) : Prop where
  finished : j.dataJoinerFinished = true → j.dataBlockMaker = none ∧ j.pc.Quiet cfg
  unfinished : j.dataJoinerFinished = false → j.pc.AtMostOne cfg j.openIds.length

namespace Joiner

variable {cfg : Config ι ρ} {st st' : Store ι ρ} {j j' : Joiner ι ρ}
  {queue queue' : List (LiteExampleIds ι)}

theorem settled_init : ({} : Joiner ι ρ).Settled cfg :=
  ⟨by simp, fun _ => trivial⟩

theorem Settled.raise (h : j.dataJoinerFinished = false) : j.raise.Settled cfg := by
  refine ⟨fun hfin => ?_, fun _ => trivial⟩
  have : j.dataJoinerFinished = true := hfin
  rw [h] at this
  cases this

/-- A step that leaves the flag unset. -/
theorem Settled.of_unfinished (h : j.dataJoinerFinished = false)
    (hpc : j.pc.AtMostOne cfg j.openIds.length) : j.Settled cfg := by
  refine ⟨fun hfin => ?_, fun _ => hpc⟩
  rw [h] at hfin
  cases hfin

theorem common_cons_of_get? {x : ι} {rest : List ι} {item : Item ι ρ}
    (hx : cfg.joiner.items.get? x = some item) : cfg.common (x :: rest) = x :: cfg.common rest := by
  have hmem : x ∈ cfg.joiner.items.ids := ItemDict.get?_isSome.mp (by rw [hx]; rfl)
  change x ∈ cfg.followerItems.ids at hmem
  simp [Config.common, hmem]

theorem common_cons_of_get?_none {x : ι} {rest : List ι} (hx : cfg.joiner.items.get? x = none) :
    cfg.common (x :: rest) = cfg.common rest := by
  have hmem : x ∉ cfg.followerItems.ids := ItemDict.get?_eq_none.mp hx
  simp [Config.common, hmem]

/-- One example of a batch: the flag is not touched, and once it is set nothing is stored. -/
theorem stepExample_settled {x : ι} {rest : List ι} {finished : Bool} (h : j.Settled cfg)
    (hpc : j.pc = .batch (x :: rest) finished) :
    (stepExample cfg.joiner st j x rest finished).2.Settled cfg := by
  have hopen : j.openIds = (j.dataBlockMaker.map (·.exampleIds)).getD [] := by
    simp [openIds, hpc, JoinerPc.isClose]
  have hunfinished : ∀ item, cfg.joiner.items.get? x = some item → j.dataJoinerFinished = false := by
    intro item hx
    by_contra hfin
    have hquiet := (h.finished (by simpa using hfin)).2
    rw [hpc, JoinerPc.Quiet, common_cons_of_get? hx] at hquiet
    cases hquiet
  refine stepExample_elim (motive := fun _ j' => j'.Settled cfg) ?skipped ?raised ?saved
  case skipped =>
    intro hx
    have hcommon : cfg.common (x :: rest) = cfg.common rest := common_cons_of_get?_none hx
    refine ⟨fun hfin => ⟨(h.finished hfin).1, ?_⟩, fun hfin => ?_⟩
    · have hquiet := (h.finished hfin).2
      rw [hpc, JoinerPc.Quiet, hcommon] at hquiet
      exact hquiet
    · have hone := h.unfinished hfin
      rw [hpc] at hone
      cases finished with
      | false => trivial
      | true =>
        rw [JoinerPc.AtMostOne, hcommon] at hone
        simpa [JoinerPc.AtMostOne, openIds, hpc, JoinerPc.isClose] using hone
  case raised =>
    intro item _ _ hx _ _
    exact Settled.raise (hunfinished item hx)
  case saved =>
    intro item st' mk mk' hx hacq hsave
    have hcommon : cfg.common (x :: rest) = x :: cfg.common rest := common_cons_of_get? hx
    have hfin := hunfinished item hx
    have hone := h.unfinished hfin
    rw [hpc] at hone
    have hids : mk.exampleIds = j.openIds :=
      ((acquireDataBlockMaker_spec hacq).2 mk rfl).trans hopen.symm
    have hlen : mk'.exampleIds.length = j.openIds.length + 1 := by
      simp [DataBlockMaker.save_exampleIds hsave, hids]
    refine Settled.of_unfinished hfin ?_
    cases finished with
    | false =>
      dsimp only
      split <;> trivial
    | true =>
      rw [JoinerPc.AtMostOne, hcommon, List.length_cons] at hone
      dsimp only
      split
      case isTrue hfull =>
        have hle : cfg.dumpDataBlockThreshold ≤ mk'.exampleIds.length := of_decide_eq_true hfull
        have : (cfg.common rest).length = 0 := by omega
        exact List.length_eq_zero_iff.mp this
      case isFalse =>
        simp only [JoinerPc.AtMostOne, openIds, JoinerPc.isClose, Bool.false_eq_true, if_false,
          Option.map_some, Option.getD_some]
        omega

theorem stepEndOfBatch_settled {finished : Bool} (h : j.Settled cfg) :
    (stepEndOfBatch j finished).Settled cfg := by
  simp only [stepEndOfBatch]
  split
  · split
    case isTrue hmk =>
      refine ⟨fun hfin => ?_, fun _ => trivial⟩
      rw [(h.finished hfin).1] at hmk
      cases hmk
    case isFalse => exact ⟨fun hfin => ⟨(h.finished hfin).1, trivial⟩, fun _ => trivial⟩
  · exact ⟨fun hfin => ⟨(h.finished hfin).1, trivial⟩, fun _ => trivial⟩

theorem stepFlush_settled {span : Bool} (h : j.Settled cfg) : (stepFlush j span).Settled cfg := by
  simp only [stepFlush]
  split
  case isTrue hmk =>
    have hfin : j.dataJoinerFinished = false := by
      by_contra hfin
      simp [(h.finished (by simpa using hfin)).1] at hmk
    split
    · exact Settled.of_unfinished hfin trivial
    · exact Settled.raise hfin
  case isFalse => exact ⟨fun hfin => ⟨(h.finished hfin).1, trivial⟩, fun _ => trivial⟩

/-- Where a block is being closed, the flag is not set. -/
theorem Settled.unfinished_of_not_quiet (h : j.Settled cfg) (hpc : ¬ j.pc.Quiet cfg) :
    j.dataJoinerFinished = false := by
  by_contra hfin
  exact hpc (h.finished (by simpa using hfin)).2

theorem stepStore_settled {k : Finalizing ι} (h : j.Settled cfg) (hpc : j.pc = .store k) :
    (stepStore cfg.joiner st j k).2.Settled cfg := by
  have hfin := h.unfinished_of_not_quiet (by simp [hpc, JoinerPc.Quiet])
  have hone := h.unfinished hfin
  rw [hpc] at hone
  simp only [stepStore]
  split
  · exact Settled.of_unfinished hfin hone
  · split <;> exact Settled.of_unfinished hfin hone

theorem stepUpdate_settled {k : Finalizing ι} (h : j.Settled cfg) (hpc : j.pc = .update k) :
    (stepUpdate cfg.joiner st j k).2.Settled cfg := by
  have hfin := h.unfinished_of_not_quiet (by simp [hpc, JoinerPc.Quiet])
  have hone := h.unfinished hfin
  rw [hpc] at hone
  simp only [stepUpdate]
  split
  · exact Settled.of_unfinished hfin hone
  · split
    · exact Settled.of_unfinished hfin hone
    · exact Settled.raise hfin

/-- The flag is set here, together with the end of the open block. -/
theorem stepClose_settled {k : Finalizing ι} (h : j.Settled cfg) (hpc : j.pc = .close k) :
    (stepClose j k).Settled cfg := by
  have hfin := h.unfinished_of_not_quiet (by simp [hpc, JoinerPc.Quiet])
  have hone := h.unfinished hfin
  rw [hpc] at hone
  cases k with
  | afterBatch => exact ⟨fun _ => ⟨rfl, trivial⟩, fun _ => trivial⟩
  | afterFlush finished => exact ⟨fun _ => ⟨rfl, trivial⟩, fun _ => trivial⟩
  | inBatch rest finished =>
    cases finished with
    | true =>
      refine ⟨fun _ => ⟨rfl, hone⟩, fun hnot => ?_⟩
      simp [stepClose, resume, Finalizing.isDataJoinerFinished] at hnot
    | false =>
      refine ⟨fun hnot => ?_, fun _ => trivial⟩
      simp [stepClose, resume, Finalizing.isDataJoinerFinished, hfin] at hnot

theorem step_settled {span : Bool} (h : j.Settled cfg)
    (hfits : j.dataJoinerFinished = false → j.pc = .top → ∀ b ∈ queue.head?, b.finished = true →
      j.openIds.length + (cfg.common b.exampleIds).length ≤ cfg.dumpDataBlockThreshold)
    (hs : j.step cfg.joiner span st queue = some (st', queue', j')) : j'.Settled cfg := by
  apply step_elim hs
  case idle =>
    intro _ hfin _
    exact Settled.of_unfinished hfin trivial
  case take =>
    intro b rest hpc hfin hqueue
    refine Settled.of_unfinished hfin ?_
    have hfits := hfits hfin hpc b (by simp [hqueue])
    cases hb : b.finished with
    | false => trivial
    | true => simpa [JoinerPc.AtMostOne, openIds, hpc, JoinerPc.isClose] using hfits hb
  case next =>
    intro x rest finished hpc
    exact stepExample_settled h hpc
  case endOfBatch =>
    intro finished _
    exact stepEndOfBatch_settled h
  case flush =>
    intro _
    exact stepFlush_settled h
  case store =>
    intro k hpc
    exact stepStore_settled h hpc
  case update =>
    intro k hpc
    exact stepUpdate_settled h hpc
  case close =>
    intro k hpc
    exact stepClose_settled h hpc

/-- Once the flag is set it stays, and the directory stays as it is. -/
theorem step_finished {span : Bool} (h : j.Settled cfg) (hfin : j.dataJoinerFinished = true)
    (hs : j.step cfg.joiner span st queue = some (st', queue', j')) :
    j'.dataJoinerFinished = true ∧ st'.files = st.files := by
  obtain ⟨hmk, hquiet⟩ := h.finished hfin
  apply step_elim hs
  case next =>
    intro x rest finished hpc
    rw [hpc, JoinerPc.Quiet] at hquiet
    cases hx : cfg.joiner.items.get? x with
    | none =>
      rw [stepExample_of_skip hx]
      exact ⟨hfin, rfl⟩
    | some item =>
      rw [common_cons_of_get? hx] at hquiet
      cases hquiet
  case endOfBatch =>
    intro finished _
    cases finished <;> simp [stepEndOfBatch, hmk, hfin]
  case flush =>
    intro _
    simp [stepFlush, hmk, hfin]
  case idle =>
    intro _ hnot
    simp [hfin] at hnot
  case take =>
    intro _ _ _ hnot
    simp [hfin] at hnot
  all_goals
    intro k hpc
    rw [hpc] at hquiet
    cases hquiet

end Joiner

/-! ## Runs -/

namespace Follower

variable {cfg : Config ι ρ} {f f' : Follower ι ρ} {a : Action ι}

theorem step_settled (hfits : FitsBlock cfg f a) (h : f.joiner.Settled cfg)
    (hs : (machine cfg).step f a = some f') : f'.joiner.Settled cfg := by
  cases a with
  | put batch =>
    cases hs
    exact h
  | read index =>
    cases hs
    exact h
  | join span =>
    obtain ⟨⟨store, queue, joiner⟩, hstep, rfl⟩ := Option.map_eq_some_iff.mp hs
    exact Joiner.step_settled h hfits hstep

theorem step_finished (h : f.joiner.Settled cfg) (hfin : f.joiner.dataJoinerFinished = true)
    (hs : (machine cfg).step f a = some f') :
    f'.joiner.dataJoinerFinished = true ∧ f'.store.files = f.store.files := by
  cases a with
  | put batch =>
    cases hs
    exact ⟨hfin, rfl⟩
  | read index =>
    cases hs
    exact ⟨hfin, Store.acquireDataBlockMetaByIndex_files f.store index⟩
  | join span =>
    obtain ⟨⟨store, queue, joiner⟩, hstep, rfl⟩ := Option.map_eq_some_iff.mp hs
    exact Joiner.step_finished h hfin hstep

theorem run_settled {dir : Store ι ρ} {as : List (Action ι)}
    (hfits : (machine cfg).Meets (FitsBlock cfg) { store := dir } as)
    (hrun : (machine cfg).run { store := dir } as = some f) : f.joiner.Settled cfg :=
  (machine cfg).run_induct (fun _ _ _ => step_settled) hfits hrun Joiner.settled_init

/-- A joiner that has finished leaves its directory as it is, for good. -/
theorem run_finished {as : List (Action ι)} (h : f.joiner.Settled cfg)
    (hfin : f.joiner.dataJoinerFinished = true) (hrun : (machine cfg).run f as = some f') :
    f'.store.files = f.store.files := by
  have hinv := (machine cfg).run_invariant
    (P := fun g => g.joiner.Settled cfg ∧ g.joiner.dataJoinerFinished = true ∧
      g.store.files = f.store.files)
    (by
      intro g a g' ⟨hset, hfin, hfiles⟩ hs
      have hfits : FitsBlock cfg g a := by
        cases a with
        | join span =>
          intro hnot
          rw [hfin] at hnot
          cases hnot
        | put batch => trivial
        | read index => trivial
      obtain ⟨hfin', hfiles'⟩ := step_finished hset hfin hs
      exact ⟨step_settled hfits hset hs, hfin', hfiles'.trans hfiles⟩)
    hrun ⟨h, hfin, rfl⟩
  exact hinv.2.2

/-- If every final batch that the joiner takes fits into one block, then after a read that returns
    `(True, None)` no block is produced, whatever follows. -/
theorem finished_without_meta_final {dir : Store ι ρ} {as bs : List (Action ι)} {g : Follower ι ρ}
    {index : Nat} (hfits : (machine cfg).Meets (FitsBlock cfg) { store := dir } as)
    (hrun : (machine cfg).run { store := dir } as = some f)
    (hread : (f.acquireDataBlockMetaByIndex index).2 = (true, .none))
    (hrun' : (machine cfg).run (f.acquireDataBlockMetaByIndex index).1 bs = some g) :
    g.store.files = f.store.files := by
  have hfin : f.joiner.dataJoinerFinished = true := congrArg Prod.fst hread
  have hset := run_settled hfits hrun
  have hafter := run_finished (f := (f.acquireDataBlockMetaByIndex index).1) hset hfin hrun'
  exact hafter.trans (Store.acquireDataBlockMetaByIndex_files f.store index)

/-! ## Two blocks in the final batch -/

namespace Sample

/-- The follower has the ids `1, 2`, and a block is closed at its `t`-th example. -/
def config (t : Nat) : Config Nat String where
  naming := .padded Nat "sample"
  leaderItems := { items := [], nodup := by simp }
  followerItems := { items := [⟨1, 0, "one"⟩, ⟨2, 0, "two"⟩], nodup := by simp }
  dumpDataBlockThreshold := t

def joins (n : Nat) : List (Action Nat) := List.replicate n (.join false)

/-- The only batch has both ids, and the joiner makes `n` steps. -/
def finalBatch (n : Nat) : List (Action Nat) := .put ⟨[1, 2], true⟩ :: joins n

/-- A read that returns `(True, None)`, and a run that goes on from it, evaluated. -/
theorem exists_read {t i : Nat} {as bs : List (Action Nat)} {P : Follower Nat String → Bool}
    (heval : ((machine (config t)).run {} as).any (fun f =>
      decide ((f.acquireDataBlockMetaByIndex i).2 = (true, .none)) &&
        ((machine (config t)).run (f.acquireDataBlockMetaByIndex i).1 bs).any P) = true) :
    ∃ f g, (machine (config t)).run {} as = some f ∧
      (f.acquireDataBlockMetaByIndex i).2 = (true, .none) ∧
      (machine (config t)).run (f.acquireDataBlockMetaByIndex i).1 bs = some g ∧ P g = true := by
  obtain ⟨f, hf, heval⟩ := Option.any_eq_true _ _ |>.mp heval
  rw [Bool.and_eq_true, decide_eq_true_iff] at heval
  obtain ⟨g, hg, hP⟩ := Option.any_eq_true _ _ |>.mp heval.2
  exact ⟨f, g, hf, heval.1, hg, hP⟩

/-- With the threshold `2` the final batch is one block, which is read as the last one. -/
theorem oneBlock_final : ∃ f g, (machine (config 2)).run {} (finalBatch 6) = some f ∧
    (f.acquireDataBlockMetaByIndex 1).2 = (true, .none) ∧
    (machine (config 2)).run (f.acquireDataBlockMetaByIndex 1).1 (finalBatch 2) = some g ∧
    g.store.metaFiles.length = 1 ∧ g.store.files = f.store.files := by
  obtain ⟨f, g, hf, hread, hg, hlen⟩ := @exists_read 2 1 (finalBatch 6) (finalBatch 2)
    (fun g => decide (g.store.metaFiles.length = 1)) (by decide +kernel)
  refine ⟨f, g, hf, hread, hg, of_decide_eq_true hlen, ?_⟩
  exact finished_without_meta_final (by decide +kernel) hf hread hg

/-- With the threshold `1` a reader gets `(True, None)` for the index `1` after the first block,
    and then the joiner produces block `1`. -/
theorem twoBlocks_not_final : ∃ f g, (machine (config 1)).run {} (finalBatch 5) = some f ∧
    (f.acquireDataBlockMetaByIndex 1).2 = (true, .none) ∧
    (machine (config 1)).run (f.acquireDataBlockMetaByIndex 1).1 (joins 4) = some g ∧
    f.store.metaFiles.map (·.dataBlockIndex) = [0] ∧
    g.store.metaFiles.map (·.dataBlockIndex) = [0, 1] := by
  obtain ⟨f, g, hf, hread, hg, hindices⟩ := @exists_read 1 1 (finalBatch 5) (joins 4)
    (fun g => decide (g.store.metaFiles.map (·.dataBlockIndex) = [0, 1])) (by decide +kernel)
  have hbefore : ((machine (config 1)).run {} (finalBatch 5)).map
      (fun f => f.store.metaFiles.map (·.dataBlockIndex)) = some [0] := by
    decide +kernel
  rw [hf, Option.map_some, Option.some.injEq] at hbefore
  exact ⟨f, g, hf, hread, hg, hbefore, of_decide_eq_true hindices⟩

end Sample

end Follower

end DataJoin
