-- SUMMARY: The joiner with block closes that raise, and the condition under which no id is lost.
import NineNMpc.DataJoin.JoinerEnds
import NineNMpc.DataJoin.Manager

/-!
# A joiner whose block closes raise

`data_block_finalizer` of `data_block_maker.py` closes the writer, renames the data file,
renames the meta file and notifies. Each of the last three may raise; the exception ends
the generator with the rest of its batch, and the processor starts a new one, which keeps
the maker. Its writer is closed, so nothing can be saved to it any more, and its tmp file
may already have been renamed.
-/

namespace DataJoin

variable {ι ρ : Type}

/-! ## The joiner and its environment -/

/-- What the environment does in one step of the joiner: whether the time span has elapsed is part
    of the action, `infoRaises` says that `save_data_block_info` raises. -/
structure Outcome where
  dataRename : Store.Rename := .returns
  metaRename : Store.Rename := .returns
  infoRaises : Bool := false
deriving DecidableEq

/-- `tmpRenamed` says that the maker's tmp file is no longer there. -/
structure RaisingFollower (ι ρ : Type) extends Follower ι ρ where
  tmpRenamed : Bool := false

namespace RaisingFollower

open Follower (arrivals OnlyLast)

/-- An exception leaves the maker as it is. -/
def raise (f : RaisingFollower ι ρ) (maker : DataBlockMaker ι ρ) : RaisingFollower ι ρ :=
  { f with joiner := ({ f.joiner with dataBlockMaker := some maker } : Joiner ι ρ).raise }

/-- `data_block_finalizer` up to the rename of the data file. -/
def stepStore (cfg : JoinerConfig ι ρ) (o : Outcome) (f : RaisingFollower ι ρ) (k : Finalizing ι) :
    RaisingFollower ι ρ :=
  match f.joiner.dataBlockMaker with
  | none => { f with joiner := { f.joiner with pc := .close k } }
  | some maker =>
    let closed := { maker with closed := true }
    if maker.exampleIds = [] then
      { f with joiner := { f.joiner with dataBlockMaker := some closed, pc := .close k } }
    -- the tmp file is gone
    else if f.tmpRenamed then f.raise closed
    else
      let name := cfg.naming.dataBlockFileNameWrap (maker.dataBlockMeta cfg.naming)
      let saved := { f with store := f.store.saveData name maker.records, tmpRenamed := true }
      match o.dataRename with
      | .returns =>
        { saved with joiner := { f.joiner with dataBlockMaker := some closed, pc := .update k } }
      | .raisesBefore => f.raise closed
      | .raisesAfter => saved.raise closed

def stepUpdate (cfg : JoinerConfig ι ρ) (o : Outcome) (f : RaisingFollower ι ρ) (k : Finalizing ι) :
    RaisingFollower ι ρ :=
  match f.joiner.dataBlockMaker with
  | none => { f with joiner := { f.joiner with pc := .close k } }
  | some maker =>
    match f.store.renameDataBlockMeta (maker.dataBlockMeta cfg.naming) o.metaRename with
    | (store, true) => { f with store, joiner := { f.joiner with pc := .close k } }
    | (store, false) => { f with store }.raise maker

/-- The notification, and the end of the maker. -/
def stepClose (o : Outcome) (f : RaisingFollower ι ρ) (k : Finalizing ι) : RaisingFollower ι ρ :=
  match f.joiner.dataBlockMaker with
  | none => { f with joiner := Joiner.stepClose f.joiner k }
  | some maker =>
    if o.infoRaises then f.raise maker
    else { f with joiner := Joiner.stepClose f.joiner k, tmpRenamed := false }

variable [DecidableEq ι]

def machine (cfg : Config ι ρ) : Machine (RaisingFollower ι ρ) (Follower.Action ι × Outcome) where
  step f
    | (.join span, o) =>
      match f.joiner.pc with
      | .store k => some (f.stepStore cfg.joiner o k)
      | .update k => some (f.stepUpdate cfg.joiner o k)
      | .close k => some (f.stepClose o k)
      | _ => ((Follower.machine cfg).step f.toFollower (.join span)).map fun g =>
        { f with toFollower := g }
    | (a, _) => ((Follower.machine cfg).step f.toFollower a).map fun g => { f with toFollower := g }

/-- The batches that arrive. -/
def coming (as : List (Follower.Action ι × Outcome)) : List (LiteExampleIds ι) := arrivals (as.map Prod.fst)

/-! ## What is not lost -/

/-- What a step of the joiner at a place must not do, so that no id is lost. -/
def KeepsIdsAt (cfg : Config ι ρ) (o : Outcome) (f : RaisingFollower ι ρ) : JoinerPc ι → Prop
  | .batch (x :: _) _ =>
    x ∈ cfg.followerItems.ids → ∀ maker ∈ f.joiner.dataBlockMaker, maker.closed = false
  | .store k =>
    f.tmpRenamed = false → o.dataRename ≠ .raisesAfter ∧
      (o.dataRename = .raisesBefore → cfg.common k.rest = [] ∧ k.gotFinal = false)
  | .update k =>
    o.metaRename ≠ .raisesBefore ∧ (o.metaRename = .raisesAfter → cfg.common k.rest = [])
  | .close k => o.infoRaises = true → cfg.common k.rest = []
  | _ => True

/-- A close raises only if its batch has no common id left, and either the meta file is in place or
    the data file has not been renamed and this is not the last batch; and no common id is taken
    from a batch while the maker of a failed close is held. -/
def KeepsIds (cfg : Config ι ρ) (f : RaisingFollower ι ρ) : Follower.Action ι × Outcome → Prop
  | (.join _, o) => KeepsIdsAt cfg o f f.joiner.pc
  | _ => True

instance {cfg : Config ι ρ} {o : Outcome} {f : RaisingFollower ι ρ} {pc : JoinerPc ι} :
    Decidable (KeepsIdsAt cfg o f pc) :=
  match pc with
  | .batch (_ :: _) _ => inferInstanceAs (Decidable (_ → ∀ maker ∈ f.joiner.dataBlockMaker, _))
  | .store _ => inferInstanceAs (Decidable (_ → _ ∧ (_ → _)))
  | .update _ => inferInstanceAs (Decidable (_ ∧ (_ → _)))
  | .close _ => inferInstanceAs (Decidable (_ → _))
  | .top | .flush | .batch [] _ => isTrue trivial

instance {cfg : Config ι ρ} {f : RaisingFollower ι ρ} {a : Follower.Action ι × Outcome} :
    Decidable (KeepsIds cfg f a) :=
  match a with
  | (.join _, o) => inferInstanceAs (Decidable (KeepsIdsAt cfg o f _))
  | (.put _, _) | (.read _, _) => isTrue trivial

/-- The ids of the maker that can still be stored. -/
def liveIds (f : RaisingFollower ι ρ) (as : List (Follower.Action ι × Outcome)) : List ι :=
  match f.joiner.dataBlockMaker with
  | none => []
  | some maker =>
    match f.joiner.pc with
    | .close _ => []
    | .update _ => maker.exampleIds
    | pc =>
      if f.tmpRenamed then []
      else if maker.closed && !pc.gotFinal && (f.queue ++ coming as).isEmpty then []
      else maker.exampleIds

/-- The stored ids, and all that may still be stored. -/
def kept (cfg : Config ι ρ) (f : RaisingFollower ι ρ) (as : List (Follower.Action ι × Outcome)) : List ι :=
  f.store.storedIds ++ (f.liveIds as ++
    cfg.common (f.joiner.pc.rest ++ queuedIds (f.queue ++ coming as)))

end RaisingFollower

end DataJoin
