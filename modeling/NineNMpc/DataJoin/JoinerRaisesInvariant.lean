-- SUMMARY: The invariant of a joiner whose block closes raise, and what each step of it keeps or loses.
import NineNMpc.DataJoin.JoinerRaises

/-!
# Steps of a joiner whose block closes raise

The stored ids, the ids that the maker can still store and the common ids that are still to
be looked at are kept by a step that meets the condition, and by no other.
-/

namespace DataJoin

variable {ι ρ : Type}

namespace RaisingFollower

open Follower (arrivals OnlyLast)

variable [DecidableEq ι]

/-! ## The invariant -/

/-- The last batch is still to be taken; or it has been taken, and the joiner is in it, or behind it
    without a maker, or it has raised. -/
def Coming (queue : List (LiteExampleIds ι)) (j : Joiner ι ρ)
    (as : List (Follower.Action ι × Outcome)) : Prop :=
  j.pc.gotFinal = false ∧ OnlyLast (queue ++ coming as) ∨
    (queue = [] ∧ coming as = []) ∧ (j.pc.gotFinal = true ∨
      (j.pc = .top ∨ j.pc = .flush) ∧ (j.dataBlockMaker = none ∨ j.lastFinished = none))

structure Inv (f : RaisingFollower ι ρ) (as : List (Follower.Action ι × Outcome)) : Prop where
  coming : Coming f.queue f.joiner as
  synced : f.tmpRenamed = false ∨ f.joiner.pc.isUpdate = true ∨ f.joiner.pc.isClose = true →
    f.store.Synced
  finalizing : f.joiner.pc.isUpdate = true ∨ f.joiner.pc.isClose = true → f.tmpRenamed = true
  idle : f.joiner.dataBlockMaker = none → f.tmpRenamed = false ∧ f.joiner.pc.isStoring = false
  ids : ∀ mk, f.joiner.dataBlockMaker = some mk → mk.exampleIds ≠ []
  index : ∀ mk, f.joiner.dataBlockMaker = some mk →
    f.tmpRenamed = false ∨ f.joiner.pc.isUpdate = true →
      mk.dataBlockIndex = f.store.metaFiles.length
  renamed : ∀ mk, f.joiner.dataBlockMaker = some mk → f.tmpRenamed = true → mk.closed = true
  retried : ∀ mk k, f.joiner.dataBlockMaker = some mk → f.joiner.pc = .store k →
    mk.closed = true → k.rest = []
  fresh : ∀ mk, f.joiner.dataBlockMaker = some mk → f.joiner.lastFinished = none →
    mk.closed = true
  taken : f.joiner.lastFinished = none → f.joiner.pc = .top ∨ f.joiner.pc = .flush

variable {cfg : Config ι ρ} {f f' : RaisingFollower ι ρ} {as : List (Follower.Action ι × Outcome)}
  {C : Prop}

/-- What one step of the joiner does, if it loses nothing exactly when `C` holds. -/
structure Progress (cfg : Config ι ρ) (f f' : RaisingFollower ι ρ)
    (as : List (Follower.Action ι × Outcome)) (C : Prop) : Prop where
  inv : f'.Inv as
  keeps : C → f'.kept cfg as = f.kept cfg as
  loses : ¬ C → (f'.kept cfg as).Sublist (f.kept cfg as) ∧ f'.kept cfg as ≠ f.kept cfg as

theorem Progress.of_kept (hinv : f'.Inv as) (hkept : f'.kept cfg as = f.kept cfg as) (hC : C) :
    Progress cfg f f' as C :=
  ⟨hinv, fun _ => hkept, fun hnot => absurd hC hnot⟩

theorem Progress.of_true (h : Progress cfg f f' as True) (hC : C) : Progress cfg f f' as C :=
  Progress.of_kept h.inv (h.keeps trivial) hC

/-- A step that may lose the ids of the maker and the rest of the batch. -/
theorem Progress.of_lost {stored live live' rest queued : List ι} (hinv : f'.Inv as)
    (hkept : f.kept cfg as = stored ++ (live ++ (rest ++ queued)))
    (hkept' : f'.kept cfg as = stored ++ (live' ++ queued)) (hlive : live'.Sublist live)
    (hC : C ↔ live' = live ∧ rest = []) : Progress cfg f f' as C := by
  refine ⟨hinv, fun hc => ?_, fun hnot => ⟨?_, fun heq => hnot (hC.mpr ?_)⟩⟩
  · obtain ⟨hlive, hrest⟩ := hC.mp hc
    rw [hkept, hkept', hlive, hrest, List.nil_append]
  · rw [hkept, hkept']
    exact (hlive.append (List.sublist_append_right rest queued)).append_left stored
  · rw [hkept, hkept', List.append_cancel_left_eq] at heq
    have hlen := congrArg List.length heq
    have hle := hlive.length_le
    simp only [List.length_append] at hlen
    exact ⟨hlive.eq_of_length (by omega), List.eq_nil_of_length_eq_zero (by omega)⟩

omit [DecidableEq ι] in
theorem liveIds_of_none (h : f.joiner.dataBlockMaker = none) : f.liveIds as = [] := by
  simp [liveIds, h]

omit [DecidableEq ι] in
/-- The ids of a maker outside of the rename of its meta file. -/
theorem liveIds_of_some {mk : DataBlockMaker ι ρ} (h : f.joiner.dataBlockMaker = some mk)
    (hupdate : f.joiner.pc.isUpdate = false) (hclose : f.joiner.pc.isClose = false) :
    f.liveIds as =
      if f.tmpRenamed then []
      else if mk.closed && !f.joiner.pc.gotFinal && (f.queue ++ coming as).isEmpty then []
      else mk.exampleIds := by
  unfold liveIds
  rw [h]
  cases hpc : f.joiner.pc with
  | update k => simp [hpc, JoinerPc.isUpdate] at hupdate
  | close k => simp [hpc, JoinerPc.isClose] at hclose
  | top => rfl
  | flush => rfl
  | batch rest finished => rfl
  | store k => rfl

omit [DecidableEq ι] in
/-- With the same maker, the same ids are live as long as the last batch is as far away. -/
theorem liveIds_congr (hmaker : f'.joiner.dataBlockMaker = f.joiner.dataBlockMaker)
    (hrenamed : f'.tmpRenamed = f.tmpRenamed)
    (hpc : f.joiner.pc.isUpdate = false ∧ f.joiner.pc.isClose = false)
    (hpc' : f'.joiner.pc.isUpdate = false ∧ f'.joiner.pc.isClose = false)
    (hmore : f.joiner.dataBlockMaker ≠ none →
      (!f'.joiner.pc.gotFinal && (f'.queue ++ coming as).isEmpty) =
        (!f.joiner.pc.gotFinal && (f.queue ++ coming as).isEmpty)) :
    f'.liveIds as = f.liveIds as := by
  cases hmk : f.joiner.dataBlockMaker with
  | none => rw [liveIds_of_none hmk, liveIds_of_none (hmaker.trans hmk)]
  | some mk =>
    rw [liveIds_of_some hmk hpc.1 hpc.2, liveIds_of_some (hmaker.trans hmk) hpc'.1 hpc'.2]
    simp only [hrenamed, Bool.and_assoc, hmore (by simp [hmk])]

omit [DecidableEq ι] in
/-- Inside a batch, others are to come exactly if it is not the last one. -/
theorem Inv.isEmpty (h : f.Inv as) (htop : f.joiner.pc ≠ .top) (hflush : f.joiner.pc ≠ .flush) :
    (f.queue ++ RaisingFollower.coming as).isEmpty = f.joiner.pc.gotFinal := by
  obtain ⟨hgot, hlast⟩ | ⟨⟨hqueue, hcoming⟩, hgot | ⟨hpc, -⟩⟩ := h.coming
  · obtain ⟨b, hb, -⟩ := hlast.last
    rw [hgot]
    cases hnil : f.queue ++ RaisingFollower.coming as with
    | nil => simp [hnil] at hb
    | cons => rfl
  · simp [hqueue, hcoming, hgot]
  · obtain hpc | hpc := hpc
    · exact absurd hpc htop
    · exact absurd hpc hflush

section

variable {mk : DataBlockMaker ι ρ} {j : Joiner ι ρ} {st : Store ι ρ} {renamed : Bool}

omit [DecidableEq ι] in
/-- After an exception a new generator is at its top, with a closed maker. -/
theorem Inv.raise (h : f.Inv as) (hmk : j.dataBlockMaker = some mk) (hclosed : mk.closed = true)
    (hids : mk.exampleIds ≠ [])
    (hopen : renamed = false → st.Synced ∧ mk.dataBlockIndex = st.metaFiles.length) :
    ({ f with store := st, tmpRenamed := renamed, joiner := j.raise } :
      RaisingFollower ι ρ).Inv as where
  coming := by
    obtain ⟨-, hlast⟩ | ⟨hnil, -⟩ := h.coming
    · exact .inl ⟨rfl, hlast⟩
    · exact .inr ⟨hnil, .inr ⟨.inl rfl, .inr rfl⟩⟩
  synced := by
    rintro (hrenamed | hpc | hpc)
    · exact (hopen hrenamed).1
    · cases hpc
    · cases hpc
  finalizing := by rintro (hpc | hpc) <;> cases hpc
  idle := by
    intro hnone
    rw [show j.raise.dataBlockMaker = j.dataBlockMaker from rfl, hmk] at hnone
    cases hnone
  ids := by
    intro mk' hmk'
    obtain rfl := Option.some.inj (hmk.symm.trans hmk')
    exact hids
  index := by
    rintro mk' hmk' (hrenamed | hpc)
    · obtain rfl := Option.some.inj (hmk.symm.trans hmk')
      exact (hopen hrenamed).2
    · cases hpc
  renamed := by
    intro mk' hmk' _
    obtain rfl := Option.some.inj (hmk.symm.trans hmk')
    exact hclosed
  retried := by rintro _ _ _ ⟨⟩
  fresh := by
    intro mk' hmk' _
    obtain rfl := Option.some.inj (hmk.symm.trans hmk')
    exact hclosed
  taken := fun _ => .inl rfl

omit [DecidableEq ι] in
theorem liveIds_raise (hmk : j.dataBlockMaker = some mk) (hclosed : mk.closed = true) :
    ({ f with store := st, tmpRenamed := renamed, joiner := j.raise } :
      RaisingFollower ι ρ).liveIds as =
      if renamed then [] else if (f.queue ++ coming as).isEmpty then [] else mk.exampleIds := by
  refine (liveIds_of_some hmk rfl rfl).trans ?_
  simp [hclosed, Joiner.raise, JoinerPc.gotFinal]

end

/-! ## Steps without a close -/

/-- Moving between places in which no block is being stored. -/
theorem Inv.goto (h : f.Inv as) {j : Joiner ι ρ} (hmaker : j.dataBlockMaker = f.joiner.dataBlockMaker)
    (hpc : f.joiner.pc.isUpdate = false ∧ f.joiner.pc.isClose = false)
    (hpc' : j.pc.isUpdate = false ∧ j.pc.isClose = false)
    (hrest : cfg.common j.pc.rest = cfg.common f.joiner.pc.rest)
    (hgot : j.pc.gotFinal = f.joiner.pc.gotFinal ∨ f.joiner.dataBlockMaker = none)
    (hcoming : Coming f.queue j as)
    (hstore : ∀ k, j.pc = .store k → j.dataBlockMaker ≠ none ∧ k.rest = [])
    (hlast : j.lastFinished = none → f.joiner.lastFinished = none ∧ (j.pc = .top ∨ j.pc = .flush)) :
    Progress cfg f { f with joiner := j } as True := by
  refine Progress.of_kept
    ⟨hcoming, ?_, ?_, ?_, ?_, ?_, ?_, ?_, ?_, fun hnone => (hlast hnone).2⟩ ?_ trivial
  · rintro (hrenamed | hup | hclose)
    · exact h.synced (.inl hrenamed)
    · simp [hpc'.1] at hup
    · simp [hpc'.2] at hclose
  · rintro (hup | hclose)
    · simp [hpc'.1] at hup
    · simp [hpc'.2] at hclose
  · intro hnone
    refine ⟨(h.idle (hmaker ▸ hnone)).1, ?_⟩
    cases hj : j.pc with
    | store k => exact absurd hnone (hstore k hj).1
    | update k => simp [hj, JoinerPc.isUpdate] at hpc'
    | _ => rfl
  · intro mk hmk
    exact h.ids mk (hmaker ▸ hmk)
  · rintro mk hmk (hrenamed | hup)
    · exact h.index mk (hmaker ▸ hmk) (.inl hrenamed)
    · simp [hpc'.1] at hup
  · intro mk hmk
    exact h.renamed mk (hmaker ▸ hmk)
  · intro mk k _ hk _
    exact (hstore k hk).2
  · intro mk hmk hnone
    exact h.fresh mk (hmaker ▸ hmk) (hlast hnone).1
  · have hlive : ({ f with joiner := j } : RaisingFollower ι ρ).liveIds as = f.liveIds as := by
      refine liveIds_congr hmaker rfl hpc hpc' fun hne => ?_
      obtain hgot | hnone := hgot
      · simp only [hgot]
      · exact absurd hnone hne
    simp only [kept, hlive, Config.common_append, hrest]

theorem idle_progress (h : f.Inv as) (hpc : f.joiner.pc = .top) :
    Progress cfg f { f with joiner := { f.joiner with pc := .flush } } as True := by
  refine h.goto rfl (by simp [hpc, JoinerPc.isUpdate, JoinerPc.isClose]) ⟨rfl, rfl⟩ (by simp [hpc, JoinerPc.rest])
    (.inl (by simp [hpc, JoinerPc.gotFinal])) ?_ (by rintro _ ⟨⟩) fun hlast => ⟨hlast, .inr rfl⟩
  refine h.coming.imp (fun hc => ⟨rfl, hc.2⟩) fun hc => ⟨hc.1, .inr ⟨.inr rfl, ?_⟩⟩
  simpa [hpc, JoinerPc.gotFinal] using hc.2

theorem take_progress (h : f.Inv as) {b : LiteExampleIds ι} {queue : List (LiteExampleIds ι)}
    (hpc : f.joiner.pc = .top) (hqueue : f.queue = b :: queue) :
    Progress cfg f { f with
      queue := queue
      joiner := { f.joiner with
        pc := .batch b.exampleIds b.finished
        lastFinished := some b.finished } } as True := by
  have hlast : OnlyLast (b :: (queue ++ coming as)) := by
    obtain ⟨-, hlast⟩ | ⟨⟨hnil, -⟩, -⟩ := h.coming
    · simpa [hqueue] using hlast
    · simp [hqueue] at hnil
  -- A batch that is not the last one has another one behind it.
  have htail : b.finished = true ∧ queue = [] ∧ coming as = [] ∨
      b.finished = false ∧ OnlyLast (queue ++ coming as) := by
    obtain hnil | htail := hlast.tail
    · refine .inl ⟨?_, List.append_eq_nil_iff.mp hnil⟩
      simpa [hnil] using hlast.last
    · exact .inr htail
  refine Progress.of_kept ⟨?_, ?_, ?_, ?_, h.ids, ?_, h.renamed, ?_, ?_, by rintro ⟨⟩⟩ ?_ trivial
  · obtain ⟨hfin, hnil⟩ | ⟨hfin, htail⟩ := htail
    · exact .inr ⟨hnil, .inl hfin⟩
    · exact .inl ⟨hfin, htail⟩
  · rintro (hrenamed | hup | hclose)
    · exact h.synced (.inl hrenamed)
    · cases hup
    · cases hclose
  · rintro (hup | hclose)
    · cases hup
    · cases hclose
  · intro hnone
    exact ⟨(h.idle hnone).1, rfl⟩
  · rintro mk hmk (hrenamed | hup)
    · exact h.index mk hmk (.inl hrenamed)
    · cases hup
  · rintro _ _ _ ⟨⟩
  · rintro _ _ ⟨⟩
  · have hmore : (!b.finished && (queue ++ coming as).isEmpty) = false := by
      obtain ⟨hfin, -⟩ | ⟨-, htail⟩ := htail
      · simp [hfin]
      · obtain ⟨c, hc, -⟩ := htail.last
        cases hnil : queue ++ coming as with
        | nil => simp [hnil] at hc
        | cons => simp
    have hlive : ({ f with
        queue := queue
        joiner := { f.joiner with
          pc := .batch b.exampleIds b.finished
          lastFinished := some b.finished } } : RaisingFollower ι ρ).liveIds as = f.liveIds as := by
      refine liveIds_congr rfl rfl (by simp [hpc, JoinerPc.isUpdate, JoinerPc.isClose])
        ⟨rfl, rfl⟩ fun _ => ?_
      simpa [hqueue, JoinerPc.gotFinal] using hmore
    simp only [kept, hlive, hpc, hqueue, JoinerPc.rest, List.cons_append, queuedIds_cons,
      List.nil_append]

/-- An example that goes into the open block, or into a new one. -/
theorem save_progress {x : ι} {rest : List ι} {finished : Bool} {item : Item ι ρ}
    {mk mk' : DataBlockMaker ι ρ} (h : f.Inv as) (hpc : f.joiner.pc = .batch (x :: rest) finished)
    (hx : x ∈ cfg.followerItems.ids) (hopen : mk.closed = false) (hrenamed : f.tmpRenamed = false)
    (hindex : mk.dataBlockIndex = f.store.metaFiles.length) (hitem : item.exampleId = x)
    (hlive : f.liveIds as = mk.exampleIds) (hsave : mk.save item = some mk') {consumed : List ι}
    {pc : JoinerPc ι} (hpc' : pc = .store (.inBatch rest finished) ∨ pc = .batch rest finished) :
    Progress cfg f { f with
      joiner := { f.joiner with consumed := consumed, dataBlockMaker := some mk', pc := pc } } as
      True := by
  have htaken : f.joiner.lastFinished ≠ none := by
    intro hnone
    simpa [hpc] using h.taken hnone
  have hplace : pc.isUpdate = false ∧ pc.isClose = false ∧ pc.rest = rest ∧
      pc.gotFinal = f.joiner.pc.gotFinal := by
    rw [hpc]
    obtain rfl | rfl := hpc'
    · exact ⟨rfl, rfl, rfl, rfl⟩
    · exact ⟨rfl, rfl, rfl, rfl⟩
  obtain ⟨hup, hclose, hrest, hgot⟩ := hplace
  have hmk' : mk'.exampleIds = mk.exampleIds ++ [x] ∧ mk'.closed = false ∧
      mk'.dataBlockIndex = mk.dataBlockIndex := by
    rw [DataBlockMaker.save, hopen, if_neg Bool.false_ne_true, Option.some.injEq] at hsave
    subst hsave
    exact ⟨by rw [hitem], rfl, rfl⟩
  refine Progress.of_kept ⟨?_, ?_, ?_, by rintro ⟨⟩, ?_, ?_, ?_, ?_, ?_, fun hnone => absurd hnone htaken⟩
    ?_ trivial
  · refine h.coming.imp (fun hc => ⟨hgot.trans hc.1, hc.2⟩) fun hc => ⟨hc.1, .inl ?_⟩
    exact hgot.trans (hc.2.resolve_right fun hbehind => by simp [hpc] at hbehind)
  · exact fun _ => h.synced (.inl hrenamed)
  · rintro (hpc | hpc)
    · simp [hup] at hpc
    · simp [hclose] at hpc
  · rintro _ ⟨⟩
    simp [hmk'.1]
  · rintro _ ⟨⟩ _
    exact hmk'.2.2.trans hindex
  · rintro _ ⟨⟩ htrue
    simp [hrenamed] at htrue
  · rintro _ _ ⟨⟩ _ hclosed
    simp [hmk'.2.1] at hclosed
  · exact fun _ _ hnone => absurd hnone htaken
  · have hlive' : ({ f with
        joiner := { f.joiner with consumed := consumed, dataBlockMaker := some mk', pc := pc } } :
          RaisingFollower ι ρ).liveIds as = _ := liveIds_of_some rfl hup hclose
    rw [if_neg (by simp [hrenamed]), if_neg (by simp [hmk'.2.1]), hmk'.1] at hlive'
    have hcommon : cfg.common f.joiner.pc.rest = x :: cfg.common rest := by
      rw [hpc]
      simp [JoinerPc.rest, Config.common, hx]
    simp only [kept, hlive, hlive', hrest, Config.common_append, hcommon, List.append_assoc,
      List.cons_append, List.nil_append]

/-- The write to a closed writer raises. -/
theorem stepExample_of_closed {st : Store ι ρ} {j : Joiner ι ρ} {x : ι} {rest : List ι}
    {finished : Bool} {item : Item ι ρ} {mk : DataBlockMaker ι ρ}
    (hitem : cfg.joiner.items.get? x = some item) (hmk : j.dataBlockMaker = some mk)
    (hclosed : mk.closed = true) :
    Joiner.stepExample cfg.joiner st j x rest finished =
      (st, ({ j with consumed := j.consumed ++ [x], dataBlockMaker := some mk } :
        Joiner ι ρ).raise) := by
  have hsave : mk.save item = none := by simp [DataBlockMaker.save, hclosed]
  simp only [Joiner.stepExample, hitem, Joiner.acquireDataBlockMaker, hmk, hsave]

/-- An example, if no maker of a failed close is held. -/
theorem example_progress {x : ι} {rest : List ι} {finished : Bool} (h : f.Inv as)
    (hpc : f.joiner.pc = .batch (x :: rest) finished) :
    Progress cfg f { f with
      store := (Joiner.stepExample cfg.joiner f.store f.joiner x rest finished).1
      joiner := (Joiner.stepExample cfg.joiner f.store f.joiner x rest finished).2 } as
      (x ∈ cfg.followerItems.ids → ∀ mk ∈ f.joiner.dataBlockMaker, mk.closed = false) := by
  have hplace : f.joiner.pc.isUpdate = false ∧ f.joiner.pc.isClose = false := by
    simp [hpc, JoinerPc.isUpdate, JoinerPc.isClose]
  cases hitem : cfg.followerItems.get? x with
  | none =>
    have hx : x ∉ cfg.followerItems.ids := ItemDict.get?_eq_none.mp hitem
    rw [Joiner.stepExample_of_skip hitem]
    refine Progress.of_true ?_ fun hmem => absurd hmem hx
    refine h.goto rfl hplace ⟨rfl, rfl⟩ ?_ (.inl (by simp [hpc, JoinerPc.gotFinal])) ?_
      (by rintro _ ⟨⟩) ?_
    · simp [hpc, JoinerPc.rest, Config.common, hx]
    · simpa [Coming, hpc, JoinerPc.gotFinal] using h.coming
    · intro hnone
      simpa [hpc] using h.taken hnone
  | some item =>
    have hx : x ∈ cfg.followerItems.ids := ItemDict.get?_isSome.mp (by simp [hitem])
    have hid := ItemDict.exampleId_of_get? hitem
    cases hmk : f.joiner.dataBlockMaker with
    | none =>
      have hrenamed := (h.idle hmk).1
      have hacq : Joiner.acquireDataBlockMaker f.store f.joiner =
          (f.store, some { dataBlockIndex := f.store.metaFiles.length }) := by
        simp [Joiner.acquireDataBlockMaker, hmk,
          (h.synced (.inl hrenamed)).acquireProducedDataBlockNumber]
      obtain ⟨mk', hsave⟩ : ∃ mk', DataBlockMaker.save
          { dataBlockIndex := f.store.metaFiles.length } item = some mk' := ⟨_, rfl⟩
      rw [Joiner.stepExample_of_save hitem hacq hsave]
      exact Progress.of_true (save_progress h hpc hx rfl hrenamed rfl hid (liveIds_of_none hmk)
        hsave (ite_eq_or_eq _ _ _)) (by simp)
    | some mk =>
      have hacq : Joiner.acquireDataBlockMaker f.store f.joiner = (f.store, some mk) := by
        simp [Joiner.acquireDataBlockMaker, hmk]
      have hempty := h.isEmpty (by simp [hpc]) (by simp [hpc])
      have hlive : f.liveIds as = _ := liveIds_of_some hmk hplace.1 hplace.2
      rw [hempty] at hlive
      cases hclosed : mk.closed with
      | false =>
        have hrenamed : f.tmpRenamed = false := by
          by_contra hrenamed
          simpa [hclosed] using h.renamed mk hmk (by simpa using hrenamed)
        have hsave : ∃ mk', mk.save item = some mk' := by
          simp [DataBlockMaker.save, hclosed]
        obtain ⟨mk', hsave⟩ := hsave
        rw [if_neg (by simp [hrenamed]), if_neg (by simp [hclosed])] at hlive
        rw [Joiner.stepExample_of_save hitem hacq hsave]
        exact Progress.of_true (save_progress h hpc hx hclosed hrenamed
          (h.index mk hmk (.inl hrenamed)) hid hlive hsave (ite_eq_or_eq _ _ _)) (by simp [hclosed])
      | true =>
        rw [stepExample_of_closed hitem hmk hclosed]
        have hopen : f.tmpRenamed = false →
            f.store.Synced ∧ mk.dataBlockIndex = f.store.metaFiles.length :=
          fun hrenamed => ⟨h.synced (.inl hrenamed), h.index mk hmk (.inl hrenamed)⟩
        refine Progress.of_lost (h.raise rfl hclosed (h.ids mk hmk) hopen)
          (congrArg (f.store.storedIds ++ ·) (congrArg (f.liveIds as ++ ·) Config.common_append))
          rfl ?_ (iff_of_false ?_ ?_)
        · rw [liveIds_raise rfl hclosed, hlive, hclosed]
          cases f.tmpRenamed <;> cases (f.queue ++ coming as).isEmpty <;>
            cases f.joiner.pc.gotFinal <;> simp
        · simp [hx, hclosed]
        · simp [hpc, JoinerPc.rest, Config.common, hx]

theorem endOfBatch_progress {finished : Bool} (h : f.Inv as) (hpc : f.joiner.pc = .batch [] finished) :
    Progress cfg f { f with joiner := Joiner.stepEndOfBatch f.joiner finished } as True := by
  have hplace : f.joiner.pc.isUpdate = false ∧ f.joiner.pc.isClose = false := by
    simp [hpc, JoinerPc.isUpdate, JoinerPc.isClose]
  have htaken : f.joiner.lastFinished ≠ none := by
    intro hnone
    simpa [hpc] using h.taken hnone
  cases finished with
  | false =>
    refine h.goto rfl hplace ⟨rfl, rfl⟩ (by simp [hpc, Joiner.stepEndOfBatch, JoinerPc.rest])
      (.inl (by simp [hpc, Joiner.stepEndOfBatch, JoinerPc.gotFinal])) ?_ (by rintro _ ⟨⟩) fun hnone => absurd hnone htaken
    refine h.coming.imp (fun hc => ⟨rfl, hc.2⟩) fun hc => ?_
    simp [hpc, JoinerPc.gotFinal] at hc
  | true =>
    have hnil : f.queue = [] ∧ coming as = [] := by
      obtain ⟨hgot, -⟩ | ⟨hnil, -⟩ := h.coming
      · simp [hpc, JoinerPc.gotFinal] at hgot
      · exact hnil
    cases hmk : f.joiner.dataBlockMaker with
    | none =>
      have hstep : Joiner.stepEndOfBatch f.joiner true =
          { f.joiner with pc := .flush, finalConsumed := true } := by
        simp [Joiner.stepEndOfBatch, hmk]
      rw [hstep]
      exact h.goto rfl hplace ⟨rfl, rfl⟩ (by simp [hpc, JoinerPc.rest]) (.inr hmk)
        (.inr ⟨hnil, .inr ⟨.inr rfl, .inl hmk⟩⟩) (by rintro _ ⟨⟩) fun hnone => absurd hnone htaken
    | some mk =>
      have hstep : Joiner.stepEndOfBatch f.joiner true =
          { f.joiner with pc := .store .afterBatch } := by
        simp [Joiner.stepEndOfBatch, hmk]
      rw [hstep]
      refine h.goto rfl hplace ⟨rfl, rfl⟩ (by simp [hpc, JoinerPc.rest, Finalizing.rest])
        (.inl (by simp [hpc, JoinerPc.gotFinal, Finalizing.gotFinal])) (.inr ⟨hnil, .inl rfl⟩) ?_
        fun hnone => absurd hnone htaken
      rintro _ ⟨⟩
      exact ⟨by simp [hmk], rfl⟩

theorem flush_progress {span : Bool} (h : f.Inv as) (hpc : f.joiner.pc = .flush) :
    Progress cfg f { f with joiner := Joiner.stepFlush f.joiner span } as True := by
  have hplace : f.joiner.pc.isUpdate = false ∧ f.joiner.pc.isClose = false := by
    simp [hpc, JoinerPc.isUpdate, JoinerPc.isClose]
  have hgot : f.joiner.pc.gotFinal = false := by simp [hpc, JoinerPc.gotFinal]
  have htop : ∀ {last : Option Bool}, (f.joiner.lastFinished = none → last = none) →
      Coming f.queue { f.joiner with pc := .top, lastFinished := last } as := by
    intro last hlast
    refine h.coming.imp (fun hc => ⟨rfl, hc.2⟩) fun hc => ⟨hc.1, .inr ⟨.inl rfl, ?_⟩⟩
    have hbehind : f.joiner.dataBlockMaker = none ∨ f.joiner.lastFinished = none := by
      simpa [hpc, JoinerPc.gotFinal] using hc.2
    exact hbehind.imp_right hlast
  simp only [Joiner.stepFlush]
  split
  case isFalse =>
    exact h.goto rfl hplace ⟨rfl, rfl⟩ (by simp [hpc, JoinerPc.rest]) (.inl hgot.symm)
      (htop id) (by rintro _ ⟨⟩) fun hlast => ⟨hlast, .inl rfl⟩
  case isTrue hflush =>
    have hmk : f.joiner.dataBlockMaker ≠ none := by
      rw [Bool.and_eq_true, Option.isSome_iff_ne_none] at hflush
      exact hflush.1
    split
    case h_2 hlast =>
      exact h.goto rfl hplace ⟨rfl, rfl⟩ (by simp [hpc, Joiner.raise, JoinerPc.rest]) (.inl hgot.symm)
        (htop fun _ => rfl) (by rintro _ ⟨⟩) fun _ => ⟨hlast, .inl rfl⟩
    case h_1 finished hlast =>
      refine h.goto rfl hplace ⟨rfl, rfl⟩ (by simp [hpc, JoinerPc.rest, Finalizing.rest])
        (.inl hgot.symm) ?_ ?_
        fun hnone => by simp [hlast] at hnone
      · refine h.coming.imp (fun hc => ⟨rfl, hc.2⟩) fun hc => ?_
        simp [hpc, JoinerPc.gotFinal, hmk, hlast] at hc
      · rintro _ ⟨⟩
        exact ⟨hmk, rfl⟩

/-! ## Closes -/

omit [DecidableEq ι] in
theorem Inv.exists_maker (h : f.Inv as)
    (hpc : f.tmpRenamed = true ∨ f.joiner.pc.isStoring = true) :
    ∃ mk, f.joiner.dataBlockMaker = some mk := by
  by_contra hnone
  have hidle := h.idle (Option.eq_none_iff_forall_ne_some.mpr fun mk hmk => hnone ⟨mk, hmk⟩)
  obtain hpc | hpc := hpc
  · simp [hpc] at hidle
  · simp [hpc] at hidle

/-- The rename of the data file, if the tmp file is still there. -/
theorem store_progress {o : Outcome} {k : Finalizing ι} (h : f.Inv as) (hpc : f.joiner.pc = .store k) :
    Progress cfg f (f.stepStore cfg.joiner o k) as (f.tmpRenamed = false →
      o.dataRename ≠ .raisesAfter ∧
        (o.dataRename = .raisesBefore → cfg.common k.rest = [] ∧ k.gotFinal = false)) := by
  obtain ⟨mk, hmk⟩ := h.exists_maker (.inr (by simp [hpc, JoinerPc.isStoring]))
  have hids := h.ids mk hmk
  have hempty : (f.queue ++ coming as).isEmpty = k.gotFinal := by
    rw [h.isEmpty (by simp [hpc]) (by simp [hpc]), hpc]
    rfl
  have hlive : f.liveIds as = if f.tmpRenamed then [] else mk.exampleIds := by
    rw [liveIds_of_some hmk (by simp [hpc, JoinerPc.isUpdate]) (by simp [hpc, JoinerPc.isClose]),
      hempty, hpc]
    cases hgot : k.gotFinal <;> simp [JoinerPc.gotFinal, hgot]
  have hkept : f.kept cfg as = f.store.storedIds ++ (f.liveIds as ++
      (cfg.common k.rest ++ cfg.common (queuedIds (f.queue ++ coming as)))) := by
    rw [kept, hpc, Config.common_append]
    rfl
  cases hrenamed : f.tmpRenamed with
  | true =>
    have hstep : f.stepStore cfg.joiner o k = f.raise { mk with closed := true } := by
      simp [stepStore, hmk, hids, hrenamed]
    have hrest := h.retried mk k hmk hpc (h.renamed mk hmk hrenamed)
    have hopen : f.tmpRenamed = false → f.store.Synced ∧ mk.dataBlockIndex = f.store.metaFiles.length := by
      simp [hrenamed]
    have hlive' : (f.raise { mk with closed := true }).liveIds as = [] := by
      refine (liveIds_raise rfl rfl).trans ?_
      rw [hrenamed]
      rfl
    rw [hstep]
    refine Progress.of_lost (h.raise rfl rfl hids hopen) hkept rfl ?_ ?_
    · rw [hlive']
      exact List.nil_sublist _
    · simp [hlive', hlive, hrenamed, hrest]
  | false =>
    have hsynced := h.synced (.inl hrenamed)
    have hindex := h.index mk hmk (.inl hrenamed)
    rw [hrenamed] at hlive
    cases hout : o.dataRename with
    | returns =>
      have hstep : f.stepStore cfg.joiner o k = { f with
          store := f.store.saveData
            (cfg.naming.dataBlockFileNameWrap (mk.dataBlockMeta cfg.naming)) mk.records
          tmpRenamed := true
          joiner := { f.joiner with
            dataBlockMaker := some { mk with closed := true }
            pc := .update k } } := by
        simp [stepStore, hmk, hids, hrenamed, hout]
        rfl
      rw [hstep]
      refine Progress.of_kept ⟨?_, fun _ => hsynced.saveData, fun _ => rfl, by rintro ⟨⟩, ?_, ?_, ?_,
        by rintro _ _ _ ⟨⟩, ?_, ?_⟩ ?_ (by simp)
      · have hcoming := h.coming
        simp only [Coming, hpc] at hcoming
        refine hcoming.imp id fun hc => ⟨hc.1, .inl ?_⟩
        exact hc.2.resolve_right fun hbehind => by simp at hbehind
      · rintro _ ⟨⟩
        exact hids
      · rintro _ ⟨⟩ _
        exact hindex
      · rintro _ ⟨⟩ _
        rfl
      · rintro _ ⟨⟩ _
        rfl
      · intro hnone
        simpa [hpc] using h.taken hnone
      · rw [hkept, hlive, kept, Config.common_append]
        rfl
    | raisesBefore =>
      have hstep : f.stepStore cfg.joiner o k = f.raise { mk with closed := true } := by
        simp [stepStore, hmk, hids, hrenamed, hout]
      have hlive' : (f.raise { mk with closed := true }).liveIds as =
          if k.gotFinal then [] else mk.exampleIds := by
        refine (liveIds_raise rfl rfl).trans ?_
        rw [hrenamed, hempty]
        rfl
      rw [hstep]
      refine Progress.of_lost (h.raise rfl rfl hids fun _ => ⟨hsynced, hindex⟩) hkept rfl ?_ ?_
      · rw [hlive', hlive]
        cases k.gotFinal <;> simp
      · rw [hlive', hlive]
        cases k.gotFinal <;> simp [hids.symm]
    | raisesAfter =>
      have hstep : f.stepStore cfg.joiner o k = ({ f with
          store := f.store.saveData
            (cfg.naming.dataBlockFileNameWrap (mk.dataBlockMeta cfg.naming)) mk.records
          tmpRenamed := true } : RaisingFollower ι ρ).raise { mk with closed := true } := by
        simp [stepStore, hmk, hids, hrenamed, hout]
        rfl
      rw [hstep]
      have hlive' : (({ f with
          store := f.store.saveData
            (cfg.naming.dataBlockFileNameWrap (mk.dataBlockMeta cfg.naming)) mk.records
          tmpRenamed := true } : RaisingFollower ι ρ).raise { mk with closed := true }).liveIds as =
          [] :=
        liveIds_raise rfl rfl
      refine Progress.of_lost (h.raise rfl rfl hids (by simp)) hkept rfl ?_ ?_
      · rw [hlive']
        exact List.nil_sublist _
      · rw [hlive', hlive]
        simp [hids.symm]

section

variable {o : Outcome} {k : Finalizing ι} {mk : DataBlockMaker ι ρ} {st : Store ι ρ}

omit [DecidableEq ι] in
theorem stepUpdate_of_returned (hmk : f.joiner.dataBlockMaker = some mk)
    (hrename : f.store.renameDataBlockMeta (mk.dataBlockMeta cfg.naming) o.metaRename = (st, true)) :
    f.stepUpdate cfg.joiner o k =
      { f with store := st, joiner := { f.joiner with pc := .close k } } := by
  change f.store.renameDataBlockMeta (mk.dataBlockMeta cfg.joiner.naming) o.metaRename = _ at hrename
  simp [stepUpdate, hmk, hrename]

omit [DecidableEq ι] in
theorem stepUpdate_of_raised (hmk : f.joiner.dataBlockMaker = some mk)
    (hrename : f.store.renameDataBlockMeta (mk.dataBlockMeta cfg.naming) o.metaRename = (st, false)) :
    f.stepUpdate cfg.joiner o k = { f with store := st }.raise mk := by
  change f.store.renameDataBlockMeta (mk.dataBlockMeta cfg.joiner.naming) o.metaRename = _ at hrename
  simp [stepUpdate, hmk, hrename]

end

theorem update_progress {o : Outcome} {k : Finalizing ι} (h : f.Inv as)
    (hpc : f.joiner.pc = .update k) :
    Progress cfg f (f.stepUpdate cfg.joiner o k) as (o.metaRename ≠ .raisesBefore ∧
      (o.metaRename = .raisesAfter → cfg.common k.rest = [])) := by
  have hrenamed := h.finalizing (.inl (by simp [hpc, JoinerPc.isUpdate]))
  have hsynced := h.synced (.inr (.inl (by simp [hpc, JoinerPc.isUpdate])))
  obtain ⟨mk, hmk⟩ := h.exists_maker (.inl hrenamed)
  have hids := h.ids mk hmk
  have hclosed := h.renamed mk hmk hrenamed
  have hindex : (mk.dataBlockMeta cfg.naming).dataBlockIndex = f.store.metaFiles.length :=
    h.index mk hmk (.inr (by simp [hpc, JoinerPc.isUpdate]))
  have hkept : f.kept cfg as = f.store.storedIds ++ (mk.exampleIds ++
      (cfg.common k.rest ++ cfg.common (queuedIds (f.queue ++ coming as)))) := by
    have hlive : f.liveIds as = mk.exampleIds := by simp [liveIds, hmk, hpc]
    rw [kept, hlive, hpc, Config.common_append]
    rfl
  have hrename := hsynced.renameDataBlockMeta_eq hindex
  have hlive' : ∀ st : Store ι ρ,
      (({ f with store := st } : RaisingFollower ι ρ).raise mk).liveIds as = [] := by
    intro st
    refine (liveIds_raise rfl hclosed).trans ?_
    rw [hrenamed]
    rfl
  cases hout : o.metaRename with
  | returns =>
    obtain ⟨hret, hsynced', hfiles⟩ := hsynced.updateDataBlockMeta hindex
    have hstep : f.stepUpdate cfg.joiner o k = { f with
        store := (f.store.updateDataBlockMeta (mk.dataBlockMeta cfg.naming)).1
        joiner := { f.joiner with pc := .close k } } := by
      refine stepUpdate_of_returned hmk ?_
      rw [hout, hrename]
      exact Prod.ext rfl hret
    rw [hstep]
    refine Progress.of_kept ⟨?_, fun _ => hsynced', fun _ => hrenamed, ?_, h.ids, ?_, h.renamed,
      by rintro _ _ _ ⟨⟩, h.fresh, ?_⟩ ?_ (by simp)
    · have hcoming := h.coming
      simp only [Coming, hpc] at hcoming
      refine hcoming.imp id fun hc => ⟨hc.1, .inl ?_⟩
      exact hc.2.resolve_right fun hbehind => by simp at hbehind
    · intro hnone
      simp [hmk] at hnone
    · rintro _ _ (hnot | hup)
      · simp [hrenamed] at hnot
      · cases hup
    · intro hnone
      simpa [hpc] using h.taken hnone
    · have hlive : ({ f with
          store := (f.store.updateDataBlockMeta (mk.dataBlockMeta cfg.naming)).1
          joiner := { f.joiner with pc := .close k } } : RaisingFollower ι ρ).liveIds as = [] := by
        simp [liveIds, hmk]
      rw [hkept, kept, hlive, Config.common_append, Store.storedIds, hfiles]
      simp [Store.storedIds, DataBlockMaker.dataBlockMeta, JoinerPc.rest]
  | raisesBefore =>
    rw [stepUpdate_of_raised hmk (by rw [hout]; exact hrename .raisesBefore)]
    refine Progress.of_lost (h.raise rfl hclosed hids (by simp [hrenamed])) hkept rfl ?_ ?_
    · rw [hlive']
      exact List.nil_sublist _
    · rw [hlive']
      simp [hids.symm]
  | raisesAfter =>
    rw [stepUpdate_of_raised hmk (by rw [hout]; exact hrename .raisesAfter)]
    -- The block is stored, only the rest of the batch is lost.
    have hkept' : f.kept cfg as = (f.store.storedIds ++ mk.exampleIds) ++ ([] ++
        (cfg.common k.rest ++ cfg.common (queuedIds (f.queue ++ coming as)))) := by
      rw [hkept, List.append_assoc, List.nil_append]
    refine Progress.of_lost (h.raise rfl hclosed hids (by simp [hrenamed])) hkept' ?_
      (List.Sublist.refl []) (by simp)
    rw [kept, hlive']
    simp [raise, Joiner.raise, Store.storedIds, DataBlockMaker.dataBlockMeta, JoinerPc.rest]

theorem close_progress {o : Outcome} {k : Finalizing ι} (h : f.Inv as)
    (hpc : f.joiner.pc = .close k) :
    Progress cfg f (f.stepClose o k) as (o.infoRaises = true → cfg.common k.rest = []) := by
  have hrenamed := h.finalizing (.inr (by simp [hpc, JoinerPc.isClose]))
  have hsynced := h.synced (.inr (.inr (by simp [hpc, JoinerPc.isClose])))
  obtain ⟨mk, hmk⟩ := h.exists_maker (.inl hrenamed)
  have hids := h.ids mk hmk
  have hclosed := h.renamed mk hmk hrenamed
  have hkept : f.kept cfg as = f.store.storedIds ++ ([] ++
      (cfg.common k.rest ++ cfg.common (queuedIds (f.queue ++ coming as)))) := by
    have hlive : f.liveIds as = [] := by simp [liveIds, hmk, hpc]
    rw [kept, hlive, hpc, Config.common_append]
    rfl
  cases hinfo : o.infoRaises with
  | true =>
    have hstep : f.stepClose o k = f.raise mk := by simp [stepClose, hmk, hinfo]
    have hlive' : (f.raise mk).liveIds as = [] := by
      refine (liveIds_raise rfl hclosed).trans ?_
      rw [hrenamed]
      rfl
    rw [hstep]
    refine Progress.of_lost (h.raise rfl hclosed hids (by simp [hrenamed])) hkept ?_
      (List.Sublist.refl []) (by simp)
    rw [kept, hlive']
    rfl
  | false =>
    have hstep : f.stepClose o k =
        { f with joiner := Joiner.stepClose f.joiner k, tmpRenamed := false } := by
      simp [stepClose, hmk, hinfo]
    have hplace : (Joiner.stepClose f.joiner k).dataBlockMaker = none ∧
        (Joiner.stepClose f.joiner k).lastFinished = f.joiner.lastFinished ∧
        (Joiner.stepClose f.joiner k).pc.rest = k.rest ∧
        (Joiner.stepClose f.joiner k).pc.isStoring = false ∧
        (Joiner.stepClose f.joiner k).pc.isUpdate = false ∧
        (Joiner.stepClose f.joiner k).pc.isClose = false := by
      cases k <;> exact ⟨rfl, rfl, rfl, rfl, rfl, rfl⟩
    obtain ⟨hnone, hlast, hrest, hstoring, hup, hclose⟩ := hplace
    rw [hstep]
    refine Progress.of_kept ⟨?_, fun _ => hsynced, ?_, fun _ => ⟨rfl, hstoring⟩, ?_, ?_, ?_, ?_, ?_,
      ?_⟩ ?_ (by simp)
    · have hcoming := h.coming
      simp only [Coming, hpc] at hcoming
      cases k with
      | inBatch rest finished =>
        refine hcoming.imp id fun hc => ⟨hc.1, .inl ?_⟩
        exact hc.2.resolve_right fun hbehind => by simp at hbehind
      | afterBatch =>
        obtain ⟨hgot, -⟩ | ⟨hnil, -⟩ := hcoming
        · cases hgot
        · exact .inr ⟨hnil, .inr ⟨.inr rfl, .inl rfl⟩⟩
      | afterFlush finished =>
        refine hcoming.imp id fun hc => ?_
        simp [JoinerPc.gotFinal, Finalizing.gotFinal] at hc
    · rintro (hpc | hpc)
      · simp [hup] at hpc
      · simp [hclose] at hpc
    · intro mk' hmk'
      simp [hnone] at hmk'
    · intro mk' hmk'
      simp [hnone] at hmk'
    · intro mk' hmk'
      simp [hnone] at hmk'
    · intro mk' _ hmk'
      simp [hnone] at hmk'
    · intro mk' hmk'
      simp [hnone] at hmk'
    · intro hnot
      rw [hlast] at hnot
      simpa [hpc] using h.taken hnot
    · rw [hkept, kept, liveIds_of_none hnone, hrest, Config.common_append]

end RaisingFollower

end DataJoin
