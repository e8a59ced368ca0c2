-- SUMMARY: The leader's saved metas and its buffer are consecutive pieces of the follower's metas; one lemma per operation.
import NineNMpc.DataJoin.Replication

/-!
# The invariant of the replication

The three copies of the index agree: the leader's saved metas are a prefix of the
follower's, its buffer is what follows up to the next index it reports, and whatever the
follower sends is one of its metas under its own index.
-/

namespace DataJoin.Replication

variable {ι ρ : Type}

/-- The meta that the saver is working on. -/
def SaverPc.current : SaverPc ι → Option (DataBlockMeta ι)
  | save m => some m
  | storeMeta m => some m
  | pop m => some m
  | _ => none

/-- The number of saved metas that are no longer in the buffer. -/
def DataBlockSaver.popped (sv : DataBlockSaver ι ρ) : Nat :=
  match sv.pc with
  | .pop _ => sv.store.metaFiles.length - 1
  | _ => sv.store.metaFiles.length

/-- The leader has buffered the first metas of the list `metas` and has saved some of these. -/
structure DataBlockSaver.Inv (sv : DataBlockSaver ι ρ) (metas : List (DataBlockMeta ι)) : Prop where
  store : sv.store.Synced
  saved : sv.store.metaFiles <+: metas
  saved_le : sv.store.metaFiles.length ≤ sv.nextDataBlockIndex
  next_le : sv.nextDataBlockIndex ≤ metas.length
  buffer : sv.dataBlockMetaBuffer = (metas.take sv.nextDataBlockIndex).drop sv.popped
  current : ∀ m, sv.pc.current = some m → sv.dataBlockMetaBuffer.head? = some m
  pop : ∀ m, sv.pc = .pop m → sv.store.metaFiles ≠ []

/-- The metas of the follower, each under its index and with its block id. -/
structure Numbered (naming : Naming ι) (metas : List (DataBlockMeta ι)) : Prop where
  index : metas.map (·.dataBlockIndex) = List.range metas.length
  named : ∀ m ∈ metas, m.withBlockId naming = m

structure State.Inv (naming : Naming ι) (s : State ι ρ) : Prop where
  follower : s.follower.Synced
  numbered : Numbered naming s.follower.metaFiles
  leader : s.leader.Inv s.follower.metaFiles
  call : ∀ m, s.call = .request (.syncPartition m) →
    s.follower.metaFiles[m.dataBlockIndex]? = some m

theorem Numbered.index_of_getElem? {naming : Naming ι} {metas : List (DataBlockMeta ι)} {i : Nat}
    {m : DataBlockMeta ι} (h : Numbered naming metas) (hm : metas[i]? = some m) :
    m.dataBlockIndex = i := by
  have := congrArg (·[i]?) h.index
  obtain ⟨hlt, rfl⟩ := List.getElem?_eq_some_iff.mp hm
  simpa [hlt] using this

theorem Numbered.append {naming : Naming ι} {metas : List (DataBlockMeta ι)} {m : DataBlockMeta ι}
    (h : Numbered naming metas) (hindex : m.dataBlockIndex = metas.length)
    (hname : m.withBlockId naming = m) : Numbered naming (metas ++ [m]) where
  index := by simp [h.index, hindex, List.range_succ]
  named := by
    intro m' hm'
    obtain hm' | rfl := List.mem_append.mp hm' |>.imp_right List.mem_singleton.mp
    · exact h.named m' hm'
    · exact hname

/-! ## The leader's operations -/

namespace DataBlockSaver

variable {naming : Naming ι} {sv sv' : DataBlockSaver ι ρ} {metas : List (DataBlockMeta ι)}
  {m : DataBlockMeta ι}

/-- Where nothing is about to be popped, the buffer starts behind the saved metas. -/
theorem popped_eq (h : ∀ m, sv.pc ≠ .pop m) : sv.popped = sv.store.metaFiles.length := by
  cases hpc : sv.pc with
  | pop m => exact absurd hpc (h m)
  | _ => simp only [popped, hpc]

theorem init_inv {dir : Store ι ρ} (h : dir.Synced) (hdir : dir.metaFiles <+: metas)
    (hlen : dir.metaFiles.length ≤ dataBlockIndexThreshold + 1) :
    (init dir).Inv metas := by
  have hs := h.reopen hlen
  have hp : dir.reopen.produced = dir.metaFiles.length := hs.produced
  have hle := hdir.length_le
  refine ⟨hs, hdir, ?_, ?_, ?_, ?_, ?_⟩
  · simp [init, hp]
  · simpa [init, hp] using hle
  · simp [init, popped, hp]
  · intro m hm
    simp [init, SaverPc.current] at hm
  · intro m hm
    simp [init] at hm

/-- More blocks on the follower's side. -/
theorem Inv.mono {metas' : List (DataBlockMeta ι)} (h : sv.Inv metas) (hmetas : metas <+: metas') :
    sv.Inv metas' := by
  obtain ⟨rest, rfl⟩ := hmetas
  refine { h with saved := ?_, next_le := ?_, buffer := ?_ }
  · exact h.saved.trans (List.prefix_append metas rest)
  · have := h.next_le
    simp only [List.length_append]
    omega
  · rw [List.take_append_of_le_length h.next_le]
    exact h.buffer

theorem Inv.popped_le (h : sv.Inv metas) : sv.popped ≤ sv.nextDataBlockIndex := by
  have := h.saved_le
  simp only [popped]
  split <;> omega

theorem Inv.append (h : sv.Inv metas) (hm : metas[m.dataBlockIndex]? = some m) :
    (sv.appendSentDataBlockMetaToBuffer m).1.Inv metas := by
  simp only [appendSentDataBlockMetaToBuffer]
  split
  · exact h
  · split
    · exact h
    · rename_i hnext
      simp only [ne_eq, not_not] at hnext
      obtain ⟨hlt, hget⟩ := List.getElem?_eq_some_iff.mp hm
      refine { h with saved_le := ?_, next_le := ?_, buffer := ?_, current := ?_ }
      · exact Nat.le_succ_of_le h.saved_le
      · simp only [hnext]
        omega
      · have hp := h.popped_le
        simp only [popped] at hp ⊢
        rw [List.take_add_one, List.drop_append_of_le_length, h.buffer, hnext, hm]
        · rfl
        · have := h.next_le
          rw [List.length_take]
          omega
      · intro m' hm'
        have := h.current m' hm'
        cases hb : sv.dataBlockMetaBuffer with
        | nil => simp [hb] at this
        | cons b bs => simpa [hb] using this

theorem Inv.serve (h : sv.Inv metas) {req : Request ι}
    (hreq : ∀ m, req = .syncPartition m → metas[m.dataBlockIndex]? = some m) :
    (sv.serve req).1.Inv metas := by
  cases req with
  | startPartition => exact h
  | syncPartition m => exact h.append (hreq m rfl)

/-- The head of the buffer is the first meta that is not saved. -/
theorem Inv.head_eq (h : sv.Inv metas) (hpc : ∀ m, sv.pc ≠ .pop m)
    (hm : sv.dataBlockMetaBuffer.head? = some m) :
    metas[sv.store.metaFiles.length]? = some m := by
  rw [h.buffer, popped_eq hpc, List.head?_drop, List.getElem?_take] at hm
  split at hm
  · exact hm
  · cases hm

/-- `_remove_saved_data_block_meta_from_buffer` finds nothing to remove. -/
theorem Inv.notify (h : sv.Inv metas) (hnum : Numbered naming metas)
    (hpc : ∀ m, sv.pc ≠ .pop m) : sv.notifyDataBlockManagerSyncState = (sv, true) := by
  have hkeep : sv.dataBlockMetaBuffer.dropWhile
      (fun m => m.dataBlockIndex < sv.store.metaFiles.length) = sv.dataBlockMetaBuffer := by
    cases hb : sv.dataBlockMetaBuffer with
    | nil => rfl
    | cons b bs =>
      have hhead := h.head_eq hpc (m := b) (by rw [hb]; rfl)
      have := hnum.index_of_getElem? hhead
      simp [this]
  simp only [notifyDataBlockManagerSyncState, removeSavedDataBlockMetaFromBuffer,
    h.store.acquireProducedDataBlockNumber]
  simp only [hkeep, ite_self]

/-- A saver step that changes no file and leaves the buffer alone. -/
theorem Inv.goto (h : sv.Inv metas) (hpc : ∀ m, sv.pc ≠ .pop m) {pc : SaverPc ι} {switch : Bool}
    (hpop : ∀ m, pc ≠ .pop m)
    (hcur : ∀ m, pc.current = some m → sv.dataBlockMetaBuffer.head? = some m) :
    ({ sv with stateSwitch := switch, pc := pc } : DataBlockSaver ι ρ).Inv metas := by
  refine { h with buffer := ?_, current := hcur, pop := fun m hm => absurd hm (hpop m) }
  rw [popped_eq hpop, ← popped_eq hpc]
  exact h.buffer

theorem Inv.stepIdle [DecidableEq ι] {items : ItemDict ι ρ} (h : sv.Inv metas)
    (hnum : Numbered naming metas) (hpc : sv.pc = .idle) (hs : sv.step naming items = some sv') :
    sv'.Inv metas := by
  have hne : ∀ m, sv.pc ≠ .pop m := by simp [hpc]
  simp only [step, hpc] at hs
  split at hs
  case isTrue => cases hs
  case isFalse =>
    rw [h.notify hnum hne] at hs
    cases hs
    exact h.goto hne (by simp) (by simp [SaverPc.current])

theorem Inv.stepSave [DecidableEq ι] {items : ItemDict ι ρ} (h : sv.Inv metas)
    (hnum : Numbered naming metas) (hpc : sv.pc = .save m) (hs : sv.step naming items = some sv') :
    sv'.Inv metas := by
  have hne : ∀ m', sv.pc ≠ .pop m' := by simp [hpc]
  have hhead := h.current m (by simp [hpc, SaverPc.current])
  simp only [step, hpc] at hs
  split at hs
  case isTrue =>
    cases hs
    exact h.goto hne (by simp) (by simp [SaverPc.current])
  case isFalse =>
    cases hs
    have hname : m.withBlockId naming = m :=
      hnum.named m (List.mem_of_getElem? (h.head_eq hne hhead))
    have hbuffer : m.withBlockId naming :: sv.dataBlockMetaBuffer.tail = sv.dataBlockMetaBuffer := by
      rw [hname]
      exact List.cons_head?_tail hhead
    refine ⟨h.store.saveData, h.saved, h.saved_le, h.next_le, ?_, ?_, by simp⟩
    · rw [popped_eq (by simp)]
      simp only [hbuffer, Store.saveData_metaFiles]
      rw [← popped_eq hne]
      exact h.buffer
    · intro m' hm'
      simpa [SaverPc.current] using hm'

theorem Inv.stepStoreMeta [DecidableEq ι] {items : ItemDict ι ρ} (h : sv.Inv metas)
    (hnum : Numbered naming metas) (hpc : sv.pc = .storeMeta m)
    (hs : sv.step naming items = some sv') : sv'.Inv metas := by
  have hne : ∀ m', sv.pc ≠ .pop m' := by simp [hpc]
  have hhead := h.current m (by simp [hpc, SaverPc.current])
  have hm := h.head_eq hne hhead
  obtain ⟨hok, hsync, hfiles⟩ := h.store.updateDataBlockMeta (hnum.index_of_getElem? hm)
  simp only [step, hpc] at hs
  split at hs
  case h_2 st hst => simp [hst] at hok
  case h_1 st hst =>
    cases hs
    simp only [hst] at hsync hfiles
    obtain ⟨hlt, hget⟩ := List.getElem?_eq_some_iff.mp hm
    have hne' : sv.dataBlockMetaBuffer ≠ [] := by
      intro hnil
      simp [hnil] at hhead
    have hbuf := h.buffer
    rw [popped_eq hne] at hbuf
    refine ⟨hsync, ?_, ?_, h.next_le, ?_, ?_, ?_⟩
    · -- the saved metas grow by the meta behind them
      rw [hfiles, List.prefix_iff_eq_take, List.length_append, List.length_singleton,
        List.take_add_one, hm, ← List.prefix_iff_eq_take.mp h.saved]
      rfl
    · rw [hfiles, List.length_append, List.length_singleton]
      by_contra hgt
      dsimp only at hgt
      apply hne'
      rw [hbuf, List.drop_eq_nil_iff, List.length_take]
      omega
    · rw [popped]
      simp only [hfiles, List.length_append, List.length_singleton, Nat.add_sub_cancel]
      exact hbuf
    · intro m' hm'
      simp only [SaverPc.current, Option.some.injEq] at hm'
      exact hm' ▸ hhead
    · simp [hfiles]

theorem Inv.stepPop [DecidableEq ι] {items : ItemDict ι ρ} (h : sv.Inv metas)
    (hpc : sv.pc = .pop m) (hs : sv.step naming items = some sv') : sv'.Inv metas := by
  have hhead := h.current m (by simp [hpc, SaverPc.current])
  have hlen : 0 < sv.store.metaFiles.length := List.length_pos_of_ne_nil (h.pop m hpc)
  have hbuf := h.buffer
  simp only [popped, hpc] at hbuf
  simp only [step, hpc] at hs
  split at hs
  case h_1 hnil => simp [hnil] at hhead
  case h_2 m' rest hcons =>
    have hm' : m' = m := by simpa [hcons] using hhead
    rw [if_pos hm'] at hs
    cases hs
    refine ⟨h.store, h.saved, h.saved_le, h.next_le, ?_, ?_, by simp⟩
    · rw [popped_eq (by simp)]
      have := congrArg List.tail hbuf
      rw [hcons, List.tail_cons, List.tail_drop, Nat.sub_add_cancel hlen] at this
      exact this
    · simp [SaverPc.current]

theorem Inv.step [DecidableEq ι] {items : ItemDict ι ρ} (h : sv.Inv metas)
    (hnum : Numbered naming metas) (hs : sv.step naming items = some sv') : sv'.Inv metas := by
  cases hpc : sv.pc with
  | idle => exact h.stepIdle hnum hpc hs
  | loop =>
    have hne : ∀ m, sv.pc ≠ .pop m := by simp [hpc]
    simp only [DataBlockSaver.step, hpc] at hs
    split at hs
    case h_1 hnil =>
      cases hs
      exact h.goto hne (by simp) (by simp [SaverPc.current])
    case h_2 m rest hcons =>
      cases hs
      exact h.goto hne (by simp) (by simp [SaverPc.current, hcons])
  | save m => exact h.stepSave hnum hpc hs
  | storeMeta m => exact h.stepStoreMeta hnum hpc hs
  | pop m => exact h.stepPop hpc hs

end DataBlockSaver

/-! ## Steps of the machine -/

variable {naming : Naming ι} {s s' : State ι ρ}

theorem initial_inv : (({} : State ι ρ)).Inv naming where
  follower := Store.synced_empty
  numbered := ⟨rfl, by simp⟩
  leader := DataBlockSaver.init_inv Store.synced_empty (List.nil_prefix) (by simp)
  call := by simp

/-- The follower's directory may change as long as its metas stay. -/
theorem State.Inv.follower_frame (h : s.Inv naming) {st : Store ι ρ} (hst : st.Synced)
    (hfiles : st.metaFiles = s.follower.metaFiles) : ({ s with follower := st } : State ι ρ).Inv naming where
  follower := hst
  numbered := by simpa only [hfiles] using h.numbered
  leader := by simpa only [hfiles] using h.leader
  call := by simpa only [hfiles] using h.call

/-- A new block with the next index. -/
theorem State.Inv.updateDataBlockMeta (h : s.Inv naming) {st : Store ι ρ} {m : DataBlockMeta ι}
    (hst : st.Synced) (hfiles : st.metaFiles = s.follower.metaFiles)
    (hindex : m.dataBlockIndex = s.follower.metaFiles.length) (hname : m.withBlockId naming = m) :
    ({ s with follower := (st.updateDataBlockMeta m).1 } : State ι ρ).Inv naming := by
  obtain ⟨_, hsync, hmetas⟩ := hst.updateDataBlockMeta (hfiles ▸ hindex)
  rw [hfiles] at hmetas
  refine ⟨hsync, ?_, ?_, ?_⟩
  · simpa only [hmetas] using h.numbered.append hindex hname
  · simpa only [hmetas] using h.leader.mono (List.prefix_append _ [m])
  · intro m' hm'
    have := h.call m' hm'
    obtain ⟨hlt, _⟩ := List.getElem?_eq_some_iff.mp this
    simp only [hmetas]
    rw [List.getElem?_append_left hlt, this]

theorem produce_inv (h : s.Inv naming) {ids : List ι} {records : List ρ} {startTime endTime : Int} :
    (produce naming s ids records startTime endTime).Inv naming := by
  simp only [produce, h.follower.acquireProducedDataBlockNumber]
  split
  · exact h.follower_frame h.follower rfl
  · exact h.updateDataBlockMeta h.follower.saveData rfl rfl rfl

theorem stepExecutor_inv (h : s.Inv naming) (hs : stepExecutor s = some s') : s'.Inv naming := by
  simp only [stepExecutor] at hs
  split at hs
  case h_1 =>
    split at hs
    · cases hs
    · cases hs
      exact { h with call := by simp }
  case h_2 =>
    cases hs
    exact { h with call := by simp }
  case h_3 =>
    split at hs
    · cases hs
      exact { h with }
    · obtain ⟨hsync, hfound⟩ :=
        h.follower.acquireDataBlockMetaByIndex s.executor.nextDataBlockIndex
      have hfiles := congrArg Prod.fst
        (Store.acquireDataBlockMetaByIndex_files s.follower
          s.executor.nextDataBlockIndex)
      simp only [Store.files] at hfiles
      split at hs
      case h_1 st m hst =>
        cases hs
        simp only [hst] at hsync hfound hfiles
        have hm := hfound m rfl
        refine { h.follower_frame hsync hfiles with call := ?_ }
        rintro m' ⟨⟩
        simp only [hfiles]
        rw [h.numbered.index_of_getElem? hm]
        exact hm
      case h_2 st r hr hst =>
        cases hs
        simp only [hst] at hsync hfiles
        exact { h.follower_frame hsync hfiles with }
  case h_4 =>
    cases hs
    exact { h with call := by simp }
  case h_5 =>
    cases hs
    exact { h with call := by simp }
  case h_6 =>
    cases hs
    exact { h with call := by simp }
  case h_7 => cases hs

theorem stepServer_inv (h : s.Inv naming) (hs : stepServer s = some s') : s'.Inv naming := by
  simp only [stepServer] at hs
  split at hs
  case h_1 req hreq =>
    cases hs
    refine { h with leader := h.leader.serve fun m hm => ?_, call := by simp }
    exact h.call m (by rw [hreq, hm])
  case h_2 => cases hs

theorem lose_inv (h : s.Inv naming) {call : Call (Request ι) Response}
    (hcall : s.call.loseRequest .failed = some call ∨ s.call.loseResponse .failed = some call) :
    ({ s with call } : State ι ρ).Inv naming := by
  refine { h with call := ?_ }
  have : ∃ rsp, call = .response rsp := by
    cases hc : s.call <;> simp [hc, Call.loseRequest, Call.loseResponse] at hcall <;>
      exact ⟨_, hcall.symm⟩
  obtain ⟨rsp, rfl⟩ := this
  simp

end DataJoin.Replication
