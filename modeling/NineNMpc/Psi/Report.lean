-- SUMMARY: The result that run_app reports in an arbitrary run: which blocks it counts, and that it never claims more rows than there are.
import NineNMpc.Psi.EndToEnd
import NineNMpc.Psi.Totals

/-!
# The reported result

`generate_result` of `psi_actors.py` on what `get_results` returns. The messages of some
jobs may still be on their way then, and such a job is not counted at all: what is reported is
the result for the buckets of the other jobs. `percent` is the exact quotient here.
-/

namespace Psi.RunApp

variable {β γ : Type} {cfg : Config β γ} {s s' : App β γ}

/-- The `ret_result` of a PSI. -/
structure Result where
  localRows : Nat
  join : Nat
  percent : ℚ
  output : String

def generateResult (aggreResults : Stats × Stats) (outputDir : String) : Result where
  localRows := aggreResults.1.1
  join := aggreResults.2.1
  percent := if aggreResults.1.1 ≤ 0 then 0 else aggreResults.2.1 / aggreResults.1.1
  output := outputDir

/-! ## The blocks that are counted -/

namespace App

theorem stepDriver_returned {ready : Option Nat} {results : Stats × Stats}
    (hs : s.stepDriver ready = some s') (hpc : s'.pc = .returned results) :
    s.pc = .results ∧ results = s.dispatchActor.getResults := by
  unfold App.stepDriver at hs
  split at hs
  case h_1 i _ =>
    obtain rfl := Option.some.inj hs
    exfalso
    revert hpc
    unfold App.stepDispatch App.submit
    grind
  case h_2 =>
    exfalso
    revert hpc
    unfold App.stepWait at hs
    grind
  case h_3 =>
    obtain rfl := Option.some.inj hs
    exfalso
    revert hpc
    unfold App.stepNext App.submit
    grind
  case h_4 hresults =>
    obtain rfl := Option.some.inj hs
    exact ⟨hresults, (Pc.returned.inj hpc).symm⟩
  case h_5 => cases hs
  case h_6 => cases hs

theorem step_returned {action : Action} {results : Stats × Stats}
    (hs : (runApp cfg).step s action = some s') (hpc : s'.pc = .returned results) :
    s.pc = .returned results ∨ s.pc = .results ∧ results = s.dispatchActor.getResults := by
  cases action with
  | driver ready => exact .inr (stepDriver_returned hs hpc)
  | begin k =>
    left
    simp only [runApp, App.stepBegin] at hs
    split at hs
    · split at hs
      · obtain rfl := Option.some.inj hs
        exact hpc
      · cases hs
    · cases hs
  | complete k =>
    left
    simp only [runApp, App.stepComplete] at hs
    split at hs
    · obtain rfl := Option.some.inj hs
      exact hpc
    · cases hs
  | deliver a =>
    left
    simp only [runApp, App.stepDeliver] at hs
    split at hs
    · cases hs
    · obtain rfl := Option.some.inj hs
      exact hpc

/-- Behind the loop a block has been counted or not; there is nothing in between. -/
theorem Reported.getResults_eq (h : s.Reported cfg) (hpc : s.pc = .results) :
    ∃ K ⊆ Finset.range cfg.data.length, s.dispatchActor.getResults = ∑ k ∈ K, cfg.stats k := by
  obtain ⟨-, hhandled⟩ := h.inv.of_leftLoop (by rw [hpc]; rfl)
  refine ⟨(Finset.range cfg.data.length).filter fun k => s.dispatchActor.counted k ≠ 0,
    Finset.filter_subset _ _, ?_⟩
  rw [getResults_eq_sum, h.inv.ready.length, ← Finset.sum_filter_ne_zero]
  refine Finset.sum_congr rfl fun k hk => ?_
  obtain ⟨hk, hne⟩ := Finset.mem_filter.mp hk
  obtain ⟨heq, -⟩ | ⟨hzero, -⟩ := h.counted_cases (hhandled k (Finset.mem_range.mp hk)).completed
  · exact heq
  · exact absurd hzero hne

/-- What a run returns is the sum over the blocks of some jobs. -/
theorem returned_eq_sum {as : List Action} {results : Stats × Stats} (hn : cfg.data ≠ [])
    (hm : 1 ≤ cfg.maxActors) (hrun : (runApp cfg).run (init cfg) as = some s)
    (hpc : s.pc = .returned results) :
    ∃ K ⊆ Finset.range cfg.data.length, results = ∑ k ∈ K, cfg.stats k := by
  let P (s : App β γ) : Prop := s.Reported cfg ∧ ∀ results, s.pc = .returned results →
    ∃ K ⊆ Finset.range cfg.data.length, results = ∑ k ∈ K, cfg.stats k
  have hstep : ∀ s a s', P s → (runApp cfg).step s a = some s' → P s' := by
    rintro s a s' ⟨hreported, hreturned⟩ hs
    refine ⟨hreported.step hs, fun results hpc => ?_⟩
    obtain hbefore | ⟨hresults, rfl⟩ := step_returned hs hpc
    · exact hreturned results hbefore
    · exact hreported.getResults_eq hresults
  have hinit : P (init cfg) := ⟨reported_init hn hm, fun _ h => by cases h⟩
  exact ((runApp cfg).run_invariant hstep hrun hinit).2 results hpc

end App

/-- Each party of two runs its own scheduler. -/
theorem twoParties_run {cfg : Rank → Config β γ} {s : Rank → App β γ} {as : List (Rank × Action)}
    (hrun : (twoParties cfg).run (fun r => init (cfg r)) as = some s) (r : Rank) :
    ∃ bs, (runApp (cfg r)).run (init (cfg r)) bs = some (s r) := by
  refine (twoParties cfg).run_image (runApp (cfg r)) (fun s => s r) (fun s a s' hs => ?_) hrun
  simp only [twoParties] at hs
  split at hs
  case isFalse => cases hs
  case isTrue =>
    obtain ⟨app, happ, rfl⟩ := Option.map_eq_some_iff.mp hs
    by_cases hr : r = a.1
    · subst hr
      exact .inr ⟨a.2, by rw [Function.update_self]; exact happ⟩
    · exact .inl (Function.update_of_ne hr _ _)

end Psi.RunApp

/-! ## The rows that are counted -/

namespace Psi.EndToEnd

open Repartition RunApp

variable {φ : Type} {H : Hasher φ} {op : SimpleSortOp} {C : Crypto} {p : Rank → Party φ}

/-- The statistics count the rows that were read, and those of the output. -/
theorem doAction_status {psi : Table φ → Option (List Nat)} {ref : ColumnRef} {d : BlockData φ}
    {r : ActionResult φ} {data : Table φ} {name : String} (h : doAction H psi ref d = .ok r)
    (hread : readBlockData H ref d = .ok (data, name)) :
    r.originalDataStatus.1 = data.cells.length ∧ r.joinedDataStatus.1 = r.output.cells.length := by
  simp only [doAction, hread, Except.bind_eq_ok_iff, Except.ok.injEq, exists_eq_left'] at h
  obtain ⟨original, horiginal, joined, hjoined, output, hdrop, hr⟩ := h
  obtain rfl := Except.ok.inj hr
  obtain ⟨_, -, horiginal⟩ := Except.bind_eq_ok_iff.mp horiginal
  obtain ⟨_, -, hjoined⟩ := Except.bind_eq_ok_iff.mp hjoined
  obtain rfl := Except.ok.inj horiginal
  obtain rfl := Except.ok.inj hjoined
  refine ⟨by simp [Table.cells], ?_⟩
  rw [Table.cells_drop hdrop, List.length_map]
  simp [Table.cells]

/-- The bucket of a row. -/
def bucketOf (H : Hasher φ) (p : Party φ) (n : Nat) (row : p.Row) : Option Nat :=
  (p.idHash H row).map fun d => digestNat d % n

theorem sum_countP_eq {α : Type} (K : Finset Nat) (index : α → Option Nat) (l : List α) :
    ∑ k ∈ K, l.countP (fun a => index a = some k) = l.countP fun a => (index a).any (· ∈ K) := by
  induction l with
  | nil => simp
  | cons a l ih =>
    simp only [List.countP_cons, Finset.sum_add_distrib, ih]
    congr 1
    cases index a with
    | none => simp
    | some k => simp

theorem Party.Buckets.bucketOf_eq {p : Party φ} {n : Nat} {dataBlocks : List (Table φ)}
    (b : p.Buckets H n dataBlocks) {a : HashedRow p.Row} (ha : a ∈ b.rows) :
    bucketOf H p n a.row = some (digestNat a.hashed % n) := by
  rw [bucketOf, b.hashed a ha, Option.map_some]

/-- A bucket has the rows that belong to it. -/
theorem Party.Buckets.length_bucket {p : Party φ} {n k : Nat} {dataBlocks : List (Table φ)}
    (b : p.Buckets H n dataBlocks) (hk : k < n) :
    (b.buckets.getD k []).length = p.table.rows.countP fun row => bucketOf H p n row = some k := by
  rw [(b.bucketing.perm k hk).length_eq, ← List.countP_eq_length_filter, ← b.rows_eq, List.countP_map]
  refine List.countP_congr fun a ha => ?_
  simp [b.bucketOf_eq ha]

variable {n k : Nat} {dataBlocks : Rank → List (Table φ)} {r : Rank}

/-- The join of two buckets has the rows of the intersection that belong to the bucket. -/
theorem Party.Buckets.length_join (b : (r : Rank) → (p r).Buckets H n (dataBlocks r)) (hk : k < n) :
    (doPsi ((b r).buckets.getD k []) ((b r.next).buckets.getD k [])).length =
      (intersection H p r).countP fun row => bucketOf H (p r) n row = some k := by
  have hjoin := (b r).bucketing.semijoin_bucket (b r.next).bucketing
    (fun x _ y _ => digestNat_mod_congr n x y) hk
  rw [← map_doPsi (fun q => (b q).toHashedRows) r, List.countP_map, doPsi, hjoin.length_eq,
    ← List.countP_eq_length_filter, doPsi]
  refine List.countP_congr fun a ha => ?_
  simp [(b r).bucketOf_eq (List.mem_of_mem_filter ha)]

/-- The rows that belong to these buckets. -/
def inBuckets (H : Hasher φ) (p : Party φ) (n : Nat) (K : Finset Nat) (rows : List p.Row) :
    List p.Row :=
  rows.filter fun row => (bucketOf H p n row).any (· ∈ K)

theorem length_inBuckets (p : Party φ) (K : Finset Nat) (rows : List p.Row) :
    (inBuckets H p n K rows).length = ∑ k ∈ K, rows.countP fun row => bucketOf H p n row = some k := by
  rw [inBuckets, ← List.countP_eq_length_filter, sum_countP_eq]

/-- A block's statistics. -/
theorem Application.stats_eq (app : Application H op C p) (hcomm : C.Commutes)
    (hinj : ∀ i, (app.job i).NoCollision)
    (b : (r : Rank) → (p r).Buckets H app.bucketNum (app.dataBlocks r)) (hk : k < app.bucketNum) :
    ((app.config r).stats k).1.1 =
        (p r).table.rows.countP (fun row => bucketOf H (p r) app.bucketNum row = some k) ∧
      ((app.config r).stats k).2.1 =
        (intersection H p r).countP fun row => bucketOf H (p r) app.bucketNum row = some k := by
  have hlt : k < (app.config r).data.length := (b r).length ▸ hk
  have hstats : (app.config r).stats k = (((app.job ⟨k, hk⟩).result r).originalDataStatus,
      ((app.job ⟨k, hk⟩).result r).joinedDataStatus) := by
    rw [Config.stats, List.getElem?_eq_getElem hlt]
    simp only [Application.config, hk, ↓reduceDIte]
  have hbucket := fun q => (b q).bucket k hk
  have hread := (app.job ⟨k, hk⟩).read
  obtain ⟨hlocal, hjoin⟩ := doAction_status ((app.job ⟨k, hk⟩).returned r) (hread r)
  rw [hstats, hlocal, hjoin, ← (b r).length_bucket hk, ← Party.Buckets.length_join b hk,
    ((hbucket r).readBlockData (hread r)).1, (app.job ⟨k, hk⟩).output hcomm (hinj ⟨k, hk⟩)
      (fun q => (hbucket q).readBlockData (hread q)) r]
  simp

variable {as : List (Rank × RunApp.Action)} {s : Rank → RunApp.App (Table φ) (Table φ)}

/-- Whatever messages are still on their way, the reported numbers are those of the rows in some of
    the buckets. -/
theorem report_counts_buckets (app : Application H op C p) (hcomm : C.Commutes)
    (hinj : ∀ i, (app.job i).NoCollision) (hactors : ∀ r, 1 ≤ (p r).maxActors)
    (hrun : (RunApp.twoParties app.config).run (fun r => RunApp.init (app.config r)) as = some s)
    {r : Rank} {results : Stats × Stats} (hpc : (s r).pc = .returned results) (outputDir : String) :
    ∃ K ⊆ Finset.range app.bucketNum,
      (generateResult results outputDir).localRows =
        (inBuckets H (p r) app.bucketNum K (p r).table.rows).length ∧
      (generateResult results outputDir).join =
        (inBuckets H (p r) app.bucketNum K (intersection H p r)).length ∧
      (generateResult results outputDir).join ≤ (generateResult results outputDir).localRows ∧
      0 ≤ (generateResult results outputDir).percent ∧
      (generateResult results outputDir).percent ≤ 1 := by
  have hbuckets : ∀ q, Nonempty ((p q).Buckets H app.bucketNum (app.dataBlocks q)) := fun q =>
    Party.exists_buckets (app.blocks q)
  let b := fun q => (hbuckets q).some
  have hlength : (app.config r).data.length = app.bucketNum := (b r).length
  have hne : (app.config r).data ≠ [] := by
    intro hnil
    rw [hnil] at hlength
    exact (b r).pos hlength.symm
  obtain ⟨bs, hbs⟩ := twoParties_run hrun r
  obtain ⟨K, hK, hresults⟩ := App.returned_eq_sum hne (hactors r) hbs hpc
  rw [hlength] at hK
  have hstats := fun k (hk : k ∈ K) =>
    app.stats_eq hcomm hinj b (r := r) (Finset.mem_range.mp (hK hk))
  have hlocal : results.1.1 = (inBuckets H (p r) app.bucketNum K (p r).table.rows).length := by
    rw [length_inBuckets, hresults, ← Finset.sum_congr rfl fun k hk => (hstats k hk).1]
    simp only [Prod.fst_sum]
  have hjoin : results.2.1 = (inBuckets H (p r) app.bucketNum K (intersection H p r)).length := by
    rw [length_inBuckets, hresults, ← Finset.sum_congr rfl fun k hk => (hstats k hk).2]
    simp only [Prod.fst_sum, Prod.snd_sum]
  have hle : results.2.1 ≤ results.1.1 := by
    rw [hlocal, hjoin]
    exact (List.filter_sublist.filter _).length_le
  refine ⟨K, hK, hlocal, hjoin, hle, ?_, ?_⟩
  · unfold generateResult
    dsimp only
    split
    · exact le_rfl
    · positivity
  · unfold generateResult
    dsimp only
    split
    · exact zero_le_one
    · next hpos =>
      have hlocalPos : (0 : ℚ) < results.1.1 := by exact_mod_cast Nat.lt_of_not_le hpos
      rw [div_le_one hlocalPos]
      exact_mod_cast hle

namespace Sample

/-- The sender returns before the message of its only job has arrived. -/
def early : List (Rank × RunApp.Action) := schedule ++ [(.sender, .driver none)]

/-- The report has no rows then. -/
theorem early_report : ∃ s results,
    (RunApp.twoParties application.config).run (fun r => RunApp.init (application.config r)) early =
      some s ∧
    (s .sender).pc = .returned results ∧
    (generateResult results "/out/joined.csv").join ≤
      (generateResult results "/out/joined.csv").localRows ∧
    (generateResult results "/out/joined.csv").percent ≤ 1 := by
  have hsome : ((RunApp.twoParties application.config).run
      (fun r => RunApp.init (application.config r)) early).isSome = true := by decide +kernel
  obtain ⟨s, hs⟩ := Option.isSome_iff_exists.mp hsome
  have hpc : ((RunApp.twoParties application.config).run
      (fun r => RunApp.init (application.config r)) early).any (fun s =>
        (s .sender).pc = .returned ((0, 0, 0), (0, 0, 0))) = true := by decide +kernel
  rw [hs, Option.any_some, decide_eq_true_iff] at hpc
  obtain ⟨-, -, -, -, hle, -, hpercent⟩ := report_counts_buckets application
    (fun _ _ _ => mul_comm) noCollision_application (fun r => by cases r <;> decide) hs hpc
    "/out/joined.csv"
  exact ⟨s, _, hs, hpc, hle, hpercent⟩

end Sample

end Psi.EndToEnd
