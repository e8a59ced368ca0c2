-- SUMMARY: A PSI application of two parties from their tables to an output file: the buckets, the scheduler, the flow of each block and the writer composed, and that the file has the common rows.
import NineNMpc.Psi.BlockRows
import NineNMpc.Psi.OutputFile
import NineNMpc.Psi.CsvHash
import NineNMpc.Psi.RunAppCorrect
import NineNMpc.Psi.Session

/-!
# A PSI application

`run_app` of `psi_actors.py` on both sides, for single files. Each party cuts its table into
buckets by the hashes of the ids; the two actors that work on a block run `psi_sender` and
`psi_receiver` of `interconnection_psi/api.py`, a session with keys of its own for every block
and with the result sent to both; the outputs of the jobs are written to one file.
-/

namespace Psi.EndToEnd

open Repartition

variable {φ : Type}

/-- A party's arguments of `run_app`, with its file already read. -/
structure Party (φ : Type) where
  table : Table φ
  exampleIdName : ColumnRef
  maxActors : Nat

variable {H : Hasher φ} {op : SimpleSortOp} {C : Crypto}

/-! ## From a table to its blocks -/

/-- `repartition_for_existed_data` and `add_schema_to_all_empty_blocks`. -/
def Party.dataBlocks (H : Hasher φ) (op : SimpleSortOp) (p : Party φ) (bucketNum : Nat) :
    Except ActionError (List (Table φ)) := do
  let dataBlocks ← repartitionForExistedData H op p.exampleIdName p.table bucketNum
  addSchemaToAllEmptyBlocks dataBlocks

/-- The column of the ids. -/
def Party.idIndex (p : Party φ) : Option Nat :=
  match p.table.getActualColumnName p.exampleIdName 0 with
  | .ok column => p.table.fieldIndex column
  | .error _ => none

abbrev Party.Row (p : Party φ) : Type := Repartition.Row φ p.table.columnNames.length

def Party.id (p : Party φ) (row : p.Row) : PyValue φ :=
  match p.idIndex with
  | some i => row.cell i
  | none => .none

/-- The hash of an id, which is encoded by the type of the first one. -/
def Party.idHash (H : Hasher φ) (p : Party φ) (row : p.Row) : Option Digest := do
  let typ ← (p.table.rows.head?.bind fun row => (p.id row).idType)
  let b ← (encode H typ (p.id row)).toOption
  some (H.hash16 b)

theorem addHashColumn_hashedMod {ρ : Type} {idOf : ρ → PyValue φ} {df : List ρ} {n : Nat}
    {t : List (HashedRow ρ)} (h : addHashColumn H idOf df n = .ok t) (hn : n ≠ 0) :
    ∀ a ∈ t, a.hashedMod = some ((digestNat a.hashed % n : Nat) : Int) := by
  unfold addHashColumn at h
  split at h
  · cases h
  · split at h
    · cases h
    · obtain ⟨hashedId, -, h⟩ := Except.bind_eq_ok_iff.mp h
      rw [if_neg hn] at h
      obtain ⟨hashedMod, hmod, h⟩ := Except.bind_eq_ok_iff.mp h
      have hall := List.forall₂_of_mapM_eq_ok hmod
      obtain rfl := Except.ok.inj h
      intro a ha
      obtain ⟨i, hi, rfl⟩ := List.getElem_of_mem ha
      simp only [List.length_zipWith, List.length_zip] at hi
      have hid : i < hashedId.length := by omega
      have hlt : i < hashedMod.length := by omega
      have hpair : (toInt16 (digestNat hashedId[i] % n)).map some = .ok hashedMod[i] :=
        hall.get hid hlt
      simp only [List.getElem_zipWith, List.getElem_zip]
      unfold toInt16 at hpair
      split at hpair
      · exact (Except.ok.inj hpair).symm
      · cases hpair

/-- The buckets of a table that was repartitioned. -/
theorem repartitionByHash_ok {ρ : Type} {idOf : ρ → PyValue φ} {df : List ρ} {n : Nat}
    {blocks : List (List (HashedRow ρ))} (h : repartitionByHash H op idOf df n = .ok blocks) :
    n ≠ 0 ∧ ∃ t, addHashColumn H idOf df n = .ok t ∧
      List.Bucketing (fun a => digestNat a.hashed % n) n t blocks := by
  obtain ⟨t, ht, h⟩ := Except.bind_eq_ok_iff.mp h
  split at h
  · cases h
  · next hn =>
    obtain rfl := Except.ok.inj h
    refine ⟨hn, t, ht, ?_⟩
    have hpos : 1 ≤ n := Nat.one_le_iff_ne_zero.mpr hn
    have hop := op.bucketing (fun x : HashedRow ρ => x.hashedMod.getD 0) (boundaries n) t
    rw [length_boundaries hpos] at hop
    refine hop.congr fun a ha => ?_
    rw [addHashColumn_hashedMod ht hn a ha, Option.getD_some,
      countP_boundaries (Nat.mod_lt _ hpos)]

/-- A party's rows with their hashes. -/
structure Party.HashedRows (H : Hasher φ) (p : Party φ) where
  rows : List (HashedRow p.Row)
  rows_eq : rows.map (·.row) = p.table.rows
  hashed : ∀ a ∈ rows, p.idHash H a.row = some a.hashed

/-- The buckets of these rows. -/
structure Party.Buckets (H : Hasher φ) (p : Party φ) (n : Nat) (dataBlocks : List (Table φ))
    extends p.HashedRows H where
  buckets : List (List (HashedRow p.Row))
  bucketing : List.Bucketing (fun a => digestNat a.hashed % n) n rows buckets
  pos : n ≠ 0
  length : dataBlocks.length = n
  bucket : ∀ i < n, IsBucket (dataBlocks.getD i ⟨[], []⟩) p.table.columnNames (buckets.getD i [])

theorem Party.idHash_eq {p : Party φ} {i : Nat} {typ : IdType} {row : p.Row} {b : Bytes}
    (hi : p.idIndex = some i) (htyp : ∀ row ∈ p.table.rows.head?, (row.cell i).idType = some typ)
    (hne : p.table.rows ≠ []) (hb : encode H typ (row.cell i) = .ok b) :
    p.idHash H row = some (H.hash16 b) := by
  obtain ⟨head, tail, hrows⟩ := List.exists_cons_of_ne_nil hne
  have hhead : (head.cell i).idType = some typ := htyp head (by simp [hrows])
  simp [Party.idHash, Party.id, hi, hrows, hhead, hb, Except.toOption]

/-- What `add_hash_column` makes of a party's rows. -/
theorem Party.exists_hashedRows {p : Party φ} {i n : Nat} {rows : List (HashedRow p.Row)}
    (hi : p.idIndex = some i)
    (h : Repartition.addHashColumn H (·.cell i) p.table.rows n = .ok rows) :
    ∃ hashed : p.HashedRows H, hashed.rows = rows := by
  obtain ⟨hmap, typ, htyp, hhash⟩ := addHashColumn_ok h
  refine ⟨⟨rows, hmap, fun a ha => ?_⟩, rfl⟩
  obtain ⟨b, hb, hab⟩ := hhash a ha
  rw [hab]
  refine Party.idHash_eq hi ?_ ?_ hb
  · intro row hrow
    exact htyp _ (by rw [List.head?_map, Option.mem_def.mp hrow]; rfl)
  · intro hnil
    rw [hnil, List.map_eq_nil_iff] at hmap
    rw [hmap] at ha
    cases ha

/-- The blocks of a party are its buckets, where the empty ones have got columns. -/
theorem isBucket_of_addSchema {columns : List String} {dataBlocks : List (Table φ)}
    {buckets : List (List (HashedRow (Repartition.Row φ columns.length)))}
    (h : addSchemaToAllEmptyBlocks (buckets.map (Table.ofBlock columns)) = .ok dataBlocks) :
    dataBlocks.length = buckets.length ∧ ∀ i < buckets.length,
      IsBucket (dataBlocks.getD i ⟨[], []⟩) columns (buckets.getD i []) := by
  unfold addSchemaToAllEmptyBlocks at h
  split at h
  · cases h
  · next newEmptyBlock hlast =>
    obtain rfl := Except.ok.inj h
    refine ⟨by simp, fun i hi => ?_⟩
    obtain ⟨hmem, hrows⟩ := List.mem_filter.mp (List.mem_of_getLast? hlast)
    obtain ⟨block, -, rfl⟩ := List.mem_map.mp hmem
    have hcolumns := ofBlock_columnNames (by simpa using hrows)
    simp only [List.getD_eq_getElem?_getD, List.getElem?_map, List.getElem?_eq_getElem hi,
      Option.map_some, Option.getD_some]
    split
    · next hempty =>
      rw [cells_ofBlock.mp (List.isEmpty_iff.mp hempty)]
      exact .empty hcolumns
    · next hfull =>
      refine .ofBlock fun hnil => hfull ?_
      rw [hnil]
      rfl

theorem Party.exists_buckets {p : Party φ} {n : Nat} {dataBlocks : List (Table φ)}
    (h : p.dataBlocks H op n = .ok dataBlocks) : Nonempty (p.Buckets H n dataBlocks) := by
  obtain ⟨blocks, hblocks, hschema⟩ := Except.bind_eq_ok_iff.mp h
  obtain ⟨column, hcolumn, hblocks⟩ := Except.bind_eq_ok_iff.mp hblocks
  split at hblocks
  · cases hblocks
  · next i hi =>
    split at hblocks
    · cases hblocks
    · next buckets hrep =>
      obtain rfl := Except.ok.inj hblocks
      obtain ⟨hn, rows, hrows, hbucketing⟩ := repartitionByHash_ok hrep
      obtain ⟨hashed, rfl⟩ :=
        Party.exists_hashedRows (by simp [Party.idIndex, hcolumn, hi]) hrows
      obtain ⟨hlength, hbucket⟩ := isBucket_of_addSchema hschema
      rw [hbucketing.length] at hlength hbucket
      exact ⟨⟨hashed, buckets, hbucketing, hn, hlength, hbucket⟩⟩

/-! ## The job of a block, on both sides -/

/-- The session of a block; `send_back` is true. -/
def blockSession (C : Crypto) (order : Handshake.SetOrder) (key : Rank → C.Scalar)
    (psiIn : Rank → Table φ) : Session.Args where
  crypto := C
  ids r := (psiIn r).column0
  key := key
  batch := 10 * 10000
  sendBack _ := true
  order := order

/-- A block that both parties have worked on: what they read, a complete run of their session, and
    what each `do_action` returned. -/
structure BlockRun (H : Hasher φ) (C : Crypto) (ref : Rank → ColumnRef)
    (block : Rank → BlockData φ) where
  psiIn : Rank → Table φ
  name : Rank → String
  order : Handshake.SetOrder
  key : Rank → C.Scalar
  actions : List Session.Action
  last : Session.State
  result : Rank → ActionResult φ
  read : ∀ r, readBlockData H (ref r) (block r) = .ok (psiIn r, name r)
  run : (Session.session (blockSession C order key psiIn)).run
    (Session.init (blockSession C order key psiIn)) actions = some last
  finished : ∀ r, (last.flow.party r).finished
  returned : ∀ r, doAction H (fun _ => some (last.flow.party r).store.localTakeIndex) (ref r)
    (block r) = .ok (result r)

variable {ref : Rank → ColumnRef} {block : Rank → BlockData φ}

/-- The common configuration of the flow. -/
def BlockRun.config (run : BlockRun H C ref block) : Psi.Config :=
  (blockSession C run.order run.key run.psiIn).config .receiver

/-- No two ids of the block have one double encryption. -/
def BlockRun.NoCollision (run : BlockRun H C ref block) : Prop := run.config.NoCollision

/-- A job's output has the rows of its block whose hash the other block has. -/
theorem BlockRun.output (run : BlockRun H C ref block) (hcomm : C.Commutes)
    (hinj : run.NoCollision) {columns : Rank → List String}
    {rows : (r : Rank) → List (HashedRow (Repartition.Row φ (columns r).length))}
    (hrows : ∀ r, (run.psiIn r).cells = (rows r).map HashedRow.psiCells ∧
      (run.psiIn r).columnNames.idxOf hashedValueColumn = 0) (r : Rank) :
    (run.result r).output.cells =
      (doPsi (rows r) (rows r.next)).map fun x => x.row.1 := by
  have hcells : ∀ q, (run.psiIn q).cells = (rows q).map HashedRow.psiCells := fun q => (hrows q).1
  have hids : ∀ q, run.config.ids q = (rows q).map (·.hashed.1) := fun q =>
    column0_psiCells (hcells q)
  have hagree : (blockSession C run.order run.key run.psiIn).Agree := rfl
  obtain ⟨bs, hbs⟩ := Session.flow_run hagree run.run
  have hflow : flowResult run.config run.last.flow r (rows r) =
      some (some ((rows r).filter fun x => x.hashed.1 ∈ run.config.ids r.next)) :=
    flowResult_of_needRecvCipher hcomm hinj (hids r).symm hbs run.finished rfl
  have hmapM : (run.last.flow.party r).store.localTakeIndex.mapM (fun i => (rows r)[i]?) =
      some ((rows r).filter fun x => x.hashed.1 ∈ run.config.ids r.next) := by
    have hneed : run.config.needRecvCipher r = true := rfl
    rw [flowResult, if_pos hneed] at hflow
    obtain ⟨taken, htaken, heq⟩ := Option.map_eq_some_iff.mp hflow
    rw [htaken, Option.some.inj heq]
  rw [(doAction_ok (run.returned r) (run.read r)).2,
    (hrows r).2, hcells r]
  have hget : ∀ i : Nat, (((rows r).map HashedRow.psiCells)[i]?.map (·.eraseIdx 0)) =
      ((rows r)[i]?).map fun x => x.row.1 := by
    intro i
    rw [List.getElem?_map, Option.map_map]
    rfl
  simp only [Option.getD_some, hget]
  rw [← List.map_filterMap, List.filterMap_eq_of_mapM_eq_some hmapM, hids r.next]
  congr 1
  refine List.filter_congr fun x _ => decide_eq_decide.mpr ?_
  simp only [List.mem_map]
  constructor
  · rintro ⟨y, hy, hxy⟩
    exact ⟨y, hy, Subtype.ext hxy⟩
  · rintro ⟨y, hy, hxy⟩
    exact ⟨y, hy, congrArg Subtype.val hxy⟩

/-! ## The schedulers and the output file -/

/-- Both parties with their blocks, and every block after its job on both sides. -/
structure Application (H : Hasher φ) (op : SimpleSortOp) (C : Crypto) (p : Rank → Party φ) where
  bucketNum : Nat
  dataBlocks : Rank → List (Table φ)
  blocks : ∀ r, (p r).dataBlocks H op bucketNum = .ok (dataBlocks r)
  job : (i : Fin bucketNum) →
    BlockRun H C (fun r => (p r).exampleIdName) fun r => .block ((dataBlocks r).getD i ⟨[], []⟩)

variable {p : Rank → Party φ}

/-- The schedulers of the application. -/
def Application.config (app : Application H op C p) (r : Rank) :
    RunApp.Config (Table φ) (Table φ) where
  dataType := .file
  data := app.dataBlocks r
  maxActors := (p r).maxActors
  doAction i data :=
    if h : i < app.bucketNum then
      let result := (app.job ⟨i, h⟩).result r
      (result.originalDataStatus, result.joinedDataStatus, result.output)
    else ((0, 0, 0), (0, 0, 0), data)

/-- A party's rows whose hashed id the other one has, too. -/
def intersection (H : Hasher φ) (p : Rank → Party φ) (r : Rank) : List (p r).Row :=
  (p r).table.rows.filter fun row =>
    (p r).idHash H row ∈ (p r.next).table.rows.map ((p r.next).idHash H)

/-- The columns of the first block's output. -/
def headerColumns (H : Hasher φ) (p : Party φ) (bucketNum : Nat) : List String :=
  if p.table.rows.any fun row => (p.idHash H row).any fun d => digestNat d % bucketNum = 0 then
    p.table.columnNames
  else hashedModValueColumn :: p.table.columnNames

/-- The rows of the intersection, from the hashed rows. -/
theorem map_doPsi (hashed : (r : Rank) → (p r).HashedRows H) (r : Rank) :
    (doPsi (hashed r).rows (hashed r.next).rows).map (·.row) = intersection H p r := by
  have hhash : (p r.next).table.rows.map ((p r.next).idHash H) =
      (hashed r.next).rows.map fun a => some a.hashed := by
    rw [← (hashed r.next).rows_eq, List.map_map]
    exact List.map_congr_left fun a ha => (hashed r.next).hashed a ha
  rw [intersection, hhash, ← (hashed r).rows_eq, List.filter_map, doPsi, List.semijoin]
  congr 1
  refine List.filter_congr fun a ha => decide_eq_decide.mpr ?_
  rw [(hashed r).hashed a ha]
  simp only [List.mem_map, Option.some.injEq]

theorem digestNat_mod_congr {ρ σ : Type} (n : Nat) (x : HashedRow ρ) (y : HashedRow σ)
    (h : x.hashed = y.hashed) : digestNat x.hashed % n = digestNat y.hashed % n := by rw [h]

/-- The buckets joined one by one have the rows of the intersection. -/
theorem Party.Buckets.join_perm {n : Nat} {dataBlocks : Rank → List (Table φ)}
    (b : (r : Rank) → (p r).Buckets H n (dataBlocks r)) (r : Rank) :
    ((List.zipWith doPsi (b r).buckets (b r.next).buckets).flatten.map (·.row)).Perm
      (intersection H p r) := by
  have hlt : ∀ a ∈ (b r).rows, digestNat a.hashed % n < n := fun a _ =>
    Nat.mod_lt _ (Nat.pos_of_ne_zero (b r).pos)
  have hjoin := (b r).bucketing.semijoin_perm (b r.next).bucketing hlt
    fun x _ y _ => digestNat_mod_congr n x y
  exact map_doPsi (fun q => (b q).toHashedRows) r ▸ hjoin.map (·.row)

theorem Party.Buckets.headerColumns_eq {p : Party φ} {n : Nat} {dataBlocks : List (Table φ)}
    (b : p.Buckets H n dataBlocks) : headerColumns H p n =
      if b.buckets.getD 0 [] = [] then hashedModValueColumn :: p.table.columnNames
      else p.table.columnNames := by
  have hperm := b.bucketing.perm 0 (Nat.pos_of_ne_zero b.pos)
  have hnil : b.buckets.getD 0 [] = [] ↔ ∀ a ∈ b.rows, ¬ digestNat a.hashed % n = 0 := by
    rw [← List.length_eq_zero_iff, hperm.length_eq, List.length_eq_zero_iff, List.filter_eq_nil_iff]
    simp
  have hany : (p.table.rows.any fun row => (p.idHash H row).any fun d => digestNat d % n = 0) = true ↔
      ∃ a ∈ b.rows, digestNat a.hashed % n = 0 := by
    rw [← b.rows_eq, List.any_map, List.any_eq_true]
    refine exists_congr fun a => and_congr_right fun ha => ?_
    simp [b.hashed a ha]
  unfold headerColumns
  by_cases h : ∃ a ∈ b.rows, digestNat a.hashed % n = 0
  · rw [if_pos (hany.mpr h), if_neg]
    intro h'
    obtain ⟨a, ha, hmod⟩ := h
    exact hnil.mp h' a ha hmod
  · rw [if_neg (mt hany.mp h), if_pos]
    exact hnil.mpr fun a ha hmod => h ⟨a, ha, hmod⟩

theorem join_map_join (ls : List (List String)) :
    String.join (ls.map String.join) = String.join ls.flatten := by
  induction ls with
  | nil => rfl
  | cons l ls ih => rw [List.map_cons, String.join_cons, ih, List.flatten_cons, String.join_append]

theorem lines_eq (enc : Encoder φ) (t : Table φ) :
    enc.lines t = String.join (t.cells.map enc.line) := by
  rw [Encoder.lines, Table.cells, List.map_map]
  rfl

/-- The lines of all outputs, in the order of the blocks. -/
theorem Application.rowsOf_outputs (app : Application H op C p) (hcomm : C.Commutes)
    (hinj : ∀ i, (app.job i).NoCollision)
    (b : (r : Rank) → (p r).Buckets H app.bucketNum (app.dataBlocks r)) (enc : Encoder φ) (r : Rank) :
    rowsOf enc (List.ofFn fun i => some ((app.job i).result r).output) =
      String.join (((List.zipWith doPsi (b r).buckets (b r.next).buckets).flatten.map (·.row)).map
        fun row => enc.line row.1) := by
  have houtput : ∀ i : Fin app.bucketNum, ((app.job i).result r).output.cells =
      (doPsi ((b r).buckets.getD i []) ((b r.next).buckets.getD i [])).map fun x => x.row.1 :=
    fun i => (app.job i).output hcomm (hinj i)
      (fun q => ((b q).bucket i i.2).readBlockData ((app.job i).read q)) r
  have hlists : (List.ofFn fun i => ((app.job i).result r).output.cells.map enc.line) =
      (List.zipWith doPsi (b r).buckets (b r.next).buckets).map fun l =>
        l.map fun x => enc.line x.row.1 := by
    refine List.ext_getElem (by simp [(b r).bucketing.length, (b r.next).bucketing.length])
      fun i hi hi' => ?_
    simp only [List.length_map, List.length_zipWith] at hi'
    have hmine : i < (b r).buckets.length := by omega
    have htheirs : i < (b r.next).buckets.length := by omega
    simp [houtput, hmine, htheirs]
  calc rowsOf enc (List.ofFn fun i => some ((app.job i).result r).output)
      = String.join (List.ofFn fun i => enc.lines ((app.job i).result r).output) := by
        have hsome : (List.ofFn fun i => some ((app.job i).result r).output) =
            (List.ofFn fun i => ((app.job i).result r).output).map some := by
          rw [List.map_ofFn]
          rfl
        rw [rowsOf, hsome, List.filterMap_map, Function.id_comp, List.filterMap_some, List.map_ofFn]
        rfl
    _ = String.join ((List.ofFn fun i =>
          ((app.job i).result r).output.cells.map enc.line).map String.join) := by
        rw [List.map_ofFn]
        simp only [lines_eq, Function.comp_def]
    _ = _ := by
        rw [hlists, join_map_join, List.map_map, List.map_flatten]
        rfl

variable {as : List (Rank × RunApp.Action)} {s : Rank → RunApp.App (Table φ) (Table φ)}

/-- Behind its loop a driver holds the outputs of all jobs, in the order of the blocks. -/
theorem Application.dataOutputRefs_eq (app : Application H op C p)
    (hactors : ∀ r, 1 ≤ (p r).maxActors)
    (hrun : (RunApp.twoParties app.config).run (fun r => RunApp.init (app.config r)) as = some s)
    {r : Rank} (hpc : (s r).pc.leftLoop = true) :
    (s r).dataOutputRefs = List.ofFn fun i => some ((app.job i).result r).output := by
  have hlength : ∀ q, (app.config q).data.length = app.bucketNum ∧ app.bucketNum ≠ 0 := by
    intro q
    obtain ⟨b⟩ := (app.blocks q |> Party.exists_buckets)
    exact ⟨b.length, b.pos⟩
  have hne : ∀ q, (app.config q).data ≠ [] := by
    intro q hnil
    have := hlength q
    simp [hnil] at this
    omega
  have hinv := RunApp.twoParties_inv hne hactors hrun r
  obtain ⟨-, hhandled⟩ := hinv.of_leftLoop hpc
  refine List.ext_getElem? fun i => ?_
  by_cases hi : i < app.bucketNum
  · have hdata : i < (app.config r).data.length := (hlength r).1 ▸ hi
    rw [(hhandled i hdata).output rfl, List.getElem?_ofFn]
    simp only [RunApp.Config.ref, Application.config, hi, ↓reduceDIte, ↓reduceIte]
    rw [show (app.dataBlocks r)[i]? = some _ from List.getElem?_eq_getElem hdata, Option.map_some]
  · rw [List.getElem?_eq_none, List.getElem?_eq_none]
    · simpa using hi
    · rw [hinv.outputs, (hlength r).1]
      omega

/-- A first block that is not null makes a new file, with its columns in the header. -/
theorem outputSingleOutputFile_cons (enc : Encoder φ) {dataFormat : DataFormat} (withHead : Bool)
    {outputDir : String} (file : Option String) (hformat : dataFormat.isParquet = false)
    (hcsv : (inferFormat outputDir).isParquet = false) (data : Table φ)
    (rest : List (Option (Table φ))) :
    ∃ out, outputSingleOutputFile enc dataFormat withHead outputDir (some data :: rest) file = .ok out ∧
      out.getD "" =
        (if withHead then enc.header data.columnNames else "") ++ rowsOf enc (some data :: rest) := by
  refine ⟨outputBlocks enc withHead outputDir 0 (some data :: rest) file, ?_, ?_⟩
  · simp [outputSingleOutputFile, hformat]
  · rw [outputBlocks, outputBlocks_succ hcsv]
    cases withHead <;>
      simp [outputBlock, writeDataToFilesystem, hcsv, Encoder.writeCsv, rowsOf, String.append_assoc]

/-- After a complete run of both parties the file has the header, and behind it the rows whose id the
    other party has, each as often as in the table. -/
theorem output_has_intersection (app : Application H op C p) (hcomm : C.Commutes)
    (hinj : ∀ i, (app.job i).NoCollision) (hactors : ∀ r, 1 ≤ (p r).maxActors)
    (hrun : (RunApp.twoParties app.config).run (fun r => RunApp.init (app.config r)) as = some s)
    {r : Rank} (hpc : (s r).pc.leftLoop = true) (enc : Encoder φ) {dataFormat : DataFormat}
    (hformat : dataFormat.isParquet = false) (withHead : Bool) {outputDir : String}
    (hcsv : (inferFormat outputDir).isParquet = false) (file : Option String) :
    ∃ (out : Option String) (rows : List (p r).Row),
      outputSingleOutputFile enc dataFormat withHead outputDir (s r).dataOutputRefs file = .ok out ∧
      rows.Perm (intersection H p r) ∧
      out.getD "" =
        (if withHead then enc.header (headerColumns H (p r) app.bucketNum) else "") ++
          String.join (rows.map fun row => enc.line row.1) := by
  have hbuckets : ∀ q, Nonempty ((p q).Buckets H app.bucketNum (app.dataBlocks q)) := fun q =>
    Party.exists_buckets (app.blocks q)
  let b := fun q => (hbuckets q).some
  have hpos : 0 < app.bucketNum := Nat.pos_of_ne_zero (b r).pos
  have hcolumns : ((app.job ⟨0, hpos⟩).result r).output.columnNames =
      headerColumns H (p r) app.bucketNum := by
    have hbucket := (b r).bucket 0 hpos
    have hread := (app.job ⟨0, hpos⟩).read r
    rw [(doAction_ok ((app.job ⟨0, hpos⟩).returned r) hread).1,
      hbucket.columns_of_readBlockData hread, (b r).headerColumns_eq]
  have hrefs := app.dataOutputRefs_eq hactors hrun hpc
  have hne : (List.ofFn fun i => some ((app.job i).result r).output) ≠ [] := by
    rw [← List.length_pos_iff, List.length_ofFn]
    exact hpos
  obtain ⟨first, rest, hcons⟩ := List.exists_cons_of_ne_nil hne
  obtain rfl : first = some ((app.job ⟨0, hpos⟩).result r).output := by
    have := congrArg (·[0]?) hcons
    simpa [hpos] using this.symm
  obtain ⟨out, hout, htext⟩ := outputSingleOutputFile_cons enc withHead file hformat hcsv
    ((app.job ⟨0, hpos⟩).result r).output rest
  refine ⟨out, _, ?_, Party.Buckets.join_perm b r, ?_⟩
  · rw [hrefs, hcons, hout]
  · rw [htext, hcolumns, ← hcons, app.rowsOf_outputs hcomm hinj b enc r]

namespace Sample

open Repartition.Sample (hasher stableSort)
open OutputSample (ids plainCsv)

inductive Id where
  | u2
  | u3
  deriving DecidableEq

/-- SHAKE-256 of the hashes of `"u2"` and `"u3"`, and its multiples by two, by three and by six on the
    curve. -/
def point : Id → Bool → Bool → Point
  | .u2, false, false =>
    ⟨[46, 166, 85, 246, 228, 10, 102, 100, 50, 196, 20, 164, 24, 247, 61, 245, 168, 9, 81,
      181, 24, 28, 248, 35, 36, 7, 108, 237, 239, 233, 167, 8], rfl⟩
  | .u2, true, false =>
    ⟨[143, 183, 129, 227, 46, 244, 182, 95, 96, 34, 68, 103, 105, 53, 156, 9, 103, 20, 128,
      32, 225, 248, 200, 239, 142, 0, 2, 211, 87, 231, 197, 126], rfl⟩
  | .u2, false, true =>
    ⟨[166, 63, 140, 164, 50, 115, 97, 116, 196, 16, 50, 4, 140, 139, 159, 33, 160, 170, 189,
      205, 238, 253, 208, 228, 173, 108, 17, 197, 29, 150, 109, 39], rfl⟩
  | .u2, true, true =>
    ⟨[238, 247, 168, 237, 92, 188, 255, 16, 232, 138, 43, 219, 103, 74, 112, 166, 72, 67, 251,
      228, 9, 83, 117, 241, 101, 55, 107, 244, 106, 218, 64, 2], rfl⟩
  | .u3, false, false =>
    ⟨[150, 78, 67, 212, 106, 157, 10, 149, 170, 135, 184, 8, 253, 119, 247, 94, 51, 110, 143,
      164, 13, 28, 229, 207, 211, 72, 171, 154, 114, 243, 122, 108], rfl⟩
  | .u3, true, false =>
    ⟨[234, 50, 183, 170, 127, 244, 47, 194, 13, 131, 57, 219, 161, 40, 25, 222, 237, 145, 180,
      173, 206, 37, 114, 215, 2, 177, 118, 30, 215, 40, 75, 81], rfl⟩
  | .u3, false, true =>
    ⟨[227, 65, 204, 14, 13, 66, 140, 247, 178, 76, 21, 163, 34, 189, 214, 188, 23, 218, 201,
      232, 45, 155, 38, 21, 64, 4, 255, 228, 243, 12, 18, 9], rfl⟩
  | .u3, true, true =>
    ⟨[81, 182, 169, 226, 250, 124, 36, 70, 154, 185, 176, 101, 240, 5, 11, 25, 24, 161, 154,
      221, 132, 201, 125, 69, 236, 102, 203, 78, 93, 104, 207, 54], rfl⟩

def table : List (Id × Bool × Bool) :=
  [.u2, .u3].flatMap fun x => [(x, false, false), (x, true, false), (x, false, true), (x, true, true)]

def classify (p : Point) : Option (Id × Bool × Bool) :=
  table.find? fun m => point m.1 m.2.1 m.2.2 = p

/-- The scalars two (`false`) and three (`true`); on other points the table says nothing. -/
def mul (k : Bool) (p : Point) : Point :=
  match classify p with
  | some (x, two, three) => point x (two || !k) (three || k)
  | none => p

theorem classify_point {x : Id} {two three : Bool} :
    classify (point x two three) = some (x, two, three) := by
  cases x <;> cases two <;> cases three <;> decide +kernel

theorem mul_comm {k l : Bool} {p : Point} : mul k (mul l p) = mul l (mul k p) := by
  cases hp : classify p with
  | none => simp [mul, hp]
  | some m =>
    obtain ⟨x, two, three⟩ := m
    simp only [mul, hp, classify_point]
    cases k <;> cases l <;> simp

def digest (x : String) : Bytes := (hasher.hash16 x.toUTF8.toList).1

def crypto : Crypto where
  Scalar := Bool
  shake256 := fun x => if x = digest "u2" then point .u2 false false else point .u3 false false
  mul := mul

/-- The sender has `"u2", "u3"`, and the receiver has `"u3"`. -/
def parties (r : Rank) : Party Empty where
  table := match r with
    | .sender => ids ["u2", "u3"]
    | .receiver => ids ["u3"]
  exampleIdName := .index 0
  maxActors := 1

theorem eq_ok_of_isOk {ε α : Type} {x : Except ε α} {a : α} (h : x.isOk = true) :
    x = .ok (x.toOption.getD a) := by
  cases x with
  | ok b => rfl
  | error e => cases h

def dataBlocks (r : Rank) : List (Table Empty) :=
  ((parties r).dataBlocks hasher stableSort 1).toOption.getD []

def firstBlock (r : Rank) : Table Empty := (dataBlocks r).getD 0 ⟨[], []⟩

section Block

variable (block : Rank → BlockData Empty)

def psiIn (r : Rank) : Table Empty × String :=
  (readBlockData hasher (.index 0) (block r)).toOption.getD (⟨[], []⟩, "")

def session : Session.Args :=
  blockSession crypto Handshake.Sample.insertionOrder (fun | .sender => false | .receiver => true)
    fun r => (psiIn block r).1

def repeated (n : Nat) (r : Rank) (t : Thread) : List Session.Action :=
  List.replicate n (.step r t)

def sessionSchedule : List Session.Action :=
  [.shakehand .sender, .shakehand .receiver, .shakehand .receiver, .shakehand .sender] ++
    repeated 1 .sender .calcuSend ++ repeated 1 .receiver .calcuSend ++
    repeated 6 .receiver .recvCalcu ++ repeated 5 .sender .recvCalcu ++
    repeated 3 .receiver .sendDualenc ++ repeated 3 .sender .sendDualenc ++
    repeated 4 .receiver .recvDualenc ++ repeated 5 .sender .recvDualenc

def sessionEnd : Session.State :=
  ((Session.session (session block)).run (Session.init (session block)) sessionSchedule).getD
    (Session.init (session block))

def doActionOf (r : Rank) : Except ActionError (ActionResult Empty) :=
  doAction hasher (fun _ => some ((sessionEnd block).flow.party r).store.localTakeIndex) (.index 0)
    (block r)

/-- Both parties have read the block, their session ends after the schedule, and their jobs return. -/
structure Runs : Prop where
  read : ∀ r, (readBlockData hasher (.index 0) (block r)).isOk = true
  run : ((Session.session (session block)).run (Session.init (session block))
    sessionSchedule).isSome = true
  finished : ∀ r, ((sessionEnd block).flow.party r).finished
  returned : ∀ r, (doActionOf block r).isOk = true
  ids : ∀ r, ∀ x ∈ (session block).ids r, x = digest "u2" ∨ x = digest "u3"

variable {block}

def Runs.blockRun (h : Runs block) : BlockRun hasher crypto (fun _ => .index 0) block where
  psiIn r := (psiIn block r).1
  name r := (psiIn block r).2
  order := (session block).order
  key := (session block).key
  actions := sessionSchedule
  last := sessionEnd block
  result r := (doActionOf block r).toOption.getD ⟨⟨[], []⟩, (0, 0, 0), (0, 0, 0)⟩
  read r := eq_ok_of_isOk (h.read r)
  run := by
    obtain ⟨s, hs⟩ := Option.isSome_iff_exists.mp h.run
    have hend : sessionEnd block = s := by rw [sessionEnd, hs, Option.getD_some]
    exact hend ▸ hs
  finished := h.finished
  returned r := eq_ok_of_isOk (h.returned r)

theorem Runs.noCollision (h : Runs block) : h.blockRun.NoCollision := by
  have hdistinct : mul false (mul true (crypto.shake256 (digest "u2"))) ≠
      mul false (mul true (crypto.shake256 (digest "u3"))) := by decide +kernel
  rintro x ⟨q, hx⟩ y ⟨r, hy⟩ hxy
  obtain rfl | rfl := h.ids q x hx <;> obtain rfl | rfl := h.ids r y hy
  · rfl
  · exact absurd hxy hdistinct
  · exact absurd hxy.symm hdistinct
  · rfl

end Block

theorem runs : Runs fun r => .block (firstBlock r) where
  read r := by cases r <;> decide +kernel
  run := by decide +kernel
  finished r := by cases r <;> decide +kernel
  returned r := by cases r <;> decide +kernel
  ids r := by cases r <;> decide +kernel

def application : Application hasher stableSort crypto parties where
  bucketNum := 1
  dataBlocks := dataBlocks
  blocks r := eq_ok_of_isOk (by cases r <;> decide +kernel)
  job i := by
    rw [show i.val = 0 from Nat.lt_one_iff.mp i.isLt]
    exact runs.blockRun

theorem noCollision_application (i : Fin 1) : (application.job i).NoCollision := by
  obtain rfl : i = ⟨0, Nat.zero_lt_one⟩ := Fin.ext (Nat.lt_one_iff.mp i.isLt)
  exact runs.noCollision

/-- Both drivers dispatch the block, both jobs complete, and both drivers take them up. -/
def schedule : List (Rank × RunApp.Action) :=
  [(.sender, .driver none), (.receiver, .driver none), (.sender, .driver none),
    (.receiver, .driver none), (.sender, .begin 0), (.receiver, .begin 0), (.sender, .complete 0),
    (.receiver, .complete 0), (.sender, .driver (some 0)), (.sender, .driver none)]

/-- The file of the sender, over an old one. -/
theorem sender_file : ∃ s out,
    (RunApp.twoParties application.config).run (fun r => RunApp.init (application.config r)) schedule =
      some s ∧
    outputSingleOutputFile plainCsv .csv true "/out/joined.csv" (s .sender).dataOutputRefs
      (some "old\n") = .ok out ∧ out.getD "" = "id\nu3\n" := by
  have hsome : ((RunApp.twoParties application.config).run
      (fun r => RunApp.init (application.config r)) schedule).isSome = true := by decide +kernel
  obtain ⟨s, hs⟩ := Option.isSome_iff_exists.mp hsome
  have hleft : ((RunApp.twoParties application.config).run
      (fun r => RunApp.init (application.config r)) schedule).any (fun s =>
        (s .sender).pc.leftLoop) = true := by decide +kernel
  rw [hs, Option.any_some] at hleft
  have hcsv : (inferFormat "/out/joined.csv").isParquet = false := by decide +kernel
  have hformat : DataFormat.csv.isParquet = false := rfl
  obtain ⟨out, rows, hout, hrows, htext⟩ := output_has_intersection application
    (fun _ _ _ => mul_comm) noCollision_application (fun r => by cases r <;> decide) hs hleft plainCsv
    hformat true hcsv (some "old\n")
  have hinter : (intersection hasher parties .sender).map (·.1) = [[.str "u3"]] := by decide +kernel
  have hcells : rows.map (·.1) = [[.str "u3"]] :=
    List.perm_singleton.mp (hinter ▸ hrows.map (·.1))
  have hcolumns : headerColumns hasher (parties .sender) 1 = ["id"] := by decide +kernel
  refine ⟨s, out, hs, hout, ?_⟩
  have hlines : rows.map (fun row => plainCsv.line row.1) = [[.str "u3"]].map plainCsv.line := by
    rw [← hcells, List.map_map]
    rfl
  rw [htext, hlines, show application.bucketNum = 1 from rfl, hcolumns]
  decide +kernel

end Sample

end Psi.EndToEnd
