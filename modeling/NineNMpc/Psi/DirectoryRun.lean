-- SUMMARY: A PSI application of two parties on directories: their parts are intersected pair by pair, each in a file of its own, and no party with more parts than the other gets through.
import NineNMpc.Psi.DataPaths
import NineNMpc.Psi.EndToEnd
import NineNMpc.Psi.Totals

/-!
# A PSI application on directories

`run_app`, `do_action` and `_write_block_data` of `psi_actors.py` on both sides, when the path
is that of a directory. A part is a file of the directory, or the files of a subdirectory; it
is not cut into buckets, so the parts are blocks as they are, and the n-th part of one party
meets the n-th part of the other. A job writes the file of its part before it returns.
-/

namespace Psi.RunApp

/-! ## Jobs that complete -/

variable {β γ : Type} {cfg : Config β γ} {s s' : App β γ}

/-- A worker goes on with a job that has not completed. -/
theorem App.completed_setPhase {k i b : Nat} {phase : Phase γ} {msg : StatusMessage} {j : Job β γ}
    (hj : s.jobs[k]? = some j) (hopen : j.isCompleted = false) :
    ((s.sync b msg).setPhase k phase).Completed i ↔
      s.Completed i ∨ k = i ∧ { j with phase }.isCompleted = true := by
  have hget : ((s.sync b msg).setPhase k phase).jobs[i]? =
      s.jobs[i]?.map fun j => if k = i then { j with phase } else j := App.getElem?_setPhase
  unfold App.Completed
  rw [hget]
  by_cases hki : k = i
  · subst hki
    simp [hj, hopen]
  · simp [hki]

/-- Jobs are never taken back, and only the end of its `do_action` completes a job. -/
theorem App.Inv.completed_step {a : Action} (h : s.Inv cfg)
    (hs : (runApp cfg).step s a = some s') :
    s.jobs.length ≤ s'.jobs.length ∧ ∀ k, s'.Completed k ↔ s.Completed k ∨ a = .complete k := by
  have hlength : ∀ {k b : Nat} {phase : Phase γ} {msg : StatusMessage},
      ((s.sync b msg).setPhase k phase).jobs.length = s.jobs.length := by
    simp [App.setPhase, App.sync]
  cases a with
  | driver ready =>
    obtain ⟨-, ⟨hjobs, -⟩ | ⟨b, data, hjobs, -⟩⟩ := h.stepDriver_cases hs
    · simp [App.Completed, hjobs]
    · refine ⟨by simp [hjobs], fun k => ?_⟩
      unfold App.Completed
      rw [hjobs, List.getElem?_append]
      split
      · simp
      · next hk =>
        rw [List.getElem?_eq_none (Nat.le_of_not_lt hk), List.getElem?_singleton]
        split <;> simp [Job.isCompleted]
  | begin k =>
    change s.stepBegin k = some s' at hs
    unfold App.stepBegin at hs
    split at hs
    case h_1 hj =>
      split at hs
      case isTrue =>
        obtain rfl := Option.some.inj hs
        exact ⟨hlength.ge, fun i =>
          (App.completed_setPhase hj rfl).trans (by simp [Job.isCompleted])⟩
      case isFalse => cases hs
    case h_2 => cases hs
  | complete k =>
    change s.stepComplete cfg k = some s' at hs
    unfold App.stepComplete at hs
    split at hs
    case h_1 hj =>
      obtain rfl := Option.some.inj hs
      exact ⟨hlength.ge, fun i =>
        (App.completed_setPhase hj rfl).trans (by simp [Job.isCompleted])⟩
    case h_2 => cases hs
  | deliver b =>
    change s.stepDeliver b = some s' at hs
    unfold App.stepDeliver at hs
    split at hs
    case h_1 => cases hs
    case h_2 =>
      cases hs
      simp [App.Completed]

end Psi.RunApp

namespace Psi.EndToEnd

open Repartition

variable {φ : Type} {H : Hasher φ} {C : Crypto}

/-! ## The files of the parts -/

/-- What `infer_format` returns. -/
def formatName : DataFormat → String
  | .csv => "csv"
  | .csvGz => "csv.gz"
  | .gzParquet => "gz.parquet"
  | .parquet => "parquet"

/-- `str(block_id).zfill(6)`. -/
def zfill (blockId : Nat) : String := String.ofList ((Nat.toDigits 10 blockId).leftpad 6 '0')

/-- `f"{output_base_path}/part_{str(block_id).zfill(6)}.{data_format}"`. -/
def partPath (outputBasePath : String) (dataFormat : DataFormat) (blockId : Nat) : String :=
  outputBasePath ++ "/part_" ++ zfill blockId ++ "." ++ formatName dataFormat

theorem partPath_inj {outputBasePath : String} {dataFormat : DataFormat} {i j : Nat} :
    partPath outputBasePath dataFormat i = partPath outputBasePath dataFormat j ↔ i = j := by
  refine ⟨fun h => ?_, congrArg _⟩
  have hvalue : ∀ k, Nat.ofDigitChars 10 (zfill k).toList 0 = k := by
    intro k
    simp [zfill, List.leftpad, Nat.ofDigitChars_append]
  have hzfill : zfill i = zfill j := by
    simpa only [partPath, String.append_left_inj, String.append_right_inj] using h
  rw [← hvalue i, ← hvalue j, hzfill]

/-- The file of a part is written in a format of the same kind as the first file has. -/
theorem isParquet_partPath {outputBasePath : String} {dataFormat : DataFormat} {i : Nat} :
    (inferFormat (partPath outputBasePath dataFormat i)).isParquet = dataFormat.isParquet := by
  have hpath : (partPath outputBasePath dataFormat i).toLower.toList =
      ((outputBasePath ++ "/part_" ++ zfill i).toList.map Char.toLower) ++
        ("." ++ formatName dataFormat).toList := by
    have hlower : ("." ++ formatName dataFormat).toList.map Char.toLower =
        ("." ++ formatName dataFormat).toList := by
      cases dataFormat <;> decide
    rw [DataPaths.toList_toLower, ← hlower, ← List.map_append, ← String.toList_append]
    simp only [partPath, String.append_assoc]
  have hends : ∀ suffix : String,
      suffix.toList.length ≤ ("." ++ formatName dataFormat).toList.length →
      (suffix.toList.isSuffixOf (partPath outputBasePath dataFormat i).toLower.toList =
        suffix.toList.isSuffixOf ("." ++ formatName dataFormat).toList) := by
    intro suffix hlen
    rw [hpath, Bool.eq_iff_iff, List.isSuffixOf_iff_suffix, List.isSuffixOf_iff_suffix]
    refine ⟨fun h => ?_, fun h => h.trans (List.suffix_append _ _)⟩
    exact List.suffix_of_suffix_length_le h (List.suffix_append _ _) hlen
  have hcsv := hends ".csv" (by cases dataFormat <;> decide)
  have htxt := hends ".txt" (by cases dataFormat <;> decide)
  unfold inferFormat
  simp only [hcsv, htxt]
  cases dataFormat with
  | csv => rfl
  | csvGz =>
    rw [hends ".csv.gz" (by decide)]
    rfl
  | gzParquet =>
    rw [hends ".csv.gz" (by decide), hends ".gz.parquet" (by decide)]
    rfl
  | parquet =>
    simp only [hends ".csv.gz" (by decide), hends ".parquet" (by decide)]
    -- whatever the answer about the longest suffix, the format is one of parquet
    generalize ".gz.parquet".toList.isSuffixOf _ = isGz
    cases isGz <;> rfl

/-- The text of a file, by its path. -/
abbrev Files := String → Option String

/-- `_write_block_data` for a directory of the local file system, where `do_action` has dropped the
    hashes. -/
def writeBlockData (enc : Encoder φ) (withHead : Bool) (outputBasePath : String)
    (dataFormat : DataFormat) (blockId : Nat) (data : Table φ) (files : Files) : Files :=
  let outputPath := partPath outputBasePath dataFormat blockId
  Function.update files outputPath
    (writeDataToFilesystem enc data outputPath false withHead (files outputPath))

theorem writeBlockData_eq {enc : Encoder φ} {withHead : Bool} {outputBasePath : String}
    {dataFormat : DataFormat} {blockId : Nat} {data : Table φ} {files : Files}
    (hformat : dataFormat.isParquet = false) :
    writeBlockData enc withHead outputBasePath dataFormat blockId data files =
      Function.update files (partPath outputBasePath dataFormat blockId)
        (some (enc.writeCsv data withHead)) := by
  simp [writeBlockData, writeDataToFilesystem, isParquet_partPath, hformat]

/-! ## The parts of a party -/

/-- A party's arguments of `run_app` for a directory, with the files of its parts already read; without
    files it raises. -/
structure Directory (φ : Type) where
  parts : List (BlockData φ)
  exampleIdName : ColumnRef
  withHead : Bool
  dataFormat : DataFormat
  outputDir : String
  maxActors : Nat
  enc : Encoder φ
  parts_ne : parts ≠ []
  isFile : ∀ part ∈ parts, part.isFile = true

def Directory.part (d : Directory φ) (i : Nat) : BlockData φ := d.parts.getD i (.files [])

/-- The part with this number, as a party of its own. -/
def Directory.party (d : Directory φ) (i : Nat) : Party φ where
  table := match (d.part i).read d.exampleIdName with
    | .ok (table, _) => table
    | .error _ => ⟨[], []⟩
  exampleIdName := d.exampleIdName
  maxActors := d.maxActors

theorem actualColumnName_of_read {ref : ColumnRef} {part : BlockData φ} {t : Table φ} {name : String}
    (hfile : part.isFile = true) (hread : part.read ref = .ok (t, name)) :
    t.getActualColumnName ref 0 = .ok name := by
  have hname : ∀ {t' : Table φ}, (do return (t', ← t'.getActualColumnName ref 0)) =
      (.ok (t, name) : Except ActionError (Table φ × String)) →
      t.getActualColumnName ref 0 = .ok name := by
    intro t' h
    obtain ⟨column, hcolumn, h⟩ := Except.bind_eq_ok_iff.mp h
    obtain ⟨rfl, rfl⟩ := Prod.mk.inj (Except.ok.inj h)
    exact hcolumn
  cases part with
  | file data => exact hname hread
  | files data =>
    cases data with
    | nil => cases hread
    | cons head rest =>
      obtain ⟨data, -, h⟩ := Except.bind_eq_ok_iff.mp hread
      exact hname h
  | block data => cases hfile

/-- A part with rows gets a column of hashes. -/
theorem addHashColumn_of_readBlockData {ref : ColumnRef} {part : BlockData φ} {t psiIn : Table φ}
    {name name' : String} (hpart : part.read ref = .ok (t, name)) (hhelpers : t.NoHelpers)
    (hrows : t.rows ≠ []) (hwidth : t.columnNames ≠ [])
    (hread : readBlockData H ref part = .ok (psiIn, name')) :
    t.addHashColumn H name = .ok psiIn := by
  have hsize : 0 < t.rows.length ∧ 0 < t.columnNames.length :=
    ⟨List.length_pos_of_ne_nil hrows, List.length_pos_of_ne_nil hwidth⟩
  cases hadd : t.addHashColumn H name with
  | error e =>
    simp [readBlockData, hpart, hsize, Table.hasColumnByName, hhelpers.1, hadd, bind,
      Except.bind] at hread
  | ok data =>
    have hmod : hashedModValueColumn ∉ data.columnNames := by
      rw [addHashColumn_columnNames hadd]
      exact List.not_mem_cons_of_ne_of_not_mem (by decide) hhelpers.2
    simp [readBlockData, hpart, hsize, Table.hasColumnByName, hhelpers.1, hadd, hmod, bind,
      Except.bind, pure, Except.pure] at hread
    rw [hread.1]

/-- A job that returns has put the hashes before the rows: a part without rows gets no column of
    hashes, and then there is none to drop. -/
theorem Party.hashedRows_of_doAction {p : Party φ} {part : BlockData φ} {psiIn : Table φ}
    {name name' : String} {psi : Table φ → Option (List Nat)} {result : ActionResult φ}
    (hfile : part.isFile = true) (hpart : part.read p.exampleIdName = .ok (p.table, name))
    (hhelpers : p.table.NoHelpers)
    (hread : readBlockData H p.exampleIdName part = .ok (psiIn, name'))
    (hreturned : doAction H psi p.exampleIdName part = .ok result) :
    ∃ hashed : p.HashedRows H, psiIn.cells = hashed.rows.map HashedRow.psiCells ∧
      psiIn.columnNames = hashedValueColumn :: p.table.columnNames := by
  obtain ⟨-, hone, -⟩ := (doAction_ok_iff hread).mp ⟨result, hreturned, rfl⟩
  have hsame : p.table.rows = [] ∨ p.table.columnNames = [] → psiIn = p.table := by
    rintro (hnil | hnil) <;>
      simpa [readBlockData, hpart, hnil, bind, Except.bind, pure, Except.pure, eq_comm,
        Except.toOption] using congrArg (fun x => x.toOption.map Prod.fst) hread
  have hsize : p.table.rows ≠ [] ∧ p.table.columnNames ≠ [] := by
    by_contra hsize
    rw [hsame (by tauto), List.count_eq_zero_of_not_mem hhelpers.1] at hone
    cases hone
  have hadd := addHashColumn_of_readBlockData hpart hhelpers hsize.1 hsize.2 hread
  unfold Table.addHashColumn at hadd
  split at hadd
  · cases hadd
  · next i hi =>
    split at hadd
    · cases hadd
    · next rows hrows =>
      obtain rfl := Except.ok.inj hadd
      have hindex : p.idIndex = some i := by
        simp [Party.idIndex, actualColumnName_of_read hfile hpart, hi]
      obtain ⟨hashed, rfl⟩ := Party.exists_hashedRows hindex hrows
      exact ⟨hashed, by simp [Table.cells, HashedRow.psiCells, Row.cons], rfl⟩

/-! ## The run -/

instance decidableForallRank {P : Rank → Prop} [∀ r, Decidable (P r)] : Decidable (∀ r, P r) :=
  decidable_of_iff (P .sender ∧ P .receiver)
    ⟨fun h r => by cases r with | sender => exact h.1 | receiver => exact h.2, fun h => ⟨h _, h _⟩⟩

/-- Both parties with their directories, and every number that both have a part of after the jobs of
    these parts. -/
structure DirectoryApplication (H : Hasher φ) (C : Crypto) (d : Rank → Directory φ) where
  job : (i : Nat) → (∀ r, i < (d r).parts.length) →
    BlockRun H C (fun r => (d r).exampleIdName) fun r => (d r).part i

variable {d : Rank → Directory φ}

namespace DirectoryApplication

/-- The schedulers of the application. -/
def config (app : DirectoryApplication H C d) (r : Rank) : RunApp.Config (BlockData φ) (Table φ) where
  dataType := .directory
  data := (d r).parts
  maxActors := (d r).maxActors
  doAction i _ :=
    if h : ∀ q, i < (d q).parts.length then
      let result := (app.job i h).result r
      (result.originalDataStatus, result.joinedDataStatus, result.output)
    else ((0, 0, 0), (0, 0, 0), ⟨[], []⟩)

/-- What a job does to the files of its party, before it returns. -/
def write (app : DirectoryApplication H C d) (files : Rank → Files) :
    Rank × RunApp.Action → Rank → Files
  | (r, .complete i) =>
    let output := ((app.config r).doAction i ((d r).part i)).2.2
    Function.update files r (writeBlockData (d r).enc (d r).withHead (d r).outputDir
      (d r).dataFormat i output (files r))
  | _ => files

/-- Both parties run `run_app`, each with its own actor limit and files. -/
def machine (app : DirectoryApplication H C d) :
    Machine ((Rank → RunApp.App (BlockData φ) (Table φ)) × (Rank → Files)) (Rank × RunApp.Action) where
  step s a := ((RunApp.twoParties app.config).step s.1 a).map fun apps => (apps, app.write s.2 a)

/-- The file that is written for a part. -/
def text (app : DirectoryApplication H C d) (r : Rank) (i : Nat) : String :=
  (d r).enc.writeCsv ((app.config r).doAction i ((d r).part i)).2.2 (d r).withHead

def path (d : Directory φ) (i : Nat) : String := partPath d.outputDir d.dataFormat i

/-- In a reachable state the files of the completed jobs are there, and no others have changed. -/
structure Written (app : DirectoryApplication H C d) (files : Rank → Files)
    (s : (Rank → RunApp.App (BlockData φ) (Table φ)) × (Rank → Files)) : Prop where
  inv : ∀ r, (s.1 r).Inv (app.config r)
  both : ∀ r k, (s.1 r).Completed k → k < (s.1 r.next).jobs.length
  written : ∀ r k, (s.1 r).Completed k → s.2 r (path (d r) k) = some (app.text r k)
  others : ∀ r p, (∀ k, (s.1 r).Completed k → path (d r) k ≠ p) → s.2 r p = files r p

variable {app : DirectoryApplication H C d} {files : Rank → Files}

theorem write_of_ne {fs : Rank → Files} {q r : Rank} {a : RunApp.Action} (h : r ≠ q) :
    app.write fs (q, a) r = fs r := by
  cases a with
  | complete i => exact Function.update_of_ne h ..
  | _ => rfl

theorem write_path {fs : Rank → Files} {r : Rank} {i : Nat}
    (hformat : (d r).dataFormat.isParquet = false) :
    app.write fs (r, .complete i) r (path (d r) i) = some (app.text r i) := by
  simp [write, writeBlockData_eq hformat, path, text]

theorem write_of_path_ne {fs : Rank → Files} {r : Rank} {a : RunApp.Action} {p : String}
    (h : ∀ i, a = .complete i → path (d r) i ≠ p) : app.write fs (r, a) r p = fs r p := by
  cases a with
  | complete i =>
    simp only [write, writeBlockData, Function.update_self]
    exact Function.update_of_ne (h i rfl).symm ..
  | _ => rfl

theorem Written.step {s s' : (Rank → RunApp.App (BlockData φ) (Table φ)) × (Rank → Files)}
    {a : Rank × RunApp.Action} (h : Written app files s)
    (hformat : ∀ r, (d r).dataFormat.isParquet = false) (hs : app.machine.step s a = some s') :
    Written app files s' := by
  obtain ⟨q, a⟩ := a
  obtain ⟨apps, happs, rfl⟩ := Option.map_eq_some_iff.mp hs
  simp only [RunApp.twoParties] at happs
  split at happs
  case isFalse => cases happs
  case isTrue hallowed =>
    obtain ⟨t, ht, rfl⟩ := Option.map_eq_some_iff.mp happs
    obtain ⟨hlen, hdone⟩ := (h.inv q).completed_step ht
    have hinv : t.Inv (app.config q) := (h.inv q).step ht
    have hboth : ∀ k, t.Completed k → k < (s.1 q.next).jobs.length := by
      intro k hk
      obtain hk | rfl := (hdone k).mp hk
      · exact h.both q k hk
      · obtain ⟨j, hj, hdispatched⟩ : ∃ j, (s.1 q).jobs[k]? = some j ∧
            (s.1 q.next).isDispatched j.blockId = true := (Option.any_eq_true _ _).mp hallowed
        rw [((h.inv q).job k j hj).1] at hdispatched
        exact (h.inv q.next).isDispatched.mp hdispatched
    have hwritten : ∀ k, t.Completed k →
        app.write s.2 (q, a) q (path (d q) k) = some (app.text q k) := by
      intro k hk
      by_cases ha : a = .complete k
      · rw [ha, write_path (hformat q)]
      · rw [write_of_path_ne fun i hi hpath => ha (by rw [hi, partPath_inj.mp hpath])]
        exact h.written q k (((hdone k).mp hk).resolve_right ha)
    have hothers : ∀ p, (∀ k, t.Completed k → path (d q) k ≠ p) →
        app.write s.2 (q, a) q p = files q p := by
      intro p hp
      rw [write_of_path_ne fun i hi => hp i ((hdone i).mpr (.inr hi))]
      exact h.others q p fun k hk => hp k ((hdone k).mpr (.inl hk))
    have hself : Function.update s.1 q t q = t := Function.update_self ..
    have hother : ∀ r, r ≠ q → Function.update s.1 q t r = s.1 r := fun r hr =>
      Function.update_of_ne hr ..
    refine ⟨fun r => ?_, fun r k hk => ?_, fun r k hk => ?_, fun r p hp => ?_⟩
    all_goals
      dsimp only at *
      obtain rfl | hr := eq_or_ne r q
    · rwa [hself]
    · rw [hother r hr]
      exact h.inv r
    · rw [hself] at hk
      rw [hother _ Rank.next_ne]
      exact hboth k hk
    · have hnext : r.next = q := ((Rank.eq_or_eq_next q r).resolve_left hr.symm).symm
      rw [hother r hr] at hk
      rw [hnext, hself]
      exact Nat.lt_of_lt_of_le (hnext ▸ h.both r k hk) hlen
    · rw [hself] at hk
      exact hwritten k hk
    · rw [hother r hr] at hk
      rw [write_of_ne hr]
      exact h.written r k hk
    · rw [hself] at hp
      exact hothers p hp
    · rw [hother r hr] at hp
      rw [write_of_ne hr]
      exact h.others r p hp

theorem Directory.read_party {d : Directory φ} {i : Nat} {psiIn : Table φ} {name : String}
    (hread : readBlockData H d.exampleIdName (d.part i) = .ok (psiIn, name)) :
    ∃ name', (d.part i).read d.exampleIdName = .ok ((d.party i).table, name') := by
  obtain ⟨⟨t, name'⟩, ht, -⟩ := Except.bind_eq_ok_iff.mp hread
  exact ⟨name', by simp [Directory.party, ht]⟩

/-- What the job of a part returns are the columns of the part, and its rows whose id the other part
    has. -/
theorem output_of_part (hcomm : C.Commutes) (hinj : ∀ i h, (app.job i h).NoCollision)
    {i : Nat} (h : ∀ r, i < (d r).parts.length) (hhelpers : ∀ r, ((d r).party i).table.NoHelpers)
    (r : Rank) :
    ((app.job i h).result r).output.columnNames = ((d r).party i).table.columnNames ∧
      ((app.job i h).result r).output.cells =
        (intersection H (fun q => (d q).party i) r).map (·.1) := by
  have hpart : ∀ q, ∃ hashed : ((d q).party i).HashedRows H,
      ((app.job i h).psiIn q).cells = hashed.rows.map HashedRow.psiCells ∧
        ((app.job i h).psiIn q).columnNames =
          hashedValueColumn :: ((d q).party i).table.columnNames := by
    intro q
    obtain ⟨name, hname⟩ := Directory.read_party ((app.job i h).read q)
    refine Party.hashedRows_of_doAction ((d q).isFile _ ?_) hname (hhelpers q)
      ((app.job i h).read q) ((app.job i h).returned q)
    simp [Directory.part, h q]
  choose hashed hcells hcolumns using hpart
  have hrows := (app.job i h).output hcomm (hinj i h)
    (fun q => ⟨hcells q, by rw [hcolumns, List.idxOf_cons_self]⟩) r
  refine ⟨?_, ?_⟩
  · rw [(doAction_ok ((app.job i h).returned r) ((app.job i h).read r)).1, hcolumns,
      List.erase_cons_head]
  · rw [hrows, ← map_doPsi hashed r, List.map_map]
    rfl

variable {as : List (Rank × RunApp.Action)}
  {s : (Rank → RunApp.App (BlockData φ) (Table φ)) × (Rank → Files)}

/-- When a party is through, the other one has a part for each of its parts; it has written one file
    for each, with the rows whose id the other party's part has; and no other file has changed. -/
theorem parts_are_intersected (hcomm : C.Commutes) (hinj : ∀ i h, (app.job i h).NoCollision)
    (hactors : ∀ r, 1 ≤ (d r).maxActors) (hformat : ∀ r, (d r).dataFormat.isParquet = false)
    (hhelpers : ∀ r, ∀ i < (d r).parts.length, ((d r).party i).table.NoHelpers)
    (hrun : app.machine.run (fun r => RunApp.init (app.config r), files) as = some s) {r : Rank}
    (hpc : (s.1 r).pc.leftLoop = true) :
    (d r).parts.length ≤ (d r.next).parts.length ∧
      (∀ i < (d r).parts.length, s.2 r (partPath (d r).outputDir (d r).dataFormat i) =
        some ((if (d r).withHead then (d r).enc.header ((d r).party i).table.columnNames else "") ++
          String.join ((intersection H (fun q => (d q).party i) r).map fun row =>
            (d r).enc.line row.1))) ∧
      ∀ p, (∀ i < (d r).parts.length, partPath (d r).outputDir (d r).dataFormat i ≠ p) →
        s.2 r p = files r p := by
  have hnone : ∀ q k, ¬ (RunApp.init (app.config q)).Completed k := by
    rintro q k ⟨j, hj, -⟩
    simp [RunApp.init] at hj
  have hinit : Written app files (fun r => RunApp.init (app.config r), files) :=
    ⟨fun q => RunApp.App.inv_init (d q).parts_ne (hactors q), fun q k hk => (hnone q k hk).elim,
      fun q k hk => (hnone q k hk).elim, fun q p _ => rfl⟩
  have hwritten := app.machine.run_invariant (fun s a s' h hs => h.step hformat hs) hrun hinit
  obtain ⟨hjobs, hhandled⟩ := (hwritten.inv r).of_leftLoop hpc
  have hdone : ∀ i < (d r).parts.length, (s.1 r).Completed i := fun i hi =>
    (hhandled i hi).completed
  have hnext : ∀ i < (d r).parts.length, i < (d r.next).parts.length := fun i hi =>
    Nat.lt_of_lt_of_le (hwritten.both r i (hdone i hi)) (hwritten.inv r.next).le
  have hall : ∀ i < (d r).parts.length, ∀ q, i < (d q).parts.length := by
    intro i hi q
    obtain rfl | rfl := Rank.eq_or_eq_next q r
    · exact hi
    · exact hnext i hi
  refine ⟨?_, fun i hi => ?_, fun p hp => ?_⟩
  · by_contra hlt
    exact Nat.lt_irrefl _ (hnext _ (Nat.lt_of_not_le hlt))
  · have houtput := output_of_part hcomm hinj (hall i hi) (fun q => hhelpers q i (hall i hi q)) r
    refine (hwritten.written r i (hdone i hi)).trans (congrArg some ?_)
    simp only [text, config, dif_pos (hall i hi), Encoder.writeCsv, houtput.1, lines_eq, houtput.2,
      List.map_map]
    rfl
  · refine hwritten.others r p ?_
    rintro k ⟨j, hj, -⟩
    have hk := (List.getElem?_eq_some_iff.mp hj).1
    exact hp k (hjobs ▸ hk)

end DirectoryApplication

namespace DirectorySample

open EndToEnd.Sample
open Repartition.Sample (hasher)
open OutputSample (ids plainCsv)

/-- The sender has one part, and the receiver two, of two files the second one. -/
def parts : Rank → List (BlockData Empty)
  | .sender => [.file (ids ["u2", "u3"])]
  | .receiver => [.file (ids ["u3"]), .files [ids ["u2"], ids ["u3"]]]

def directories (r : Rank) : Directory Empty where
  parts := parts r
  exampleIdName := .index 0
  withHead := true
  dataFormat := .csv
  outputDir := "/out"
  maxActors := 2
  enc := plainCsv
  parts_ne := by cases r <;> simp [parts]
  isFile := by cases r <;> decide

theorem runs : Runs fun r => (directories r).part 0 where
  read r := by cases r <;> decide +kernel
  run := by decide +kernel
  finished r := by cases r <;> decide +kernel
  returned r := by cases r <;> decide +kernel
  ids r := by cases r <;> decide +kernel

def application : DirectoryApplication hasher crypto directories where
  job i h := by
    rw [show i = 0 from Nat.lt_one_iff.mp (h .sender)]
    exact runs.blockRun

theorem noCollision_application (i : Nat) (h : ∀ r, i < (directories r).parts.length) :
    (application.job i h).NoCollision := by
  obtain rfl : i = 0 := Nat.lt_one_iff.mp (h .sender)
  exact runs.noCollision

/-- There is a file of an earlier run, and another one. -/
def files (_ : Rank) (p : String) : Option String :=
  if p = "/out/part_000000.csv" ∨ p = "/out/part_000001.csv" then some "old\n" else none

/-- The receiver has dispatched both of its parts when the sender is through with its only one. -/
def schedule : List (Rank × RunApp.Action) :=
  [(.sender, .driver none), (.receiver, .driver none), (.receiver, .driver none),
    (.sender, .driver none), (.sender, .begin 0), (.receiver, .begin 0), (.sender, .complete 0),
    (.receiver, .complete 0), (.sender, .driver (some 0)), (.sender, .driver none)]

theorem first_part_written : ∃ s,
    application.machine.run (fun r => RunApp.init (application.config r), files) schedule = some s ∧
    s.2 .sender "/out/part_000000.csv" = some "id\nu3\n" ∧
    s.2 .sender "/out/part_000001.csv" = some "old\n" := by
  have hsome : (application.machine.run (fun r => RunApp.init (application.config r), files)
      schedule).isSome = true := by decide +kernel
  obtain ⟨s, hs⟩ := Option.isSome_iff_exists.mp hsome
  have hleft : (application.machine.run (fun r => RunApp.init (application.config r), files)
      schedule).any (fun s => (s.1 .sender).pc.leftLoop) = true := by decide +kernel
  rw [hs, Option.any_some] at hleft
  have hhelpers : ∀ r, ∀ i < (directories r).parts.length,
      ((directories r).party i).table.NoHelpers := by
    intro r
    cases r <;> decide +kernel
  obtain ⟨-, hwritten, hothers⟩ := DirectoryApplication.parts_are_intersected
    (fun _ _ _ => mul_comm) noCollision_application (fun r => by cases r <;> decide)
    (fun r => by cases r <;> rfl) hhelpers hs hleft
  have hpath : ∀ i < 1, partPath (directories .sender).outputDir (directories .sender).dataFormat i =
      "/out/part_000000.csv" := by decide +kernel
  refine ⟨s, hs, ?_, ?_⟩
  · have hinter : (intersection hasher (fun q => (directories q).party 0) .sender).map (·.1) =
        [[.str "u3"]] := by decide +kernel
    have hlines : (intersection hasher (fun q => (directories q).party 0) .sender).map
        (fun row => plainCsv.line row.1) = [[.str "u3"]].map plainCsv.line := by
      rw [← hinter, List.map_map]
      rfl
    have htext : s.2 .sender "/out/part_000000.csv" = some (plainCsv.header _ ++
        String.join ((intersection hasher (fun q => (directories q).party 0) .sender).map fun row =>
          plainCsv.line row.1)) := hpath 0 Nat.zero_lt_one ▸ hwritten 0 Nat.zero_lt_one
    rw [htext, hlines]
    decide +kernel
  · rw [hothers _ fun i hi => by rw [hpath i hi]; decide]
    decide +kernel

end DirectorySample

end Psi.EndToEnd
