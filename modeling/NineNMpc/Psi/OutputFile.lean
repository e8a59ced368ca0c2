-- SUMMARY: The single output file of a PSI run: how it is written block by block, and when it is one header followed by all rows.
import NineNMpc.Psi.BlockTable

/-!
# The output file

`output_single_output_file` of `BlockDispatchActor` and `write_data_to_filesystem` in
`psi_actors.py`. The text that pyarrow writes for a table is a parameter: one line for the
header and one for each row. A file that does not exist is `none`; both file systems make
one when they are asked to append to it. A null block is `none`, whether the reference or
what it refers to is null.
-/

namespace Psi.Repartition

variable {φ : Type}

/-! ## Formats -/

inductive DataFormat where
  | csv
  | csvGz
  | gzParquet
  | parquet
deriving DecidableEq

def DataFormat.isParquet : DataFormat → Bool
  | gzParquet | parquet => true
  | _ => false

def inferFormat (filePath : String) : DataFormat :=
  let endsWith (suffix : String) : Bool := suffix.toList.isSuffixOf filePath.toLower.toList
  if endsWith ".csv" then .csv
  else if endsWith ".txt" then .csv
  else if endsWith ".csv.gz" then .csvGz
  else if endsWith ".gz.parquet" then .gzParquet
  else if endsWith ".parquet" then .parquet
  else .csv

/-- What pyarrow writes. -/
structure Encoder (φ : Type) where
  header : List String → String
  line : List (PyValue φ) → String
  parquet : Table φ → String

def Encoder.lines (enc : Encoder φ) (data : Table φ) : String :=
  String.join (data.rows.map fun row => enc.line row.1)

/-- `csv.write_csv`. -/
def Encoder.writeCsv (enc : Encoder φ) (data : Table φ) (includeHeader : Bool) : String :=
  (if includeHeader then enc.header data.columnNames else "") ++ enc.lines data

/-- The content of the file after the call. -/
def writeDataToFilesystem (enc : Encoder φ) (data : Table φ) (filePath : String) (append : Bool)
    (withHead : Bool) (file : Option String) : Option String :=
  if (inferFormat filePath).isParquet then some (enc.parquet data)
  else if append then some (file.getD "" ++ enc.writeCsv data withHead)
  else some (enc.writeCsv data withHead)

/-! ## The loop over the blocks -/

/-- The body of the loop, for the block `i`. -/
def outputBlock (enc : Encoder φ) (selfWithHead : Bool) (outputDir : String) (i : Nat)
    (dataOutput : Option (Table φ)) (file : Option String) : Option String :=
  match dataOutput with
  | none => file
  | some data =>
    let (withHead, append) := if i = 0 then (true, false) else (false, true)
    let withHead := if selfWithHead then withHead else false
    writeDataToFilesystem enc data outputDir append withHead file

def outputBlocks (enc : Encoder φ) (selfWithHead : Bool) (outputDir : String) :
    Nat → List (Option (Table φ)) → Option String → Option String
  | _, [], file => file
  | i, dataOutput :: rest, file =>
    outputBlocks enc selfWithHead outputDir (i + 1) rest
      (outputBlock enc selfWithHead outputDir i dataOutput file)

/-- The tables of parquet outputs are put together first; a null table is not one. -/
def concatTables : List (Option (Table φ)) → Except ActionError (Table φ)
  | some data :: rest => rest.foldlM (fun data next =>
      match next with
      | some next => data.concat next
      | none => .error .arrowInvalid) data
  | _ => .error .arrowInvalid

def outputSingleOutputFile (enc : Encoder φ) (dataFormat : DataFormat) (selfWithHead : Bool)
    (outputDir : String) (dataOutputs : List (Option (Table φ))) (file : Option String) :
    Except ActionError (Option String) :=
  if dataOutputs.isEmpty then .ok file
  else if dataFormat.isParquet then do
    let allTable ← concatTables dataOutputs
    return writeDataToFilesystem enc allTable outputDir false selfWithHead file
  else .ok (outputBlocks enc selfWithHead outputDir 0 dataOutputs file)

/-! ## One header and all rows -/

/-- The header line of a file with these blocks: that of the first one that is not null. -/
def headerOf (enc : Encoder φ) (withHead : Bool) (dataOutputs : List (Option (Table φ))) : String :=
  match withHead, dataOutputs.filterMap id with
  | true, data :: _ => enc.header data.columnNames
  | _, _ => ""

/-- The rows of the blocks that are not null. -/
def rowsOf (enc : Encoder φ) (dataOutputs : List (Option (Table φ))) : String :=
  String.join ((dataOutputs.filterMap id).map enc.lines)

variable {enc : Encoder φ} {selfWithHead : Bool} {outputDir : String}
  {dataOutputs : List (Option (Table φ))} {file : Option String}

/-- Behind the first block everything is appended, without a header. -/
theorem outputBlocks_succ (hcsv : (inferFormat outputDir).isParquet = false) (i : Nat) :
    (outputBlocks enc selfWithHead outputDir (i + 1) dataOutputs file).getD "" =
      file.getD "" ++ rowsOf enc dataOutputs := by
  induction dataOutputs generalizing i file with
  | nil => simp [outputBlocks, rowsOf]
  | cons dataOutput rest ih =>
    rw [outputBlocks, ih]
    cases dataOutput with
    | none => simp [outputBlock, rowsOf]
    | some data =>
      simp [outputBlock, writeDataToFilesystem, hcsv, Encoder.writeCsv, rowsOf, String.append_assoc]

/-- The file is one header followed by the rows of all blocks if and only if the first block is not
    null, or the file already was just the header. -/
theorem outputSingleOutputFile_eq_iff {dataFormat : DataFormat}
    (hformat : dataFormat.isParquet = false) (hcsv : (inferFormat outputDir).isParquet = false) :
    ∃ out, outputSingleOutputFile enc dataFormat selfWithHead outputDir dataOutputs file = .ok out ∧
      (out.getD "" = headerOf enc selfWithHead dataOutputs ++ rowsOf enc dataOutputs ↔
        (∃ data, dataOutputs.head? = some (some data)) ∨
          file.getD "" = headerOf enc selfWithHead dataOutputs) := by
  cases dataOutputs with
  | nil =>
    refine ⟨file, rfl, ?_⟩
    simp [rowsOf]
  | cons dataOutput rest =>
    refine ⟨outputBlocks enc selfWithHead outputDir 0 (dataOutput :: rest) file, ?_, ?_⟩
    · simp [outputSingleOutputFile, hformat]
    · rw [outputBlocks, outputBlocks_succ hcsv]
      cases dataOutput with
      | none =>
        -- nothing has been truncated, and there is no header
        simp [outputBlock, rowsOf, String.append_left_inj]
      | some data =>
        cases selfWithHead with
        | true =>
          simp [outputBlock, writeDataToFilesystem, hcsv, Encoder.writeCsv, headerOf, rowsOf,
            String.append_assoc]
        | false =>
          simp [outputBlock, writeDataToFilesystem, hcsv, Encoder.writeCsv, headerOf, rowsOf]

namespace OutputSample

/-- A table with the column `id`, as a text file. -/
def ids (xs : List String) : Table Empty where
  columnNames := ["id"]
  rows := xs.map fun x => ⟨[.str x], rfl⟩

def plainCsv : Encoder Empty where
  header columns := ",".intercalate columns ++ "\n"
  line
    | [.str x] => x ++ "\n"
    | _ => "\n"
  parquet _ := "PAR1"

def output (dataOutputs : List (Option (Table Empty))) (file : Option String) :
    Except ActionError (Option String) :=
  outputSingleOutputFile plainCsv .csv true "/out/joined.csv" dataOutputs file

/-- Two blocks and a null one between them replace the old content. -/
theorem nullBehindFirst_one_header :
    ∃ out, output [some (ids ["a"]), none, some (ids ["b"])] (some "old\n") = .ok out ∧
      out.getD "" = "id\na\nb\n" := by
  have hcsv : DataFormat.csv.isParquet = false := rfl
  obtain ⟨out, hout, hiff⟩ :
      ∃ out, output [some (ids ["a"]), none, some (ids ["b"])] (some "old\n") = .ok out ∧ (_ ↔ _) :=
    outputSingleOutputFile_eq_iff hcsv (by decide +kernel)
  refine ⟨out, hout, (hiff.mpr (.inl ⟨ids ["a"], rfl⟩)).trans ?_⟩
  decide +kernel

/-- With a null block in front, the old content stays and the header is missing. -/
theorem nullFirst_not_one_header :
    ∃ out, output [none, some (ids ["b"])] (some "old\n") = .ok out ∧
      out.getD "" = "old\nb\n" ∧
      out.getD "" ≠ headerOf plainCsv true [none, some (ids ["b"])] ++
        rowsOf plainCsv [none, some (ids ["b"])] := by
  have hout : output [none, some (ids ["b"])] (some "old\n") = .ok (some "old\nb\n") := by
    decide +kernel
  exact ⟨_, hout, rfl, by decide +kernel⟩

end OutputSample

end Psi.Repartition
