-- SUMMARY: filter_data_paths on a directory listing, and when it returns every file that infer_format names a format of.
import NineNMpc.Lib.Words
import NineNMpc.Psi.OutputFile
import Mathlib.Data.List.Sort
import Mathlib.Data.String.Basic

/-!
# The data files of a directory

`filter_data_paths` of `psi_actors.py`. A `FileInfo` of pyarrow has for its extension the
text behind the last dot of the base name. `lower` is that of ASCII: no other character
becomes a letter of the suffixes.
-/

namespace Psi.DataPaths

open Psi.Repartition (DataFormat inferFormat)

inductive FileType where
  | notFound
  | unknown
  | file
  | directory
deriving DecidableEq

structure FileInfo where
  path : String
  type : FileType

def FileInfo.baseName (info : FileInfo) : List Char := info.path.toList.rtakeWhile (· ≠ '/')

def FileInfo.extension (info : FileInfo) : String :=
  if '.' ∈ info.baseName then String.ofList (info.baseName.rtakeWhile (· ≠ '.')) else ""

/-- An element of `data_paths`. -/
inductive DataPath where
  | str (path : String)
  | tuple (path : String) (type : FileType)
deriving DecidableEq

def getEleKey : DataPath → String
  | .str path => path
  | .tuple path _ => path

def extensions : List String := ["csv", "txt", "csv.gz", "parquet", "gz.parquet"]

def FileInfo.dataPath (pathPrefix : String) (withFileTypeReturn : Bool) (info : FileInfo) : DataPath :=
  if withFileTypeReturn then .tuple (pathPrefix ++ info.path) info.type
  else .str (pathPrefix ++ info.path)

/-- The conditions of the loop. -/
def FileInfo.Selected (withDirectory : Bool) (info : FileInfo) : Prop :=
  if info.type = .file then info.extension ∈ extensions else withDirectory = true

instance {withDirectory : Bool} {info : FileInfo} : Decidable (info.Selected withDirectory) :=
  inferInstanceAs
    (Decidable (if info.type = .file then info.extension ∈ extensions else withDirectory = true))

def filterDataPaths (pathPrefix : String) (fileInfos : List FileInfo)
    (withDirectory withFileTypeReturn : Bool) : List DataPath :=
  if fileInfos = [] then []
  else
    ((fileInfos.filter (·.Selected withDirectory)).map
      (·.dataPath pathPrefix withFileTypeReturn)).insertionSort (getEleKey · ≤ getEleKey ·)

/-! ## Supported files -/

/-- The lower-case name ends in the suffix. -/
def EndsWith (path suffix : String) : Prop := suffix.toList <:+ path.toLower.toList

instance {path suffix : String} : Decidable (EndsWith path suffix) :=
  inferInstanceAs (Decidable (suffix.toList <:+ path.toLower.toList))

/-- The suffixes that `infer_format` tests for. -/
def suffixes : List String := [".csv", ".txt", ".csv.gz", ".gz.parquet", ".parquet"]

def Supported (path : String) : Prop := ∃ suffix ∈ suffixes, EndsWith path suffix

instance {path : String} : Decidable (Supported path) :=
  decidable_of_iff (suffixes.any fun suffix => EndsWith path suffix) (by simp [Supported])

variable {info : FileInfo} {ext : String}

theorem eq_of_toLower_eq {c d : Char} (hd : d.toNat < 65) (h : c.toLower = d) : c = d := by
  unfold Char.toLower at h
  split at h
  · next hupper =>
    have h₁ : 65 ≤ c.toNat := hupper.1
    have h₂ : c.toNat ≤ 90 := hupper.2
    have hval : (c.toNat + 32) % 2 ^ 32 = d.toNat := by
      rw [← h]
      simp only [Char.toNat, UInt32.toNat_add]
      rfl
    omega
  · exact h

theorem toList_toLower {s : String} : s.toLower.toList = s.toList.map Char.toLower :=
  String.toList_map

theorem notMem_of_map_toLower {c : Char} {w : List Char} (hc : c.toLower = c)
    (h : c ∉ w.map Char.toLower) : c ∉ w := fun hmem => h (hc ▸ List.mem_map_of_mem hmem)

theorem dot_notMem_extension : '.' ∉ info.extension.toList := by
  unfold FileInfo.extension
  split
  · intro hmem
    rw [String.toList_ofList] at hmem
    simpa using List.mem_rtakeWhile_imp hmem
  · simp

/-- A name ends in an extension without dots exactly when that is its own, in lower case. -/
theorem endsWith_iff {suffix : String} (hsuffix : suffix.toList = '.' :: ext.toList)
    (hdot : '.' ∉ ext.toList) (hslash : '/' ∉ ext.toList) (hne : ext ≠ "") :
    EndsWith info.path suffix ↔ info.extension.toLower = ext := by
  have hext : info.extension.toLower = ext ↔
      '.' ∈ info.baseName ∧ (info.baseName.rtakeWhile (· ≠ '.')).map Char.toLower = ext.toList := by
    rw [← String.toList_inj, toList_toLower, FileInfo.extension]
    split
    · next hmem => simp [hmem]
    · next hmem => simp [hmem, hne]
  rw [hext, EndsWith, toList_toLower, hsuffix, List.suffix_map_iff]
  constructor
  · rintro ⟨l, hl, heq⟩
    match l with
    | [] => cases heq
    | c :: w =>
      obtain ⟨hc, hw⟩ := List.cons.inj heq
      obtain rfl := eq_of_toLower_eq (by decide) hc.symm
      have hdot' : '.' ∉ w := notMem_of_map_toLower rfl (hw ▸ hdot)
      have hslash' : '/' ∉ '.' :: w := by
        rw [List.mem_cons, not_or]
        exact ⟨by decide, notMem_of_map_toLower rfl (hw ▸ hslash)⟩
      have hbase : '.' :: w <:+ info.baseName := by
        refine (List.suffix_rtakeWhile_iff fun a ha => ?_).mpr hl
        exact decide_eq_true fun heq => hslash' (heq ▸ ha)
      obtain ⟨hmem, hlast⟩ := (List.cons_suffix_iff hdot').mp hbase
      exact ⟨hmem, by rw [hlast, hw]⟩
  · rintro ⟨hmem, hlast⟩
    refine ⟨_, ((List.cons_suffix_iff ?_).mpr ⟨hmem, rfl⟩).trans (List.rtakeWhile_suffix _ _), ?_⟩
    · intro hmem'
      simpa using List.mem_rtakeWhile_imp hmem'
    · rw [List.map_cons, hlast]
      rfl

/-- The extension in lower case is one without dots. -/
def FileInfo.Known (info : FileInfo) : Prop := info.extension.toLower ∈ ["csv", "txt", "parquet"]

theorem supported_iff : Supported info.path ↔ info.Known ∨ EndsWith info.path ".csv.gz" := by
  have hcsv : EndsWith info.path ".csv" ↔ info.extension.toLower = "csv" :=
    endsWith_iff rfl (by decide) (by decide) (by decide)
  have htxt : EndsWith info.path ".txt" ↔ info.extension.toLower = "txt" :=
    endsWith_iff rfl (by decide) (by decide) (by decide)
  have hparquet : EndsWith info.path ".parquet" ↔ info.extension.toLower = "parquet" :=
    endsWith_iff rfl (by decide) (by decide) (by decide)
  have hgz : EndsWith info.path ".gz.parquet" → EndsWith info.path ".parquet" := by
    have hsuf : ".parquet".toList <:+ ".gz.parquet".toList := ⟨['.', 'g', 'z'], rfl⟩
    exact hsuf.trans
  simp only [Supported, suffixes, List.mem_cons, List.not_mem_nil, or_false, exists_eq_or_imp,
    exists_eq_left, FileInfo.Known, ← hcsv, ← htxt, ← hparquet]
  constructor
  · rintro (h | h | h | h | h)
    · exact .inl (.inl h)
    · exact .inl (.inr (.inl h))
    · exact .inr h
    · exact .inl (.inr (.inr (hgz h)))
    · exact .inl (.inr (.inr h))
  · rintro ((h | h | h) | h)
    · exact .inl h
    · exact .inr (.inl h)
    · exact .inr (.inr (.inr (.inr h)))
    · exact .inr (.inr (.inl h))

/-- The name is not of a kind that the extensions miss. -/
structure FileInfo.Listed (info : FileInfo) : Prop where
  noCsvGz : ¬ EndsWith info.path ".csv.gz"
  lowerCase : info.Known → info.extension.toLower = info.extension

instance : Decidable info.Known :=
  inferInstanceAs (Decidable (info.extension.toLower ∈ ["csv", "txt", "parquet"]))

instance : Decidable info.Listed :=
  decidable_of_iff
    (¬ EndsWith info.path ".csv.gz" ∧ (info.Known → info.extension.toLower = info.extension))
    ⟨fun h => ⟨h.1, h.2⟩, fun h => ⟨h.1, h.2⟩⟩

theorem mem_extensions_iff : info.extension ∈ extensions ↔
    info.extension.toLower = info.extension ∧ info.Known := by
  have hdot : '.' ∉ info.extension.toList := dot_notMem_extension
  simp only [extensions, FileInfo.Known, List.mem_cons, List.not_mem_nil, or_false]
  constructor
  · rintro (h | h | h | h | h) <;> rw [h] at hdot ⊢
    · decide +kernel
    · decide +kernel
    · exact absurd (by decide) hdot
    · decide +kernel
    · exact absurd (by decide) hdot
  · rintro ⟨hlower, h⟩
    rw [hlower] at h
    rcases h with h | h | h
    · exact .inl h
    · exact .inr (.inl h)
    · exact .inr (.inr (.inr (.inl h)))

/-- A file that is selected is supported. -/
theorem supported_of_mem_extensions (h : info.extension ∈ extensions) : Supported info.path :=
  supported_iff.mpr (.inl (mem_extensions_iff.mp h).2)

theorem mem_extensions_iff_supported : (info.extension ∈ extensions ↔ Supported info.path) ↔
    info.Listed := by
  have hgz : EndsWith info.path ".csv.gz" → ¬ info.Known := by
    intro hends hknown
    have hsuf : ".gz".toList <:+ ".csv.gz".toList := ⟨['.', 'c', 's', 'v'], rfl⟩
    have hext : info.extension.toLower = "gz" :=
      (endsWith_iff rfl (by decide) (by decide) (by decide)).mp (hsuf.trans hends)
    rw [FileInfo.Known, hext] at hknown
    revert hknown
    decide
  rw [mem_extensions_iff, supported_iff]
  constructor
  · intro h
    exact ⟨fun hends => hgz hends (h.mpr (.inr hends)).2, fun hknown => (h.mpr (.inl hknown)).1⟩
  · rintro ⟨hnot, hlower⟩
    exact ⟨fun h => .inl h.2, fun h => ⟨hlower (h.resolve_right hnot), h.resolve_right hnot⟩⟩

/-! ## The files returned -/

/-- What is to be returned: the supported files, and the directories if they are asked for. -/
def FileInfo.Wanted (withDirectory : Bool) (info : FileInfo) : Prop :=
  if info.type = .file then Supported info.path else withDirectory = true

instance {withDirectory : Bool} : Decidable (info.Wanted withDirectory) :=
  inferInstanceAs
    (Decidable (if info.type = .file then Supported info.path else withDirectory = true))

variable {pathPrefix : String} {fileInfos : List FileInfo} {withDirectory withFileTypeReturn : Bool}

/-- The paths are sorted, and each wanted entry has its own. -/
structure Returns (pathPrefix : String) (fileInfos : List FileInfo)
    (withDirectory withFileTypeReturn : Bool) (dataPaths : List DataPath) : Prop where
  sorted : dataPaths.Pairwise (getEleKey · ≤ getEleKey ·)
  perm : dataPaths.Perm
    ((fileInfos.filter (·.Wanted withDirectory)).map (·.dataPath pathPrefix withFileTypeReturn))

theorem filterDataPaths_sorted :
    (filterDataPaths pathPrefix fileInfos withDirectory withFileTypeReturn).Pairwise
      (getEleKey · ≤ getEleKey ·) := by
  have : Std.Total fun a b : DataPath => getEleKey a ≤ getEleKey b := ⟨fun _ _ => le_total _ _⟩
  have : IsTrans DataPath fun a b => getEleKey a ≤ getEleKey b := ⟨fun _ _ _ => le_trans⟩
  unfold filterDataPaths
  split
  · exact .nil
  · exact List.pairwise_insertionSort _ _

theorem filterDataPaths_perm :
    (filterDataPaths pathPrefix fileInfos withDirectory withFileTypeReturn).Perm
      ((fileInfos.filter (·.Selected withDirectory)).map
        (·.dataPath pathPrefix withFileTypeReturn)) := by
  unfold filterDataPaths
  split
  · next h => rw [h]; exact .nil
  · exact List.perm_insertionSort _ _

theorem FileInfo.Selected.wanted (h : info.Selected withDirectory) : info.Wanted withDirectory := by
  unfold Wanted
  unfold Selected at h
  split at h
  · next hfile => rw [if_pos hfile]; exact supported_of_mem_extensions h
  · next hfile => rw [if_neg hfile]; exact h

/-- Exactly the supported files are returned when every file of the listing is of a kind that the
    extensions do not miss. -/
theorem filterDataPaths_returns_iff :
    Returns pathPrefix fileInfos withDirectory withFileTypeReturn
        (filterDataPaths pathPrefix fileInfos withDirectory withFileTypeReturn) ↔
      ∀ info ∈ fileInfos, info.type = .file → info.Listed := by
  have hsub : (fileInfos.filter (·.Selected withDirectory)).Sublist
      (fileInfos.filter (·.Wanted withDirectory)) :=
    List.monotone_filter_right _ fun info h =>
      decide_eq_true (FileInfo.Selected.wanted (of_decide_eq_true h))
  constructor
  · rintro ⟨-, hperm⟩ info hinfo hfile
    have hlen := (filterDataPaths_perm.symm.trans hperm).length_eq
    rw [List.length_map, List.length_map] at hlen
    have heq := hsub.eq_of_length hlen
    refine mem_extensions_iff_supported.mp ⟨supported_of_mem_extensions, fun hsupported => ?_⟩
    have hwanted : info ∈ fileInfos.filter (·.Wanted withDirectory) :=
      List.mem_filter.mpr ⟨hinfo, decide_eq_true (by rwa [FileInfo.Wanted, if_pos hfile])⟩
    rw [← heq] at hwanted
    have hselected : info.Selected withDirectory := of_decide_eq_true (List.mem_filter.mp hwanted).2
    rwa [FileInfo.Selected, if_pos hfile] at hselected
  · intro hlisted
    have heq : fileInfos.filter (·.Selected withDirectory) =
        fileInfos.filter (·.Wanted withDirectory) := by
      refine List.filter_congr fun info hinfo => decide_eq_decide.mpr ?_
      unfold FileInfo.Selected FileInfo.Wanted
      split
      · next hfile => exact mem_extensions_iff_supported.mpr (hlisted info hinfo hfile)
      · exact Iff.rfl
    exact ⟨filterDataPaths_sorted, heq ▸ filterDataPaths_perm⟩

namespace Sample

def zipped : List FileInfo := [⟨"data/part-1.csv", .file⟩, ⟨"data/part-0.csv.gz", .file⟩]

/-- The extension of `part-0.csv.gz` is `gz`. -/
theorem zipped_not_returned :
    filterDataPaths "/" zipped false false = [.str "/data/part-1.csv"] ∧
      ¬ Returns "/" zipped false false (filterDataPaths "/" zipped false false) := by
  have hreturned : filterDataPaths "/" zipped false false = [.str "/data/part-1.csv"] := by
    decide +kernel
  refine ⟨hreturned, fun h => ?_⟩
  have hlen := h.perm.length_eq
  rw [hreturned] at hlen
  revert hlen
  decide +kernel

end Sample

end Psi.DataPaths
