-- SUMMARY: Loading raw data into item_dict, and when it keeps exactly the records with an example id.
import NineNMpc.Lib.Dict
import NineNMpc.Lib.Fallible
import Mathlib.Data.List.Sort

/-!
# Loading raw data

`DataJoin/data_join/raw_data_loader.py` on the iterators of
`data_iterator_builder/tf_data_iterator.py`. Parsing a record is a parameter: `parse`
gives the first bytes value of `example_id`, and `none` where `ParseFromString` or the
access to it raises.
-/

namespace DataJoin

namespace RawData

inductive PyError where
  | stopIteration
  | assertionError
  | typeError
deriving DecidableEq

/-- The argument of `traceback.print_exc`, which is compared with 0. -/
inductive Limit where
  | number
  | text

def printExc : Limit → Except PyError Unit
  | .number => .ok ()
  | .text => .error .typeError

/-- `none` is `Invalid_ExampleId`, which no bytes equal. -/
abbrev ExampleId (β : Type) : Type := Option β

def invalidExampleId {β : Type} : ExampleId β := none

variable {ρ β : Type}

/-- `TfRecordDataItemParser.example_id`, whose handler logs before it assigns. -/
def tfExampleId (parse : ρ → Option β) (item : ρ) : Except PyError (ExampleId β) :=
  match parse item with
  | some id => .ok (some id)
  | none => do
    printExc .text
    return invalidExampleId

/-! ## The directory -/

/-- The raw data directory and what `tf_record_iterator_factory` reads from its files. -/
structure RawDataDir (ρ : Type) where
  path : String
  listDirectory : List String
  isDirectory : String → Bool
  records : String → List ρ

def pathJoin (dir name : String) : String :=
  if name.startsWith "/" then name
  else if dir = "" ∨ dir.endsWith "/" then dir ++ name
  else dir ++ "/" ++ name

/-- `_all_fpath`, sorted. -/
def RawDataDir.allFpath (dir : RawDataDir ρ) : List String :=
  ((dir.listDirectory.filter fun f => ¬ dir.isDirectory (pathJoin dir.path f)).map
    (pathJoin dir.path)).insertionSort (· ≤ ·)

/-- The files, in the order in which they are loaded. -/
def RawDataDir.files (dir : RawDataDir ρ) : List (List ρ) := dir.allFpath.map dir.records

/-! ## Loading -/

section

variable [DecidableEq β] (exampleId : ρ → Except PyError (ExampleId β))

/-- Stores `item` if the example id of `tested` is not invalid. -/
def storeIf (tested item : ρ) (itemDict : Dict (ExampleId β) ρ) :
    Except PyError (Dict (ExampleId β) ρ) := do
  if (← exampleId tested) ≠ invalidExampleId then
    let key ← exampleId item
    return itemDict.set key item
  else return itemDict

/-- One round of the outer loop. The inner loop tests the first item too. -/
def loadFile (itemDict : Dict (ExampleId β) ρ) :
    List ρ → Except PyError (Dict (ExampleId β) ρ)
  | [] => .error .stopIteration
  | firstItem :: rest => do
    let itemDict ← storeIf exampleId firstItem firstItem itemDict
    rest.foldlM (fun itemDict item => storeIf exampleId firstItem item itemDict) itemDict

def loadFiles (files : List (List ρ)) : Except PyError (Dict (ExampleId β) ρ) :=
  files.foldlM (loadFile exampleId) {}

/-- `_load_raw_data_to_mem`; the dictionary is `item_dict`. -/
def loadRawDataToMem (files : List (List ρ)) : Except PyError (Dict (ExampleId β) ρ) := do
  if files = [] then throw .assertionError
  let itemDict ← loadFiles exampleId files
  if itemDict.entries = [] then throw .assertionError
  return itemDict

end

variable [DecidableEq β] {exampleId : ρ → Except PyError (ExampleId β)} {files : List (List ρ)}
  {file : List ρ} {d d' : Dict (ExampleId β) ρ} {parse : ρ → Option β} {r : ρ}

/-! ## What a load stores -/

/-- The settings that the records make. -/
def settings (exampleId : ρ → Except PyError (ExampleId β)) (records : List ρ) :
    List (ExampleId β × ρ) :=
  records.filterMap fun r =>
    match exampleId r with
    | .ok key => some (key, r)
    | .error _ => none

/-- The record is read as one with this id. -/
def Reads (exampleId : ρ → Except PyError (ExampleId β)) (key : ExampleId β) (r : ρ) : Prop :=
  exampleId r = .ok key

instance {key : ExampleId β} : Decidable (Reads exampleId key r) :=
  match h : exampleId r with
  | .ok key' => decidable_of_iff (key' = key) (by rw [Reads, h, Except.ok.injEq])
  | .error e => isFalse (by rw [Reads, h]; exact nofun)

/-- The records of a file whose ids are read into the dictionary: all or none. -/
def kept (exampleId : ρ → Except PyError (ExampleId β)) : List ρ → List ρ
  | [] => []
  | first :: rest => if Reads exampleId none first then [] else first :: rest

omit [DecidableEq β] in
theorem Reads.unique {key key' : ExampleId β} (h : Reads exampleId key r)
    (h' : Reads exampleId key' r) : key = key' :=
  Except.ok.inj (h.symm.trans h')

theorem kept_of_invalid {first : ρ} {rest : List ρ} (h : Reads exampleId none first) :
    kept exampleId (first :: rest) = [] := if_pos h

theorem kept_of_not_invalid {first : ρ} {rest : List ρ} (h : ¬ Reads exampleId none first) :
    kept exampleId (first :: rest) = first :: rest := if_neg h

theorem mem_of_mem_kept (h : r ∈ kept exampleId file) : r ∈ file := by
  cases file with
  | nil => cases h
  | cons first rest =>
    rw [kept] at h
    split at h
    · cases h
    · exact h

theorem getLast?_settings {key : ExampleId β} {records : List ρ} :
    (((settings exampleId records).filter (·.1 = key)).getLast?.map (·.2)) =
      (records.filter (Reads exampleId key ·)).getLast? := by
  have hmap : ((settings exampleId records).filter (·.1 = key)).map (·.2) =
      records.filter (Reads exampleId key ·) := by
    induction records with
    | nil => rfl
    | cons r records ih =>
      simp only [settings] at ih
      simp only [settings, List.filterMap_cons]
      cases hr : exampleId r with
      | error e =>
        have hnot : ¬ Reads exampleId key r := by rw [Reads, hr]; exact nofun
        rw [List.filter_cons_of_neg (by simpa using hnot)]
        exact ih
      | ok key' =>
        by_cases hkey : key' = key
        · have hreads : Reads exampleId key r := by rw [Reads, hr, hkey]
          rw [List.filter_cons_of_pos (by simpa using hkey), List.map_cons,
            List.filter_cons_of_pos (by simpa using hreads)]
          exact congrArg _ ih
        · have hnot : ¬ Reads exampleId key r := by
            rw [Reads, hr, Except.ok.injEq]
            exact hkey
          rw [List.filter_cons_of_neg (by simpa using hkey),
            List.filter_cons_of_neg (by simpa using hnot)]
          exact ih
  rw [← hmap, List.getLast?_map]

theorem storeIf_of_invalid {tested item : ρ} (h : Reads exampleId none tested) :
    storeIf exampleId tested item d = .ok d := by
  rw [storeIf, show exampleId tested = .ok none from h]
  rfl

theorem storeIf_of_valid {tested item : ρ} {id : β} (h : Reads exampleId (some id) tested) :
    storeIf exampleId tested item d = (exampleId item).map fun key => d.set key item := by
  rw [storeIf, show exampleId tested = .ok (some id) from h]
  cases exampleId item <;> rfl

/-- Under a valid first item, every item is set under the id it is read with. -/
theorem foldlM_storeIf_eq_ok_iff {tested : ρ} {id : β} {records : List ρ}
    (h : Reads exampleId (some id) tested) :
    records.foldlM (fun d item => storeIf exampleId tested item d) d = .ok d' ↔
      (∀ r ∈ records, ∃ key, Reads exampleId key r) ∧ d' = d.setAll (settings exampleId records) := by
  induction records generalizing d with
  | nil => simp [settings, pure, Except.pure, eq_comm]
  | cons r records ih =>
    rw [List.foldlM_cons, storeIf_of_valid h, List.forall_mem_cons]
    cases hr : exampleId r with
    | error e =>
      have hnot : ¬ ∃ key, Reads exampleId key r := by
        rintro ⟨key, hreads⟩
        rw [Reads, hr] at hreads
        cases hreads
      simp [hnot, Except.map, bind, Except.bind]
    | ok key =>
      have hsettings : settings exampleId (r :: records) = (key, r) :: settings exampleId records := by
        simp [settings, hr]
      rw [hsettings, Dict.setAll_cons]
      exact ih.trans ⟨fun ⟨hall, heq⟩ => ⟨⟨⟨key, hr⟩, hall⟩, heq⟩, fun ⟨⟨_, hall⟩, heq⟩ => ⟨hall, heq⟩⟩

theorem foldlM_storeIf_of_invalid {tested : ρ} {records : List ρ} (h : Reads exampleId none tested) :
    records.foldlM (fun d item => storeIf exampleId tested item d) d = .ok d := by
  induction records with
  | nil => rfl
  | cons r records ih =>
    rw [List.foldlM_cons, storeIf_of_invalid h]
    exact ih

/-- The reads of a file that is loaded do not raise. -/
structure Readable (exampleId : ρ → Except PyError (ExampleId β)) (file : List ρ) : Prop where
  first : ∃ r, file.head? = some r ∧ ∃ key, Reads exampleId key r
  kept : ∀ r ∈ kept exampleId file, ∃ key, Reads exampleId key r

theorem loadFile_eq_ok_iff :
    loadFile exampleId d file = .ok d' ↔
      Readable exampleId file ∧ d' = d.setAll (settings exampleId (kept exampleId file)) := by
  cases file with
  | nil =>
    constructor
    · intro h
      cases h
    · rintro ⟨⟨⟨_, h, _⟩, _⟩, _⟩
      cases h
  | cons first rest =>
    have hstep : loadFile exampleId d (first :: rest) =
        (first :: rest).foldlM (fun d item => storeIf exampleId first item d) d := rfl
    rw [hstep]
    cases hfirst : exampleId first with
    | error e =>
      have hnot : ¬ Readable exampleId (first :: rest) := by
        rintro ⟨⟨r, hr, key, hreads⟩, -⟩
        cases hr
        rw [Reads, hfirst] at hreads
        cases hreads
      simp [hnot, storeIf, hfirst, bind, Except.bind]
    | ok key =>
      cases key with
      | none =>
        have hreads : Reads exampleId none first := hfirst
        have hkept : kept exampleId (first :: rest) = [] := kept_of_invalid hreads
        rw [foldlM_storeIf_of_invalid hreads, hkept, Except.ok.injEq]
        constructor
        · rintro rfl
          exact ⟨⟨⟨first, rfl, none, hreads⟩, by simp [hkept]⟩, rfl⟩
        · exact fun h => h.2.symm
      | some id =>
        have hreads : Reads exampleId (some id) first := hfirst
        have hkept : kept exampleId (first :: rest) = first :: rest :=
          kept_of_not_invalid fun h => Option.some_ne_none id (hreads.unique h)
        rw [foldlM_storeIf_eq_ok_iff hreads, hkept]
        constructor
        · rintro ⟨hall, heq⟩
          exact ⟨⟨⟨first, rfl, _, hreads⟩, by rwa [hkept]⟩, heq⟩
        · rintro ⟨⟨-, hall⟩, heq⟩
          rw [hkept] at hall
          exact ⟨hall, heq⟩

theorem loadFiles_eq_ok_iff :
    files.foldlM (loadFile exampleId) d = .ok d' ↔
      (∀ file ∈ files, Readable exampleId file) ∧
        d' = d.setAll (settings exampleId (files.flatMap (kept exampleId))) := by
  induction files generalizing d with
  | nil => simp [settings, pure, Except.pure, eq_comm]
  | cons file files ih =>
    rw [List.foldlM_cons, Except.bind_eq_ok_iff]
    simp only [loadFile_eq_ok_iff, ih, List.forall_mem_cons, List.flatMap_cons, settings,
      List.filterMap_append, Dict.setAll_append]
    constructor
    · rintro ⟨_, ⟨hfile, rfl⟩, hfiles, heq⟩
      exact ⟨⟨hfile, hfiles⟩, heq⟩
    · rintro ⟨⟨hfile, hfiles⟩, heq⟩
      exact ⟨_, ⟨hfile, rfl⟩, hfiles, heq⟩

theorem loadRawDataToMem_eq_ok_iff :
    loadRawDataToMem exampleId files = .ok d ↔
      files ≠ [] ∧ (∀ file ∈ files, Readable exampleId file) ∧
        d = Dict.setAll {} (settings exampleId (files.flatMap (kept exampleId))) ∧ d.entries ≠ [] := by
  unfold loadRawDataToMem
  by_cases hfiles : files = []
  · simp [hfiles, throw, throwThe, MonadExceptOf.throw, bind, Except.bind]
  · rw [if_neg hfiles]
    simp only [Except.bind_eq_ok_iff, loadFiles, loadFiles_eq_ok_iff]
    constructor
    · rintro ⟨d', ⟨hread, rfl⟩, hret⟩
      split at hret
      · cases hret
      · next hne =>
        cases hret
        exact ⟨hfiles, hread, rfl, hne⟩
    · rintro ⟨-, hread, rfl, hne⟩
      refine ⟨_, ⟨hread, rfl⟩, ?_⟩
      rw [if_neg hne]
      rfl

/-- The last record stored under an id is found. -/
theorem get?_setAll_kept (key : ExampleId β) :
    (Dict.setAll ({} : Dict (ExampleId β) ρ)
        (settings exampleId (files.flatMap (kept exampleId)))).get? key =
      ((files.flatMap (kept exampleId)).filter (Reads exampleId key ·)).getLast? := by
  rw [Dict.get?_setAll, getLast?_settings]
  exact Option.or_none

theorem mem_keys_setAll_kept {key : ExampleId β} :
    key ∈ (Dict.setAll ({} : Dict (ExampleId β) ρ)
        (settings exampleId (files.flatMap (kept exampleId)))).keys ↔
      ∃ file ∈ files, ∃ r ∈ kept exampleId file, Reads exampleId key r := by
  rw [← Dict.get?_isSome, get?_setAll_kept, List.getLast?_isSome]
  constructor
  · intro hne
    obtain ⟨r, hr⟩ := List.exists_mem_of_ne_nil _ hne
    obtain ⟨hr, hreads⟩ := List.mem_filter.mp hr
    obtain ⟨file, hfile, hr⟩ := List.mem_flatMap.mp hr
    exact ⟨file, hfile, r, hr, of_decide_eq_true hreads⟩
  · rintro ⟨file, hfile, r, hr, hreads⟩
    exact List.ne_nil_of_mem
      (List.mem_filter.mpr ⟨List.mem_flatMap.mpr ⟨file, hfile, hr⟩, decide_eq_true hreads⟩)

/-! ## Exactly the valid records -/

/-- The keys are the valid ids, each with its last record. -/
structure KeepsValid (exampleId : ρ → Except PyError (ExampleId β)) (files : List (List ρ))
    (d : Dict (ExampleId β) ρ) : Prop where
  last : ∀ id : β, d.get? (some id) = (files.flatten.filter (Reads exampleId (some id) ·)).getLast?
  invalid : invalidExampleId ∉ d.keys

/-- A file loses all its records or has only valid ones. -/
def OneKind (exampleId : ρ → Except PyError (ExampleId β)) : List ρ → Prop
  | [] => True
  | first :: rest =>
    Reads exampleId none first ∨ ∀ r ∈ first :: rest, ∃ id, Reads exampleId (some id) r

/-- A file that is loaded is of one kind when no invalid record of it is kept. -/
theorem oneKind_of_readable (h : Readable exampleId file)
    (hnone : ∀ r ∈ kept exampleId file, ¬ Reads exampleId none r) : OneKind exampleId file := by
  cases file with
  | nil => trivial
  | cons first rest =>
    by_cases hfirst : Reads exampleId none first
    · exact .inl hfirst
    · refine .inr fun r hr => ?_
      rw [← kept_of_not_invalid hfirst] at hr
      obtain ⟨key, hkey⟩ := h.kept r hr
      cases key with
      | none => exact absurd hkey (hnone r hr)
      | some id => exact ⟨id, hkey⟩

theorem OneKind.valid_of_mem_kept (h : OneKind exampleId file) (hr : r ∈ kept exampleId file) :
    ∃ id, Reads exampleId (some id) r := by
  cases file with
  | nil => cases hr
  | cons first rest =>
    rcases h with hfirst | hall
    · rw [kept_of_invalid hfirst] at hr
      cases hr
    · exact hall r (mem_of_mem_kept hr)

theorem OneKind.readable (h : OneKind exampleId file) (hne : file ≠ []) :
    Readable exampleId file := by
  refine ⟨?_, fun r hr => ?_⟩
  · cases file with
    | nil => exact absurd rfl hne
    | cons first rest =>
      rcases h with hfirst | hall
      · exact ⟨first, rfl, none, hfirst⟩
      · obtain ⟨id, hid⟩ := hall first List.mem_cons_self
        exact ⟨first, rfl, some id, hid⟩
  · obtain ⟨id, hid⟩ := h.valid_of_mem_kept hr
    exact ⟨some id, hid⟩

/-- Whatever the ids are read with, the load keeps exactly the valid records when every file is lost
    or valid, and the last record of each valid id is in a file that is not lost. -/
theorem load_keepsValid_iff (hne : ∀ file ∈ files, file ≠ [])
    (hvalid : ∃ r ∈ files.flatten, ∃ id, Reads exampleId (some id) r) :
    (∃ d, loadRawDataToMem exampleId files = .ok d ∧ KeepsValid exampleId files d) ↔
      (∀ file ∈ files, OneKind exampleId file) ∧
        ∀ id, (files.flatten.filter (Reads exampleId (some id) ·)).getLast? =
          ((files.flatMap (kept exampleId)).filter (Reads exampleId (some id) ·)).getLast? := by
  constructor
  · rintro ⟨d, hload, hkeeps⟩
    obtain ⟨-, hread, rfl, -⟩ := loadRawDataToMem_eq_ok_iff.mp hload
    refine ⟨fun file hfile => oneKind_of_readable (hread file hfile) fun r hr hnone => ?_,
      fun id => (hkeeps.last id).symm.trans (get?_setAll_kept _)⟩
    -- An invalid record that is kept makes a key of the invalid id.
    exact hkeeps.invalid (mem_keys_setAll_kept.mpr ⟨file, hfile, r, hr, hnone⟩)
  · rintro ⟨hkind, hlast⟩
    refine ⟨_, loadRawDataToMem_eq_ok_iff.mpr
      ⟨?_, fun file hfile => (hkind file hfile).readable (hne file hfile), rfl, fun hnil => ?_⟩, ?_,
      fun hmem => ?_⟩
    · rintro rfl
      simp at hvalid
    · obtain ⟨r, hr, id, hid⟩ := hvalid
      have hmem : r ∈ files.flatten.filter (Reads exampleId (some id) ·) :=
        List.mem_filter.mpr ⟨hr, decide_eq_true hid⟩
      have hlast := (hlast id).trans (get?_setAll_kept _).symm
      rw [Dict.get?, hnil] at hlast
      exact List.ne_nil_of_mem hmem (List.getLast?_eq_none_iff.mp hlast)
    · exact fun id => (get?_setAll_kept _).trans (hlast id).symm
    · obtain ⟨file, hfile, r, hr, hnone⟩ := mem_keys_setAll_kept.mp hmem
      obtain ⟨id, hid⟩ := (hkind file hfile).valid_of_mem_kept hr
      exact Option.some_ne_none id (hid.unique hnone)

omit [DecidableEq β] in
/-- The id of a record that cannot be parsed is never read: the handler raises. -/
theorem reads_tfExampleId_iff {key : ExampleId β} :
    Reads (tfExampleId parse) key r ↔ ∃ id, parse r = some id ∧ key = some id := by
  rw [Reads, tfExampleId]
  cases parse r with
  | none => simp [printExc, bind, Except.bind]
  | some id => simp [eq_comm]

/-- The load of a directory keeps exactly the valid records when there are no others. -/
theorem loadRawDataToMem_keepsValid_iff {dir : RawDataDir ρ} (hne : ∀ file ∈ dir.files, file ≠ [])
    (hvalid : ∃ r ∈ dir.files.flatten, ∃ id, parse r = some id) :
    (∃ d, loadRawDataToMem (tfExampleId parse) dir.files = .ok d ∧
        KeepsValid (tfExampleId parse) dir.files d) ↔
      ∀ r ∈ dir.files.flatten, ∃ id, parse r = some id := by
  have hnone : ∀ r, ¬ Reads (tfExampleId parse) none r := by
    intro r hreads
    obtain ⟨id, -, h⟩ := reads_tfExampleId_iff.mp hreads
    cases h
  have hvalid' : ∃ r ∈ dir.files.flatten, ∃ id, Reads (tfExampleId parse) (some id) r := by
    obtain ⟨r, hr, id, hid⟩ := hvalid
    exact ⟨r, hr, id, reads_tfExampleId_iff.mpr ⟨id, hid, rfl⟩⟩
  rw [load_keepsValid_iff hne hvalid']
  constructor
  · rintro ⟨hkind, -⟩ r hr
    obtain ⟨file, hfile, hr⟩ := List.mem_flatten.mp hr
    match file with
    | [] => cases hr
    | first :: rest =>
      obtain ⟨id, hid⟩ := (hkind _ hfile).resolve_left (hnone first) r hr
      obtain ⟨id, hparse, -⟩ := reads_tfExampleId_iff.mp hid
      exact ⟨id, hparse⟩
  · intro hall
    have hkept : dir.files.flatMap (kept (tfExampleId parse)) = dir.files.flatten := by
      rw [List.flatMap_def]
      refine congrArg List.flatten (List.map_id'' (fun file => ?_) dir.files)
      match file with
      | [] => rfl
      | first :: rest => exact if_neg (hnone first)
    refine ⟨fun file hfile => ?_, fun id => by rw [hkept]⟩
    match file with
    | [] => trivial
    | first :: rest =>
      refine .inr fun r hr => ?_
      obtain ⟨id, hid⟩ := hall r (List.mem_flatten.mpr ⟨_, hfile, hr⟩)
      exact ⟨id, reads_tfExampleId_iff.mpr ⟨id, hid, rfl⟩⟩

end RawData

namespace RawData.Sample

/-- Records below 10 have an example id. -/
def parse (r : Nat) : Option Nat := if r < 10 then some r else none

def dir (files : List (String × List Nat)) : RawDataDir Nat where
  path := "/raw"
  listDirectory := files.map (·.1)
  isDirectory := fun _ => false
  records := fun path => ((files.find? fun f => pathJoin "/raw" f.1 = path).map (·.2)).getD []

def mixed : RawDataDir Nat := dir [("part-0", [1, 10])]

/-- The second record raises; with the id that its handler means to assign, it would be stored under
    that. -/
theorem mixed_not_keepsValid :
    loadRawDataToMem (tfExampleId parse) mixed.files = .error .typeError ∧
      (¬ ∃ d, loadRawDataToMem (tfExampleId parse) mixed.files = .ok d ∧
        KeepsValid (tfExampleId parse) mixed.files d) ∧
      ¬ ∃ d, loadRawDataToMem (fun r => .ok (parse r)) mixed.files = .ok d ∧
        KeepsValid (fun r => .ok (parse r)) mixed.files d := by
  have hfiles : mixed.files = [[1, 10]] := by decide +kernel
  rw [hfiles]
  refine ⟨rfl, ?_, ?_⟩
  · rintro ⟨d, hload, -⟩
    cases hload
  · rintro ⟨d, hload, hkeeps⟩
    cases hload
    exact hkeeps.invalid (by decide)

def parted : RawDataDir Nat := dir [("part-1", [3, 1]), ("part-0", [1, 2])]

theorem parted_keepsValid :
    ∃ d, loadRawDataToMem (tfExampleId parse) parted.files = .ok d ∧
      KeepsValid (tfExampleId parse) parted.files d := by
  have hfiles : parted.files = [[1, 2], [3, 1]] := by decide +kernel
  refine (loadRawDataToMem_keepsValid_iff ?_ ?_).mpr ?_
  · rw [hfiles]
    decide
  · rw [hfiles]
    exact ⟨1, by decide, 1, rfl⟩
  · rw [hfiles]
    intro r hr
    have hlt : r < 10 := by
      revert hr r
      decide
    exact ⟨r, if_pos hlt⟩

end RawData.Sample

end DataJoin
