-- SUMMARY: From the raw data of both parties to the blocks: the rows that are stored are the inner join of the files.
import NineNMpc.Lib.Slices
import NineNMpc.DataJoin.RawData
import NineNMpc.DataJoin.Restarts

/-!
# From raw data to blocks

`InitRawDataLoading` loads the raw data of a partition on each side, and the data join
runs on the two dictionaries. What training reads is row after row of the blocks with one
index on both sides. Seen from the files, these rows are an inner join: each id of the
leader's files in the order of first appearance, if the follower has it, with the last
record on each side.
-/

namespace DataJoin

variable {ρ β : Type} [DecidableEq β]

/-! ## The join of two raw data directories -/

/-- The last record with the id. -/
def lastRecord (parse : ρ → Option β) (records : List ρ) (id : β) : Option ρ :=
  (records.filter fun r => parse r = some id).getLast?

/-- Each id once, in the order of first appearance. -/
def rawIds (parse : ρ → Option β) (records : List ρ) : List β := (records.filterMap parse).eraseDups

def joinedRow (parse : ρ → Option β) (leader follower : List ρ) (id : β) : Option (β × ρ × ρ) := do
  let leaderRecord ← lastRecord parse leader id
  let followerRecord ← lastRecord parse follower id
  return (id, leaderRecord, followerRecord)

/-- The inner join of the records of both sides. -/
def joinedRows (parse : ρ → Option β) (leader follower : List ρ) : List (β × ρ × ρ) :=
  (rawIds parse leader).filterMap (joinedRow parse leader follower)

/-! ## The rows of the blocks -/

/-- The rows of the blocks with one index on both sides. -/
def pairedBlock (naming : Naming β) (leader follower : Store β ρ) (index : Nat) : List (β × ρ × ρ) :=
  match leader.block? naming index, follower.block? naming index with
  | some (ids, leaderRecords), some (_, followerRecords) => ids.zip (leaderRecords.zip followerRecords)
  | _, _ => []

/-- The rows of all blocks that the leader has saved. -/
def Sys.rows (naming : Naming β) (s : Sys β ρ) : List (β × ρ × ρ) :=
  (List.range s.replica.leader.store.metaFiles.length).flatMap
    (pairedBlock naming s.replica.leader.store s.replica.follower)

/-- The row that two dictionaries have for an id. -/
def ItemDict.row (leader follower : ItemDict β ρ) (id : β) : Option (β × ρ × ρ) := do
  let leaderItem ← leader.get? id
  let followerItem ← follower.get? id
  return (id, leaderItem.record, followerItem.record)

theorem ItemDict.zip_records {leader follower : ItemDict β ρ} {ids : List β} {ls fs : List ρ}
    (hl : leader.records? ids = some ls) (hf : follower.records? ids = some fs) :
    ids.zip (ls.zip fs) = ids.filterMap (leader.row follower) := by
  induction ids generalizing ls fs with
  | nil => rfl
  | cons id ids ih =>
    simp only [records?, List.mapM_cons, Option.bind_eq_bind, Option.pure_def,
      Option.bind_eq_some_iff, Option.map_eq_some_iff, Option.some.injEq] at hl hf
    obtain ⟨_, ⟨l, hl, rfl⟩, ls, hls, rfl⟩ := hl
    obtain ⟨_, ⟨f, hf, rfl⟩, fs, hfs, rfl⟩ := hf
    have hrow : leader.row follower id = some (id, l.record, f.record) := by simp [row, hl, hf]
    rw [List.filterMap_cons_some hrow, ← ih hls hfs]
    rfl

/-- The saved rows are those of the saved ids. -/
theorem Sys.Paired.rows_eq {cfg : Config β ρ} {s : Sys β ρ} (h : s.Paired cfg) :
    s.rows cfg.naming =
      s.replica.leader.store.storedIds.filterMap (cfg.leaderItems.row cfg.followerItems) := by
  have hblock : ∀ k m, s.replica.leader.store.metaFiles[k]? = some m →
      pairedBlock cfg.naming s.replica.leader.store s.replica.follower k =
        m.exampleIds.filterMap (cfg.leaderItems.row cfg.followerItems) := by
    intro k m hm
    obtain ⟨ls, fs, hleader, hfollower, hls, hfs⟩ := h.block? hm
    rw [pairedBlock, hleader, hfollower]
    exact ItemDict.zip_records hls hfs
  rw [rows, List.flatMap_range_length hblock, Store.storedIds, List.filterMap_flatMap]

/-! ## The dictionaries of raw data -/

/-- An entry of `item_dict`; `eventTime` is what the event times of the records are read as. -/
def toItem (eventTime : ρ → Int) (e : RawData.ExampleId β × ρ) : Option (Item β ρ) :=
  e.1.map fun id => ⟨id, eventTime e.2, e.2⟩

omit [DecidableEq β] in
theorem exampleId_toItem {eventTime : ρ → Int} {entries : List (RawData.ExampleId β × ρ)} :
    (entries.filterMap (toItem eventTime)).map (·.exampleId) = (entries.map (·.1)).filterMap id := by
  rw [List.map_filterMap, List.filterMap_map]
  refine List.filterMap_congr fun e _ => ?_
  cases he : e.1 <;> simp [toItem, he]

/-- `item_dict` as the join uses it. After a load no key is `Invalid_ExampleId`. -/
def itemDict (eventTime : ρ → Int) (d : Dict (RawData.ExampleId β) ρ) : ItemDict β ρ where
  items := d.entries.filterMap (toItem eventTime)
  nodup := by
    rw [exampleId_toItem]
    refine d.nodup.filterMap ?_
    rintro _ _ b rfl rfl
    rfl

namespace RawData

variable {parse : ρ → Option β} {eventTime : ρ → Int} {d : Dict (ExampleId β) ρ}
  {files : List (List ρ)}

omit [DecidableEq β] in
theorem ids_itemDict : (itemDict eventTime d).ids = d.keys.filterMap id := exampleId_toItem

theorem get?_itemDict {id : β} :
    (itemDict eventTime d).get? id = (d.get? (some id)).map fun r => ⟨id, eventTime r, r⟩ := by
  have hkey : ∀ e : ExampleId β × ρ,
      (toItem eventTime e).any (fun item => item.exampleId = id) = decide (e.1 = some id) := by
    intro e
    cases he : e.1 <;> simp [toItem, he]
  rw [ItemDict.get?, itemDict, List.find?_filterMap, Dict.get?]
  simp only [hkey]
  cases hfind : d.entries.find? fun e => e.1 = some id with
  | none => rfl
  | some e =>
    have he : e.1 = some id := by simpa using List.find?_some hfind
    simp [toItem, he]

/-- The parser of the code reads no id as invalid, so no file is skipped. -/
theorem kept_tfExampleId {file : List ρ} : kept (tfExampleId parse) file = file := by
  cases file with
  | nil => rfl
  | cons first rest =>
    refine kept_of_not_invalid fun hreads => ?_
    obtain ⟨id, -, h⟩ := reads_tfExampleId_iff.mp hreads
    cases h

/-- What a load leaves, from the files alone. -/
theorem load_eq (hload : loadRawDataToMem (tfExampleId parse) files = .ok d) :
    d = Dict.setAll {} (settings (tfExampleId parse) (files.flatMap (kept (tfExampleId parse)))) ∧
      files.flatMap (kept (tfExampleId parse)) = files.flatten := by
  obtain ⟨-, -, hd, -⟩ := loadRawDataToMem_eq_ok_iff.mp hload
  refine ⟨hd, ?_⟩
  rw [List.flatMap_def]
  exact congrArg List.flatten (List.map_id'' (fun _ => kept_tfExampleId) files)

theorem ids_of_load (hload : loadRawDataToMem (tfExampleId parse) files = .ok d) :
    (itemDict eventTime d).ids = rawIds parse files.flatten := by
  obtain ⟨hd, hfiles⟩ := load_eq hload
  have hkeys : (settings (tfExampleId parse) files.flatten).map (·.1) =
      (files.flatten.filterMap parse).map some := by
    rw [settings, List.map_filterMap, List.map_filterMap]
    refine List.filterMap_congr fun r _ => ?_
    cases hr : parse r <;> simp [tfExampleId, hr, printExc, bind, Except.bind]
  have hnil : Dict.keys ({} : Dict (ExampleId β) ρ) = [] := rfl
  rw [ids_itemDict, hd, hfiles, Dict.keys_setAll, hkeys, hnil, List.removeAll_nil, List.nil_append,
    List.eraseDups_map (Option.some_injective β), List.filterMap_map]
  exact List.filterMap_some

theorem get?_of_load (hload : loadRawDataToMem (tfExampleId parse) files = .ok d) {id : β} :
    (itemDict eventTime d).get? id =
      (lastRecord parse files.flatten id).map fun r => ⟨id, eventTime r, r⟩ := by
  obtain ⟨hd, hfiles⟩ := load_eq hload
  have hfilter : files.flatten.filter (Reads (tfExampleId parse) (some id) ·) =
      files.flatten.filter fun r => parse r = some id := by
    refine List.filter_congr fun r _ => ?_
    simp [reads_tfExampleId_iff]
  rw [get?_itemDict, hd, get?_setAll_kept, hfiles, hfilter, lastRecord]

end RawData

/-! ## The join of the files -/

section

variable {parse : ρ → Option β} {eventTime : ρ → Int} {leaderFiles followerFiles : List (List ρ)}
  {cfg : Config β ρ} {s : Sys β ρ} {as : List Action}

/-- The two processes have loaded these files. -/
structure Loaded (parse : ρ → Option β) (eventTime : ρ → Int) (leaderFiles followerFiles : List (List ρ))
    (cfg : Config β ρ) : Prop where
  leader : ∃ d, RawData.loadRawDataToMem (RawData.tfExampleId parse) leaderFiles = .ok d ∧
    cfg.leaderItems = itemDict eventTime d
  follower : ∃ d, RawData.loadRawDataToMem (RawData.tfExampleId parse) followerFiles = .ok d ∧
    cfg.followerItems = itemDict eventTime d

theorem Loaded.row_eq (h : Loaded parse eventTime leaderFiles followerFiles cfg) :
    cfg.leaderItems.row cfg.followerItems = joinedRow parse leaderFiles.flatten followerFiles.flatten := by
  obtain ⟨L, hL, hleader⟩ := h.leader
  obtain ⟨F, hF, hfollower⟩ := h.follower
  funext id
  rw [ItemDict.row, joinedRow, hleader, hfollower, RawData.get?_of_load hL, RawData.get?_of_load hF]
  cases lastRecord parse leaderFiles.flatten id with
  | none => rfl
  | some l => cases lastRecord parse followerFiles.flatten id <;> rfl

theorem Loaded.joinedRows_eq (h : Loaded parse eventTime leaderFiles followerFiles cfg) :
    joinedRows parse leaderFiles.flatten followerFiles.flatten =
      (cfg.common cfg.leaderItems.ids).filterMap (cfg.leaderItems.row cfg.followerItems) := by
  obtain ⟨L, hL, hleader⟩ := h.leader
  have hids : cfg.leaderItems.ids = rawIds parse leaderFiles.flatten := by
    rw [hleader, RawData.ids_of_load hL]
  rw [joinedRows, ← hids, ← h.row_eq, Config.common, List.filterMap_filter]
  refine List.filterMap_congr fun id _ => ?_
  split
  · rfl
  · next hid =>
    have hnone := ItemDict.get?_eq_none.mpr (by simpa using hid)
    cases hitem : cfg.leaderItems.get? id <;> simp [ItemDict.row, hnone, hitem]

end

namespace RawToBlocks

/-- Records below 100 have their last digit as id. -/
def parse (r : Nat) : Option Nat := if r < 100 then some (r % 10) else none

def leaderFiles : List (List Nat) := [[17, 18], [9, 27]]

def followerFiles : List (List Nat) := [[49, 37, 59], [61]]

def itemsOf (files : List (List Nat)) : ItemDict Nat Nat :=
  itemDict (fun _ => 0) (Dict.setAll {} (RawData.settings (RawData.tfExampleId parse) files.flatten))

def config : Config Nat Nat where
  naming := .padded Nat "sample"
  leaderItems := itemsOf leaderFiles
  followerItems := itemsOf followerFiles
  dumpDataBlockThreshold := 1

theorem loaded : Loaded parse (fun _ => 0) leaderFiles followerFiles config where
  leader := ⟨_, rfl, rfl⟩
  follower := ⟨_, rfl, rfl⟩

end RawToBlocks

end DataJoin
