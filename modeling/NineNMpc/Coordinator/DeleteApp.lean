-- SUMMARY: DeleteAppInfoInRedis: the keys that its two DEL commands delete, and when they are those of the application.
import NineNMpc.Coordinator.HiRedis
import NineNMpc.Coordinator.Register

/-!
# Deleting an application

`DeleteAppInfoInRedis` of `Coordinator/services/common.cc` on the commands of
`resource/hiredis_executor.cc`. `Del` of several keys runs them together into one text
before it sends its command.
-/

namespace Coordinator

/-- The local uuids of the service pairs, in order. -/
def AppInfo.localUuids (info : AppInfo) : List String := info.pairInfos.flatMap (·.uuids)

open HiRedisExecutor

section

variable (json : Json) (hiredis : Hiredis) (server : RedisServer) (db : Db)

/-- `GetAppInfoFromRedis`; the outer `none` is the null reply. -/
def getAppInfoFromRedis (appId : String) : Option (Option AppInfo) :=
  (get hiredis server db appId).map fun value => value.bind json.jsonStringToMessage

def deleteAppInfoInRedis (appId : String) : Option (Db × Bool) :=
  match getAppInfoFromRedis json hiredis server db appId with
  | none => none
  | some none => some (db, false)
  | some (some info) =>
    let db := del hiredis server db appId
    some (delAll hiredis server db info.localUuids, true)

end

/-- The info stored under a key. -/
def storedInfo (json : Json) (db : Db) (key : String) : Option AppInfo :=
  (db key).bind fun entry => json.jsonStringToMessage entry.value

variable {json : Json} {hiredis : Hiredis} {server : RedisServer} {db : Db} {appId : String}
  {info : AppInfo}

/-! ## What is deleted -/

theorem getAppInfoFromRedis_of_splits (h : hiredis.Splits appId) :
    getAppInfoFromRedis json hiredis server db appId = some
      (match words (cStr appId) with
      | [k] => storedInfo json db k
      | _ => none) := by
  rw [getAppInfoFromRedis, get_of_splits h, Option.map_some]
  match words (cStr appId) with
  | [k] => exact congrArg some Option.bind_map
  | [] => rfl
  | _ :: _ :: _ => rfl

/-- Where the texts of both commands are split, their words are deleted. -/
theorem deleteAppInfoInRedis_of_splits {k : String} (happ : hiredis.Splits appId)
    (hwords : words (cStr appId) = [k]) (hinfo : storedInfo json db k = some info)
    (huuids : hiredis.Splits (runTogether info.localUuids)) :
    deleteAppInfoInRedis json hiredis server db appId = some (fun key =>
      if key ∈ words (cStr (runTogether info.localUuids)) then none
      else if key = k then none else db key, true) := by
  have hget : getAppInfoFromRedis json hiredis server db appId = some (some info) := by
    rw [getAppInfoFromRedis_of_splits happ, hwords]
    exact congrArg some hinfo
  rw [deleteAppInfoInRedis, hget]
  dsimp only
  rw [delAll, del_of_splits huuids, del_of_splits happ, hwords]
  simp only [List.mem_singleton]

/-- The app's key and its uuids are gone, and every other key is as it was. -/
def DeletesApp (json : Json) (hiredis : Hiredis) (server : RedisServer) (db : Db) (appId : String)
    (uuids : List String) : Prop :=
  ∀ db', deleteAppInfoInRedis json hiredis server db appId = some (db', true) →
    db' appId = none ∧ (∀ u ∈ uuids, db' u = none) ∧
      ∀ k, k ≠ appId → k ∉ uuids → db' k = db k

/-- The words of the run-together uuids are, among the keys other than the app's, the uuids. -/
structure UuidsAreWords (db : Db) (appId : String) (uuids : List String) : Prop where
  directive : ¬ HasDirective (cStr (runTogether uuids))
  named : ∀ u ∈ uuids, u = appId ∨ db u = none ∨ u ∈ words (cStr (runTogether uuids))
  only : ∀ k ∈ words (cStr (runTogether uuids)), k = appId ∨ k ∈ uuids ∨ db k = none

theorem deletesApp_of_words (hwords : words (cStr appId) = [appId])
    (hinfo : storedInfo json db appId = some info) (happ : hiredis.Splits appId)
    (h : UuidsAreWords db appId info.localUuids) :
    DeletesApp json hiredis server db appId info.localUuids := by
  intro db' hret
  rw [deleteAppInfoInRedis_of_splits happ hwords hinfo (Hiredis.splits h.directive)] at hret
  simp only [Option.some.injEq, Prod.mk.injEq, and_true] at hret
  subst hret
  refine ⟨by simp, fun u hu => ?_, fun k hk hmem => ?_⟩
  · dsimp only
    rcases h.named u hu with heq | hnone | hword
    · simp [heq]
    · simp [hnone]
    · rw [if_pos hword]
  · dsimp only
    split
    · next hword =>
      rcases h.only k hword with heq | hu | hnone
      · exact absurd heq hk
      · exact absurd hu hmem
      · exact hnone.symm
    · rfl

/-- Where `%` stands for itself, what is deleted is read off the words. -/
theorem uuids_and_words_of_deletesApp (hwords : words (cStr appId) = [appId])
    (hinfo : storedInfo json db appId = some info)
    (h : DeletesApp json .literal server db appId info.localUuids) :
    (∀ u ∈ info.localUuids,
        u = appId ∨ db u = none ∨ u ∈ words (cStr (runTogether info.localUuids))) ∧
      ∀ k ∈ words (cStr (runTogether info.localUuids)),
        k = appId ∨ k ∈ info.localUuids ∨ db k = none := by
  obtain ⟨-, huuids, hframe⟩ := h _ (deleteAppInfoInRedis_of_splits Hiredis.literal_splits hwords hinfo
    Hiredis.literal_splits)
  constructor
  · intro u hu
    have hgone := huuids u hu
    by_cases happ : u = appId
    · exact .inl happ
    · by_cases hword : u ∈ words (cStr (runTogether info.localUuids))
      · exact .inr (.inr hword)
      · rw [if_neg hword, if_neg happ] at hgone
        exact .inr (.inl hgone)
  · intro k hk
    by_cases happ : k = appId
    · exact .inl happ
    · by_cases hu : k ∈ info.localUuids
      · exact .inr (.inl hu)
      · have hsame := hframe k happ hu
        rw [if_pos hk] at hsame
        exact .inr (.inr hsame.symm)

/-- An id that is read as another key is never deleted. -/
theorem not_deletesApp_of_ne {k : String} {info' : AppInfo} (hwords : words (cStr appId) = [k])
    (hne : k ≠ appId) (hinfo' : storedInfo json db k = some info')
    (hinfo : storedInfo json db appId = some info) :
    ¬ DeletesApp json .literal server db appId info.localUuids := by
  intro h
  obtain ⟨happ, -, -⟩ := h _ (deleteAppInfoInRedis_of_splits Hiredis.literal_splits hwords hinfo'
    Hiredis.literal_splits)
  rw [if_neg hne.symm] at happ
  split at happ
  · next hword =>
    -- A word is split as itself.
    have hnul : nulByte ∉ appId.toList := fun hmem =>
      nul_notMem_cStr (subset_of_mem_words hword hmem)
    have hself : words (cStr appId) = [appId] := by
      rw [cStr_of_nul hnul]
      exact words_of_mem_words hword
    rw [hself] at hwords
    exact hne (by simpa using hwords.symm)
  · rw [storedInfo, happ] at hinfo
    cases hinfo

/-! ## Directives -/

theorem toList_runTogether {keys : List String} :
    (runTogether keys).toList = (keys.map (·.toList)).flatten := by
  have hfold : ∀ s : String, (keys.foldl (· ++ ·) s).toList =
      s.toList ++ (keys.map (·.toList)).flatten := by
    induction keys with
    | nil => simp
    | cons key keys ih =>
      intro s
      simp [ih]
  simpa [runTogether] using hfold ""

/-- Directives that make `SET` of another key out of every command but the one that reads the app. -/
def misdirected (appId key value : String) : Hiredis where
  format s :=
    if HasDirective s then
      if s = cStr ("GET " ++ appId) then some ["GET", appId] else some ["SET", key, value]
    else some (words s)
  format_words s h := by simp [h]

/-- A key that the app does not have and that no command can name. -/
theorem exists_key_notMem (appId : String) (uuids : List String) :
    ∃ key : String, key ≠ appId ∧ key ∉ uuids ∧ ' ' ∈ key.toList := by
  have hlen : (runTogether uuids ++ appId ++ " ").toList.length =
      (runTogether uuids).toList.length + appId.toList.length + 1 := by
    rw [String.toList_append, List.length_append, String.toList_append, List.length_append]
    rfl
  refine ⟨runTogether uuids ++ appId ++ " ", fun heq => ?_, fun hmem => ?_, by simp⟩
  · rw [heq] at hlen
    omega
  · have hsub := (List.sublist_flatten_of_mem (List.mem_map_of_mem (f := (·.toList)) hmem)).length_le
    rw [← toList_runTogether, hlen] at hsub
    omega

theorem del_misdirected {text key value : String} (h : HasDirective (cStr text)) :
    del (misdirected appId key value) server db text = Function.update db key (some ⟨value, none⟩) := by
  have hdir : HasDirective (cStr ("DEL " ++ text)) := by
    rw [cStr_append (by decide), hasDirective_append (by decide)]
    exact h
  have hne : cStr ("DEL " ++ text) ≠ cStr ("GET " ++ appId) := by
    intro heq
    have hhead := congrArg (fun s => s.toList.head?) heq
    simp [cStr_append (s := "DEL ") (by decide), cStr_append (s := "GET ") (by decide)] at hhead
  have hformat : (misdirected appId key value).format (cStr ("DEL " ++ text)) =
      some ["SET", key, value] := by
    simp [misdirected, hdir, hne]
  rw [del, redisCommand, hformat, Option.map_some,
    server.exec_set db key value [] (server.accepts_nil _ _), server.expiry_nil]

theorem getAppInfoFromRedis_misdirected {key value : String} (hdir : HasDirective (cStr appId)) :
    getAppInfoFromRedis json (misdirected appId key value) server db appId =
      some (storedInfo json db appId) := by
  have hget : HasDirective (cStr ("GET " ++ appId)) := by
    rw [cStr_append (by decide), hasDirective_append (by decide)]
    exact hdir
  have hformat : (misdirected appId key value).format (cStr ("GET " ++ appId)) =
      some ["GET", appId] := by
    simp [misdirected, hget]
  rw [getAppInfoFromRedis, HiRedisExecutor.get, redisCommand, hformat, Option.map_some,
    server.exec_get, storedInfo]
  cases hentry : db appId <;> simp [Db.get, hentry]

/-- With a directive in one of the two texts, anything may be done to a key. -/
theorem exists_not_deletesApp (hinfo : storedInfo json db appId = some info)
    (h : HasDirective (cStr appId) ∨
      words (cStr appId) = [appId] ∧ ¬ HasDirective (cStr appId) ∧
        HasDirective (cStr (runTogether info.localUuids))) :
    ∃ hiredis, ¬ DeletesApp json hiredis server db appId info.localUuids := by
  obtain ⟨key, hkey, hnew, hblank⟩ := exists_key_notMem appId info.localUuids
  obtain ⟨value, hvalue⟩ : ∃ value, db key ≠ some ⟨value, none⟩ := by
    by_cases hx : db key = some ⟨"x", none⟩
    · exact ⟨"y", by rw [hx]; decide⟩
    · exact ⟨"x", hx⟩
  refine ⟨misdirected appId key value, fun hdel => ?_⟩
  have hget : getAppInfoFromRedis json (misdirected appId key value) server db appId =
      some (some info) := by
    rcases h with hdir | ⟨hwords, hdir, -⟩
    · rw [getAppInfoFromRedis_misdirected hdir, hinfo]
    · rw [getAppInfoFromRedis_of_splits (Hiredis.splits hdir), hwords]
      exact congrArg some hinfo
  obtain ⟨-, -, hframe⟩ := hdel _ (by rw [deleteAppInfoInRedis, hget])
  refine hvalue ((hframe key hkey hnew).symm.trans ?_)
  rw [delAll]
  by_cases hrun : HasDirective (cStr (runTogether info.localUuids))
  · rw [del_misdirected hrun, Function.update_self]
  · have hdir : HasDirective (cStr appId) := h.resolve_right fun hright => hrun hright.2.2
    rw [del_of_splits (Hiredis.splits hrun), del_misdirected hdir]
    dsimp only
    rw [if_neg fun hword => notMem_of_mem_words hword hblank, Function.update_self]

/-! ## The keys of an application -/

/-- Exactly the keys of a stored app are deleted, whatever becomes of a directive, when its id has
    none and no info is read for it, or it is read under the id and the words of its run-together
    uuids are its uuids. -/
theorem deletesApp_iff (hinfo : storedInfo json db appId = some info) :
    (∀ hiredis, DeletesApp json hiredis server db appId info.localUuids) ↔
      ¬ HasDirective (cStr appId) ∧ ∀ k, words (cStr appId) = [k] → storedInfo json db k ≠ none →
        k = appId ∧ UuidsAreWords db appId info.localUuids := by
  constructor
  · intro hdel
    have happ : ¬ HasDirective (cStr appId) := fun hdir =>
      (exists_not_deletesApp hinfo (.inl hdir)).elim fun hiredis hnot => hnot (hdel hiredis)
    refine ⟨happ, fun k hwords hread => ?_⟩
    obtain ⟨info', hinfo'⟩ := Option.ne_none_iff_exists'.mp hread
    by_cases hk : k = appId
    · subst hk
      have hrun : ¬ HasDirective (cStr (runTogether info.localUuids)) := fun hdir =>
        (exists_not_deletesApp hinfo (.inr ⟨hwords, happ, hdir⟩)).elim
          fun hiredis hnot => hnot (hdel hiredis)
      obtain ⟨huuids, hnames⟩ := uuids_and_words_of_deletesApp hwords hinfo (hdel .literal)
      exact ⟨rfl, hrun, huuids, hnames⟩
    · exact absurd (hdel .literal) (not_deletesApp_of_ne hwords hk hinfo' hinfo)
  · rintro ⟨hdir, hwords⟩ hiredis
    have happ : hiredis.Splits appId := Hiredis.splits hdir
    match hargs : words (cStr appId) with
    | [k] =>
      by_cases hread : storedInfo json db k = none
      · intro db' hret
        rw [deleteAppInfoInRedis, getAppInfoFromRedis_of_splits happ, hargs] at hret
        simp [hread] at hret
      · obtain ⟨rfl, huuids⟩ := hwords k hargs hread
        exact deletesApp_of_words hargs hinfo happ huuids
    | [] =>
      intro db' hret
      rw [deleteAppInfoInRedis, getAppInfoFromRedis_of_splits happ, hargs] at hret
      simp at hret
    | w :: v :: ws =>
      intro db' hret
      rw [deleteAppInfoInRedis, getAppInfoFromRedis_of_splits happ, hargs] at hret
      simp at hret

/-- Uuids that the commands do not split are deleted together only as one key. -/
theorem uuidsAreWords_iff {uuids : List String} (hplain : ∀ u ∈ uuids, Plain u)
    (hne : runTogether uuids ≠ "") :
    UuidsAreWords db appId uuids ↔
      (∀ u ∈ uuids, u = appId ∨ db u = none ∨ u = runTogether uuids) ∧
        (runTogether uuids = appId ∨ runTogether uuids ∈ uuids ∨ db (runTogether uuids) = none) := by
  have hrun : Plain (runTogether uuids) := by
    have hchar : ∀ c ∈ (runTogether uuids).toList, ∃ u ∈ uuids, c ∈ u.toList := by
      intro c hc
      rw [toList_runTogether] at hc
      obtain ⟨cs, hcs, hc⟩ := List.mem_flatten.mp hc
      obtain ⟨u, hu, rfl⟩ := List.mem_map.mp hcs
      exact ⟨u, hu, hc⟩
    refine ⟨fun hc => ?_, fun hc => ?_, fun hc => ?_⟩ <;> obtain ⟨u, hu, hmem⟩ := hchar _ hc
    · exact (hplain u hu).blank hmem
    · exact (hplain u hu).percent hmem
    · exact (hplain u hu).nul hmem
  have hwords : words (cStr (runTogether uuids)) = [runTogether uuids] := by
    rw [cStr_of_nul hrun.nul, words_of_blank hrun.blank hne]
  constructor
  · rintro ⟨-, huuids, hnames⟩
    rw [hwords] at huuids hnames
    exact ⟨by simpa using huuids, by simpa using hnames⟩
  · rintro ⟨huuids, hnames⟩
    refine ⟨fun hdir => hrun.percent (cStr_subset hdir.mem), ?_, ?_⟩
    · rw [hwords]
      simpa using huuids
    · rw [hwords]
      simpa using hnames

namespace Delete.Sample

open Registry.Sample (empty first second protoJson appInfoJson)
open HiRedisExecutor.Sample (exServer)

/-- The info of an app under its id, and the addresses of two workers. -/
def content (info : AppInfo) : Db := fun key =>
  if key = "app" then some ⟨appInfoJson info, none⟩
  else if key = "app_worker_0" then some ⟨first.ipPort, none⟩
  else if key = "app_worker_1" then some ⟨second.ipPort, none⟩
  else none

def two : AppInfo := (empty.register first).register second

/-- `app_worker_0app_worker_1` is no key of Redis. -/
theorem two_not_deleted :
    storedInfo protoJson (content two) "app" = some two ∧
      ∃ db', deleteAppInfoInRedis protoJson .literal exServer (content two) "app" = some (db', true) ∧
        db' "app_worker_0" ≠ none ∧
          ¬ ∀ hiredis, DeletesApp protoJson hiredis exServer (content two) "app" two.localUuids := by
  have hinfo : storedInfo protoJson (content two) "app" = some two := by decide +kernel
  have hwords : words (cStr "app") = ["app"] := by decide +kernel
  have hret : deleteAppInfoInRedis protoJson .literal exServer (content two) "app" = some (_, true) :=
    deleteAppInfoInRedis_of_splits Hiredis.literal_splits hwords hinfo Hiredis.literal_splits
  have hkept : ¬ "app_worker_0" ∈ words (cStr (runTogether two.localUuids)) := by decide +kernel
  refine ⟨hinfo, _, hret, ?_, fun hdel => ?_⟩
  · simp only [if_neg hkept]
    decide +kernel
  · obtain ⟨-, huuids, -⟩ := hdel .literal _ hret
    have hgone := huuids "app_worker_0" (by decide)
    rw [if_neg hkept] at hgone
    revert hgone
    decide +kernel

def one : AppInfo := empty.register first

theorem one_deleted :
    DeletesApp protoJson .literal exServer (content one) "app" one.localUuids := by
  refine (deletesApp_iff (by decide +kernel)).mpr ⟨by decide +kernel, fun k hk _ => ?_⟩ .literal
  have hwords : words (cStr "app") = ["app"] := by decide +kernel
  rw [hwords] at hk
  obtain rfl : "app" = k := by simpa using hk
  refine ⟨rfl, (uuidsAreWords_iff (by decide) (by decide)).mpr ?_⟩
  decide +kernel

end Delete.Sample

end Coordinator
