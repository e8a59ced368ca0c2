-- SUMMARY: The commands of HiRedisExecutor as the texts it sends, the arguments they split into, and the values that Set and Get carry round.
import Mathlib.Logic.Function.Basic
import Mathlib.Data.List.TakeWhile
import NineNMpc.Lib.Words

/-!
# Redis commands

`Coordinator/resource/hiredis_executor.cc`. A command is one text, with keys and values
spliced in, which `redisCommand` of hiredis takes for a format: it splits it at its blanks
and interprets `%`. Neither hiredis nor Redis is in the repository: `Hiredis` and
`RedisServer` keep what the code relies on.
-/

namespace Coordinator

/-! ## Hiredis and Redis -/

def nulByte : Char := Char.ofNat 0

/-- What `c_str` passes on of a text. -/
def cStr (s : String) : String := String.ofList (s.toList.takeWhile (· ≠ nulByte))

def words (s : String) : List String := (s.toList.words ' ').map String.ofList

/-- A `%` that begins a directive; at the end of a format it stands for itself. -/
def HasDirective (s : String) : Prop := '%' ∈ s.toList.dropLast

instance {s : String} : Decidable (HasDirective s) :=
  inferInstanceAs (Decidable ('%' ∈ s.toList.dropLast))

/-- The arguments that `redisCommand` makes of a format, `none` if it rejects it. What becomes of a
    directive depends on arguments that are never passed. -/
structure Hiredis where
  format : String → Option (List String)
  format_words : ∀ s, ¬ HasDirective s → format s = some (words s)

inductive Reply where
  | status (str : String)
  | string (str : String)
  | nil
  | integer
  | error
deriving DecidableEq

structure Entry where
  value : String
  /-- The seconds after which Redis drops the key. -/
  expiry : Option Nat
deriving DecidableEq

abbrev Db : Type := String → Option Entry

def Db.get (db : Db) (key : String) : Reply :=
  match db key with
  | some entry => .string entry.value
  | none => .nil

/-- `accepts` says whether the arguments behind the value are options with which `SET` replies OK, and
    `expiry` what they set. -/
structure RedisServer where
  exec : Db → List String → Db × Reply
  accepts : Db → String → List String → Bool
  expiry : Db → String → List String → Option Nat
  accepts_nil : ∀ db key, accepts db key [] = true
  expiry_nil : ∀ db key, expiry db key [] = none
  exec_get : ∀ db key, exec db ["GET", key] = (db, db.get key)
  exec_get_arity : ∀ db args, args.length ≠ 1 → (exec db ("GET" :: args)).2 = .error
  exec_set : ∀ db key value opts, accepts db key opts = true →
    exec db ("SET" :: key :: value :: opts) =
      (Function.update db key (some ⟨value, expiry db key opts⟩), .status "OK")
  exec_set_refused : ∀ db key value opts, accepts db key opts = false →
    (exec db ("SET" :: key :: value :: opts)).2 ≠ .status "OK"
  exec_set_arity : ∀ db args, args.length < 2 → (exec db ("SET" :: args)).2 = .error
  exec_del : ∀ db keys, (exec db ("DEL" :: keys)).1 = fun key => if key ∈ keys then none else db key

/-! ## The executor -/

namespace HiRedisExecutor

variable (hiredis : Hiredis) (server : RedisServer) (db : Db)

/-- `none` is the null reply to a format that is rejected. -/
def redisCommand (command : String) : Option (Db × Reply) :=
  (hiredis.format (cStr command)).map (server.exec db)

/-- `Get`; `none` is the null reply, which it reads from. -/
def get (key : String) : Option (Option String) :=
  (redisCommand hiredis server db ("GET " ++ key)).map fun (_, reply) =>
    match reply with
    | .string str => some str
    | _ => none

def checkReply (reply : Reply) : Bool := reply = .status "OK"

/-- `Set`; `none` is the null reply, which it reads from. -/
def set (key value : String) : Option (Db × Bool) :=
  (redisCommand hiredis server db ("SET " ++ key ++ " " ++ value)).map fun (db, reply) =>
    (db, checkReply reply)

def setEx (key value : String) (time : Nat) : Option (Db × Bool) :=
  set hiredis server db key (value ++ " EX " ++ toString time)

/-- `Del`, which drops the reply. -/
def del (key : String) : Db :=
  match redisCommand hiredis server db ("DEL " ++ key) with
  | some (db, _) => db
  | none => db

/-- `keys_str` of `Del` of several keys. -/
def runTogether (keys : List String) : String := keys.foldl (· ++ ·) ""

/-- `Del` of several keys. -/
def delAll (keys : List String) : Db := del hiredis server db (runTogether keys)

end HiRedisExecutor

/-! ## Words of commands -/

variable {hiredis : Hiredis} {server : RedisServer} {db db' : Db} {key value : String}

theorem words_append (s t : String) : words (s ++ " " ++ t) = words s ++ words t := by
  simp only [words, String.toList_append, List.append_assoc]
  rw [show " ".toList ++ t.toList = ' ' :: t.toList from rfl, List.words_append_cons, List.map_append]

@[simp] theorem words_empty : words "" = [] := by simp [words]

theorem words_of_blank {s : String} (h : ' ' ∉ s.toList) (hne : s ≠ "") : words s = [s] := by
  have hne' : s.toList ≠ [] := by simpa using hne
  simp [words, List.words_of_notMem h hne']

theorem notMem_of_mem_words {s w : String} (h : w ∈ words s) : ' ' ∉ w.toList := by
  obtain ⟨cs, hcs, rfl⟩ := List.mem_map.mp h
  simpa using List.notMem_of_mem_words hcs

theorem subset_of_mem_words {s w : String} (h : w ∈ words s) : w.toList ⊆ s.toList := by
  obtain ⟨cs, hcs, rfl⟩ := List.mem_map.mp h
  simpa using List.subset_of_mem_words hcs

/-- A word is its own only word. -/
theorem words_of_mem_words {s w : String} (h : w ∈ words s) : words w = [w] := by
  refine words_of_blank (notMem_of_mem_words h) fun hne => ?_
  obtain ⟨cs, hcs, rfl⟩ := List.mem_map.mp h
  have hnil : cs = [] := by simpa using hne
  exact List.ne_nil_of_mem_words hcs hnil

theorem length_words_le_one {s : String} (h : ' ' ∉ s.toList) : (words s).length ≤ 1 := by
  by_cases hne : s = ""
  · simp [hne]
  · simp [words_of_blank h hne]

theorem toList_cStr (s : String) : (cStr s).toList = s.toList.takeWhile (· ≠ nulByte) := by simp [cStr]

theorem cStr_subset {s : String} : (cStr s).toList ⊆ s.toList := by
  rw [toList_cStr]
  exact (List.takeWhile_prefix _).subset

theorem nul_notMem_cStr {s : String} : nulByte ∉ (cStr s).toList := by
  rw [toList_cStr]
  intro h
  have hall := List.all_takeWhile (p := (· ≠ nulByte)) (l := s.toList)
  simpa using List.all_eq_true.mp hall nulByte h

theorem cStr_of_nul {s : String} (h : nulByte ∉ s.toList) : cStr s = s := by
  have hall : ∀ c ∈ s.toList, decide (c ≠ nulByte) = true :=
    fun c hc => decide_eq_true fun heq => h (heq ▸ hc)
  rw [cStr, List.takeWhile_eq_self_iff.mpr hall, String.ofList_toList]

theorem cStr_append {s t : String} (h : nulByte ∉ s.toList) : cStr (s ++ t) = s ++ cStr t := by
  have hall : ∀ c ∈ s.toList, decide (c ≠ nulByte) = true :=
    fun c hc => decide_eq_true fun heq => h (heq ▸ hc)
  rw [cStr, String.toList_append, List.takeWhile_append_of_pos hall]
  simp [cStr]

theorem cStr_append_of_mem {s t : String} (h : nulByte ∈ s.toList) : cStr (s ++ t) = cStr s := by
  have hlen : (s.toList.takeWhile (· ≠ nulByte)).length ≠ s.toList.length := by
    intro hlen
    have heq := (List.takeWhile_prefix (· ≠ nulByte)).eq_of_length hlen
    simpa using List.takeWhile_eq_self_iff.mp heq nulByte h
  rw [cStr, String.toList_append, List.takeWhile_append, if_neg hlen]
  rfl

theorem HasDirective.mem {s : String} (h : HasDirective s) : '%' ∈ s.toList :=
  List.dropLast_subset _ h

theorem hasDirective_append {s t : String} (h : '%' ∉ s.toList) :
    HasDirective (s ++ t) ↔ HasDirective t := by
  rw [HasDirective, HasDirective, String.toList_append]
  cases t.toList with
  | nil => simpa using fun hmem => h (List.dropLast_subset _ hmem)
  | cons c cs => simp [h]

/-- A key that the commands do not split. -/
structure Plain (key : String) : Prop where
  blank : ' ' ∉ key.toList
  percent : '%' ∉ key.toList
  nul : nulByte ∉ key.toList

instance : Decidable (Plain key) :=
  decidable_of_iff (' ' ∉ key.toList ∧ '%' ∉ key.toList ∧ nulByte ∉ key.toList)
    ⟨fun h => ⟨h.1, h.2.1, h.2.2⟩, fun h => ⟨h.1, h.2, h.3⟩⟩

/-- The commands on the text get its words for their arguments. -/
def Hiredis.Splits (hiredis : Hiredis) (text : String) : Prop :=
  ∀ name, Plain name → name ≠ "" →
    hiredis.format (cStr (name ++ " " ++ text)) = some (name :: words (cStr text))

theorem Plain.append_blank (h : Plain key) : '%' ∉ (key ++ " ").toList ∧ nulByte ∉ (key ++ " ").toList := by
  simp only [String.toList_append, List.mem_append, not_or]
  exact ⟨⟨h.percent, by decide⟩, h.nul, by decide⟩

theorem words_command {name text : String} (hname : Plain name) (hne : name ≠ "") :
    words (cStr (name ++ " " ++ text)) = name :: words (cStr text) := by
  rw [cStr_append hname.append_blank.2, words_append, words_of_blank hname.blank hne,
    List.singleton_append]

theorem Hiredis.splits {text : String} (h : ¬ HasDirective (cStr text)) : hiredis.Splits text := by
  intro name hname hne
  rw [hiredis.format_words, words_command hname hne]
  rw [cStr_append hname.append_blank.2, hasDirective_append hname.append_blank.1]
  exact h

/-- Directives that stand for themselves. -/
def Hiredis.literal : Hiredis := ⟨fun s => some (words s), fun _ _ => rfl⟩

theorem Hiredis.literal_splits {text : String} : Hiredis.literal.Splits text :=
  fun _ hname hne => congrArg some (words_command hname hne)

theorem Plain.splits (h : Plain key) : hiredis.Splits key :=
  Hiredis.splits fun hdir => h.percent (cStr_subset hdir.mem)

namespace HiRedisExecutor

theorem redisCommand_of_splits {name text : String} (hname : Plain name) (hne : name ≠ "")
    (h : hiredis.Splits text) :
    redisCommand hiredis server db (name ++ " " ++ text) =
      some (server.exec db (name :: words (cStr text))) := by
  rw [redisCommand, h name hname hne]
  rfl

theorem get_of_splits (h : hiredis.Splits key) :
    get hiredis server db key = some
      (match words (cStr key) with
      | [k] => (db k).map (·.value)
      | _ => none) := by
  rw [get, show "GET " = "GET" ++ " " from rfl, redisCommand_of_splits (by decide) (by decide) h,
    Option.map_some]
  match hwords : words (cStr key) with
  | [k] =>
    simp only [server.exec_get, Db.get]
    cases db k <;> rfl
  | [] =>
    have hreply := server.exec_get_arity db [] (by simp)
    simp only [hreply]
  | w :: v :: ws =>
    have hreply := server.exec_get_arity db (w :: v :: ws) (by simp)
    simp only [hreply]

theorem get_of_plain (hkey : Plain key) (hne : key ≠ "") :
    get hiredis server db key = some ((db key).map (·.value)) := by
  rw [get_of_splits hkey.splits, cStr_of_nul hkey.nul, words_of_blank hkey.blank hne]

theorem get_empty : get hiredis server db "" = some none := by
  have hplain : Plain "" := by decide
  rw [get_of_splits hplain.splits, cStr_of_nul hplain.nul, words_empty]

theorem del_of_splits (h : hiredis.Splits key) :
    del hiredis server db key = fun k => if k ∈ words (cStr key) then none else db k := by
  rw [del, show "DEL " = "DEL" ++ " " from rfl, redisCommand_of_splits (by decide) (by decide) h,
    ← server.exec_del]

/-- The arguments with which `SET` stores something, and replies OK. -/
def Accepted (server : RedisServer) (db : Db) : List String → Prop
  | key :: _ :: opts => server.accepts db key opts = true
  | _ => False

instance : (args : List String) → Decidable (Accepted server db args)
  | key :: _ :: opts => inferInstanceAs (Decidable (server.accepts db key opts = true))
  | [_] | [] => inferInstanceAs (Decidable False)

/-- `Set` returns true exactly when its words are a key, a value and options. -/
theorem set_eq_true_iff (h : hiredis.Splits (key ++ " " ++ value)) :
    set hiredis server db key value = some (db', true) ↔
      ∃ k v opts, words (cStr (key ++ " " ++ value)) = k :: v :: opts ∧
        server.accepts db k opts = true ∧
          db' = Function.update db k (some ⟨v, server.expiry db k opts⟩) := by
  have hset : set hiredis server db key value =
      some ((server.exec db ("SET" :: words (cStr (key ++ " " ++ value)))).1,
        checkReply (server.exec db ("SET" :: words (cStr (key ++ " " ++ value)))).2) := by
    rw [set, show "SET " ++ key ++ " " ++ value = "SET" ++ " " ++ (key ++ " " ++ value) by
      simp [String.append_assoc], redisCommand_of_splits (by decide) (by decide) h]
    rfl
  rw [hset, Option.some.injEq, Prod.mk.injEq, checkReply, decide_eq_true_eq]
  constructor
  · rintro ⟨hdb, hok⟩
    match hargs : words (cStr (key ++ " " ++ value)) with
    | k :: v :: opts =>
      rw [hargs] at hdb hok
      cases hacc : server.accepts db k opts with
      | false => exact absurd hok (server.exec_set_refused db k v opts hacc)
      | true =>
        rw [server.exec_set db k v opts hacc] at hdb
        exact ⟨k, v, opts, rfl, hacc, hdb.symm⟩
    | [_] =>
      rw [hargs, server.exec_set_arity _ _ (by simp)] at hok
      cases hok
    | [] =>
      rw [hargs, server.exec_set_arity _ _ (by simp)] at hok
      cases hok
  · rintro ⟨k, v, opts, hargs, hacc, rfl⟩
    rw [hargs, server.exec_set db k v opts hacc]
    exact ⟨rfl, rfl⟩

/-! ## Round trips -/

/-- After `Set` has returned true, `Get` returns the value, the key does not expire, and no other key
    has changed. -/
def RoundTrips (hiredis : Hiredis) (server : RedisServer) (db : Db) (key value : String) : Prop :=
  ∀ db', set hiredis server db key value = some (db', true) →
    get hiredis server db' key = some (some value) ∧ db' key = some ⟨value, none⟩ ∧
      ∀ k, k ≠ key → db' k = db k

theorem splits_args (hkey : Plain key) (hdir : ¬ HasDirective (cStr value)) :
    hiredis.Splits (key ++ " " ++ value) := by
  refine Hiredis.splits ?_
  rw [cStr_append hkey.append_blank.2, hasDirective_append hkey.append_blank.1]
  exact hdir

theorem words_args_empty : words (cStr ("" ++ " " ++ value)) = words (cStr value) := by
  rw [cStr_append (by decide), words_append, words_empty, List.nil_append]

theorem roundTrips_of_plain (hkey : Plain key) (hdir : ¬ HasDirective (cStr value))
    (hblank : ' ' ∉ value.toList) (hnul : nulByte ∉ value.toList) :
    RoundTrips hiredis server db key value := by
  intro db' hset
  obtain ⟨k, v, opts, hargs, -, rfl⟩ := (set_eq_true_iff (splits_args hkey hdir)).mp hset
  by_cases hk : key = ""
  · subst hk
    rw [words_args_empty, cStr_of_nul hnul] at hargs
    have hlen := length_words_le_one hblank
    simp [hargs] at hlen
  · rw [words_command hkey hk, cStr_of_nul hnul] at hargs
    obtain ⟨rfl, hwords⟩ := List.cons.inj hargs
    by_cases hv : value = ""
    · subst hv
      cases hwords
    · rw [words_of_blank hblank hv] at hwords
      obtain ⟨rfl, rfl⟩ : value = v ∧ opts = [] := by simpa using hwords
      rw [server.expiry_nil, get_of_plain hkey hk]
      exact ⟨by simp, by simp, fun k hne => by simp [hne]⟩

/-- A key with a NUL leaves `SET` without a value. -/
theorem roundTrips_of_nul (hblank : ' ' ∉ key.toList) (hpercent : '%' ∉ key.toList)
    (hnul : nulByte ∈ key.toList) : RoundTrips hiredis server db key value := by
  intro db' hset
  have hargs : cStr (key ++ " " ++ value) = cStr key := by
    rw [String.append_assoc, cStr_append_of_mem hnul]
  have hdir : ¬ HasDirective (cStr (key ++ " " ++ value)) := by
    rw [hargs]
    exact fun h => hpercent (cStr_subset h.mem)
  obtain ⟨k, v, opts, hwords, -⟩ := (set_eq_true_iff (Hiredis.splits hdir)).mp hset
  rw [hargs] at hwords
  have hlen := length_words_le_one fun h => hblank (cStr_subset h)
  simp [hwords] at hlen

/-- The value that is stored has no blank and no NUL. -/
theorem not_roundTrips_of_split (hkey : Plain key) (hdir : ¬ HasDirective (cStr value))
    (hsplit : ' ' ∈ value.toList ∨ nulByte ∈ value.toList)
    (hacc : Accepted server db (words (cStr (key ++ " " ++ value)))) :
    ¬ RoundTrips hiredis server db key value := by
  intro htrip
  match hargs : words (cStr (key ++ " " ++ value)) with
  | [] => rw [hargs] at hacc; exact hacc
  | [_] => rw [hargs] at hacc; exact hacc
  | k :: v :: opts =>
    rw [hargs] at hacc
    have hset : set hiredis server db key value = some (_, true) :=
      (set_eq_true_iff (splits_args hkey hdir)).mpr ⟨k, v, opts, hargs, hacc, rfl⟩
    obtain ⟨hget, hstored, -⟩ := htrip _ hset
    by_cases hk : key = ""
    · subst hk
      rw [get_empty] at hget
      cases hget
    · rw [words_command hkey hk] at hargs
      obtain ⟨rfl, hwords⟩ := List.cons.inj hargs
      obtain ⟨rfl, -⟩ : v = value ∧ _ := by simpa using hstored
      have hmem : v ∈ words (cStr v) := by simp [hwords]
      rcases hsplit with hblank | hnul
      · exact notMem_of_mem_words hmem hblank
      · exact nul_notMem_cStr (subset_of_mem_words hmem hnul)

/-- Directives that make something else of a value. -/
def replacing (key value : String) : Hiredis where
  format s := if HasDirective s then some ["SET", key, value] else some (words s)
  format_words s h := by simp [h]

theorem not_roundTrips_replacing (hkey : Plain key) (hdir : HasDirective (cStr value)) :
    ¬ RoundTrips (replacing key (value ++ "x")) server db key value := by
  intro htrip
  have hset : set (replacing key (value ++ "x")) server db key value =
      some (Function.update db key (some ⟨value ++ "x", none⟩), true) := by
    have hformat : HasDirective (cStr ("SET " ++ key ++ " " ++ value)) := by
      rw [show "SET " ++ key ++ " " ++ value = "SET " ++ (key ++ " " ++ value) by
        simp [String.append_assoc], cStr_append (by decide), cStr_append hkey.append_blank.2,
        hasDirective_append (by decide), hasDirective_append hkey.append_blank.1]
      exact hdir
    simp only [set, redisCommand, replacing, hformat, if_true, Option.map_some,
      server.exec_set db key _ [] (server.accepts_nil db key), server.expiry_nil]
    rfl
  obtain ⟨hget, -, -⟩ := htrip _ hset
  by_cases hk : key = ""
  · subst hk
    rw [get_empty] at hget
    cases hget
  · rw [get_of_plain hkey hk] at hget
    simp at hget

/-- A value comes back as it was, whatever becomes of a directive, exactly when what is passed on of
    it has none, and either it is one word or its further words are not options that `SET` accepts. -/
theorem set_roundTrips_iff (hblank : ' ' ∉ key.toList) (hpercent : '%' ∉ key.toList) :
    (∀ hiredis, RoundTrips hiredis server db key value) ↔
      nulByte ∈ key.toList ∨ ¬ HasDirective (cStr value) ∧
        (' ' ∉ value.toList ∧ nulByte ∉ value.toList ∨
          ¬ Accepted server db (words (cStr (key ++ " " ++ value)))) := by
  constructor
  · intro htrip
    by_cases hnul : nulByte ∈ key.toList
    · exact .inl hnul
    · have hkey : Plain key := ⟨hblank, hpercent, hnul⟩
      have hdir : ¬ HasDirective (cStr value) := fun h => not_roundTrips_replacing hkey h (htrip _)
      refine .inr ⟨hdir, ?_⟩
      by_contra hnot
      rw [not_or, not_not, not_and_or, not_not, not_not] at hnot
      obtain ⟨hsplit, hacc⟩ := hnot
      refine not_roundTrips_of_split hkey hdir hsplit ?_ (htrip .literal)
      assumption
  · rintro hcond hiredis
    by_cases hnul : nulByte ∈ key.toList
    · exact roundTrips_of_nul hblank hpercent hnul
    · have hkey : Plain key := ⟨hblank, hpercent, hnul⟩
      rcases hcond with hmem | ⟨hdir, ⟨hb, hn⟩ | hacc⟩
      · exact absurd hmem hnul
      · exact roundTrips_of_plain hkey hdir hb hn
      · intro db' hset
        obtain ⟨k, v, opts, hargs, haccepts, -⟩ :=
          (set_eq_true_iff (splits_args hkey hdir)).mp hset
        rw [hargs] at hacc
        exact absurd haccepts hacc

end HiRedisExecutor

namespace HiRedisExecutor.Sample

/-- The expiry that `EX` sets. -/
def exOption : List String → Option (Option Nat)
  | [] => some none
  | ["EX", time] =>
    let seconds := Nat.ofDigitChars 10 time.toList 0
    if time.toList.all Char.isDigit ∧ 0 < seconds then some (some seconds) else none
  | _ => none

def exec (db : Db) : List String → Db × Reply
  | ["GET", key] => (db, db.get key)
  | "SET" :: key :: value :: opts =>
    match exOption opts with
    | some expiry => (Function.update db key (some ⟨value, expiry⟩), .status "OK")
    | none => (db, .error)
  | "DEL" :: keys => (fun key => if key ∈ keys then none else db key, .integer)
  | _ => (db, .error)

/-- A Redis with `EX` as its only option. -/
def exServer : RedisServer where
  exec := exec
  accepts _ _ opts := (exOption opts).isSome
  expiry _ _ opts := (exOption opts).getD none
  accepts_nil _ _ := rfl
  expiry_nil _ _ := rfl
  exec_get _ _ := rfl
  exec_get_arity db args h := by
    match args with
    | [] => rfl
    | [_] => exact absurd rfl h
    | _ :: _ :: _ => rfl
  exec_set db key value opts h := by
    obtain ⟨expiry, hopts⟩ := Option.isSome_iff_exists.mp h
    simp [exec, hopts]
  exec_set_refused db key value opts h := by
    have hopts : exOption opts = none := by simpa using h
    simp [exec, hopts]
  exec_set_arity db args h := by
    match args with
    | [] => rfl
    | [_] => rfl
    | _ :: _ :: args =>
      simp only [List.length_cons] at h
      omega
  exec_del _ _ := rfl

def empty : Db := fun _ => none

/-- What is stored is the first word, and it expires. -/
theorem options_not_roundTrips :
    ¬ ∀ hiredis, RoundTrips hiredis exServer empty "app" "v EX 10" := by
  intro htrip
  obtain ⟨-, hstored, -⟩ := htrip .literal
    (Function.update empty "app" (some ⟨"v", some 10⟩)) (by
      refine (set_eq_true_iff Hiredis.literal_splits).mpr ⟨"app", "v", ["EX", "10"], ?_, ?_, ?_⟩
      · decide +kernel
      · decide +kernel
      · rfl)
  revert hstored
  decide +kernel

theorem address_roundTrips :
    RoundTrips .literal exServer empty "app_worker_0" "10.0.0.1:6666" :=
  (set_roundTrips_iff (by decide) (by decide)).mpr (by decide +kernel) .literal

end HiRedisExecutor.Sample

end Coordinator
