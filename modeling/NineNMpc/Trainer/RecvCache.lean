-- SUMMARY: RpcBridgeRecvCache: OnReceived and the three parts of QueryResult over all entries, and that each accepted tensor is handed back exactly once.
import NineNMpc.Trainer.Transmit

/-!
# The receive cache

`RpcBridgeRecvCache` of `Trainer/rpc/rpc_bridge/rpc_bridge_agent.cc` and
`rpc_bridge_agent.h`. A call of `QueryResult` that finds nothing is split where it gives
up `mu_`: its locked check, the end of its wait, and its locked finish. An entry that is
not in the map reads as the default entry that `recv_cache_[slot_key][content_key]`
would put there.
-/

namespace Trainer

variable {δ : Type}

/-- The `oneof` of `TrainerWorkerMessage`. -/
inductive WorkerMsg (δ : Type) where
  | notSet
  | prefetch
  | start
  | commit
  | data (name : String) (tensor : δ)
deriving DecidableEq

structure CacheKey where
  slotKey : String
  contentKey : String
deriving DecidableEq

/-- `RpcAgentMethodRecvKey(kRpcDataMessage)` and the tensor's name. -/
def dataKey (name : String) : CacheKey := ⟨"/FlDataMessage", name⟩

/-- Where `OnReceived` files a message, and whether it must wait for the consumer. -/
def WorkerMsg.recvKey : WorkerMsg δ → Option (CacheKey × Bool)
  | notSet => none
  | prefetch => some (⟨"/FlPrefetch", "/FlPrefetch"⟩, false)
  | start => some (⟨"/FlTrainStart", "/FlTrainStart"⟩, false)
  | commit => some (⟨"/FlStepCommit", "/FlStepCommit"⟩, false)
  | data name _ => some (dataKey name, true)

namespace RecvCache

inductive State where
  | idle
  | wait
  | active
deriving DecidableEq

structure RecvCacheEntry (δ : Type) where
  state : State := .idle
  rdata : TrainerWorkerMessage (WorkerMsg δ) := ⟨0, .notSet⟩
  recvStatus : Except String Unit := .ok ()
  /-- The call of `QueryResult` whose notification `callback_` refers to. -/
  callback : Option Nat := none

/-- A call of `QueryResult` that had to wait: in `WaitForNotificationWithTimeout`, past it with
    its result `ok`, or returned. -/
inductive QueryPc where
  | wait (notified : Bool)
  | finish (ok : Bool)
  | returned
deriving DecidableEq

structure Query where
  key : CacheKey
  pc : QueryPc

def Query.notify (q : Query) : Query :=
  match q.pc with
  | .wait _ => { q with pc := .wait true }
  | .finish _ | .returned => q

/-- What a call of `QueryResult` returned, and the status and message it gave its caller. -/
structure Returned (δ : Type) where
  key : CacheKey
  ok : Bool
  result : Except String (TrainerWorkerMessage (WorkerMsg δ))

end RecvCache

structure RecvCache (δ : Type) where
  recvCache : CacheKey → RecvCache.RecvCacheEntry δ := fun _ => {}
  queries : List RecvCache.Query := []
  /-- The messages for which `OnReceived` returned OK, with their entries. -/
  received : List (CacheKey × TrainerWorkerMessage (WorkerMsg δ)) := []
  /-- The returns of `QueryResult`. -/
  returned : List (RecvCache.Returned δ) := []

namespace RecvCache

def setEntry (s : RecvCache δ) (k : CacheKey) (entry : RecvCacheEntry δ) : RecvCache δ :=
  { s with recvCache := Function.update s.recvCache k entry }

def setPc (s : RecvCache δ) (i : Nat) (pc : QueryPc) : RecvCache δ :=
  { s with queries := s.queries.modify i fun q => { q with pc } }

/-- `callback_(recv_status)`: the call's notification is notified. -/
def notify (s : RecvCache δ) : Option Nat → RecvCache δ
  | some i => { s with queries := s.queries.modify i Query.notify }
  | none => s

def onReceived (s : RecvCache δ) (recvdata : TrainerWorkerMessage (WorkerMsg δ)) :
    RecvCache δ × Except String Unit :=
  match recvdata.msg.recvKey with
  | none => (s, .error "Invalid msg case:0")
  | some (k, waitConsumer) =>
    let entry := s.recvCache k
    if waitConsumer && entry.state = .active then (s, .error "Reject.")
    else
      let callback := if entry.state = .wait then entry.callback else none
      ({ s.setEntry k { entry with recvStatus := .ok (), rdata := recvdata, state := .active } with
          received := s.received ++ [(k, recvdata)] }.notify callback, .ok ())

/-- The locked check of `QueryResult`. -/
def queryResult (s : RecvCache δ) (k : CacheKey) : RecvCache δ :=
  let entry := s.recvCache k
  if entry.state = .active then
    { s.setEntry k { entry with state := .idle } with
      returned := s.returned ++ [⟨k, true, entry.recvStatus.map fun _ => entry.rdata⟩] }
  else
    { s.setEntry k { entry with state := .wait, callback := some s.queries.length } with
      queries := s.queries ++ [⟨k, .wait false⟩] }

/-- The wait of the `i`-th query ends, by its notification or else by its timeout. -/
def endWait (s : RecvCache δ) (i : Nat) : Option (RecvCache δ) :=
  match s.queries[i]? with
  | some ⟨_, .wait notified⟩ => some (s.setPc i (.finish notified))
  | _ => none

/-- The locked finish of the `i`-th query. -/
def finish (s : RecvCache δ) (i : Nat) : Option (RecvCache δ) :=
  match s.queries[i]? with
  | some ⟨k, .finish ok⟩ =>
    let entry := s.recvCache k
    let result := if ok || entry.state = .active then .ok entry.rdata else .error "Timeout"
    some { (s.setEntry k { entry with state := .idle, callback := none }).setPc i .returned with
      returned := s.returned ++ [⟨k, ok, result⟩] }
  | _ => none

inductive Action (δ : Type) where
  | onReceived (recvdata : TrainerWorkerMessage (WorkerMsg δ))
  | queryResult (key : CacheKey)
  | endWait (query : Nat)
  | finish (query : Nat)

def step (s : RecvCache δ) : Action δ → Option (RecvCache δ)
  | .onReceived recvdata => some (s.onReceived recvdata).1
  | .queryResult k => some (s.queryResult k)
  | .endWait i => s.endWait i
  | .finish i => s.finish i

def machine (δ : Type) : Machine (RecvCache δ) (Action δ) := ⟨step⟩

/-! ## What went in and what came out -/

variable {s s' : RecvCache δ} {k k' : CacheKey} {m : TrainerWorkerMessage (WorkerMsg δ)}

def accepted (s : RecvCache δ) (k : CacheKey) : List (TrainerWorkerMessage (WorkerMsg δ)) :=
  s.received.filterMap fun r => if r.1 = k then some r.2 else none

/-- The messages handed back with an OK status. -/
def handed (s : RecvCache δ) (k : CacheKey) : List (TrainerWorkerMessage (WorkerMsg δ)) :=
  s.returned.filterMap fun r => if r.key = k then r.result.toOption else none

/-- The accepted message that waits in its entry. -/
def pending (s : RecvCache δ) (k : CacheKey) : List (TrainerWorkerMessage (WorkerMsg δ)) :=
  if (s.recvCache k).state = .active then [(s.recvCache k).rdata] else []

def Query.Outstanding (k : CacheKey) (q : Query) : Prop := q.key = k ∧ q.pc ≠ .returned

instance {q : Query} : Decidable (q.Outstanding k) := inferInstanceAs (Decidable (_ ∧ _))

/-- A query of `k` begins only when no other one is outstanding. -/
def OneQuery (k : CacheKey) (s : RecvCache δ) : Action δ → Prop
  | .queryResult k' => k' = k → ∀ q ∈ s.queries, ¬ q.Outstanding k
  | .onReceived _ | .endWait _ | .finish _ => True

instance : (a : Action δ) → Decidable (OneQuery k s a)
  | .queryResult k' => inferInstanceAs (Decidable (k' = k → ∀ q ∈ s.queries, ¬ q.Outstanding k))
  | .onReceived _ | .endWait _ | .finish _ => inferInstanceAs (Decidable True)

/-! ## The invariant of one entry -/

/-- `k` is an entry that makes senders wait. -/
def Waits (δ : Type) (k : CacheKey) : Prop :=
  ∀ (m : WorkerMsg δ) (w : Bool), m.recvKey = some (k, w) → w = true

theorem waits_dataKey {name : String} : Waits δ (dataKey name) := by
  intro m w h
  cases m with
  | notSet => cases h
  | prefetch | start | commit =>
    simp [WorkerMsg.recvKey, dataKey] at h
  | data name' tensor =>
    simp only [WorkerMsg.recvKey, Option.some.injEq, Prod.mk.injEq] at h
    exact h.2.symm

/-- The query has been told that a message is there. -/
def Query.Told (q : Query) : Prop := q.pc = .wait true ∨ q.pc = .finish true

structure Inv (k : CacheKey) (s : RecvCache δ) : Prop where
  recvStatus : (s.recvCache k).recvStatus = .ok ()
  callback : ∀ (k' : CacheKey) (i : Nat), (s.recvCache k').callback = some i →
    ∃ q, s.queries[i]? = some q ∧ q.key = k'
  unique : ∀ (i j : Nat) (q q' : Query), s.queries[i]? = some q → s.queries[j]? = some q' →
    q.Outstanding k → q'.Outstanding k → i = j
  told : ∀ q ∈ s.queries, q.key = k → q.Told → (s.recvCache k).state = .active
  conserved : s.accepted k = s.handed k ++ s.pending k

theorem inv_init : Inv k ({} : RecvCache δ) where
  recvStatus := rfl
  callback := by simp
  unique := by simp
  told := by simp
  conserved := rfl

theorem Query.Told.outstanding {q : Query} (h : q.Told) (hk : q.key = k) : q.Outstanding k := by
  refine ⟨hk, ?_⟩
  rcases h with h | h
  · simp [h]
  · simp [h]

@[simp] theorem Query.notify_key {q : Query} : q.notify.key = q.key := by
  unfold Query.notify
  split <;> rfl

theorem Query.notify_outstanding {q : Query} : q.notify.Outstanding k ↔ q.Outstanding k := by
  unfold Query.Outstanding Query.notify
  split
  · next h => simp [h]
  · simp_all
  · simp_all

/-! ### Queries -/

/-- The queries change their state, but neither their keys nor which of them are outstanding. -/
theorem Inv.mapQueries {queries : List Query} (h : Inv k s)
    (hfrom : ∀ (i : Nat) (q : Query), queries[i]? = some q →
      ∃ q₀, s.queries[i]? = some q₀ ∧ q.key = q₀.key ∧ (q.Outstanding k → q₀.Outstanding k) ∧
        (q.key = k → q.Told → (s.recvCache k).state = .active))
    (hlength : queries.length = s.queries.length) : Inv k { s with queries } where
  recvStatus := h.recvStatus
  callback k' i hi := by
    obtain ⟨q₀, hq₀, hkey₀⟩ := h.callback k' i hi
    have hlt : i < queries.length := hlength ▸ (List.getElem?_eq_some_iff.mp hq₀).1
    obtain ⟨q₁, hq₁, hkey₁, -, -⟩ := hfrom i queries[i] (List.getElem?_eq_getElem hlt)
    rw [hq₀, Option.some.injEq] at hq₁
    exact ⟨queries[i], List.getElem?_eq_getElem hlt, by rw [hkey₁, ← hq₁, hkey₀]⟩
  unique i j q q' hi hj hq hq' := by
    obtain ⟨q₀, hi₀, -, hout₀, -⟩ := hfrom i q hi
    obtain ⟨q₁, hj₁, -, hout₁, -⟩ := hfrom j q' hj
    exact h.unique i j q₀ q₁ hi₀ hj₁ (hout₀ hq) (hout₁ hq')
  told q hq hk htold := by
    obtain ⟨i, hi⟩ := List.mem_iff_getElem?.mp hq
    obtain ⟨q₀, -, -, -, hactive⟩ := hfrom i q hi
    exact hactive hk htold
  conserved := h.conserved

theorem getElem?_modify_cases {l : List Query} {f : Query → Query} {i j : Nat} {q : Query}
    (h : (l.modify i f)[j]? = some q) :
    ∃ q₀, l[j]? = some q₀ ∧ (i ≠ j ∧ q = q₀ ∨ i = j ∧ q = f q₀) := by
  rw [List.getElem?_modify] at h
  obtain ⟨q₀, hq₀, rfl⟩ := Option.map_eq_some_iff.mp h
  refine ⟨q₀, hq₀, ?_⟩
  by_cases hij : i = j
  · simp [hij]
  · simp [hij]

/-- A notification keeps the invariant of `k` if a notified query of `k` finds a message. -/
theorem Inv.notify {cb : Option Nat} (h : Inv k s)
    (hcb : ∀ i ∈ cb, ∀ q, s.queries[i]? = some q → q.key = k → (s.recvCache k).state = .active) :
    Inv k (s.notify cb) := by
  cases cb with
  | none => exact h
  | some n =>
    refine h.mapQueries (fun i q hq => ?_) (by simp)
    obtain ⟨q₀, hq₀, ⟨-, rfl⟩ | ⟨rfl, rfl⟩⟩ := getElem?_modify_cases hq
    · exact ⟨q, hq₀, rfl, id, h.told q (List.mem_of_getElem? hq₀)⟩
    · refine ⟨q₀, hq₀, by simp, Query.notify_outstanding.mp, fun hk _ => ?_⟩
      exact hcb n rfl q₀ hq₀ (by simpa using hk)

/-- A query moves on: it is told nothing new. -/
theorem Inv.setPc {i : Nat} {q : Query} {pc : QueryPc} (h : Inv k s) (hq : s.queries[i]? = some q)
    (hout : q.pc ≠ .returned) (htold : Query.Told ⟨q.key, pc⟩ → q.Told) :
    Inv k (s.setPc i pc) := by
  refine h.mapQueries (fun j q' hj => ?_) (by simp)
  obtain ⟨q₀, hq₀, ⟨-, rfl⟩ | ⟨rfl, rfl⟩⟩ := getElem?_modify_cases hj
  · exact ⟨q', hq₀, rfl, id, h.told q' (List.mem_of_getElem? hq₀)⟩
  · rw [hq, Option.some.injEq] at hq₀
    subst hq₀
    refine ⟨q, hq, rfl, fun ho => ⟨ho.1, hout⟩, fun hk ht => ?_⟩
    exact h.told q (List.mem_of_getElem? hq) hk (htold ht)

theorem Inv.appendQuery (h : Inv k s) (hone : k' = k → ∀ q ∈ s.queries, ¬ q.Outstanding k) :
    Inv k { s with queries := s.queries ++ [⟨k', .wait false⟩] } := by
  have hcases : ∀ {n : Nat} {q : Query}, (s.queries ++ [⟨k', .wait false⟩])[n]? = some q →
      s.queries[n]? = some q ∨ n = s.queries.length ∧ q = ⟨k', .wait false⟩ := by
    intro n q hn
    rcases Nat.lt_or_ge n s.queries.length with hlt | hge
    · exact .inl (by rwa [List.getElem?_append_left hlt] at hn)
    · rw [List.getElem?_append_right hge, List.getElem?_singleton] at hn
      split at hn
      · next hz => exact .inr ⟨by omega, by simpa using hn.symm⟩
      · cases hn
  exact {
    recvStatus := h.recvStatus
    callback := by
      intro k'' i hi
      obtain ⟨q, hq, hkey⟩ := h.callback k'' i hi
      refine ⟨q, ?_, hkey⟩
      rw [List.getElem?_append_left (List.getElem?_eq_some_iff.mp hq).1, hq]
    unique := by
      intro i j q q' hi hj hq hq'
      rcases hcases hi with hi | ⟨rfl, rfl⟩
      · rcases hcases hj with hj | ⟨rfl, rfl⟩
        · exact h.unique i j q q' hi hj hq hq'
        · exact absurd hq (hone hq'.1 q (List.mem_of_getElem? hi))
      · rcases hcases hj with hj | ⟨rfl, rfl⟩
        · exact absurd hq' (hone hq.1 q' (List.mem_of_getElem? hj))
        · rfl
    told := by
      intro q hq hk ht
      rcases List.mem_append.mp hq with hq | hq
      · exact h.told q hq hk ht
      · rw [List.mem_singleton.mp hq] at ht
        simp [Query.Told] at ht
    conserved := h.conserved }

/-! ### Entries -/

/-- No query is new, and a callback belongs to a query of its entry. -/
theorem Inv.update (h : Inv k s) (hqueries : s'.queries = s.queries)
    (hcb : ∀ k' i, (s'.recvCache k').callback = some i → ∃ q, s.queries[i]? = some q ∧ q.key = k')
    (hstatus : (s'.recvCache k).recvStatus = .ok ())
    (htold : ∀ q ∈ s.queries, q.key = k → q.Told → (s'.recvCache k).state = .active)
    (hconserved : s'.accepted k = s'.handed k ++ s'.pending k) : Inv k s' where
  recvStatus := hstatus
  callback := hqueries ▸ hcb
  unique := hqueries ▸ h.unique
  told := hqueries ▸ htold
  conserved := hconserved

/-- Only other entries change. -/
theorem Inv.update_other (h : Inv k s) (hqueries : s'.queries = s.queries)
    (hcb : ∀ k' i, (s'.recvCache k').callback = some i → ∃ q, s.queries[i]? = some q ∧ q.key = k')
    (hentry : s'.recvCache k = s.recvCache k) (haccepted : s'.accepted k = s.accepted k)
    (hhanded : s'.handed k = s.handed k) : Inv k s' := by
  refine h.update hqueries hcb (hentry ▸ h.recvStatus) (hentry ▸ h.told) ?_
  unfold pending
  rw [haccepted, hhanded, hentry]
  exact h.conserved

/-- The callback of an entry that is set stays, is cleared, or refers to a query of the entry. -/
theorem Inv.callback_setEntry {entry : RecvCacheEntry δ} (h : Inv k s)
    (hcb : ∀ i ∈ entry.callback, ∃ q, s.queries[i]? = some q ∧ q.key = k') (k'' : CacheKey)
    (i : Nat) (hi : ((s.setEntry k' entry).recvCache k'').callback = some i) :
    ∃ q, s.queries[i]? = some q ∧ q.key = k'' := by
  by_cases hk : k'' = k'
  · subst hk
    exact hcb i (by simpa [setEntry] using hi)
  · exact h.callback k'' i (by simpa [setEntry, hk] using hi)

/-! ### Steps -/

theorem Inv.onReceived (h : Inv k s) (hk : Waits δ k) (m : TrainerWorkerMessage (WorkerMsg δ)) :
    Inv k (s.onReceived m).1 := by
  unfold RecvCache.onReceived
  split
  · exact h
  · next k' w hkey =>
    dsimp only
    split
    · exact h
    · next hfree =>
      refine Inv.notify ?_ ?_
      · by_cases hne : k' = k
        · subst hne
          have hidle : (s.recvCache k').state ≠ .active := by
            simpa [hk m.msg w hkey] using hfree
          refine h.update rfl (h.callback_setEntry fun i => h.callback k' i) (by simp [setEntry])
            (by simp [setEntry]) ?_
          have hcons := h.conserved
          simp only [pending, hidle, ↓reduceIte, List.append_nil] at hcons
          simp only [accepted, handed, pending, setEntry, Function.update_self,
            List.filterMap_append] at hcons ⊢
          simp [hcons]
        · refine h.update_other rfl (h.callback_setEntry fun i => h.callback k' i)
            (by simp [setEntry, Ne.symm hne]) ?_ rfl
          simp [accepted, List.filterMap_append, hne]
      · intro i hi q hq hqk
        have hreg : (s.recvCache k').callback = some i := by
          split at hi
          · exact hi
          · cases hi
        obtain ⟨q', hq', hkey'⟩ := h.callback k' i hreg
        have hqq : q' = q := Option.some.inj (hq'.symm.trans hq)
        have hkk : k' = k := by rw [← hkey', hqq, hqk]
        simp [setEntry, hkk]

theorem returned_onReceived {m : TrainerWorkerMessage (WorkerMsg δ)} :
    (s.onReceived m).1.returned = s.returned := by
  unfold RecvCache.onReceived
  split
  · rfl
  · dsimp only
    split
    · rfl
    · unfold RecvCache.notify
      split <;> rfl

/-- A message is filed under its key, or refused with nothing changed. -/
theorem onReceived_cases (s : RecvCache δ) (m : TrainerWorkerMessage (WorkerMsg δ)) :
    (∃ k w, m.msg.recvKey = some (k, w) ∧ (s.onReceived m).2 = .ok () ∧
      (s.onReceived m).1.received = s.received ++ [(k, m)]) ∨
    ∃ e, s.onReceived m = (s, .error e) := by
  unfold RecvCache.onReceived
  split
  · exact .inr ⟨_, rfl⟩
  · next k w hkey =>
    dsimp only
    split
    · exact .inr ⟨_, rfl⟩
    · refine .inl ⟨k, w, hkey, rfl, ?_⟩
      unfold RecvCache.notify
      split <;> rfl

theorem received_queryResult : (s.queryResult k).received = s.received := by
  unfold RecvCache.queryResult
  dsimp only
  split <;> rfl

theorem Inv.queryResult (h : Inv k s) (hone : OneQuery k s (.queryResult k')) :
    Inv k (s.queryResult k') := by
  unfold RecvCache.queryResult
  dsimp only
  split
  · next hactive =>
    by_cases hne : k' = k
    · subst hne
      refine h.update rfl (h.callback_setEntry fun i => h.callback k' i)
        (by simpa [setEntry] using h.recvStatus) ?_ ?_
      · intro q hq hqk ht
        exact absurd (ht.outstanding hqk) (hone rfl q hq)
      · have hcons := h.conserved
        simp only [pending, hactive, ↓reduceIte] at hcons
        simp only [accepted, handed, pending, setEntry, Function.update_self,
          List.filterMap_append, h.recvStatus] at hcons ⊢
        simp [hcons, Except.map, Except.toOption]
    · refine h.update_other rfl (h.callback_setEntry fun i => h.callback k' i)
        (by simp [setEntry, Ne.symm hne]) rfl ?_
      simp [handed, List.filterMap_append, hne]
  · next hidle =>
    -- First the query is there, then its entry refers to it.
    have happ := h.appendQuery hone
    have hcb : ∀ i ∈ (some s.queries.length : Option Nat),
        ∃ q, (s.queries ++ [(⟨k', .wait false⟩ : Query)])[i]? = some q ∧ q.key = k' := by
      intro i hi
      obtain rfl : s.queries.length = i := by simpa using hi
      exact ⟨⟨k', .wait false⟩, by simp, rfl⟩
    by_cases hne : k' = k
    · subst hne
      refine happ.update rfl (happ.callback_setEntry hcb) (by simpa [setEntry] using h.recvStatus)
        ?_ ?_
      · intro q hq hqk ht
        exact absurd (happ.told q hq hqk ht) hidle
      · have hcons := h.conserved
        simp only [pending, hidle, ↓reduceIte, List.append_nil] at hcons
        simp only [pending, setEntry, Function.update_self, reduceCtorEq, ↓reduceIte,
          List.append_nil]
        exact hcons
    · exact happ.update_other rfl (happ.callback_setEntry hcb) (by simp [setEntry, Ne.symm hne])
        rfl rfl

theorem endWait_eq_some {i : Nat} (h : s.endWait i = some s') :
    ∃ k notified, s.queries[i]? = some ⟨k, .wait notified⟩ ∧ s' = s.setPc i (.finish notified) := by
  unfold RecvCache.endWait at h
  split at h
  · next k notified hq => exact ⟨k, notified, hq, by simpa using h.symm⟩
  · cases h

theorem finish_eq_some {i : Nat} (h : s.finish i = some s') :
    ∃ k ok, s.queries[i]? = some ⟨k, .finish ok⟩ ∧
      s' = { (s.setEntry k { s.recvCache k with
          state := .idle, callback := none }).setPc i .returned with
        returned := s.returned ++ [⟨k, ok,
          if ok || (s.recvCache k).state = .active then .ok (s.recvCache k).rdata
          else .error "Timeout"⟩] } := by
  unfold RecvCache.finish at h
  split at h
  · next k ok hq => exact ⟨k, ok, hq, by simpa using h.symm⟩
  · cases h

theorem Inv.endWait {i : Nat} (h : Inv k s) (hstep : s.endWait i = some s') : Inv k s' := by
  obtain ⟨k', notified, hq, rfl⟩ := endWait_eq_some hstep
  refine h.setPc hq (by simp) fun ht => ?_
  simpa [Query.Told] using ht

/-- When a query of `k` finishes, no other one has been told of its message. -/
theorem Inv.not_told_of_finish {i : Nat} {ok : Bool} (h : Inv k s)
    (hi : s.queries[i]? = some ⟨k, .finish ok⟩) :
    ∀ q ∈ (s.setPc i .returned).queries, q.key = k → ¬ q.Told := by
  intro q hq hqk ht
  obtain ⟨j, hj⟩ := List.mem_iff_getElem?.mp hq
  obtain ⟨q₀, hq₀, ⟨hij, rfl⟩ | ⟨rfl, rfl⟩⟩ := getElem?_modify_cases hj
  · exact hij (h.unique i j _ q hi hq₀ ⟨rfl, by simp⟩ (ht.outstanding hqk))
  · simp [Query.Told] at ht

theorem Inv.finish {i : Nat} (h : Inv k s) (hstep : s.finish i = some s') : Inv k s' := by
  obtain ⟨k', ok, hi, rfl⟩ := finish_eq_some hstep
  have hdone : Inv k (s.setPc i .returned) := h.setPc hi (by simp) (by simp [Query.Told])
  by_cases hne : k' = k
  · subst hne
    refine hdone.update rfl (hdone.callback_setEntry (by simp))
      (by simpa [setEntry, RecvCache.setPc] using h.recvStatus) ?_ ?_
    · intro q hq hqk ht
      exact absurd ht (h.not_told_of_finish hi q hq hqk)
    · have hcons := h.conserved
      have hactive : ok = true → (s.recvCache k').state = .active := by
        rintro rfl
        exact h.told _ (List.mem_of_getElem? hi) rfl (.inr rfl)
      by_cases hact : (s.recvCache k').state = .active
      · simp only [pending, hact, ↓reduceIte] at hcons
        simp only [accepted, handed, pending, setEntry, RecvCache.setPc, Function.update_self,
          List.filterMap_append] at hcons ⊢
        simp [hcons, hact, Except.toOption]
      · obtain rfl : ok = false := by simpa using mt hactive hact
        simp only [pending, hact, ↓reduceIte] at hcons
        simp only [accepted, handed, pending, setEntry, RecvCache.setPc, Function.update_self,
          List.filterMap_append] at hcons ⊢
        simp [hcons, hact, Except.toOption]
  · refine hdone.update_other rfl (hdone.callback_setEntry (by simp))
      (by simp [setEntry, RecvCache.setPc, Ne.symm hne]) rfl ?_
    simp [handed, RecvCache.setPc, List.filterMap_append, hne]

theorem Inv.step {a : Action δ} (h : Inv k s) (hk : Waits δ k) (hone : OneQuery k s a)
    (hstep : s.step a = some s') : Inv k s' := by
  cases a with
  | onReceived m =>
    obtain rfl : (s.onReceived m).1 = s' := by simpa [RecvCache.step] using hstep
    exact h.onReceived hk m
  | queryResult k' =>
    obtain rfl : s.queryResult k' = s' := by simpa [RecvCache.step] using hstep
    exact h.queryResult hone
  | endWait i => exact h.endWait hstep
  | finish i => exact h.finish hstep

/-! ## Runs -/

/-- A query that returns an error leaves its entry without a message, and takes none. -/
theorem Inv.aborted {a : Action δ} {ok : Bool} {e : String} (h : Inv k s)
    (hstep : s.step a = some s') (hret : s'.returned = s.returned ++ [⟨k, ok, .error e⟩]) :
    s'.accepted k = s.accepted k ∧ s'.handed k = s.handed k ∧ s'.pending k = s.pending k := by
  have hhanded : s'.handed k = s.handed k := by
    simp [handed, hret, List.filterMap_append, Except.toOption]
  cases a with
  | onReceived m =>
    obtain rfl : (s.onReceived m).1 = s' := by simpa [RecvCache.step] using hstep
    rw [returned_onReceived] at hret
    simp at hret
  | queryResult k' =>
    obtain rfl : s.queryResult k' = s' := by simpa [RecvCache.step] using hstep
    unfold RecvCache.queryResult at hret
    dsimp only at hret
    split at hret
    · simp only [List.append_cancel_left_eq, List.cons.injEq, Returned.mk.injEq] at hret
      obtain ⟨⟨rfl, -, hres⟩, -⟩ := hret
      simp [h.recvStatus, Except.map] at hres
    · simp [setEntry] at hret
  | endWait i =>
    obtain ⟨k', notified, -, rfl⟩ := endWait_eq_some hstep
    simp [RecvCache.setPc] at hret
  | finish i =>
    obtain ⟨k', ok', hi, rfl⟩ := finish_eq_some hstep
    simp only [List.append_cancel_left_eq, List.cons.injEq, Returned.mk.injEq] at hret
    obtain ⟨⟨rfl, -, hres⟩, -⟩ := hret
    have hidle : (s.recvCache k').state ≠ .active := by
      intro hact
      simp [hact] at hres
    refine ⟨rfl, hhanded, ?_⟩
    simp [pending, setEntry, RecvCache.setPc, hidle]

/-- The messages `QueryResult` hands back for a tensor are those `OnReceived` accepted, each once
    and in order, but for at most one that waits in its entry; and a query that reports an error
    consumes nothing. -/
theorem queryResult_exactly_once {name : String} {acts : List (Action δ)}
    (hone : (machine δ).Meets (OneQuery (dataKey name)) {} acts)
    (hrun : (machine δ).run {} acts = some s) :
    s.accepted (dataKey name) = s.handed (dataKey name) ++ s.pending (dataKey name) ∧
      (s.pending (dataKey name)).length ≤ 1 ∧
      ∀ a s' ok e, s.step a = some s' →
        s'.returned = s.returned ++ [⟨dataKey name, ok, .error e⟩] →
        s'.accepted (dataKey name) = s.accepted (dataKey name) ∧
          s'.handed (dataKey name) = s.handed (dataKey name) ∧
          s'.pending (dataKey name) = s.pending (dataKey name) := by
  have h : Inv (dataKey name) s :=
    (machine δ).run_induct (fun _ _ _ hone h hstep => h.step waits_dataKey hone hstep) hone hrun
      inv_init
  refine ⟨h.conserved, ?_, fun a s' ok e => h.aborted⟩
  unfold pending
  split <;> simp

namespace Sample

def tensor (seqNum : Nat) : TrainerWorkerMessage (WorkerMsg Nat) := ⟨seqNum, .data "w" seqNum⟩

/-- The first query times out, the second is notified, the third times out just before the
    message comes, and a fourth message has to wait. -/
def schedule : List (Action Nat) :=
  [.queryResult (dataKey "w"), .endWait 0, .finish 0,
    .queryResult (dataKey "w"), .onReceived (tensor 0), .endWait 1, .onReceived (tensor 1),
    .finish 1, .queryResult (dataKey "w"), .endWait 2, .onReceived (tensor 1), .finish 2,
    .onReceived (tensor 2), .onReceived (tensor 3)]

theorem schedule_exactly_once :
    ∃ s, (machine Nat).run {} schedule = some s ∧
      s.accepted (dataKey "w") = [tensor 0, tensor 1, tensor 2] ∧
      s.handed (dataKey "w") = [tensor 0, tensor 1] ∧
      s.accepted (dataKey "w") = s.handed (dataKey "w") ++ s.pending (dataKey "w") :=
  ⟨_, rfl, by decide, by decide,
    (@queryResult_exactly_once Nat _ "w" schedule (by decide) rfl).1⟩

end Sample

end RecvCache

end Trainer
