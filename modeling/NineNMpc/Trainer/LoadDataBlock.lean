-- SUMMARY: The follower's LoadDataBlockHandler: its counter of loads, and exactly when every block is queued once and no request is dropped as a duplicate by mistake.
import NineNMpc.Trainer.ReadyFiles

/-!
# Loading data blocks

`LoadDataBlockHandler` of `Trainer/rpc/rpc_bridge/rpc_bridge_agent_service.cc` on a
follower whose link is up. The requests are handled one after the other. What
`FetchDataBlock` answers at each attempt and what `PrepareFile` makes of a path are
inputs of the handler. `_RpcDataLoadNextId` counts the requests that were answered
after `OnReceived`, so it does not run over.
-/

namespace Trainer.LoadDataBlock

structure Request where
  count : Nat
  blockId : String
deriving DecidableEq

/-- What an attempt of `FetchDataBlock` gives. -/
inductive Fetched where
  | failed (message : String)
  | finished
  | aborted
  | notReady
  | ok (dataPath : String)
  | unknown

/-- What the handler meets while it works on a request. -/
structure Env where
  dcImpl : Bool := true
  fetchDataBlock : Nat → Fetched
  prepareFile : String → Option String := some

inductive ResultCode where
  | success
  | unknownError (message : String)
deriving DecidableEq

/-- The loop around `FetchDataBlock`, with the number of attempts that are left. -/
def fetchLoop (env : Env) : Nat → Nat → Except String String
  | 0, _ => .error "Fetch DataBlock, already Try max times ... "
  | n + 1, attempt =>
    match env.fetchDataBlock attempt with
    | .failed _ | .notReady => fetchLoop env n (attempt + 1)
    | .finished => .error "DataBlock FINISHED..."
    | .aborted => .error "DataBlock ERROR_ABORTED..."
    | .unknown => .error "DataBlock request ABORTED, unknown code"
    | .ok dataPath =>
      match env.prepareFile dataPath with
      | some outFname => .ok outFname
      | none => .error "DataBlock download failed."

/-- `retries++ > 10` gives up before the twelfth attempt. -/
def fetch (env : Env) : Except String String := fetchLoop env 11 0

/-- Where the handler's work on a request ends. -/
inductive Work where
  | dropped
  | done (fname : String) (endOfBlocks : Bool)
  | failed (message : String)

def work (nextId : Nat) (req : Request) (env : Env) : Work :=
  if !env.dcImpl then .failed "DbAgent not initialized."
  else if req.blockId = "" then .done "" true
  -- drop duplicated datablock
  else if req.count < nextId then .dropped
  else
    match fetch env with
    | .ok outFname => .done outFname false
    | .error message => .failed message

/-- A block request with its answer, and whether its file was queued. -/
structure Answer where
  count : Nat
  queued : Bool
  resultCode : ResultCode
deriving DecidableEq

/-- `answers` is history. -/
structure Follower where
  nextId : Nat := 0
  cache : TrainFilesCache := {}
  answers : List Answer := []

namespace Follower

/-- The handler, with its answer and whether it has queued a file. -/
def loadDataBlockHandler (f : Follower) (req : Request) (env : Env) :
    Follower × ResultCode × Bool :=
  match work f.nextId req env with
  | .dropped => (f, .success, false)
  | .done fname endOfBlocks =>
    ({ f with
      cache := f.cache.onReceived (if !endOfBlocks then fname else "") endOfBlocks
      nextId := f.nextId + 1 }, .success, !endOfBlocks)
  | .failed message => (f, .unknownError message, false)

def handle (f : Follower) (req : Request) (env : Env) : Follower :=
  let (f, resultCode, queued) := f.loadDataBlockHandler req env
  if req.blockId = "" then f
  else { f with answers := f.answers ++ [⟨req.count, queued, resultCode⟩] }

end Follower

def machine : Machine Follower (Request × Env) where
  step f a := some (f.handle a.1 a.2)

/-! ## Duplicates -/

/-- The counts of the blocks that were queued. -/
def queuedCounts (answers : List Answer) : List Nat :=
  (answers.filter (·.queued)).map (·.count)

/-- Every count is queued at most once, and a block request that was answered with success was
    queued or has a count that had been queued before. -/
structure Deduplicated (answers : List Answer) : Prop where
  nodup : (queuedCounts answers).Nodup
  success : ∀ before a after, answers = before ++ a :: after → a.resultCode = .success →
    a.queued = true ∨ a.count ∈ queuedCounts before

variable {f f' : Follower}

/-- The counter is above the count of a block request exactly if that count has been queued, unless
    the request is going to be refused. -/
def InStep (f : Follower) (a : Request × Env) : Prop :=
  a.2.dcImpl = true → a.1.blockId ≠ "" → (a.1.count < f.nextId ∨ (fetch a.2).isOk = true) →
    (a.1.count < f.nextId ↔ a.1.count ∈ queuedCounts f.answers)

instance {a : Request × Env} : Decidable (InStep f a) := inferInstanceAs (Decidable (_ → _ → _ → (_ ↔ _)))

/-- The counts come in order: a block request has a count of a block that was queued, or, as long
    as no end of the blocks was received, the next one. -/
def InOrder (f : Follower) (a : Request × Env) : Prop :=
  a.1.blockId ≠ "" → a.1.count < (queuedCounts f.answers).length ∨
    (a.1.count = (queuedCounts f.answers).length ∧ f.cache.state ≠ .active)

variable {answers : List Answer} {a : Answer}

theorem queuedCounts_append :
    queuedCounts (answers ++ [a]) =
      if a.queued then queuedCounts answers ++ [a.count] else queuedCounts answers := by
  cases h : a.queued <;> simp [queuedCounts, h]

theorem Deduplicated.append_iff :
    Deduplicated (answers ++ [a]) ↔ Deduplicated answers ∧
      (a.queued = true → a.count ∉ queuedCounts answers) ∧
      (a.resultCode = .success → a.queued = true ∨ a.count ∈ queuedCounts answers) := by
  constructor
  · rintro ⟨hnodup, hsuccess⟩
    rw [queuedCounts_append] at hnodup
    refine ⟨⟨?_, ?_⟩, ?_, hsuccess answers a [] rfl⟩
    · split at hnodup
      · exact (List.nodup_append.mp hnodup).1
      · exact hnodup
    · intro before b after heq
      exact hsuccess before b (after ++ [a]) (by simp [heq])
    · intro hqueued hmem
      rw [if_pos hqueued] at hnodup
      exact (List.nodup_append.mp hnodup).2.2 _ hmem _ (by simp) rfl
  · rintro ⟨⟨hnodup, hsuccess⟩, hfresh, hlast⟩
    refine ⟨?_, ?_⟩
    · rw [queuedCounts_append]
      split
      case isTrue hqueued =>
        rw [List.nodup_append]
        refine ⟨hnodup, by simp, ?_⟩
        rintro x hx y hy rfl
        exact hfresh hqueued (by simpa [List.mem_singleton.mp hy] using hx)
      case isFalse => exact hnodup
    · intro before b after heq
      rcases List.eq_nil_or_concat after with rfl | ⟨after, c, rfl⟩
      · obtain ⟨rfl, hab⟩ := List.append_inj' heq rfl
        cases hab
        exact hlast
      · rw [List.concat_eq_append, ← List.cons_append, ← List.append_assoc] at heq
        obtain ⟨heq, -⟩ := List.append_inj' heq rfl
        exact hsuccess before b after heq

/-- What the handler does with a request. -/
theorem handle_cases (f : Follower) (req : Request) (env : Env) :
    (env.dcImpl = false ∧ (f.handle req env).nextId = f.nextId ∧
      (f.handle req env).cache = f.cache ∧
      (f.handle req env).answers = f.answers ++ (if req.blockId = "" then [] else
        [⟨req.count, false, .unknownError "DbAgent not initialized."⟩])) ∨
    (env.dcImpl = true ∧ req.blockId = "" ∧ f.handle req env =
      { f with cache := f.cache.onReceived "" true, nextId := f.nextId + 1 }) ∨
    (env.dcImpl = true ∧ req.blockId ≠ "" ∧ req.count < f.nextId ∧ f.handle req env =
      { f with answers := f.answers ++ [⟨req.count, false, .success⟩] }) ∨
    (env.dcImpl = true ∧ req.blockId ≠ "" ∧ f.nextId ≤ req.count ∧
      ((∃ outFname, fetch env = .ok outFname ∧ f.handle req env =
        { cache := f.cache.onReceived outFname false, nextId := f.nextId + 1,
          answers := f.answers ++ [⟨req.count, true, .success⟩] }) ∨
      (∃ message, fetch env = .error message ∧ f.handle req env =
        { f with answers := f.answers ++ [⟨req.count, false, .unknownError message⟩] }))) := by
  cases hdc : env.dcImpl with
  | false =>
    refine .inl ⟨rfl, ?_⟩
    by_cases hid : req.blockId = ""
    · simp [Follower.handle, Follower.loadDataBlockHandler, work, hdc, hid]
    · simp [Follower.handle, Follower.loadDataBlockHandler, work, hdc, hid]
  | true =>
    right
    by_cases hid : req.blockId = ""
    · left
      simp [Follower.handle, Follower.loadDataBlockHandler, work, hdc, hid]
    · right
      by_cases hcount : req.count < f.nextId
      · left
        simp [Follower.handle, Follower.loadDataBlockHandler, work, hdc, hid, hcount]
      · right
        refine ⟨rfl, hid, by omega, ?_⟩
        cases hfetch : fetch env with
        | ok outFname =>
          exact .inl ⟨outFname, rfl, by
            simp [Follower.handle, Follower.loadDataBlockHandler, work, hdc, hid, hcount, hfetch]⟩
        | error message =>
          exact .inr ⟨message, rfl, by
            simp [Follower.handle, Follower.loadDataBlockHandler, work, hdc, hid, hcount, hfetch]⟩

/-- One request keeps the answers free of mistakes exactly if the counter is in step with it. -/
theorem handle_deduplicated_iff (f : Follower) (req : Request) (env : Env) :
    Deduplicated (f.handle req env).answers ↔ Deduplicated f.answers ∧ InStep f (req, env) := by
  obtain ⟨hdc, -, -, hanswers⟩ | ⟨hdc, hid, hf⟩ | ⟨hdc, hid, hcount, hf⟩ |
    ⟨hdc, hid, hcount, ⟨outFname, hfetch, hf⟩ | ⟨message, hfetch, hf⟩⟩ := handle_cases f req env
  · rw [hanswers]
    by_cases hid : req.blockId = ""
    · simp [hid, InStep]
    · simp [hid, InStep, hdc, Deduplicated.append_iff]
  · simp [hf, InStep, hid]
  · simp [hf, InStep, hdc, hid, hcount, Deduplicated.append_iff]
  · have hnot : ¬ req.count < f.nextId := by omega
    simp [hf, InStep, hdc, hid, hnot, hfetch, Deduplicated.append_iff, Except.isOk, Except.toBool]
  · have hnot : ¬ req.count < f.nextId := by omega
    simp [hf, InStep, hdc, hid, hnot, hfetch, Deduplicated.append_iff, Except.isOk, Except.toBool]

/-! ## Counts in order -/

structure Ordered (f : Follower) : Prop where
  dedup : Deduplicated f.answers
  queued : queuedCounts f.answers = List.range (queuedCounts f.answers).length
  le : (queuedCounts f.answers).length ≤ f.nextId
  eq : f.cache.state ≠ .active → f.nextId = (queuedCounts f.answers).length

theorem ordered_init : Ordered {} where
  dedup := ⟨by simp [queuedCounts], by simp⟩
  queued := by simp [queuedCounts]
  le := by simp [queuedCounts]
  eq := by simp [queuedCounts]

/-- An answer that queues nothing. -/
theorem queuedCounts_append_of_not (h : a.queued = false) :
    queuedCounts (answers ++ [a]) = queuedCounts answers := by
  simp [queuedCounts_append, h]

theorem Ordered.inStep {a : Request × Env} (h : Ordered f) (ha : InOrder f a) : InStep f a := by
  intro _ hid _
  rw [h.queued, List.mem_range]
  obtain hlt | ⟨heq, hactive⟩ := ha hid
  · have := h.le
    omega
  · rw [h.eq hactive]

theorem Ordered.handle {req : Request} {env : Env} (h : Ordered f) (ha : InOrder f (req, env)) :
    Ordered (f.handle req env) := by
  have hdedup := (handle_deduplicated_iff f req env).mpr ⟨h.dedup, h.inStep ha⟩
  have hold : ∀ {g : Follower}, Deduplicated g.answers → queuedCounts g.answers = queuedCounts f.answers →
      g.nextId = f.nextId → g.cache = f.cache → Ordered g := by
    intro g hg hqueued hnext hcache
    exact ⟨hg, by rw [hqueued]; exact h.queued, by rw [hqueued, hnext]; exact h.le,
      by rw [hqueued, hnext, hcache]; exact h.eq⟩
  obtain ⟨-, hnext, hcache, hanswers⟩ | ⟨-, -, hf⟩ | ⟨-, hid, hcount, hf⟩ |
    ⟨-, hid, hcount, ⟨outFname, -, hf⟩ | ⟨message, -, hf⟩⟩ := handle_cases f req env
  · refine hold hdedup ?_ hnext hcache
    rw [hanswers]
    split
    · simp
    · exact queuedCounts_append_of_not rfl
  · have hle := h.le
    rw [hf] at hdedup ⊢
    exact ⟨hdedup, h.queued, by dsimp only; omega, by simp [TrainFilesCache.onReceived]⟩
  · rw [hf] at hdedup ⊢
    exact hold hdedup (queuedCounts_append_of_not rfl) rfl rfl
  · -- the only count that is not below the counter is the next one
    have hle := h.le
    obtain hlt | ⟨heq, hactive⟩ := ha hid
    · have hlt : req.count < (queuedCounts f.answers).length := hlt
      omega
    · have heq : req.count = (queuedCounts f.answers).length := heq
      have hnext := h.eq hactive
      have hqueued : queuedCounts (f.answers ++ [⟨req.count, true, .success⟩]) =
          List.range ((queuedCounts f.answers).length + 1) := by
        rw [queuedCounts_append, if_pos rfl, List.range_succ, ← h.queued]
        simp [heq]
      rw [hf] at hdedup ⊢
      exact ⟨hdedup, by rw [hqueued]; simp, by rw [hqueued]; simp; omega,
        by rw [hqueued]; simp [hnext]⟩
  · rw [hf] at hdedup ⊢
    exact hold hdedup (queuedCounts_append_of_not rfl) rfl rfl

/-- In every run, each count is queued at most once and only duplicates are dropped if and only if
    the counter is in step with every request; and it is, if the counts come in order. -/
theorem loadDataBlock_deduplicated_iff {as : List (Request × Env)}
    (hrun : machine.run {} as = some f) :
    (Deduplicated f.answers ↔ machine.Meets InStep {} as) ∧
    (machine.Meets InOrder {} as → Deduplicated f.answers) := by
  constructor
  · have hiff := machine.run_iff_meets (C := InStep) (P := fun f => Deduplicated f.answers) (by
      intro f a f' hs
      cases hs
      exact handle_deduplicated_iff f a.1 a.2) hrun
    rw [hiff]
    exact and_iff_right ordered_init.dedup
  · intro hmeets
    have hordered := machine.run_induct (C := InOrder) (P := Ordered) (by
      intro f a f' ha h hs
      cases hs
      exact h.handle ha) hmeets hrun ordered_init
    exact hordered.dedup

namespace Sample

/-- The data centre has every block. -/
def env : Env := { fetchDataBlock := fun _ => .ok "/data/block" }

def load (count : Nat) (blockId : String) : Request × Env := (⟨count, blockId⟩, env)

/-- The reply to the first request is lost, and it comes again. -/
def inOrder : List (Request × Env) :=
  [load 0 "block-0", load 0 "block-0", load 1 "block-1", load 2 ""]

theorem inOrder_deduplicated : ∃ f, machine.run {} inOrder = some f ∧
    queuedCounts f.answers = [0, 1] ∧ Deduplicated f.answers := by
  obtain ⟨f, hrun⟩ : ∃ f, machine.run {} inOrder = some f := ⟨_, rfl⟩
  have hiff := (loadDataBlock_deduplicated_iff hrun).1
  obtain rfl := Option.some.inj hrun
  exact ⟨_, hrun, rfl, hiff.mpr (by decide)⟩

/-- A block behind a gap is queued twice, and a block behind an end is dropped and never queued. -/
theorem gap_and_end_not_deduplicated :
    (∃ f, machine.run {} [load 5 "block-5", load 5 "block-5"] = some f ∧
      queuedCounts f.answers = [5, 5] ∧ ¬ Deduplicated f.answers) ∧
    (∃ f, machine.run {} [load 0 "", load 0 "block-0"] = some f ∧
      f.answers = [⟨0, false, .success⟩] ∧ ¬ Deduplicated f.answers) := by
  refine ⟨⟨_, rfl, rfl, fun h => ?_⟩, ⟨_, rfl, rfl, fun h => ?_⟩⟩
  · exact absurd h.nodup (by decide)
  · obtain hqueued | hmem := h.success [] ⟨0, false, .success⟩ [] rfl rfl
    · cases hqueued
    · cases hmem

end Sample

end Trainer.LoadDataBlock
