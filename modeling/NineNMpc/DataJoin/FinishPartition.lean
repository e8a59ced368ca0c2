-- SUMMARY: The services of DataJoin on both consumers, with concurrent handlers: after a FinishPartition that returned finished, every later request raises.
import NineNMpc.DataJoin.System

/-!
# Finishing a partition

The handlers of `DataJoin/data_join/data_join_manager.py` over `example_id_consumer.py`
and over `data_block_consumer.py`. A handler takes the consumer's lock once for each
operation it calls, and handlers of several requests run at the same time. The rank and
the partition of a request are those of the process, so that their checks pass.
-/

namespace DataJoin

namespace Service

/-! ## Consumers -/

/-- The operations of a consumer that the handlers call; `none` is an exception. `background` is
    what the other threads do to its state. -/
structure Consumer (σ κ ε : Type) where
  fetchPartitionId : σ → Option Unit
  partitionSyncerToConsumer : σ → Option (Int × Bool)
  finishPartitionTransmit : σ → Option (σ × Bool)
  resetConsumerWrap : σ → Option σ
  appendDataItemsFromProducer : σ → κ → Option (σ × Bool)
  background : σ → ε → Option σ

variable {ι ρ : Type}

/-- The feeder thread of the queue, and the joiner that takes a batch out of it. -/
inductive QueueMove where
  | feed
  | take
  deriving DecidableEq

/-- `reset_consumer_wrap` sets `_partition_id` to `None`. -/
def exampleIdConsumer : Consumer (ExampleIdConsumer ι) (LiteExampleIds ι) QueueMove where
  fetchPartitionId c := if c.synced then some () else none
  partitionSyncerToConsumer c :=
    if c.synced then some (c.nextExampleIndex, c.sendExampleFinished) else none
  finishPartitionTransmit c :=
    if c.synced then some ({ c with sendExampleFinished := true }, c.pipe.isEmpty) else none
  resetConsumerWrap c :=
    if c.synced then
      if !c.sendExampleFinished || !c.pipe.isEmpty then none else some { c with synced := false }
    else none
  appendDataItemsFromProducer c batch := if c.synced then some (c.append batch, true) else none
  background c
    | .feed => c.feed
    | .take =>
      match c.pipe with
      | [] => none
      | _ :: pipe => some { c with pipe }

/-- `reset_consumer_wrap` sets `data_block_consumer_wrap` to `None`, whose attributes the other
    operations read. -/
def dataBlockConsumer [DecidableEq ι] (cfg : Replication.Config ι ρ) :
    Consumer (Option (Replication.DataBlockSaver ι ρ)) (DataBlockMeta ι) Unit where
  fetchPartitionId wrap := wrap.map fun _ => ()
  partitionSyncerToConsumer wrap :=
    wrap.map fun sv => (sv.nextDataBlockIndex, sv.sendDataBlockMetaFinish)
  finishPartitionTransmit wrap :=
    wrap.map fun sv =>
      (some { sv with sendDataBlockMetaFinish := true }, sv.dataBlockMetaBuffer.isEmpty)
  resetConsumerWrap
    | none => none
    | some sv =>
      if !sv.sendDataBlockMetaFinish || !sv.dataBlockMetaBuffer.isEmpty then none else some none
  appendDataItemsFromProducer
    | none, _ => none
    | some sv, m =>
      match sv.appendSentDataBlockMetaToBuffer m with
      | (sv, .status code) => some (some sv, code = 0)
      | _ => none
  background
    | none, _ => none
    | some sv, _ => (sv.step cfg.naming cfg.leaderItems).map some

/-! ## Handlers -/

inductive Request (κ : Type) where
  | startPartition
  | syncPartition (content : κ)
  | finishPartition

inductive Response where
  | start (nextIndex : Int) (finished : Bool)
  | status (code : Int)
  | finish (finished : Bool)
  deriving DecidableEq

/-- `fetched` is after `fetch_partition_id`, `transmitted` after a `finish_partition_transmit` that
    returned `True`. -/
inductive HandlerPc where
  | called
  | fetched
  | transmitted
  | returned (rsp : Response)
  | raised
  deriving DecidableEq

structure Handler (κ : Type) where
  request : Request κ
  pc : HandlerPc := .called

variable {σ κ ε : Type}

/-- One locked operation of a handler. -/
def handle (c : Consumer σ κ ε) (x : σ) : Request κ → HandlerPc → Option (σ × HandlerPc)
  | .startPartition, .called | .finishPartition, .called =>
    match c.fetchPartitionId x with
    | some _ => some (x, .fetched)
    | none => some (x, .raised)
  | .startPartition, .fetched =>
    match c.partitionSyncerToConsumer x with
    | some (nextIndex, finished) => some (x, .returned (.start nextIndex finished))
    | none => some (x, .raised)
  | .finishPartition, .fetched =>
    match c.finishPartitionTransmit x with
    | some (x, true) => some (x, .transmitted)
    | some (x, false) => some (x, .returned (.finish false))
    | none => some (x, .raised)
  | .finishPartition, .transmitted =>
    match c.resetConsumerWrap x with
    | some x => some (x, .returned (.finish true))
    | none => some (x, .raised)
  | .syncPartition content, .called =>
    match c.appendDataItemsFromProducer x content with
    | some (x, status) => some (x, .returned (.status (if status then 0 else -1)))
    | none => some (x, .raised)
  | _, _ => none

/-- A handler that runs alone, to its end; `none` is an exception. -/
def serve (c : Consumer σ κ ε) (x : σ) (req : Request κ) : σ × Option Response :=
  let step := fun (p : σ × HandlerPc) => (handle c p.1 req p.2).getD p
  match step (step (step (x, .called))) with
  | (x, .returned rsp) => (x, some rsp)
  | (x, _) => (x, none)

/-- The consumer, and the handlers in the order of their calls. -/
structure State (σ κ : Type) where
  consumer : σ
  handlers : List (Handler κ) := []

inductive Action (κ ε : Type) where
  | call (request : Request κ)
  | handle (k : Nat)
  | background (e : ε)

def service (c : Consumer σ κ ε) : Machine (State σ κ) (Action κ ε) where
  step s
    | .call request => some { s with handlers := s.handlers ++ [{ request }] }
    | .handle k =>
      match s.handlers[k]? with
      | none => none
      | some h =>
        (handle c s.consumer h.request h.pc).map fun (consumer, pc) =>
          { consumer, handlers := s.handlers.set k { h with pc } }
    | .background e => (c.background s.consumer e).map fun consumer => { s with consumer }

/-! ## A consumer that has been reset -/

/-- `Closed` holds once the consumer has been reset, for good, and then no operation works. -/
structure Consumer.Closes (c : Consumer σ κ ε) (Closed : σ → Prop) : Prop where
  closed_of_reset : ∀ {x x'}, c.resetConsumerWrap x = some x' → Closed x'
  fetch : ∀ {x}, Closed x → c.fetchPartitionId x = none
  transmit : ∀ {x}, Closed x → c.finishPartitionTransmit x = none
  reset : ∀ {x}, Closed x → c.resetConsumerWrap x = none
  append : ∀ {x content}, Closed x → c.appendDataItemsFromProducer x content = none
  background : ∀ {x x' e}, Closed x → c.background x e = some x' → Closed x'

theorem exampleIdConsumer_closes :
    (exampleIdConsumer (ι := ι)).Closes fun c => c.synced = false where
  closed_of_reset := by
    intro x x' h
    simp only [exampleIdConsumer] at h
    split at h
    · split at h
      · cases h
      · cases h
        rfl
    · cases h
  fetch := by
    intro x h
    simp [exampleIdConsumer, h]
  transmit := by
    intro x h
    simp [exampleIdConsumer, h]
  reset := by
    intro x h
    simp [exampleIdConsumer, h]
  append := by
    intro x content h
    simp [exampleIdConsumer, h]
  background := by
    intro x x' e h hx
    cases e with
    | feed =>
      simp only [exampleIdConsumer, ExampleIdConsumer.feed] at hx
      split at hx
      · cases hx
      · cases hx
        exact h
    | take =>
      simp only [exampleIdConsumer] at hx
      split at hx
      · cases hx
      · cases hx
        exact h

theorem dataBlockConsumer_closes [DecidableEq ι] (cfg : Replication.Config ι ρ) :
    (dataBlockConsumer cfg).Closes fun wrap => wrap = none where
  closed_of_reset := by
    intro wrap wrap' h
    cases wrap with
    | none => cases h
    | some sv =>
      simp only [dataBlockConsumer] at h
      split at h
      · cases h
      · cases h
        rfl
  fetch := by
    rintro _ rfl
    rfl
  transmit := by
    rintro _ rfl
    rfl
  reset := by
    rintro _ rfl
    rfl
  append := by
    rintro _ _ rfl
    rfl
  background := by
    rintro _ _ _ rfl h
    cases h

/-! ## Handlers of a consumer that has been reset -/

section Closes

variable {c : Consumer σ κ ε} {Closed : σ → Prop} {x x' : σ} {req : Request κ} {pc pc' : HandlerPc}
  {s s' t : State σ κ} {a : Action κ ε} {n : Nat}

/-- Only `reset_consumer_wrap` comes before an answer `finished=True`. -/
theorem closed_of_finish (hc : c.Closes Closed)
    (h : handle c x req pc = some (x', .returned (.finish true))) : Closed x' := by
  cases req <;> cases pc <;> simp only [handle] at h
  case finishPartition.transmitted =>
    split at h
    case h_1 hreset =>
      cases h
      exact hc.closed_of_reset hreset
    case h_2 => cases h
  all_goals first | cases h | (split at h <;> cases h)

theorem handle_closed (hc : c.Closes Closed) (hx : Closed x) (h : handle c x req pc = some (x', pc')) :
    x' = x := by
  cases req <;> cases pc <;> simp only [handle, hc.fetch hx, hc.transmit hx, hc.reset hx, hc.append hx] at h
  case startPartition.fetched =>
    split at h <;> cases h <;> rfl
  all_goals
    cases h
    try rfl

/-- The first operation of a handler is `fetch_partition_id`. -/
def Request.Fetches : Request κ → Prop
  | .startPartition | .finishPartition => True
  | .syncPartition _ => False

instance : Decidable req.Fetches :=
  match req with
  | .startPartition | .finishPartition => isTrue trivial
  | .syncPartition _ => isFalse id

theorem handle_called (hc : c.Closes Closed) (hx : Closed x) (hreq : req.Fetches) :
    handle c x req .called = some (x, .raised) := by
  cases req with
  | startPartition => simp only [handle, hc.fetch hx]
  | finishPartition => simp only [handle, hc.fetch hx]
  | syncPartition content => cases hreq

/-- Some `FinishPartition` has returned `finished=True`. -/
def State.Finished (s : State σ κ) : Prop :=
  ∃ h ∈ s.handlers, h.pc = .returned (.finish true)

instance : Decidable s.Finished :=
  inferInstanceAs (Decidable (∃ h ∈ s.handlers, h.pc = .returned (.finish true)))

/-- One step of the service: what happens to the consumer and to each handler. -/
theorem step_cases (hs : (service c).step s a = some s') :
    (∃ request, s' = { s with handlers := s.handlers ++ [{ request }] }) ∨
    (∃ k h consumer pc, s.handlers[k]? = some h ∧
      handle c s.consumer h.request h.pc = some (consumer, pc) ∧
      s' = { consumer, handlers := s.handlers.set k { h with pc } }) ∨
    (∃ e consumer, c.background s.consumer e = some consumer ∧ s' = { s with consumer }) := by
  cases a with
  | call request =>
    cases hs
    exact .inl ⟨request, rfl⟩
  | handle k =>
    simp only [service] at hs
    split at hs
    case h_1 => cases hs
    case h_2 h hk =>
      obtain ⟨⟨consumer, pc⟩, hstep, rfl⟩ := Option.map_eq_some_iff.mp hs
      exact .inr (.inl ⟨k, h, consumer, pc, hk, hstep, rfl⟩)
  | background e =>
    obtain ⟨consumer, hstep, rfl⟩ := Option.map_eq_some_iff.mp hs
    exact .inr (.inr ⟨e, consumer, hstep, rfl⟩)

theorem step_closed (hc : c.Closes Closed) (hx : Closed s.consumer)
    (hs : (service c).step s a = some s') : Closed s'.consumer := by
  obtain ⟨_, rfl⟩ | ⟨_, _, _, _, _, hstep, rfl⟩ | ⟨_, _, hstep, rfl⟩ := step_cases hs
  · exact hx
  · exact handle_closed hc hx hstep ▸ hx
  · exact hc.background hx hstep

/-- A finished partition is a consumer that has been reset. -/
theorem step_finished (hc : c.Closes Closed) (hs : (service c).step s a = some s')
    (ih : s.Finished → Closed s.consumer) (hfin : s'.Finished) : Closed s'.consumer := by
  by_cases hold : s.Finished
  · exact step_closed hc (ih hold) hs
  · obtain ⟨h', hmem, hpc⟩ := hfin
    obtain ⟨_, rfl⟩ | ⟨k, h, _, _, _, hstep, rfl⟩ | ⟨_, _, _, rfl⟩ := step_cases hs
    · obtain hmem | hmem := List.mem_append.mp hmem
      · exact absurd ⟨h', hmem, hpc⟩ hold
      · rw [List.mem_singleton.mp hmem] at hpc
        cases hpc
    · obtain hmem | rfl := List.mem_or_eq_of_mem_set hmem
      · exact absurd ⟨h', hmem, hpc⟩ hold
      · cases hpc
        exact closed_of_finish hc hstep
    · exact absurd ⟨h', hmem, hpc⟩ hold

theorem run_finished (hc : c.Closes Closed) {as : List (Action κ ε)} {x : σ}
    (hrun : (service c).run { consumer := x } as = some s) (hfin : s.Finished) : Closed s.consumer := by
  refine (service c).run_invariant (fun _ _ _ ih hs => step_finished hc hs ih) hrun ?_ hfin
  rintro ⟨h, hmem, _⟩
  cases hmem

/-- The handlers from the `n`-th on that fetch the partition have not started or have raised. -/
def State.Retried (n : Nat) (s : State σ κ) : Prop :=
  ∀ k h, n ≤ k → s.handlers[k]? = some h → h.request.Fetches → h.pc = .called ∨ h.pc = .raised

theorem step_retried (hc : c.Closes Closed) (hx : Closed s.consumer) (hret : s.Retried n)
    (hs : (service c).step s a = some s') : s'.Retried n := by
  intro k h hk hget hreq
  obtain ⟨request, rfl⟩ | ⟨k', h', _, pc, hget', hstep, rfl⟩ | ⟨_, _, _, rfl⟩ := step_cases hs
  · rw [List.getElem?_append] at hget
    split at hget
    · exact hret k h hk hget hreq
    · rw [List.mem_singleton.mp (List.mem_of_getElem? hget)]
      exact .inl rfl
  · rw [List.getElem?_set] at hget
    split at hget
    case isFalse => exact hret k h hk hget hreq
    case isTrue heq =>
      subst heq
      split at hget
      case isFalse => cases hget
      case isTrue =>
        cases hget
        obtain hpc | hpc := hret k' h' hk hget' hreq
        · rw [hpc, handle_called hc hx hreq] at hstep
          cases hstep
          exact .inr rfl
        · simp [handle, hpc] at hstep
  · exact hret k h hk hget hreq

/-- The requests that come after a `FinishPartition` that returned `finished=True`. -/
theorem run_retried (hc : c.Closes Closed) {as bs : List (Action κ ε)} {x : σ}
    (hrun : (service c).run { consumer := x } as = some s) (hfin : s.Finished)
    (hrun' : (service c).run s bs = some t) :
    Closed t.consumer ∧ t.Retried s.handlers.length := by
  refine (service c).run_invariant (P := fun s' => Closed s'.consumer ∧ s'.Retried s.handlers.length)
    (fun _ _ _ ih hs => ⟨step_closed hc ih.1 hs, step_retried hc ih.1 ih.2 hs⟩) hrun'
    ⟨run_finished hc hrun hfin, ?_⟩
  intro k h hk hget
  rw [List.getElem?_eq_none hk] at hget
  cases hget

/-- The request `h` is answered by an exception: it has raised, or its only next step raises. -/
def Handler.Raises (c : Consumer σ κ ε) (x : σ) (h : Handler κ) : Prop :=
  h.pc = .raised ∨ h.pc = .called ∧ handle c x h.request h.pc = some (x, .raised)

theorem run_raises (hc : c.Closes Closed) {as bs : List (Action κ ε)} {x : σ} {k : Nat} {h : Handler κ}
    (hrun : (service c).run { consumer := x } as = some s) (hfin : s.Finished)
    (hrun' : (service c).run s bs = some t) (hk : s.handlers.length ≤ k)
    (hget : t.handlers[k]? = some h) (hreq : h.request.Fetches) : h.Raises c t.consumer := by
  obtain ⟨hclosed, hret⟩ := run_retried hc hrun hfin hrun'
  obtain hpc | hpc := hret k h hk hget hreq
  · refine .inr ⟨hpc, ?_⟩
    rw [hpc, handle_called hc hclosed hreq]
  · exact .inl hpc

end Closes

/-- After a `FinishPartition` that returned `finished=True`, no `StartPartition` and no
    `FinishPartition` is answered on either side: each of them raises. -/
theorem finishPartition_retry_raises [DecidableEq ι] (cfg : Replication.Config ι ρ)
    (dir : Store ι ρ) :
    (∀ (as bs : List (Action (LiteExampleIds ι) QueueMove)) (s t : State _ _) (k : Nat)
      (h : Handler (LiteExampleIds ι)),
      (service exampleIdConsumer).run { consumer := {} } as = some s → s.Finished →
      (service exampleIdConsumer).run s bs = some t → s.handlers.length ≤ k →
      t.handlers[k]? = some h → h.request.Fetches → h.Raises exampleIdConsumer t.consumer) ∧
    (∀ (as bs : List (Action (DataBlockMeta ι) Unit)) (s t : State _ _) (k : Nat)
      (h : Handler (DataBlockMeta ι)),
      (service (dataBlockConsumer cfg)).run { consumer := some (.init dir) } as = some s →
      s.Finished → (service (dataBlockConsumer cfg)).run s bs = some t → s.handlers.length ≤ k →
      t.handlers[k]? = some h → h.request.Fetches →
      h.Raises (dataBlockConsumer cfg) t.consumer) := by
  constructor
  · intro as bs s t k h hrun hfin hrun' hk hget hreq
    exact run_raises exampleIdConsumer_closes hrun hfin hrun' hk hget hreq
  · intro as bs s t k h hrun hfin hrun' hk hget hreq
    exact run_raises (dataBlockConsumer_closes cfg) hrun hfin hrun' hk hget hreq

/-! ## A lost reply -/

namespace Sample

def pcs {σ κ : Type} (s : State σ κ) : List HandlerPc := s.handlers.map (·.pc)

/-- One batch, which the joiner takes, and a `FinishPartition`. -/
def finishIds : List (Action (LiteExampleIds Nat) QueueMove) :=
  [.call (.syncPartition ⟨[7], true⟩), .handle 0, .background .feed, .background .take,
    .call .finishPartition, .handle 1, .handle 1, .handle 1]

/-- The reply is lost, and the producer asks again. -/
def retryIds : List (Action (LiteExampleIds Nat) QueueMove) :=
  [.call .finishPartition, .handle 2, .call .startPartition, .handle 3]

def config : Replication.Config Nat Nat where
  naming := .padded Nat "sample"
  leaderItems := { items := [⟨7, 0, 7⟩], nodup := by simp }

def finishMetas : List (Action (DataBlockMeta Nat) Unit) :=
  [.call .finishPartition, .handle 0, .handle 0, .handle 0]

def retryMetas : List (Action (DataBlockMeta Nat) Unit) :=
  [.call .startPartition, .handle 1, .call .finishPartition, .handle 2]

/-- Both consumers answer `finished=True` once, and raise when they are asked again. -/
theorem retries_raised :
    ((service exampleIdConsumer).run { consumer := {} } (finishIds ++ retryIds)).map pcs =
      some [.returned (.status 0), .returned (.finish true), .raised, .raised] ∧
    ((service (dataBlockConsumer config)).run { consumer := some (.init {}) }
      (finishMetas ++ retryMetas)).map pcs =
        some [.returned (.finish true), .raised, .raised] := by
  constructor <;> decide +kernel

/-- A run that finishes, and one that goes on with a request, evaluated. -/
theorem exists_retry {c : Consumer σ κ ε} {x : σ} {as bs : List (Action κ ε)} {n : Nat}
    (heval : ((service c).run { consumer := x } as).any (fun s =>
      decide s.Finished && decide (s.handlers.length = n) &&
        ((service c).run s bs).any fun t =>
          (t.handlers[n]?).any fun h => decide h.request.Fetches) = true) :
    ∃ s t h, (service c).run { consumer := x } as = some s ∧ s.Finished ∧
      s.handlers.length = n ∧ (service c).run s bs = some t ∧ t.handlers[n]? = some h ∧
      h.request.Fetches := by
  obtain ⟨s, hs, heval⟩ := Option.any_eq_true _ _ |>.mp heval
  rw [Bool.and_eq_true, Bool.and_eq_true, decide_eq_true_iff, decide_eq_true_iff] at heval
  obtain ⟨⟨hfin, hlen⟩, heval⟩ := heval
  obtain ⟨t, ht, heval⟩ := Option.any_eq_true _ _ |>.mp heval
  obtain ⟨h, hget, hreq⟩ := Option.any_eq_true _ _ |>.mp heval
  exact ⟨s, t, h, hs, hfin, hlen, ht, hget, of_decide_eq_true hreq⟩

/-- The first request after the finishing one, on both sides. -/
theorem firstRetry_raises :
    (∃ s t h, (service exampleIdConsumer).run { consumer := {} } finishIds = some s ∧ s.Finished ∧
      (service exampleIdConsumer).run s retryIds = some t ∧ t.handlers[2]? = some h ∧
      h.Raises exampleIdConsumer t.consumer) ∧
    (∃ s t h, (service (dataBlockConsumer config)).run { consumer := some (.init {}) } finishMetas =
        some s ∧ s.Finished ∧
      (service (dataBlockConsumer config)).run s retryMetas = some t ∧ t.handlers[1]? = some h ∧
      h.Raises (dataBlockConsumer config) t.consumer) := by
  have hraises := finishPartition_retry_raises config {}
  constructor
  · obtain ⟨s, t, h, hs, hfin, hlen, ht, hget, hreq⟩ :=
      @exists_retry _ _ _ exampleIdConsumer {} finishIds retryIds 2 (by decide +kernel)
    exact ⟨s, t, h, hs, hfin, ht, hget, hraises.1 _ _ s t 2 h hs hfin ht (by omega) hget hreq⟩
  · obtain ⟨s, t, h, hs, hfin, hlen, ht, hget, hreq⟩ :=
      @exists_retry _ _ _ (dataBlockConsumer config) (some (.init {})) finishMetas retryMetas 1
        (by decide +kernel)
    exact ⟨s, t, h, hs, hfin, ht, hget, hraises.2 _ _ s t 1 h hs hfin ht (by omega) hget hreq⟩

end Sample

end Service

end DataJoin
