-- SUMMARY: The example index of AppendExamplesManager against the example ids that it has accepted.
import NineNMpc.Lib.Machine
import NineNMpc.DataJoin.System

/-!
# The next example index

`DataJoin/data_join/example_id_appender.py`: what `StartPartition` reports as the next
index. Each operation holds the lock, so they run one after the other. `accepted` is
history: no operation reads it.
-/

namespace DataJoin

/-- `LiteExampleIds` with its partition. -/
structure PartitionExampleIds (ι : Type) extends LiteExampleIds ι where
  partitionId : Int

structure AppendExamplesManager (ι : Type) where
  partitionId : Int
  queue : List (PartitionExampleIds ι) := []
  sendExampleFinished : Bool := false
  nextExampleIndex : Int := 0
  accepted : List (PartitionExampleIds ι) := []

namespace AppendExamplesManager

variable {ι : Type}

/-- `none` is the failed assertion. -/
def appendBatchExamplesIntoQueue (m : AppendExamplesManager ι) (batch : PartitionExampleIds ι) :
    Option (AppendExamplesManager ι) :=
  if batch.partitionId = m.partitionId then
    some { m with
      nextExampleIndex := m.nextExampleIndex + (batch.exampleIds.length - 1)
      queue := m.queue ++ [batch]
      accepted := m.accepted ++ [batch] }
  else none

/-- `get` is the joiner's `queue.get`. -/
inductive Action (ι : Type) where
  | append (batch : PartitionExampleIds ι)
  | finishSendExamples
  | get

/-- A failed assertion leaves the manager as it was. -/
def step (m : AppendExamplesManager ι) : Action ι → Option (AppendExamplesManager ι)
  | .append batch => some ((m.appendBatchExamplesIntoQueue batch).getD m)
  | .finishSendExamples => some { m with sendExampleFinished := true }
  | .get =>
    match m.queue with
    | [] => none
    | _ :: queue => some { m with queue }

def machine (ι : Type) : Machine (AppendExamplesManager ι) (Action ι) := ⟨step⟩

/-- The number of the example ids accepted so far. -/
def received (m : AppendExamplesManager ι) : Nat := (m.accepted.flatMap (·.exampleIds)).length

/-- The action is a batch that is accepted. -/
def Accepts (m : AppendExamplesManager ι) : Action ι → Prop
  | .append batch => batch.partitionId = m.partitionId
  | _ => False

instance {m : AppendExamplesManager ι} : (a : Action ι) → Decidable (m.Accepts a)
  | .append batch => inferInstanceAs (Decidable (batch.partitionId = m.partitionId))
  | .finishSendExamples | .get => inferInstanceAs (Decidable False)

/-- The manager as the consumer of the whole system, before the feeder thread of the queue runs. -/
def toConsumer (m : AppendExamplesManager ι) : ExampleIdConsumer ι where
  sendExampleFinished := m.sendExampleFinished
  nextExampleIndex := m.nextExampleIndex
  buffer := m.queue.map (·.toLiteExampleIds)

variable {m m' s t : AppendExamplesManager ι} {a : Action ι} {as : List (Action ι)}
  {batch : PartitionExampleIds ι}

theorem toConsumer_append (h : m.appendBatchExamplesIntoQueue batch = some m') :
    m'.toConsumer = m.toConsumer.append batch.toLiteExampleIds := by
  unfold appendBatchExamplesIntoQueue at h
  split at h
  · cases h
    simp [toConsumer, ExampleIdConsumer.append]
  · cases h

/-! ## The index of a run -/

/-- What a step does to the partition, the index and the accepted batches. -/
theorem step_cases (h : m.step a = some m') :
    (∃ batch, a = .append batch ∧ batch.partitionId = m.partitionId ∧
      m'.partitionId = m.partitionId ∧ m'.accepted = m.accepted ++ [batch] ∧
        m'.nextExampleIndex = m.nextExampleIndex + (batch.exampleIds.length - 1)) ∨
    (¬ m.Accepts a ∧ m'.partitionId = m.partitionId ∧ m'.accepted = m.accepted ∧
      m'.nextExampleIndex = m.nextExampleIndex) := by
  cases a with
  | append batch =>
    obtain rfl := Option.some.inj h
    by_cases hid : batch.partitionId = m.partitionId
    · exact .inl ⟨batch, rfl, hid, by simp [appendBatchExamplesIntoQueue, hid]⟩
    · exact .inr ⟨hid, by simp [appendBatchExamplesIntoQueue, hid]⟩
  | finishSendExamples =>
    obtain rfl := Option.some.inj h
    exact .inr ⟨not_false, rfl, rfl, rfl⟩
  | get =>
    simp only [step] at h
    split at h
    · cases h
    · obtain rfl := Option.some.inj h
      exact .inr ⟨not_false, rfl, rfl, rfl⟩

/-- Each accepted batch lacks one. -/
def Short (m : AppendExamplesManager ι) : Prop :=
  m.nextExampleIndex = (m.received : Int) - m.accepted.length

theorem Short.step (h : m.Short) (hstep : m.step a = some m') : m'.Short := by
  unfold Short received at *
  rcases step_cases hstep with ⟨batch, -, -, -, hacc, hidx⟩ | ⟨-, -, hacc, hidx⟩
  · rw [hidx, hacc, h]
    simp
    omega
  · rw [hidx, hacc, h]

theorem Short.run (h : s.Short) (hrun : (machine ι).run s as = some t) : t.Short :=
  (machine ι).run_invariant (fun _ _ _ h hstep => h.step hstep) hrun h

/-- The index falls exactly when an empty batch is accepted. -/
theorem nextExampleIndex_lt_iff (h : m.step a = some m') :
    m'.nextExampleIndex < m.nextExampleIndex ↔
      ∃ batch, a = .append batch ∧ batch.partitionId = m.partitionId ∧ batch.exampleIds = [] := by
  rcases step_cases h with ⟨batch, rfl, hid, -, -, hidx⟩ | ⟨hnot, -, -, hidx⟩
  · rw [hidx]
    constructor
    · intro hlt
      exact ⟨batch, rfl, hid, List.length_eq_zero_iff.mp (by omega)⟩
    · rintro ⟨_, heq, -, hnil⟩
      cases heq
      rw [hnil, List.length_nil]
      omega
  · rw [hidx]
    refine iff_of_false (by omega) ?_
    rintro ⟨batch, rfl, hid, -⟩
    exact hnot hid

/-! ## The ids received -/

/-- In every state of the run the index is the number of the ids received, and it never decreases. -/
def Counts (s : AppendExamplesManager ι) (as : List (Action ι)) : Prop :=
  (∀ bs m, bs <+: as → (machine ι).run s bs = some m → m.nextExampleIndex = m.received) ∧
    ∀ bs a m m', bs ++ [a] <+: as → (machine ι).run s bs = some m → m.step a = some m' →
      m.nextExampleIndex ≤ m'.nextExampleIndex

/-- The index counts the ids received only where no batch is accepted. -/
theorem counts_iff {partitionId : Int} (hrun : (machine ι).run { partitionId } as = some t) :
    Counts { partitionId } as ↔
      (machine ι).Meets (fun m a => ¬ m.Accepts a) { partitionId } as := by
  have hshort : Short ({ partitionId } : AppendExamplesManager ι) := rfl
  have halways := (machine ι).always_iff_meets (I := fun m _ => m.Short)
    (C := fun m a => ¬ m.Accepts a) (P := fun m => m.nextExampleIndex = m.received)
    (fun m a as m' h hstep => h.step hstep) (by
      intro m a as m' h hstep hcounts
      have hnone : m.accepted = [] := by
        unfold Short at h
        exact List.length_eq_zero_iff.mp (by omega)
      have h' := h.step hstep
      rcases step_cases hstep with ⟨batch, rfl, hid, -, hacc, -⟩ | ⟨hnot, -, hacc, hidx⟩
      · refine iff_of_false ?_ (not_not.mpr hid)
        unfold Short at h'
        rw [hacc, hnone] at h'
        simp only [List.nil_append, List.length_singleton] at h'
        omega
      · refine iff_of_true ?_ hnot
        rw [hidx, received, hacc]
        exact hcounts) hrun hshort
  constructor
  · exact fun h => (halways.mp h.1).2
  · intro hmeets
    refine ⟨halways.mpr ⟨rfl, hmeets⟩, fun bs a m m' hbs hbs' hstep => ?_⟩
    obtain ⟨cs, rfl⟩ := hbs
    rw [List.append_assoc, Machine.meets_append] at hmeets
    have hnot := (hmeets.2 m hbs').1
    rcases step_cases hstep with ⟨batch, rfl, hid, -⟩ | ⟨-, -, -, hidx⟩
    · exact absurd hid hnot
    · exact Int.le_of_eq hidx.symm

end AppendExamplesManager

namespace AppendExamplesManager.Sample

def batch (ids : List Nat) : PartitionExampleIds Nat :=
  { exampleIds := ids, finished := false, partitionId := 0 }

/-- Two ids are received, and the index is 1; the empty batch that finishes takes it back to 0. -/
theorem batches_not_counted :
    (∃ t, (machine Nat).run { partitionId := 0 } [.append (batch [7, 8]), .append (batch [])] =
        some t ∧ t.received = 2 ∧ t.nextExampleIndex = 0) ∧
      ¬ Counts { partitionId := 0 } [.append (batch [7, 8]), .append (batch [])] := by
  refine ⟨⟨_, rfl, rfl, rfl⟩, fun h => ?_⟩
  have hcount := h.1 [.append (batch [7, 8])] _ ⟨[.append (batch [])], rfl⟩ rfl
  revert hcount
  decide

/-- A batch of another partition is not accepted. -/
theorem mismatch_counts : Counts { partitionId := 1 } [.append (batch [7, 8])] :=
  (counts_iff rfl).mpr (by decide)

end AppendExamplesManager.Sample

end DataJoin
