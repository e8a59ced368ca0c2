-- SUMMARY: The places of an example id on its way from the leader's dictionary into a stored block of the follower.
import NineNMpc.DataJoin.System

/-!
# Places of an example id

An id of the current sending pass is still to be sent, in a request, in the queue, in the
batch that the joiner works on, in the open block or in a stored block.
-/

namespace DataJoin

variable {ι ρ : Type}

/-- The ids of the stored blocks, block after block. -/
def Store.storedIds (st : Store ι ρ) : List ι := st.metaFiles.flatMap (·.exampleIds)

def Finalizing.rest : Finalizing ι → List ι
  | inBatch rest _ => rest
  | _ => []

/-- The ids of the batch that the joiner has not looked at. -/
def JoinerPc.rest : JoinerPc ι → List ι
  | batch rest _ => rest
  | store k => k.rest
  | update k => k.rest
  | close k => k.rest
  | _ => []

def JoinerPc.isClose : JoinerPc ι → Bool
  | close _ => true
  | _ => false

/-- The ids of the block that is not stored yet. -/
def Joiner.openIds (j : Joiner ι ρ) : List ι :=
  if j.pc.isClose then [] else (j.dataBlockMaker.map (·.exampleIds)).getD []

def queuedIds (queue : List (LiteExampleIds ι)) : List ι := queue.flatMap (·.exampleIds)

@[simp] theorem queuedIds_nil : queuedIds ([] : List (LiteExampleIds ι)) = [] := rfl

@[simp] theorem queuedIds_cons {b : LiteExampleIds ι} {queue : List (LiteExampleIds ι)} :
    queuedIds (b :: queue) = b.exampleIds ++ queuedIds queue := rfl

@[simp] theorem queuedIds_append {queue queue' : List (LiteExampleIds ι)} :
    queuedIds (queue ++ queue') = queuedIds queue ++ queuedIds queue' := by
  simp [queuedIds]

/-- The batch of a request that the follower has not served. -/
def Call.batch? : Call (IdRequest ι) IdResponse → List (LiteExampleIds ι)
  | request (.syncPartition batch) => [batch]
  | _ => []

/-- The ids that the current pass has not sent. -/
def ProducerPc.unsent : ProducerPc ι → List ι
  | sync rest _ => rest
  | _ => []

/-- What the follower has received and not joined, in the order of arrival. -/
def Sys.received (s : Sys ι ρ) : List ι :=
  s.joiner.pc.rest ++ (queuedIds s.consumer.pipe ++ queuedIds s.consumer.buffer)

/-- What the current pass still has to bring to the follower. -/
def Sys.coming (s : Sys ι ρ) : List ι := queuedIds s.idCall.batch? ++ s.producer.pc.unsent

section

variable [DecidableEq ι]

/-- The ids of the follower's items in a list. -/
def Config.common (cfg : Config ι ρ) (ids : List ι) : List ι :=
  ids.filter fun x => x ∈ cfg.followerItems.ids

@[simp] theorem Config.common_nil {cfg : Config ι ρ} : cfg.common [] = [] := rfl

@[simp] theorem Config.common_append {cfg : Config ι ρ} {ids ids' : List ι} :
    cfg.common (ids ++ ids') = cfg.common ids ++ cfg.common ids' := by
  simp [common]

/-- The follower's stored and open ids, then the common ids it has not joined. -/
def Sys.held (cfg : Config ι ρ) (s : Sys ι ρ) : List ι :=
  s.replica.follower.storedIds ++ (s.joiner.openIds ++ cfg.common s.received)

/-- Everything on the way from the current pass into the blocks. -/
def Sys.way (cfg : Config ι ρ) (s : Sys ι ρ) : List ι := s.held cfg ++ cfg.common s.coming

end

/-! ## The producer -/

theorem ExampleIdProducer.nextBatch_ids {ids : List ι} :
    (nextBatch ids).1.exampleIds ++ (nextBatch ids).2 = ids := by
  simp only [nextBatch]
  split <;> simp

theorem ExampleIdProducer.send_coming (p : ExampleIdProducer ι) (ids : List ι) :
    queuedIds (p.send ids).2.batch? ++ (p.send ids).1.pc.unsent = ids := by
  simpa [send, Call.batch?, ProducerPc.unsent] using nextBatch_ids

/-- Only the step that starts a pass brings new ids. -/
theorem ExampleIdProducer.step_coming {ids : List ι} {p p' : ExampleIdProducer ι}
    {call call' : Call (IdRequest ι) IdResponse} (h : p.step ids call = some (p', call')) :
    List.Sublist (queuedIds call'.batch? ++ p'.pc.unsent) (queuedIds call.batch? ++ p.pc.unsent) ∨
      (p.pc = .start ∧ (∃ next, call = .response (.start next false)) ∧
        queuedIds call'.batch? ++ p'.pc.unsent = ids) := by
  simp only [step] at h
  split at h
  case h_1 hpc =>
    split at h
    · cases h
    · cases h
      simp [Call.batch?, ProducerPc.unsent]
  case h_2 next finished hpc =>
    split at h
    · cases h
      simp [Call.batch?, ProducerPc.unsent]
    · rename_i hfin
      have hsend := p.send_coming ids
      rw [Option.some.inj h] at hsend
      refine .inr ⟨hpc, ⟨next, ?_⟩, hsend⟩
      simpa using hfin
  case h_3 rest finished hpc =>
    split at h
    · cases h
      simp [Call.batch?, ProducerPc.unsent]
    · have hsend := p.send_coming rest
      rw [Option.some.inj h] at hsend
      refine .inl ?_
      rw [hsend, hpc]
      simp [Call.batch?, ProducerPc.unsent]
  all_goals
    cases h
    try simp [Call.batch?, ProducerPc.unsent]

end DataJoin
