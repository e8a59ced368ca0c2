-- SUMMARY: Two disciplines for closing a FIFO stream: an end flag on the last message, and a sentinel put just before the last element.
import Mathlib.Data.List.Basic

/-!
# Closing a FIFO stream

The reader of a stream must learn which element is the last one. `EndMarked` relates
the end flags of the messages in flight to whether the writer has sent the last one
and the reader has taken it. `SentinelQueue` does the same for a queue in which the
writer puts `none` in front of the last element.
-/

/-! ## An end flag on the last message -/

/-- `flags` are the end flags in flight; only the last message ever sent carries one. -/
def EndMarked (flags : List Bool) (sent got : Bool) : Prop :=
  if got then sent = true ∧ flags = []
  else ∃ k, flags = List.replicate k false ++ if sent then [true] else []

namespace EndMarked

theorem init : EndMarked [] false false := ⟨0, rfl⟩

theorem send {flags : List Bool} {got e : Bool} (h : EndMarked flags false got) :
    EndMarked (flags ++ [e]) e got := by
  cases got with
  | true => simp [EndMarked] at h
  | false =>
    obtain ⟨k, rfl⟩ := h
    cases e with
    | true => exact ⟨k, by simp⟩
    | false => exact ⟨k + 1, by simp [List.replicate_succ']⟩

theorem recv {flags : List Bool} {sent last : Bool} (h : EndMarked (last :: flags) sent false) :
    EndMarked flags sent last := by
  obtain ⟨k, hk⟩ := h
  cases k with
  | zero =>
    cases sent with
    | false => simp at hk
    | true =>
      simp only [List.replicate_zero, List.nil_append, if_true, List.cons.injEq] at hk
      obtain ⟨rfl, rfl⟩ := hk
      exact ⟨rfl, rfl⟩
  | succ k =>
    simp only [List.replicate_succ, List.cons_append, List.cons.injEq] at hk
    obtain ⟨rfl, rfl⟩ := hk
    exact ⟨k, rfl⟩

theorem closed {flags : List Bool} {sent : Bool} (h : EndMarked flags sent true) :
    sent = true ∧ flags = [] := h

/-- A reader that waits for the last message finds one in flight once it has been sent. -/
theorem ne_nil {flags : List Bool} (h : EndMarked flags true false) : flags ≠ [] := by
  obtain ⟨k, rfl⟩ := h
  simp

end EndMarked

/-! ## A sentinel before the last element -/

/-- How far the writer is: no sentinel yet, sentinel put, last element put. -/
inductive PutStage where
  | opened
  | sentinel
  | closed

/-- How far the reader is: in the stream, behind the sentinel, behind the last element. -/
inductive GetStage where
  | reading
  | atLast
  | done

inductive SentinelQueue {α : Type*} : List (Option α) → PutStage → GetStage → Prop where
  | filling (xs : List α) : SentinelQueue (xs.map some) .opened .reading
  | marked (xs : List α) : SentinelQueue (xs.map some ++ [none]) .sentinel .reading
  | full (xs : List α) (a : α) : SentinelQueue (xs.map some ++ [none, some a]) .closed .reading
  | awaiting : SentinelQueue [] .sentinel .atLast
  | ready (a : α) : SentinelQueue [some a] .closed .atLast
  | drained : SentinelQueue [] .closed .done

namespace SentinelQueue

variable {α : Type*} {q : List (Option α)} {p : PutStage} {g : GetStage} {a : α}

theorem put (h : SentinelQueue q .opened g) : SentinelQueue (q ++ [some a]) .opened g := by
  cases h with
  | filling xs => simpa using SentinelQueue.filling (xs ++ [a])

theorem putSentinel (h : SentinelQueue q .opened g) : SentinelQueue (q ++ [none]) .sentinel g := by
  cases h with
  | filling xs => exact .marked xs

theorem putLast (h : SentinelQueue q .sentinel g) : SentinelQueue (q ++ [some a]) .closed g := by
  cases h with
  | marked xs => simpa using SentinelQueue.full xs a
  | awaiting => exact .ready a

/-- The head of a queue that is still being read, by what it is. -/
private theorem cons_reading {x : Option α} {l : List (Option α)}
    (h : SentinelQueue l p .reading) (hl : l = x :: q) :
    (∃ b, x = some b ∧ SentinelQueue q p .reading) ∨ (x = none ∧ SentinelQueue q p .atLast) := by
  cases h with
  | filling xs =>
    cases xs with
    | nil => simp at hl
    | cons b xs =>
      simp only [List.map_cons, List.cons.injEq] at hl
      obtain ⟨rfl, rfl⟩ := hl
      exact .inl ⟨b, rfl, .filling xs⟩
  | marked xs =>
    cases xs with
    | nil =>
      simp only [List.map_nil, List.nil_append, List.cons.injEq] at hl
      obtain ⟨rfl, rfl⟩ := hl
      exact .inr ⟨rfl, .awaiting⟩
    | cons b xs =>
      simp only [List.map_cons, List.cons_append, List.cons.injEq] at hl
      obtain ⟨rfl, rfl⟩ := hl
      exact .inl ⟨b, rfl, .marked xs⟩
  | full xs c =>
    cases xs with
    | nil =>
      simp only [List.map_nil, List.nil_append, List.cons.injEq] at hl
      obtain ⟨rfl, rfl⟩ := hl
      exact .inr ⟨rfl, .ready c⟩
    | cons b xs =>
      simp only [List.map_cons, List.cons_append, List.cons.injEq] at hl
      obtain ⟨rfl, rfl⟩ := hl
      exact .inl ⟨b, rfl, .full xs c⟩

theorem get (h : SentinelQueue (some a :: q) p .reading) : SentinelQueue q p .reading := by
  obtain ⟨_, _, hq⟩ | ⟨hx, _⟩ := cons_reading h rfl
  · exact hq
  · cases hx

theorem getSentinel (h : SentinelQueue (none :: q) p .reading) : SentinelQueue q p .atLast := by
  obtain ⟨_, hx, _⟩ | ⟨_, hq⟩ := cons_reading h rfl
  · cases hx
  · exact hq

theorem getLast {x : Option α} (h : SentinelQueue (x :: q) p .atLast) :
    x ≠ none ∧ SentinelQueue q p .done := by
  generalize hl : x :: q = l at h
  cases h with
  | awaiting => cases hl
  | ready a =>
    cases hl
    exact ⟨by simp, .drained⟩

theorem eq_nil (h : SentinelQueue q p .done) : q = [] := by
  cases h with
  | drained => rfl

/-- A reader that is not behind the last element finds something in a closed queue. -/
theorem done_of_nil (h : SentinelQueue ([] : List (Option α)) .closed g) : g = .done := by
  generalize hl : ([] : List (Option α)) = l at h
  cases h with
  | full xs a => simp at hl
  | ready a => cases hl
  | drained => rfl

/-- The writer closes the queue before the reader is behind the last element. -/
theorem closed_of_done (h : SentinelQueue q p .done) : p = .closed := by
  cases h with
  | drained => rfl

end SentinelQueue
