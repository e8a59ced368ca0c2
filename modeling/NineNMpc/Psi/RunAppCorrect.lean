-- SUMMARY: Every block is processed exactly once whatever the completion order, and two parties' schedulers cannot block each other.
import NineNMpc.Psi.RunAppInvariant
import NineNMpc.Psi.Flow

/-!
# Correctness of the scheduler

What the invariant says about one party, and about two parties whose jobs wait for each
other: the job of a block can complete only when both parties have dispatched the block.
-/

namespace Psi.RunApp

variable {β γ : Type} {cfg : Config β γ}

/-! ## One party -/

def Pc.leftLoop : Pc → Bool
  | results => true
  | returned _ => true
  | _ => false

namespace App

variable {s s' : App β γ}

theorem lt_of_actorOf {k a : Nat} (h : s.actorOf k = some a) : k < s.jobs.length := by
  obtain ⟨j, hj, _⟩ := Option.map_eq_some_iff.mp h
  exact (List.getElem?_eq_some_iff.mp hj).1

/-- A job that has not completed is in a slot. -/
theorem Slots.mem {refs : List Nat} {k : Nat} (h : s.Slots cfg refs) (hk : k < s.jobs.length)
    (hopen : ¬ s.Completed k) : k ∈ refs := by
  by_contra hmem
  exact hopen (h.handled k hk hmem).completed

/-- Two jobs that have not completed are on different actors. -/
theorem Inv.eq_of_actorOf {i j a : Nat} (h : s.Inv cfg) (hi : s.actorOf i = some a)
    (hj : s.actorOf j = some a) (hiopen : ¬ s.Completed i) (hjopen : ¬ s.Completed j) : i = j := by
  have hslots : ∀ {refs}, s.Slots cfg refs → i = j := fun hslots =>
    List.inj_on_of_nodup_map hslots.nodup (hslots.mem (lt_of_actorOf hi) hiopen)
      (hslots.mem (lt_of_actorOf hj) hjopen) (hi.trans hj.symm)
  have hinv := h.pc
  cases hpc : s.pc with
  | dispatch n =>
    rw [hpc] at hinv
    obtain ⟨_, hlen, hactor, _⟩ := hinv
    have hi' := hactor i (hlen ▸ lt_of_actorOf hi)
    have hj' := hactor j (hlen ▸ lt_of_actorOf hj)
    rw [hi] at hi'
    rw [hj] at hj'
    exact (Option.some.inj hi').symm.trans (Option.some.inj hj')
  | wait =>
    rw [hpc] at hinv
    obtain ⟨refs, _, _, hs⟩ := hinv
    exact hslots hs
  | next b remainingRefs =>
    rw [hpc] at hinv
    obtain ⟨refs, k, _, _, _, _, _, hs⟩ := hinv
    exact hslots hs
  | results =>
    rw [hpc] at hinv
    exact hslots hinv.2
  | returned results =>
    rw [hpc] at hinv
    exact hslots hinv.2
  | raised =>
    rw [hpc] at hinv
    exact hinv.elim

theorem Inv.of_leftLoop (h : s.Inv cfg) (hpc : s.pc.leftLoop = true) :
    s.jobs.length = cfg.data.length ∧ ∀ k < cfg.data.length, s.Handled cfg k := by
  have hinv := h.pc
  have hfinal : s.jobs.length = cfg.data.length ∧ s.Slots cfg [] := by
    cases hpc' : s.pc with
    | results =>
      rw [hpc'] at hinv
      exact hinv
    | returned results =>
      rw [hpc'] at hinv
      exact hinv
    | _ => simp [hpc', Pc.leftLoop] at hpc
  exact ⟨hfinal.1, fun k hk => hfinal.2.handled k (hfinal.1 ▸ hk) (by simp)⟩

end App

/-- Every block is dispatched once, no actor has two jobs, and the loop ends when all are done. -/
theorem runApp_exactly_once {as : List Action} {s : App β γ} (hn : cfg.data ≠ [])
    (hm : 1 ≤ cfg.maxActors) (hrun : (runApp cfg).run (init cfg) as = some s) :
    s.pc ≠ .raised ∧
    (s.jobs.map (·.blockId) = List.range s.jobs.length ∧ s.jobs.length ≤ cfg.data.length ∧
      ∀ j ∈ s.jobs, j.data = cfg.data[j.blockId]?) ∧
    (∀ i j (hi : i < s.jobs.length) (hj : j < s.jobs.length), i ≠ j →
      s.jobs[i].isCompleted = false → s.jobs[j].isCompleted = false →
      s.jobs[i].actorIndex ≠ s.jobs[j].actorIndex) ∧
    (s.pc.leftLoop = true →
      s.jobs.map (·.blockId) = List.range cfg.data.length ∧ (∀ j ∈ s.jobs, j.isCompleted = true) ∧
      (cfg.dataType = .file → ∀ i (hi : i < cfg.data.length),
        s.dataOutputRefs[i]? = some (some (cfg.doAction i cfg.data[i]).2.2))) := by
  have h := App.inv_run hn hm hrun
  have hblocks : s.jobs.map (·.blockId) = List.range s.jobs.length := by
    refine List.ext_getElem (by simp) fun k hk _ => ?_
    have hk : k < s.jobs.length := by simpa using hk
    simpa using (h.job k _ (List.getElem?_eq_getElem hk)).1
  refine ⟨fun hpc => ?_, ⟨hblocks, h.le, fun j hj => ?_⟩, fun i j hi hj hne hiopen hjopen heq => ?_,
    fun hpc => ?_⟩
  · have hinv := h.pc
    rw [hpc] at hinv
    exact hinv
  · obtain ⟨k, hk⟩ := List.getElem?_of_mem hj
    obtain ⟨hid, hdata, _⟩ := h.job k j hk
    rw [hid]
    exact hdata
  · have hopen : ∀ k (hk : k < s.jobs.length), s.jobs[k].isCompleted = false → ¬ s.Completed k := by
      rintro k hk hfalse ⟨j', hj', hdone⟩
      rw [List.getElem?_eq_getElem hk] at hj'
      rw [← Option.some.inj hj', hfalse] at hdone
      cases hdone
    refine hne (h.eq_of_actorOf (a := s.jobs[i].actorIndex) ?_ ?_ (hopen i hi hiopen)
      (hopen j hj hjopen))
    · simp [App.actorOf, List.getElem?_eq_getElem hi]
    · simp [App.actorOf, List.getElem?_eq_getElem hj, heq]
  · obtain ⟨hlen, hhandled⟩ := h.of_leftLoop hpc
    refine ⟨hlen ▸ hblocks, fun j hj => ?_, fun hfile i hi => ?_⟩
    · obtain ⟨k, hk⟩ := List.getElem?_of_mem hj
      obtain ⟨j', hj', hdone⟩ := (hhandled k (hlen ▸ (List.getElem?_eq_some_iff.mp hk).1)).completed
      rw [hk] at hj'
      exact Option.some.inj hj' ▸ hdone
    · rw [(hhandled i hi).output hfile]
      simp [Config.ref, hfile, List.getElem?_eq_getElem hi]

namespace Sample

/-- A file of the given number of blocks; the output of a block is its data plus one. -/
def config (n maxActors : Nat) : Config Nat Nat where
  dataType := .file
  data := (List.range n).map (10 * ·)
  maxActors
  doAction := fun blockId data => ((data, blockId, 0), (blockId, 0, 0), data + 1)

/-- Three blocks on two actors: the second job completes first, and a wait times out. -/
def schedule : List Action :=
  [.driver none, .driver none, .driver none, .begin 1, .driver none, .begin 0, .complete 1,
    .driver (some 1), .deliver 1, .driver none, .begin 2, .complete 2, .complete 0, .driver (some 0),
    .driver none, .deliver 0, .driver (some 2), .driver none]

theorem schedule_all_exactly_once : ∃ s, (runApp (config 3 2)).run (init (config 3 2)) schedule = some s ∧
    s.pc.leftLoop = true ∧ s.jobs.map (·.blockId) = [0, 1, 2] ∧ s.dataOutputRefs[2]? = some (some 21) := by
  have hsome : ((runApp (config 3 2)).run (init (config 3 2)) schedule).isSome = true := by
    decide +kernel
  obtain ⟨s, hs⟩ := Option.isSome_iff_exists.mp hsome
  have hleft : ((runApp (config 3 2)).run (init (config 3 2)) schedule).any (·.pc.leftLoop) = true := by
    decide +kernel
  rw [hs, Option.any_some] at hleft
  obtain ⟨_, _, _, hfinal⟩ := runApp_exactly_once (by decide) (by decide) hs
  obtain ⟨hblocks, _, houtputs⟩ := hfinal hleft
  exact ⟨s, hs, hleft, hblocks, houtputs rfl 2 (by decide)⟩

end Sample

/-! ## Two parties -/

namespace App

def isDispatched (s : App β γ) (blockId : Nat) : Bool := s.jobs.any (·.blockId = blockId)

def isBlockCompleted (s : App β γ) (blockId : Nat) : Bool :=
  s.jobs.any fun j => j.blockId = blockId && j.isCompleted

/-- The driver has something to do before it blocks in `ray.wait`: it is handing out its first
    blocks, it has a completed job to take up, or it is about to refill an actor. -/
def Busy (s : App β γ) : Prop :=
  match s.pc with
  | .dispatch _ => True
  | .wait => ∃ k, some k ∈ s.resultRefs ∧ s.Completed k
  | .next _ _ => True
  | _ => False

end App

/-- Whether the step can be taken: the PSI of a block needs the other party's job of that block. -/
def allowed (s : Rank → App β γ) (r : Rank) : Action → Bool
  | .complete k => (s r).jobs[k]?.any fun j => (s r.next).isDispatched j.blockId
  | _ => true

/-- Both parties run `run_app`, each with its own actor limit. -/
def twoParties (cfg : Rank → Config β γ) : Machine (Rank → App β γ) (Rank × Action) where
  step s a :=
    if allowed s a.1 a.2 then
      ((runApp (cfg a.1)).step (s a.1) a.2).map fun app => Function.update s a.1 app
    else none

namespace App

variable {s : App β γ}

theorem Inv.isDispatched (h : s.Inv cfg) {b : Nat} :
    s.isDispatched b = true ↔ b < s.jobs.length := by
  simp only [App.isDispatched, List.any_eq_true, decide_eq_true_eq]
  constructor
  · rintro ⟨j, hj, rfl⟩
    obtain ⟨k, hk⟩ := List.getElem?_of_mem hj
    rw [(h.job k j hk).1]
    exact (List.getElem?_eq_some_iff.mp hk).1
  · intro hb
    exact ⟨s.jobs[b], List.getElem_mem hb, (h.job b _ (List.getElem?_eq_getElem hb)).1⟩

theorem Inv.isBlockCompleted (h : s.Inv cfg) {b : Nat} :
    s.isBlockCompleted b = true ↔ s.Completed b := by
  simp only [App.isBlockCompleted, List.any_eq_true, Bool.and_eq_true, decide_eq_true_eq, Completed]
  constructor
  · rintro ⟨j, hj, rfl, hdone⟩
    obtain ⟨k, hk⟩ := List.getElem?_of_mem hj
    rw [(h.job k j hk).1]
    exact ⟨j, hk, hdone⟩
  · rintro ⟨j, hj, hdone⟩
    exact ⟨j, List.mem_of_getElem? hj, (h.job b j hj).1, hdone⟩

/-- A driver that is not busy is behind its loop, or waits for jobs that have not completed. -/
theorem Inv.of_not_busy (h : s.Inv cfg) (hbusy : ¬ s.Busy) :
    s.pc.leftLoop = true ∨ ∃ k < s.jobs.length, ¬ s.Completed k := by
  have hinv := h.pc
  unfold Busy at hbusy
  cases hpc : s.pc with
  | dispatch i => simp [hpc] at hbusy
  | next a remainingRefs => simp [hpc] at hbusy
  | results => exact .inl rfl
  | returned results => exact .inl rfl
  | raised =>
    rw [hpc] at hinv
    exact hinv.elim
  | wait =>
    rw [hpc] at hinv hbusy
    obtain ⟨refs, hne, hrefs, hslots⟩ := hinv
    obtain ⟨k, hk⟩ := List.exists_mem_of_ne_nil refs hne
    obtain ⟨a, _, ha⟩ := hslots.actor k hk
    refine .inr ⟨k, lt_of_actorOf ha, fun hdone => hbusy ⟨k, ?_, hdone⟩⟩
    rw [hrefs]
    exact List.mem_map_of_mem hk

end App

theorem twoParties_inv {cfg : Rank → Config β γ} {s : Rank → App β γ} {as : List (Rank × Action)}
    (hn : ∀ r, (cfg r).data ≠ []) (hm : ∀ r, 1 ≤ (cfg r).maxActors)
    (hrun : (twoParties cfg).run (fun r => init (cfg r)) as = some s) (r : Rank) :
    (s r).Inv (cfg r) := by
  revert r
  refine (twoParties cfg).run_invariant (P := fun s => ∀ r, (s r).Inv (cfg r)) ?_ hrun
    fun r => App.inv_init (hn r) (hm r)
  intro s a s' h hs r
  simp only [twoParties] at hs
  split at hs
  case isFalse => cases hs
  case isTrue =>
    obtain ⟨app, happ, rfl⟩ := Option.map_eq_some_iff.mp hs
    by_cases hr : r = a.1
    · subst hr
      rw [Function.update_self]
      exact (h a.1).step happ
    · rw [Function.update_of_ne hr]
      exact h r

/-- The schedulers of two parties cannot block each other. -/
theorem twoParties_not_blocked {cfg : Rank → Config β γ} {s : Rank → App β γ} {n : Nat}
    {as : List (Rank × Action)} (hn : 1 ≤ n) (hlen : ∀ r, (cfg r).data.length = n)
    (hm : ∀ r, 1 ≤ (cfg r).maxActors)
    (hrun : (twoParties cfg).run (fun r => init (cfg r)) as = some s)
    (hopen : ∃ b < n, ∃ r, (s r).isBlockCompleted b = false) :
    (∃ b < n, (∀ r, (s r).isDispatched b = true) ∧ ∃ r, (s r).isBlockCompleted b = false) ∨
      ∃ r, (s r).Busy := by
  have hne : ∀ r, (cfg r).data ≠ [] := by
    intro r hnil
    have := hlen r
    rw [hnil] at this
    simp at this
    omega
  have hinv := twoParties_inv hne hm hrun
  by_cases hbusy : ∃ r, (s r).Busy
  · exact .inr hbusy
  · refine .inl ?_
    rw [not_exists] at hbusy
    -- the party that has dispatched fewer blocks
    obtain ⟨r, hr⟩ : ∃ r, (s r).jobs.length ≤ (s r.next).jobs.length := by
      by_cases hle : (s .sender).jobs.length ≤ (s .receiver).jobs.length
      · exact ⟨.sender, hle⟩
      · exact ⟨.receiver, Nat.le_of_lt (Nat.lt_of_not_le hle)⟩
    have hboth : ∀ k < (s r).jobs.length, ∀ q, (s q).isDispatched k = true := by
      intro k hk q
      rw [(hinv q).isDispatched]
      obtain rfl | rfl := Rank.eq_or_eq_next q r
      · exact hk
      · exact Nat.lt_of_lt_of_le hk hr
    obtain hleft | ⟨k, hk, hkopen⟩ := (hinv r).of_not_busy (hbusy r)
    · -- it is done, so the open block is the other's, and both have dispatched all blocks
      obtain ⟨b, hb, q, hq⟩ := hopen
      have hall := ((hinv r).of_leftLoop hleft).1.trans (hlen r)
      exact ⟨b, hb, hboth b (hall ▸ hb), q, hq⟩
    · refine ⟨k, Nat.lt_of_lt_of_le hk (hlen r ▸ (hinv r).le), hboth k hk, r, ?_⟩
      rwa [← Bool.not_eq_true, (hinv r).isBlockCompleted]

namespace Sample

/-- Two blocks, and one actor on each side. -/
def parties (_ : Rank) : Config Nat Nat := config 2 1

/-- Both parties have completed their first block, and neither driver has taken it up yet. -/
def firstCompleted : List (Rank × Action) :=
  [(.sender, .driver none), (.receiver, .driver none), (.sender, .driver none),
    (.receiver, .driver none), (.sender, .begin 0), (.receiver, .begin 0), (.sender, .complete 0),
    (.receiver, .complete 0)]

theorem firstCompleted_no_common_block : ∃ s,
    (twoParties parties).run (fun r => init (parties r)) firstCompleted = some s ∧
    (∃ b < 2, ∃ r, (s r).isBlockCompleted b = false) ∧
    ¬ ∃ b < 2, (∀ r, (s r).isDispatched b = true) ∧ ∃ r, (s r).isBlockCompleted b = false := by
  have hsome : ((twoParties parties).run (fun r => init (parties r)) firstCompleted).isSome = true := by
    decide +kernel
  obtain ⟨s, hs⟩ := Option.isSome_iff_exists.mp hsome
  have hblocks : ((twoParties parties).run (fun r => init (parties r)) firstCompleted).any (fun s =>
      (s .sender).isBlockCompleted 0 && (s .receiver).isBlockCompleted 0 &&
        !(s .sender).isBlockCompleted 1 && !(s .sender).isDispatched 1) = true := by decide +kernel
  rw [hs, Option.any_some] at hblocks
  simp only [Bool.and_eq_true, Bool.not_eq_true'] at hblocks
  obtain ⟨⟨⟨hs0, hr0⟩, hs1⟩, hd1⟩ := hblocks
  refine ⟨s, hs, ⟨1, by decide, .sender, hs1⟩, ?_⟩
  rintro ⟨b, hb, hdispatched, r, hopen⟩
  obtain rfl | rfl : b = 0 ∨ b = 1 := by omega
  · cases r with
    | sender => simp [hs0] at hopen
    | receiver => simp [hr0] at hopen
  · have := hdispatched .sender
    simp [hd1] at this

/-- In the same state the drivers are not blocked. -/
theorem firstCompleted_not_blocked : ∃ s,
    (twoParties parties).run (fun r => init (parties r)) firstCompleted = some s ∧
    ((∃ b < 2, (∀ r, (s r).isDispatched b = true) ∧ ∃ r, (s r).isBlockCompleted b = false) ∨
      ∃ r, (s r).Busy) := by
  have hsome : ((twoParties parties).run (fun r => init (parties r)) firstCompleted).isSome = true := by
    decide +kernel
  obtain ⟨s, hs⟩ := Option.isSome_iff_exists.mp hsome
  have hopen : ((twoParties parties).run (fun r => init (parties r)) firstCompleted).any (fun s =>
      !(s .sender).isBlockCompleted 1) = true := by decide +kernel
  rw [hs, Option.any_some] at hopen
  exact ⟨s, hs, twoParties_not_blocked (by decide) (fun _ => rfl) (fun _ => Nat.le_refl 1) hs
    ⟨1, by decide, .sender, by simpa using hopen⟩⟩

end Sample

end Psi.RunApp
