-- SUMMARY: Deterministic labelled machines: runs over lists of actions, invariants of whole runs, and runs whose steps all meet a condition.
import Mathlib.Data.List.Basic

/-!
# Machines

A concurrent program is a partial function `step` on its global state: the action
names who moves and how the environment answers, and `none` says that this actor
is blocked. An interleaving is a list of actions, and a reachable state is the end
of a run over such a list.
-/

structure Machine (σ α : Type*) where
  step : σ → α → Option σ

namespace Machine

variable {σ α : Type*} (m : Machine σ α)

/-- Execute the actions in order; `none` as soon as one of them is blocked. -/
def run (s : σ) : List α → Option σ
  | [] => some s
  | a :: as => (m.step s a).bind fun s' => run s' as

@[simp] theorem run_nil {s : σ} : m.run s [] = some s := rfl

theorem run_cons {s t : σ} {a : α} {as : List α} :
    m.run s (a :: as) = some t ↔ ∃ s', m.step s a = some s' ∧ m.run s' as = some t := by
  simp [run, Option.bind_eq_some_iff]

theorem run_append {s t : σ} {as bs : List α} :
    m.run s (as ++ bs) = some t ↔ ∃ s', m.run s as = some s' ∧ m.run s' bs = some t := by
  induction as generalizing s with
  | nil => simp
  | cons a as ih =>
    simp only [List.cons_append, run_cons, ih]
    constructor
    · rintro ⟨s₁, h₁, s₂, h₂, h₃⟩
      exact ⟨s₂, ⟨s₁, h₁, h₂⟩, h₃⟩
    · rintro ⟨s₂, ⟨s₁, h₁, h₂⟩, h₃⟩
      exact ⟨s₁, h₁, s₂, h₂, h₃⟩

/-- Every step of the run over `as` satisfies `C` in the state it is taken from. -/
def Meets (C : σ → α → Prop) : σ → List α → Prop
  | _, [] => True
  | s, a :: as => C s a ∧ ∀ s', m.step s a = some s' → Meets C s' as

theorem meets_cons_some {C : σ → α → Prop} {s s' : σ} {a : α} {as : List α}
    (h : m.step s a = some s') : m.Meets C s (a :: as) ↔ C s a ∧ m.Meets C s' as := by
  simp [Meets, h]

theorem meets_cons_none {C : σ → α → Prop} {s : σ} {a : α} {as : List α}
    (h : m.step s a = none) : m.Meets C s (a :: as) ↔ C s a := by
  simp [Meets, h]

theorem meets_append {C : σ → α → Prop} {s : σ} {as bs : List α} :
    m.Meets C s (as ++ bs) ↔
      m.Meets C s as ∧ ∀ t, m.run s as = some t → m.Meets C t bs := by
  induction as generalizing s with
  | nil => simp [Meets]
  | cons a as ih =>
    cases hs : m.step s a with
    | none => simp [Meets, run, hs]
    | some s' => simp [Meets, run, hs, ih, and_assoc]

/-- A condition on the actions alone. -/
theorem meets_of_forall {Q : α → Prop} {s : σ} {as : List α} (h : ∀ a ∈ as, Q a) :
    m.Meets (fun _ a => Q a) s as := by
  induction as generalizing s with
  | nil => trivial
  | cons a as ih => exact ⟨h a (by simp), fun s' _ => ih fun b hb => h b (by simp [hb])⟩

/-- Whether all steps meet a decidable condition can be evaluated along the run. -/
def decideMeets {C : σ → α → Prop} [∀ s a, Decidable (C s a)] :
    (s : σ) → (as : List α) → Decidable (m.Meets C s as)
  | _, [] => isTrue trivial
  | s, a :: as =>
    match h : m.step s a with
    | some s' =>
      have := decideMeets (C := C) s' as
      decidable_of_iff (C s a ∧ m.Meets C s' as) (m.meets_cons_some h).symm
    | none => decidable_of_iff (C s a) (m.meets_cons_none h).symm

instance {C : σ → α → Prop} [∀ s a, Decidable (C s a)] {s : σ} {as : List α} :
    Decidable (m.Meets C s as) :=
  m.decideMeets s as

/-- The induction rule for runs whose steps all meet a condition. -/
theorem run_induct {C : σ → α → Prop} {P : σ → Prop}
    (hstep : ∀ s a s', C s a → P s → m.step s a = some s' → P s')
    {s t : σ} {as : List α} (hC : m.Meets C s as) (hrun : m.run s as = some t) (hs : P s) :
    P t := by
  induction as generalizing s with
  | nil =>
    simp only [run_nil, Option.some.injEq] at hrun
    exact hrun ▸ hs
  | cons a as ih =>
    obtain ⟨s', h₁, h₂⟩ := m.run_cons.mp hrun
    exact ih (hC.2 s' h₁) h₂ (hstep s a s' hC.1 hs h₁)

/-- If a step keeps `P` exactly when it meets a condition, and never restores it, then `P` holds at
    the end of a run exactly when it held before and every step meets the condition. `I` is an
    invariant of the state and of the actions that are still to come. -/
theorem run_iff_meets_of {I : σ → List α → Prop} {C : σ → α → Prop} {P : σ → Prop}
    (hI : ∀ s a as s', I s (a :: as) → m.step s a = some s' → I s' as)
    (hstep : ∀ s a as s', I s (a :: as) → m.step s a = some s' → (P s' ↔ P s ∧ C s a))
    {s t : σ} {as : List α} (hrun : m.run s as = some t) (hs : I s as) :
    P t ↔ P s ∧ m.Meets C s as := by
  induction as generalizing s with
  | nil =>
    simp only [run_nil, Option.some.injEq] at hrun
    simp [Meets, hrun]
  | cons a as ih =>
    obtain ⟨s', h₁, h₂⟩ := m.run_cons.mp hrun
    rw [ih h₂ (hI s a as s' hs h₁), hstep s a as s' hs h₁, m.meets_cons_some h₁, and_assoc]

theorem run_iff_meets {C : σ → α → Prop} {P : σ → Prop}
    (hstep : ∀ s a s', m.step s a = some s' → (P s' ↔ P s ∧ C s a))
    {s t : σ} {as : List α} (hrun : m.run s as = some t) : P t ↔ P s ∧ m.Meets C s as :=
  m.run_iff_meets_of (I := fun _ _ => True) (fun _ _ _ _ _ _ => trivial)
    (fun s a _ s' _ => hstep s a s') hrun trivial

/-- An invariant of the state and of the actions that are still to come. -/
theorem run_rest {I : σ → List α → Prop}
    (hI : ∀ s a as s', I s (a :: as) → m.step s a = some s' → I s' as)
    {s t : σ} {as : List α} (hrun : m.run s as = some t) (hs : I s as) : I t [] := by
  induction as generalizing s with
  | nil =>
    simp only [run_nil, Option.some.injEq] at hrun
    exact hrun ▸ hs
  | cons a as ih =>
    obtain ⟨s', h₁, h₂⟩ := m.run_cons.mp hrun
    exact ih h₂ (hI s a as s' hs h₁)

/-- What a run keeps: each step keeps `K` if it meets a condition, and else loses some of it. Then
    all is kept to the end exactly when every step meets the condition. -/
theorem run_keeps_iff {κ : Type*} {I : σ → List α → Prop} {C : σ → α → Prop}
    {K : σ → List α → List κ} (hI : ∀ s a as s', I s (a :: as) → m.step s a = some s' → I s' as)
    (hkeep : ∀ s a as s', I s (a :: as) → m.step s a = some s' → C s a → K s' as = K s (a :: as))
    (hlose : ∀ s a as s', I s (a :: as) → m.step s a = some s' → ¬ C s a →
      (K s' as).Sublist (K s (a :: as)) ∧ K s' as ≠ K s (a :: as))
    {s t : σ} {as : List α} (hrun : m.run s as = some t) (hs : I s as) :
    (K t []).Sublist (K s as) ∧ (K t [] = K s as ↔ m.Meets C s as) := by
  induction as generalizing s with
  | nil =>
    simp only [run_nil, Option.some.injEq] at hrun
    simp [Meets, hrun]
  | cons a as ih =>
    obtain ⟨s', h₁, h₂⟩ := m.run_cons.mp hrun
    obtain ⟨hsub, hiff⟩ := ih h₂ (hI s a as s' hs h₁)
    rw [m.meets_cons_some h₁]
    by_cases hC : C s a
    · rw [← hkeep s a as s' hs h₁ hC]
      exact ⟨hsub, by rw [hiff, and_iff_right hC]⟩
    · obtain ⟨hsub', hne⟩ := hlose s a as s' hs h₁ hC
      refine ⟨hsub.trans hsub', iff_of_false (fun heq => ?_) fun h => hC h.1⟩
      -- what is lost does not come back
      exact hne (hsub'.antisymm (heq ▸ hsub))

/-- If a step that is taken from a state with `P` keeps `P` exactly when it meets a condition, then
    `P` holds in every state of a run exactly when it holds in the first one and every step meets the
    condition. -/
theorem always_iff_meets {I : σ → List α → Prop} {C : σ → α → Prop} {P : σ → Prop}
    (hI : ∀ s a as s', I s (a :: as) → m.step s a = some s' → I s' as)
    (hstep : ∀ s a as s', I s (a :: as) → m.step s a = some s' → P s → (P s' ↔ C s a))
    {s t : σ} {as : List α} (hrun : m.run s as = some t) (hs : I s as) :
    (∀ bs s', bs <+: as → m.run s bs = some s' → P s') ↔ P s ∧ m.Meets C s as := by
  induction as generalizing s with
  | nil =>
    refine ⟨fun hall => ⟨hall [] s List.nil_prefix rfl, trivial⟩, fun hP bs u hbs hu => ?_⟩
    obtain rfl := List.prefix_nil.mp hbs
    exact Option.some.inj hu ▸ hP.1
  | cons a as ih =>
    obtain ⟨s', h₁, h₂⟩ := m.run_cons.mp hrun
    have hrest := ih h₂ (hI s a as s' hs h₁)
    rw [m.meets_cons_some h₁]
    constructor
    · intro hall
      have hfirst : P s := hall [] s List.nil_prefix rfl
      have hlater := hrest.mp fun bs t hbs ht =>
        hall (a :: bs) t (List.cons_prefix_cons.mpr ⟨rfl, hbs⟩) (m.run_cons.mpr ⟨s', h₁, ht⟩)
      exact ⟨hfirst, (hstep s a as s' hs h₁ hfirst).mp hlater.1, hlater.2⟩
    · rintro ⟨hfirst, hC, hmeets⟩ bs u hbs hu
      cases bs with
      | nil => exact Option.some.inj hu ▸ hfirst
      | cons b bs =>
        obtain ⟨rfl, hprefix⟩ := List.cons_prefix_cons.mp hbs
        obtain ⟨u', hu₁, hu₂⟩ := m.run_cons.mp hu
        obtain rfl : s' = u' := Option.some.inj (h₁.symm.trans hu₁)
        exact hrest.mpr ⟨(hstep s b as s' hs h₁ hfirst).mpr hC, hmeets⟩ bs u hprefix hu₂

/-- Where every step lowers a rank, every stream of actions ends in a blocked state. -/
theorem exists_blocked (rank : σ → Nat)
    (hrank : ∀ s a s', m.step s a = some s' → rank s' < rank s) (env : Nat → α) (s : σ) :
    ∃ n t, n ≤ rank s ∧ m.run s ((List.range n).map env) = some t ∧ m.step t (env n) = none := by
  induction hn : rank s using Nat.strongRecOn generalizing s env with
  | _ k ih =>
    cases hs : m.step s (env 0) with
    | none => exact ⟨0, s, Nat.zero_le k, rfl, hs⟩
    | some s' =>
      have hlt := hrank s (env 0) s' hs
      obtain ⟨n, t, hle, hrun, hblocked⟩ := ih (rank s') (hn ▸ hlt) (fun i => env (i + 1)) s' rfl
      refine ⟨n + 1, t, by omega, ?_, hblocked⟩
      rw [List.range_succ_eq_map, List.map_cons, List.map_map]
      exact m.run_cons.mpr ⟨s', hs, hrun⟩

/-- Where the steps that `moves` selects lower a rank and no other step raises it, a run has no more
    of them than the rank of its first state. -/
theorem countP_add_rank_le (rank : σ → Nat) (moves : α → Bool)
    (hlt : ∀ s a s', moves a = true → m.step s a = some s' → rank s' < rank s)
    (hle : ∀ s a s', m.step s a = some s' → rank s' ≤ rank s)
    {s t : σ} {as : List α} (hrun : m.run s as = some t) : as.countP moves + rank t ≤ rank s := by
  induction as generalizing s with
  | nil =>
    simp only [run_nil, Option.some.injEq] at hrun
    simp [hrun]
  | cons a as ih =>
    obtain ⟨s', h₁, h₂⟩ := m.run_cons.mp hrun
    have hrest := ih h₂
    cases ha : moves a with
    | true =>
      have hmove := hlt s a s' ha h₁
      rw [List.countP_cons_of_pos ha]
      omega
    | false =>
      have hother := hle s a s' h₁
      rw [List.countP_cons_of_neg (by simp [ha])]
      omega

/-- From every state, steps that lower a rank lead to a state in which none of them is left. -/
theorem exists_run_stuck (rank : σ → Nat) (moves : α → Bool)
    (hlt : ∀ s a s', moves a = true → m.step s a = some s' → rank s' < rank s) (s : σ) :
    ∃ bs t, (∀ b ∈ bs, moves b = true) ∧ m.run s bs = some t ∧
      ∀ a, moves a = true → m.step t a = none := by
  induction hn : rank s using Nat.strongRecOn generalizing s with
  | _ k ih =>
    by_cases hstuck : ∀ a, moves a = true → m.step s a = none
    · exact ⟨[], s, by simp, rfl, hstuck⟩
    · simp only [not_forall] at hstuck
      obtain ⟨a, ha, hstep⟩ := hstuck
      obtain ⟨s', hs⟩ := Option.ne_none_iff_exists'.mp hstep
      have hlower : rank s' < k := hn ▸ hlt s a s' ha hs
      obtain ⟨bs, t, hbs, hrun, ht⟩ := ih (rank s') hlower s' rfl
      exact ⟨a :: bs, t, by simpa [ha] using hbs, m.run_cons.mpr ⟨s', hs, hrun⟩, ht⟩

/-- An invariant of the step function holds at the end of every run. -/
theorem run_invariant {P : σ → Prop} (hstep : ∀ s a s', P s → m.step s a = some s' → P s')
    {s t : σ} {as : List α} (hrun : m.run s as = some t) (hs : P s) : P t :=
  m.run_induct (fun s a s' (_ : True) => hstep s a s')
    (m.meets_of_forall (Q := fun _ => True) fun _ _ => trivial) hrun hs

/-- A part of the state that moves as a machine of its own, or stays: a run moves it along a run of
    that machine, and conditions on the steps carry over. -/
theorem run_project {σ' α' : Type*} (m' : Machine σ' α') (f : σ → σ') {C : σ → α → Prop}
    {C' : σ' → α' → Prop}
    (hstep : ∀ s a s', C s a → m.step s a = some s' →
      f s' = f s ∨ ∃ b, C' (f s) b ∧ m'.step (f s) b = some (f s'))
    {s t : σ} {as : List α} (hC : m.Meets C s as) (hrun : m.run s as = some t) :
    ∃ bs, m'.Meets C' (f s) bs ∧ m'.run (f s) bs = some (f t) := by
  induction as generalizing s with
  | nil =>
    simp only [run_nil, Option.some.injEq] at hrun
    exact ⟨[], trivial, by simp [hrun]⟩
  | cons a as ih =>
    obtain ⟨s', h₁, h₂⟩ := m.run_cons.mp hrun
    obtain ⟨bs, hmeets, hbs⟩ := ih (hC.2 s' h₁) h₂
    rcases hstep s a s' hC.1 h₁ with hsame | ⟨b, hb, hmove⟩
    · rw [hsame] at hmeets hbs
      exact ⟨bs, hmeets, hbs⟩
    · exact ⟨b :: bs, (m'.meets_cons_some hmove).mpr ⟨hb, hmeets⟩, m'.run_cons.mpr ⟨_, hmove, hbs⟩⟩

/-- The same without conditions. -/
theorem run_image {σ' α' : Type*} (m' : Machine σ' α') (f : σ → σ')
    (hstep : ∀ s a s', m.step s a = some s' → f s' = f s ∨ ∃ b, m'.step (f s) b = some (f s'))
    {s t : σ} {as : List α} (hrun : m.run s as = some t) : ∃ bs, m'.run (f s) bs = some (f t) := by
  obtain ⟨bs, -, hbs⟩ := @run_project σ α m σ' α' m' f (fun _ _ => True) (fun _ _ => True)
    (fun s a s' _ h => (hstep s a s' h).imp_right fun ⟨b, hb⟩ => ⟨b, trivial, hb⟩) s t as
    (m.meets_of_forall fun _ _ => trivial) hrun
  exact ⟨bs, hbs⟩

end Machine
