-- SUMMARY: Every PSI session ends: a bound on its moves whatever raises, no deadlock without an exception, and no exception between parties that agree.
import NineNMpc.Psi.FlowEnds
import NineNMpc.Psi.Session

/-!
# A session ends

The handshake and the flow of both parties as one machine, as in `Session`. What is left
of the handshake and the work that is left in the flow bound the moves of a session. The
only wait that nothing ends is that of a sender whose request the receiver has refused.
-/

namespace Psi.Session

open Handshake (HandshakeResponse)

/-- What a party does by itself; the rest are exceptions from outside. -/
def Action.moves : Action → Bool
  | shakehand _ => true
  | step _ _ => true
  | fail _ => false
  | raise _ _ => false

/-- Nothing can move any more. -/
def Stuck (args : Args) (s : State) : Prop :=
  ∀ a : Action, a.moves = true → (session args).step s a = none

/-- All that `moves` selects. -/
def Action.allMoves : List Action :=
  [.shakehand .sender, .shakehand .receiver] ++
    [Rank.sender, .receiver].flatMap fun r =>
      [Thread.calcuSend, .recvCalcu, .sendDualenc, .recvDualenc].map (.step r)

theorem stuck_iff {args : Args} {s : State} :
    Stuck args s ↔ ∀ a ∈ Action.allMoves, ((session args).step s a).isNone = true := by
  simp only [Option.isNone_iff_eq_none]
  refine ⟨fun h a ha => h a ?_, fun h a ha => h a ?_⟩
  · cases a <;> simp [Action.allMoves] at ha <;> rfl
  · cases a with
    | shakehand r => cases r <;> simp [Action.allMoves]
    | step r t => cases r <;> cases t <;> simp [Action.allMoves]
    | fail r => cases ha
    | raise r t => cases ha

instance {args : Args} {s : State} : Decidable (Stuck args s) :=
  decidable_of_iff _ stuck_iff.symm

def Phase.work : Phase → Nat
  | start => 3
  | awaiting => 2
  | answer _ => 2
  | flow _ => 1
  | raised _ => 0
  | garbled => 0

def State.work (args : Args) (s : State) : Nat :=
  (s.phase .sender).work + (s.phase .receiver).work + s.flow.work args.ids

variable {args : Args} {s s' : State} {r : Rank} {as : List Action}

theorem enterFlow_work (rsp : HandshakeResponse) : (enterFlow rsp).work ≤ 1 := by
  unfold enterFlow
  split <;> simp [Phase.work]

theorem setPhase_work {phase : Phase} (h : phase.work < (s.phase r).work) :
    (s.setPhase r phase).work args < s.work args := by
  cases r <;> simpa [State.work] using h

theorem stepSender_work (hs : stepSender args s = some s') : s'.work args < s.work args := by
  unfold stepSender at hs
  split at hs
  · next hphase =>
    cases hs
    simp [State.work, hphase, Phase.work]
  · next hphase =>
    split at hs
    · split at hs <;> cases hs
      exact setPhase_work (by simp [hphase, Phase.work])
    · next rsp rest _ =>
      have hle := enterFlow_work rsp
      have hawaiting : Phase.awaiting.work = 2 := rfl
      cases hs
      simp only [State.work, State.phase_setPhase, ↓reduceIte, reduceCtorEq, State.flow_setPhase,
        hphase, hawaiting]
      omega
  · cases hs

theorem stepReceiver_work (hs : stepReceiver args s = some s') : s'.work args < s.work args := by
  unfold stepReceiver at hs
  split at hs
  · next hphase =>
    split at hs
    · split at hs <;> cases hs
      exact setPhase_work (by simp [hphase, Phase.work])
    · split at hs <;> cases hs <;> simp [State.work, hphase, Phase.work]
  · next rsp hphase =>
    have hle := enterFlow_work rsp
    have hanswer : (Phase.answer rsp).work = 2 := rfl
    cases hs
    simp only [State.work, State.phase_setPhase, reduceCtorEq, ↓reduceIte, State.flow_setPhase,
      hphase, hanswer]
    omega
  · cases hs

/-- A thread moves in the flow, or its party leaves the flow. -/
theorem stepFlow_cases {a : Psi.Action} (hs : stepFlow args s r a = some s') :
    (∃ eccParam, s.phase r = .flow eccParam) ∧ (s' = s.setPhase r .garbled ∨
      ∃ flow, (Psi.flow (args.config r)).step s.flow a = some flow ∧ s' = { s with flow }) := by
  unfold stepFlow at hs
  split at hs
  · next hphase =>
    refine ⟨⟨_, hphase⟩, ?_⟩
    split at hs
    · cases hs
      exact .inl rfl
    · obtain ⟨flow, hstep, rfl⟩ := Option.map_eq_some_iff.mp hs
      exact .inr ⟨flow, hstep, rfl⟩
  · cases hs

theorem garbled_work {eccParam : Handshake.EccProtocolResult} (h : s.phase r = .flow eccParam) :
    (s.setPhase r .garbled).work args < s.work args :=
  setPhase_work (by simp [h, Phase.work])

theorem move_work {a : Action} (ha : a.moves = true) (hs : (session args).step s a = some s') :
    s'.work args < s.work args := by
  cases a with
  | shakehand r =>
    cases r with
    | sender => exact stepSender_work hs
    | receiver => exact stepReceiver_work hs
  | step r t =>
    obtain ⟨⟨eccParam, hphase⟩, rfl | ⟨flow, hstep, rfl⟩⟩ := stepFlow_cases hs
    · exact garbled_work hphase
    · exact Nat.add_lt_add_left (step_work hstep) _
  | fail r => cases ha
  | raise r t => cases ha

theorem step_work_le {a : Action} (hs : (session args).step s a = some s') :
    s'.work args ≤ s.work args := by
  cases a with
  | shakehand r => exact (move_work rfl hs).le
  | step r t => exact (move_work rfl hs).le
  | fail r =>
    simp only [session] at hs
    split at hs
    case h_4 => cases hs
    all_goals
      next hphase =>
      cases hs
      exact (setPhase_work (by simp [hphase, Phase.work])).le
  | raise r t =>
    obtain ⟨⟨eccParam, hphase⟩, rfl | ⟨flow, hstep, rfl⟩⟩ := stepFlow_cases hs
    · exact (garbled_work hphase).le
    · exact Nat.add_le_add_left (raise_work hstep) _

theorem run_moves {t : State} (hrun : (session args).run s as = some t) :
    as.countP Action.moves + t.work args ≤ s.work args :=
  (session args).countP_add_rank_le (State.work args) Action.moves (fun _ _ _ => move_work)
    (fun _ _ _ => step_work_le) hrun

theorem init_work (args : Args) : (init args).work args =
    13 * ((args.ids .sender).length + (args.ids .receiver).length) + 28 := by
  have hof (r : Rank) : (init args).flow.workOf args.ids r = 13 * (args.ids r).length + 11 :=
    @initParty_work (args.config r) r
  simp only [State.work, Sys.work, hof]
  simp only [init, Phase.work]
  omega

/-! ## No deadlock without an exception -/

/-- A request is on the link as long as nobody has read it. -/
def State.Sent (s : State) : Prop :=
  s.phase .sender = .awaiting → s.phase .receiver = .start → s.request ≠ []

theorem stepFlow_sent {a : Psi.Action} (h : s.Sent) (hs : stepFlow args s r a = some s') :
    s'.Sent := by
  obtain ⟨⟨eccParam, hphase⟩, rfl | ⟨flow, hstep, rfl⟩⟩ := stepFlow_cases hs
  · intro hsender hreceiver
    cases r <;> simp at hsender hreceiver
  · exact h

theorem step_sent {a : Action} (h : s.Sent) (hs : (session args).step s a = some s') : s'.Sent := by
  have henter (rsp : HandshakeResponse) : enterFlow rsp ≠ .awaiting ∧ enterFlow rsp ≠ .start := by
    have := enterFlow_work rsp
    constructor <;> intro heq <;> simp [heq, Phase.work] at this
  cases a with
  | shakehand r =>
    cases r with
    | sender =>
      simp only [session, stepSender] at hs
      split at hs
      · cases hs
        simp [State.Sent]
      · grind [State.Sent, State.phase_setPhase]
      · cases hs
    | receiver =>
      simp only [session, stepReceiver] at hs
      grind [State.Sent, State.phase_setPhase]
  | fail r =>
    simp only [session] at hs
    cases r <;> split at hs <;> cases hs <;> simp [State.Sent]
  | step r t => exact stepFlow_sent h hs
  | raise r t => exact stepFlow_sent h hs

theorem run_sent (hrun : (session args).run (init args) as = some s) : s.Sent :=
  (session args).run_invariant (P := State.Sent) (fun _ _ _ => step_sent) hrun
    fun h => by simp [init] at h

/-- An exception has ended the handshake of a party or one of its threads. -/
def State.Excepted (s : State) : Prop :=
  ∃ r, (∃ e, s.phase r = .raised e) ∨ (s.flow.party r).isRaised = true

/-- Between parties in the flow, a thread that is held up in the session is held up in the flow. -/
theorem flow_stuck (h : Inv args s) (hstuck : Stuck args s) (hflow : ∀ r, (s.phase r).inFlow = true)
    (r : Rank) (t : Thread) : (Psi.flow (args.config .receiver)).step s.flow (.step r t) = none := by
  obtain ⟨hagree, hread, hphase⟩ := h.of_inFlow (hflow r)
  have hsupported : supported (agreedParam (args.resultToRank .receiver)) = true := rfl
  have hstep := hstuck (.step r t) rfl
  simp only [session, stepFlow, hphase, hread, hsupported, Bool.not_true, Bool.or_self,
    Bool.false_eq_true, ↓reduceIte, Option.map_eq_none_iff] at hstep
  rw [hagree.config_eq .receiver r]
  exact hstep

/-- Where nothing can move, both parties are through, or there was an exception. -/
theorem finished_of_stuck (hrun : (session args).run (init args) as = some s)
    (hstuck : Stuck args s) : s.Excepted ∨ ∀ r, (s.flow.party r).finished := by
  have h := inv_run hrun
  have hsent := run_sent hrun
  have hsender := hstuck (.shakehand .sender) rfl
  have hreceiver := hstuck (.shakehand .receiver) rfl
  have hstage := h.stage
  unfold State.Sent at hsent
  simp only [session, stepSender, stepReceiver] at hsender hreceiver
  generalize hp : s.phase .sender = p, hq : s.phase .receiver = q, hreq : s.request = req,
    hrsp : s.response = rsps at hstage hsent hsender hreceiver
  have hraised {r : Rank} {e : Option Handshake.PyError} (he : s.phase r = .raised e) : s.Excepted :=
    ⟨r, .inl ⟨e, he⟩⟩
  cases hstage with
  | start => simp at hsender
  | requested hwaits hidle =>
    obtain rfl | ⟨e, rfl⟩ := hidle
    · simp only at hreceiver
      split at hreceiver <;> cases hreceiver
    · exact .inl (hraised hq)
  | closed hwaits hidle =>
    obtain rfl | ⟨e, rfl⟩ := hwaits
    · obtain rfl | ⟨e, rfl⟩ := hidle
      · exact absurd rfl (hsent rfl rfl)
      · exact .inl (hraised hq)
    · exact .inl (hraised hp)
  | answer => simp at hreceiver
  | answered hwaits =>
    obtain rfl | ⟨e, rfl⟩ := hwaits
    · simp at hsender
    · exact .inl (hraised hp)
  | flow hagree =>
    have hflow (r : Rank) : (s.phase r).inFlow = true := by
      cases r with
      | sender => rw [hp, Phase.inFlow]
      | receiver => rw [hq, Phase.inFlow]
    obtain ⟨bs, hbs⟩ := flow_run hagree hrun
    obtain ⟨r, hr⟩ | hcalm := run_calm hbs
    · exact .inl ⟨r, .inr hr⟩
    · exact .inr (hcalm.finished_of_stuck (run_setsEvent hbs) (flow_stuck h hstuck hflow))

/-- A session ends, whichever exceptions there are, and whatever has happened in it, its parties can
    go on to an end. Where none of them can move, both have finished, or there was an exception. -/
theorem session_ends (hrun : (session args).run (init args) as = some s) :
    as.countP Action.moves ≤
        13 * ((args.ids .sender).length + (args.ids .receiver).length) + 28 ∧
      (∃ bs t, (∀ b ∈ bs, Action.moves b = true) ∧ (session args).run s bs = some t ∧
        Stuck args t) ∧
      (Stuck args s → s.Excepted ∨ ∀ r, (s.flow.party r).finished) := by
  refine ⟨?_, ?_, finished_of_stuck hrun⟩
  · rw [← init_work args]
    exact Nat.le_of_add_right_le (run_moves hrun)
  · exact (session args).exists_run_stuck (State.work args) Action.moves
      (fun _ _ _ => move_work) s

/-! ## Parties that agree -/

/-- A session without exceptions from outside: only the refusal of the receiver is one. -/
structure Quiet (args : Args) (s : State) : Prop where
  raised : ∀ r e, s.phase r = .raised e →
    ¬ args.Agree ∧ r = .receiver ∧ e = some .syntaxError
  running : args.Agree → (args.config .receiver).Fits → s.flow.Running (args.config .receiver)

theorem quiet_init (args : Args) : Quiet args (init args) where
  raised r e h := by cases h
  running hagree _ := by
    have hinit : (init args).flow = Psi.init (args.config .receiver) := by
      simp only [init, Psi.init, hagree.config_eq _ .receiver]
    rw [hinit]
    exact running_init _

/-- A phase of one party that is not an exception. -/
theorem Quiet.setPhase (r : Rank) (phase : Phase) (h : Quiet args s)
    (hphase : ∀ e, phase ≠ .raised e) (hs : s'.phase = (s.setPhase r phase).phase)
    (hflow : s'.flow = s.flow) : Quiet args s' := by
  refine ⟨fun q e hq => ?_, fun hagree => hflow ▸ h.running hagree⟩
  rw [hs, State.phase_setPhase] at hq
  split at hq
  · exact absurd hq (hphase e)
  · exact h.raised q e hq

theorem stepSender_quiet (hinv : Inv args s) (h : Quiet args s) (hs : stepSender args s = some s') :
    Quiet args s' := by
  have hstage := hinv.stage
  unfold stepSender at hs
  split at hs
  · cases hs
    exact h.setPhase .sender .awaiting (by simp) rfl rfl
  · next hphase =>
    split at hs
    · split at hs <;> cases hs
      exact h.setPhase .sender .garbled (by simp) rfl rfl
    · next rsp rest hrsp =>
      -- the only response is the one that the receiver has agreed to
      have henter : enterFlow rsp = .flow (agreedParam (args.resultToRank .receiver)) := by
        generalize hp : s.phase .sender = p, hq : s.phase .receiver = q, hreq : s.request = req at hstage
        rw [hrsp] at hstage
        cases hstage with
        | answered => exact enterFlow_agreed
      cases hs
      exact h.setPhase .sender (enterFlow rsp) (by simp [henter]) rfl rfl
  · cases hs

theorem stepReceiver_quiet (hinv : Inv args s) (h : Quiet args s)
    (hs : stepReceiver args s = some s') : Quiet args s' := by
  have hstage := hinv.stage
  unfold stepReceiver at hs
  split at hs
  · next hphase =>
    split at hs
    · split at hs <;> cases hs
      exact h.setPhase .receiver .garbled (by simp) rfl rfl
    · next req rest hreq =>
      have hrequest : req = (args.context .sender).makeHandshakeRequest := by
        generalize hp : s.phase .sender = p, hq : s.phase .receiver = q, hrsp : s.response = rsps
          at hstage
        rw [hreq] at hstage
        cases hstage with
        | requested => rfl
      simp only [hrequest, negotiateHandshake_request] at hs
      by_cases hagree : args.sendBack .sender = args.sendBack .receiver
      · rw [if_pos hagree] at hs
        cases hs
        exact h.setPhase .receiver (.answer _) (by simp) rfl rfl
      · rw [if_neg hagree] at hs
        cases hs
        refine ⟨fun r e hr => ?_, fun hagree' _ => absurd hagree' hagree⟩
        cases r with
        | sender => exact h.raised .sender e (by simpa using hr)
        | receiver => exact ⟨hagree, rfl, by simpa using hr.symm⟩
  · next rsp hphase =>
    have henter : enterFlow rsp = .flow (agreedParam (args.resultToRank .receiver)) := by
      generalize hp : s.phase .sender = p, hreq : s.request = req, hrsp : s.response = rsps at hstage
      rw [hphase] at hstage
      cases hstage with
      | start hidle | requested _ hidle | closed _ hidle => simp [Phase.Idle] at hidle
      | answer => exact enterFlow_agreed
    cases hs
    exact h.setPhase .receiver (enterFlow rsp) (by simp [henter]) rfl rfl
  · cases hs

theorem move_quiet {a : Action} (hinv : Inv args s) (h : Quiet args s) (ha : a.moves = true) (hs : (session args).step s a = some s') :
    Quiet args s' := by
  cases a with
  | shakehand r =>
    cases r with
    | sender => exact stepSender_quiet hinv h hs
    | receiver => exact stepReceiver_quiet hinv h hs
  | step r t =>
    obtain ⟨hagree, -, flow, hstep, rfl⟩ := hinv.stepFlow_eq_some hs
    rw [hagree.config_eq r .receiver] at hstep
    exact ⟨h.raised, fun _ hfits => step_running hfits (h.running hagree hfits) hstep⟩
  | fail r => cases ha
  | raise r t => cases ha

theorem run_quiet (hmoves : ∀ a ∈ as, a.moves = true)
    (hrun : (session args).run (init args) as = some s) : Quiet args s :=
  ((session args).run_induct (C := fun _ a => a.moves = true) (P := fun s => Inv args s ∧ Quiet args s)
    (fun _ _ _ ha h hs => ⟨inv_step h.1 hs, move_quiet h.1 h.2 ha hs⟩)
    ((session args).meets_of_forall hmoves) hrun ⟨init_inv args, quiet_init args⟩).2

theorem Quiet.not_excepted (h : Quiet args s) (hagree : args.Agree)
    (hfits : (args.config .receiver).Fits) : ¬ s.Excepted := by
  rintro ⟨r, ⟨e, he⟩ | hr⟩
  · exact (h.raised r e he).1 hagree
  · rw [(h.running hagree hfits).calm.raised r] at hr
    cases hr

/-- Parties that disagree are held up for good: the receiver has refused, and the sender waits. -/
theorem Quiet.refused (h : Quiet args s) (hinv : Inv args s) (hagree : ¬ args.Agree)
    (hstuck : Stuck args s) (hexc : s.Excepted) :
    s.phase .receiver = .raised (some .syntaxError) ∧ s.phase .sender = .awaiting := by
  have hreceiver : s.phase .receiver = .raised (some .syntaxError) := by
    obtain ⟨r, ⟨e, he⟩ | hr⟩ := hexc
    · obtain ⟨-, rfl, rfl⟩ := h.raised r e he
      exact he
    · have hflow : (s.phase r).inFlow = false := by
        by_contra hflow
        exact hagree (hinv.of_inFlow (Bool.eq_true_of_not_eq_false hflow)).1
      rw [(hinv.silent r hflow).1] at hr
      exact absurd ((calm_init (args.config r)).raised r) (by simpa [Psi.init] using hr)
  refine ⟨hreceiver, ?_⟩
  have hsender := hstuck (.shakehand .sender) rfl
  have hstage := hinv.stage
  have hraised (e : Option Handshake.PyError) (he : s.phase .sender = .raised e) : False := by
    obtain ⟨-, hr, -⟩ := h.raised .sender e he
    cases hr
  simp only [session, stepSender] at hsender
  clear hreceiver
  generalize hp : s.phase .sender = p, hq : s.phase .receiver = q, hreq : s.request = req,
    hrsp : s.response = rsps at hstage hsender hraised
  cases hstage with
  | start => simp at hsender
  | requested hwaits | closed hwaits | answer hwaits | answered hwaits =>
    obtain rfl | ⟨e, rfl⟩ := hwaits
    · rfl
    · exact (hraised e rfl).elim
  | flow hagree' => exact absurd hagree' hagree

/-- A session without exceptions from outside. Between parties that agree none of its own is raised,
    and it ends with both parties through, each receiver of the result with its common rows. Between
    parties that disagree the receiver refuses, and nothing ends the wait of the sender. -/
theorem session_outcome {ρ : Type} (rowId : ρ → Bytes) (rows : Rank → List ρ)
    (hcomm : args.crypto.Commutes) (hinj : (args.config .receiver).NoCollision)
    (hrows : ∀ r, (rows r).map rowId = args.ids r) (hfits : (args.config .receiver).Fits)
    (hmoves : ∀ a ∈ as, Action.moves a = true)
    (hrun : (session args).run (init args) as = some s) :
    as.length ≤ 13 * ((args.ids .sender).length + (args.ids .receiver).length) + 28 ∧
      (args.sendBack .sender = args.sendBack .receiver → ¬ s.Excepted ∧
        (Stuck args s → ∀ r, (s.flow.party r).finished ∧
          flowResult (args.config r) s.flow r (rows r) = some (
            if args.sendBack r = true ∨ r = .receiver then
              some ((rows r).filter fun row => rowId row ∈ args.ids r.next)
            else none))) ∧
      (args.sendBack .sender ≠ args.sendBack .receiver → Stuck args s →
        s.phase .receiver = .raised (some .syntaxError) ∧ s.phase .sender = .awaiting) := by
  have hquiet := run_quiet hmoves hrun
  have hbound := run_moves hrun
  rw [List.countP_eq_length.mpr hmoves, init_work] at hbound
  refine ⟨Nat.le_of_add_right_le hbound, fun hagree => ?_, fun hagree hstuck => ?_⟩
  · have hexc := hquiet.not_excepted hagree hfits
    refine ⟨hexc, fun hstuck r => ?_⟩
    have hfin := (finished_of_stuck hrun hstuck).resolve_left hexc
    exact ⟨hfin r, flowResult_of_finished hcomm hinj hrows hrun hfin r⟩
  · have hinv := inv_run hrun
    refine hquiet.refused hinv hagree hstuck ?_
    obtain hexc | hfin := finished_of_stuck hrun hstuck
    · exact hexc
    · exact absurd (hinv.agree_of_finished (hfin .sender)) hagree

namespace Sample

theorem oneWay_fits : (oneWay.config .receiver).Fits where
  batch := by decide
  ids r := by cases r <;> decide

/-- Nothing is left to do in the session in which the receiver keeps the row of `"b"`. -/
theorem schedule_stuck : ∃ s, (session oneWay).run (init oneWay) schedule = some s ∧
    Stuck oneWay s := by
  have hany : ((session oneWay).run (init oneWay) schedule).any
      (fun s => decide (Stuck oneWay s)) = true := by decide +kernel
  obtain ⟨s, hs, hstuck⟩ := (Option.any_eq_true _ _).mp hany
  exact ⟨s, hs, of_decide_eq_true hstuck⟩

/-- The 26 moves of that session are not more than 67, and both parties are through. -/
theorem oneWay_ends : ∃ s, (session oneWay).run (init oneWay) schedule = some s ∧
    schedule.countP Action.moves ≤ 67 ∧ (s.Excepted ∨ ∀ r, (s.flow.party r).finished) := by
  obtain ⟨s, hs, hstuck⟩ := schedule_stuck
  obtain ⟨hbound, -, hend⟩ := session_ends hs
  exact ⟨s, hs, hbound, hend hstuck⟩

/-- Nothing is raised in it, and the receiver has its row. -/
theorem oneWay_outcome : ∃ s, (session oneWay).run (init oneWay) schedule = some s ∧
    ¬ s.Excepted ∧ flowResult (oneWay.config .receiver) s.flow .receiver (rows .receiver) =
      some (some [(Psi.Sample.idB, 30)]) := by
  obtain ⟨s, hs, hstuck⟩ := schedule_stuck
  have hcomm : oneWay.crypto.Commutes := fun _ _ _ => Psi.Sample.mul_comm
  have hinj : (oneWay.config .receiver).NoCollision := Psi.Sample.noCollision
  have hrows : ∀ r, (rows r).map Prod.fst = oneWay.ids r := by intro r; cases r <;> rfl
  have hmoves : ∀ a ∈ schedule, Action.moves a = true := by decide +kernel
  obtain ⟨-, hagree, -⟩ := session_outcome Prod.fst rows hcomm hinj hrows oneWay_fits hmoves hs
  obtain ⟨hexc, hend⟩ := hagree rfl
  exact ⟨s, hs, hexc, (hend hstuck .receiver).2.trans (by decide +kernel)⟩

end Sample

end Psi.Session
