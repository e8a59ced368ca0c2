-- SUMMARY: A session of the interconnection PSI: the handshake and the flow behind it as one machine, what the two parties have agreed on before a cipher is sent, and what they return.
import NineNMpc.Psi.Handshake
import NineNMpc.Psi.FlowCorrect

/-!
# A PSI session

`psi_sender` and `psi_receiver` of `interconnection_psi/api.py`: each party makes a `Context`,
runs `shakehand_flow` and then `diffie_hellman_flow` of `flow.py`. The handshake and the ciphers
share a link, and what a party sends in the handshake comes first. A message that is taken for
one of another kind, and a suit that the flow is not modelled for, leave the model: the party
is `garbled`. `send_back` is an argument of each party for itself.
-/

namespace Psi.Session

open Handshake (Context HandshakeRequest HandshakeResponse EccProtocolResult SetOrder PyError)

/-- What the two parties are started with. -/
structure Args where
  crypto : Crypto
  ids : Rank → List Bytes
  key : Rank → crypto.Scalar
  batch : Nat
  sendBack : Rank → Bool
  order : SetOrder

namespace Args

variable (args : Args)

/-- `-1 if send_back else RECEIVER_RANK`. -/
def resultToRank (r : Rank) : Int := if args.sendBack r then -1 else receiverRank

def context (r : Rank) : Context where
  rank := match r with
    | .sender => senderRank
    | .receiver => receiverRank
  itemNum := (args.ids r).length
  resultToRank := args.resultToRank r

/-- The flow as the party's own context has it. -/
def config (r : Rank) : Config where
  crypto := args.crypto
  ids := args.ids
  key := args.key
  batch := args.batch
  resultToRank := args.resultToRank r

end Args

/-! ## The machine -/

/-- Where a party is; an exception from outside the handshake has no value. -/
inductive Phase where
  | start
  | awaiting
  | answer (rsp : HandshakeResponse)
  | flow (eccParam : EccProtocolResult)
  | raised (e : Option PyError)
  | garbled
  deriving DecidableEq

def Phase.inFlow : Phase → Bool
  | flow _ => true
  | _ => false

/-- `request` and `response` are on the link in front of the ciphers of their sender. -/
structure State where
  phase : Rank → Phase := fun _ => .start
  request : List HandshakeRequest := []
  response : List HandshakeResponse := []
  flow : Sys

namespace State

def setPhase (s : State) (r : Rank) (phase : Phase) : State :=
  { s with phase := Function.update s.phase r phase }

@[simp] theorem phase_setPhase {s : State} {r q : Rank} {phase : Phase} :
    (s.setPhase r phase).phase q = if q = r then phase else s.phase q := by
  simp [setPhase, Function.update_apply]

@[simp] theorem request_setPhase {s : State} {r : Rank} {phase : Phase} :
    (s.setPhase r phase).request = s.request := rfl

@[simp] theorem response_setPhase {s : State} {r : Rank} {phase : Phase} :
    (s.setPhase r phase).response = s.response := rfl

@[simp] theorem flow_setPhase {s : State} {r : Rank} {phase : Phase} :
    (s.setPhase r phase).flow = s.flow := rfl

end State

/-- Behind `reset_from_response`, with the parameters that the context keeps. -/
def enterFlow (rsp : HandshakeResponse) : Phase :=
  match Context.resetFromResponse rsp, rsp.protocolFamilyParams with
  | .ok (), eccParam :: _ => .flow eccParam
  | .ok (), [] => .raised (some .indexError)
  | .error e, _ => .raised (some e)

/-- `shakehand_flow` of the sender. -/
def stepSender (args : Args) (s : State) : Option State :=
  match s.phase .sender with
  | .start =>
    let req := (args.context .sender).makeHandshakeRequest
    some ({ s with request := s.request ++ [req] }.setPhase .sender .awaiting)
  | .awaiting =>
    match s.response with
    | [] => if s.flow.main .receiver = [] then none else some (s.setPhase .sender .garbled)
    | rsp :: rest => some ({ s with response := rest }.setPhase .sender (enterFlow rsp))
  | _ => none

/-- `shakehand_flow` of the receiver. -/
def stepReceiver (args : Args) (s : State) : Option State :=
  match s.phase .receiver with
  | .start =>
    match s.request with
    | [] => if s.flow.main .sender = [] then none else some (s.setPhase .receiver .garbled)
    | req :: rest =>
      let s := { s with request := rest }
      match (args.context .receiver).negotiateHandshake args.order req with
      | .ok rsp => some (s.setPhase .receiver (.answer rsp))
      | .error e => some (s.setPhase .receiver (.raised (some e)))
  | .answer rsp =>
    some ({ s with response := s.response ++ [rsp] }.setPhase .receiver (enterFlow rsp))
  | _ => none

/-- The suit and the format that `Crypto` stands for. -/
def supported (eccParam : EccProtocolResult) : Bool :=
  eccParam.ecSuit = ⟨1, 30, 3⟩ && eccParam.pointOctetFormat = 1

/-- A handshake message is still on the link to this party. -/
def State.unread (s : State) : Rank → Bool
  | .sender => !s.response.isEmpty
  | .receiver => !s.request.isEmpty

/-- A thread of a party in the flow. -/
def stepFlow (args : Args) (s : State) (r : Rank) (a : Psi.Action) : Option State :=
  match s.phase r with
  | .flow eccParam =>
    if s.unread r || !supported eccParam then some (s.setPhase r .garbled)
    else ((Psi.flow (args.config r)).step s.flow a).map fun flow => { s with flow }
  | _ => none

inductive Action where
  | shakehand (r : Rank)
  /-- An exception in the handshake, from the link for instance. -/
  | fail (r : Rank)
  | step (r : Rank) (t : Thread)
  | raise (r : Rank) (t : Thread)
  deriving DecidableEq

def session (args : Args) : Machine State Action where
  step s
    | .shakehand .sender => stepSender args s
    | .shakehand .receiver => stepReceiver args s
    | .fail r =>
      match s.phase r with
      | .start | .awaiting | .answer _ => some (s.setPhase r (.raised none))
      | _ => none
    | .step r t => stepFlow args s r (.step r t)
    | .raise r t => stepFlow args s r (.raise r t)

def init (args : Args) : State where
  flow :=
    { party := fun r => initParty (args.config r) r
      main := fun _ => []
      dua := fun _ => [] }

/-! ## A step of the flow, seen from the peer -/

/-- A thread of `r` leaves its peer alone, but for messages that it takes from the links. -/
structure Frame (r : Rank) (s s' : Sys) : Prop where
  party : s'.party r.next = s.party r.next
  main : s'.main r.next <:+ s.main r.next
  dua : s'.dua r.next <:+ s.dua r.next

section Flow

variable {cfg : Config} {s s' : Sys} {r : Rank}

theorem Frame.setParty {p : Party} : Frame r s (s.setParty r p) where
  party := Sys.setParty_party_next
  main := List.suffix_refl _
  dua := List.suffix_refl _

theorem frame_raise {t : Thread} (hs : (Psi.flow cfg).step s (.raise r t) = some s') :
    Frame r s s' := by
  cases t <;> simp only [Psi.flow, raiseIn] at hs <;> split at hs <;> cases hs <;> exact .setParty

theorem frame_step {t : Thread} (hs : (Psi.flow cfg).step s (.step r t) = some s') :
    Frame r s s' := by
  cases t with
  | calcuSend =>
    simp only [Psi.flow, stepCalcuSend] at hs
    split at hs
    · split at hs <;> cases hs
      · exact ⟨by simp, by simp, by simp⟩
      · exact .setParty
    · cases hs
  | recvCalcu =>
    simp only [Psi.flow, stepRecvCalcu] at hs
    split at hs
    · split at hs
      · cases hs
      · next msg ch hmain =>
        split at hs <;> cases hs
        · exact ⟨by simp, by simp [hmain], by simp⟩
        · exact ⟨by simp, by simp [hmain], by simp⟩
    all_goals first | (cases hs; done) | (cases hs; exact .setParty)
  | sendDualenc =>
    simp only [Psi.flow, stepSendDualenc] at hs
    split at hs
    · split at hs <;> cases hs <;> exact .setParty
    · split at hs <;> cases hs <;> exact .setParty
    · split at hs <;> cases hs
      · exact ⟨by simp, by simp, by simp⟩
      · exact .setParty
    all_goals cases hs
  | recvDualenc =>
    simp only [Psi.flow, stepRecvDualenc] at hs
    split at hs
    · split at hs
      · cases hs
      · next msg ch hdua =>
        split at hs <;> cases hs
        · exact ⟨by simp, by simp, by simp [hdua]⟩
        · exact ⟨by simp, by simp, by simp [hdua]⟩
    · split at hs
      · obtain rfl := Option.some.inj hs
        exact .setParty
      · cases hs
    all_goals first | (cases hs; done) | (cases hs; exact .setParty)

/-- A party that does not send double encryptions has none on the link. -/
def Mute (s : Sys) (r : Rank) : Prop := (s.party r).sendDualenc = .finished ∧ s.dua r = []

theorem Frame.mute (h : Frame r s s') (hmute : Mute s r.next) : Mute s' r.next := by
  refine ⟨by rw [h.party]; exact hmute.1, ?_⟩
  have := h.dua
  rw [hmute.2] at this
  exact List.suffix_nil.mp this

theorem mute_raise {t : Thread} (hmute : Mute s r)
    (hs : (Psi.flow cfg).step s (.raise r t) = some s') : Mute s' r := by
  obtain ⟨hpc, hdua⟩ := hmute
  cases t with
  | sendDualenc => simp [Psi.flow, raiseIn, hpc] at hs
  | _ =>
    simp only [Psi.flow, raiseIn] at hs
    split at hs
    · cases hs
    · obtain rfl := Option.some.inj hs
      exact ⟨by simp [hpc], by simp [hdua]⟩

theorem mute_step {t : Thread} (hmute : Mute s r)
    (hs : (Psi.flow cfg).step s (.step r t) = some s') : Mute s' r := by
  obtain ⟨hpc, hdua⟩ := hmute
  cases t with
  | calcuSend =>
    simp only [Psi.flow, stepCalcuSend] at hs
    split at hs
    · split at hs <;> cases hs <;> exact ⟨by simp [hpc], by simp [hdua]⟩
    · cases hs
  | recvCalcu =>
    simp only [Psi.flow, stepRecvCalcu] at hs
    split at hs
    · split at hs
      · cases hs
      · split at hs <;> cases hs <;> exact ⟨by simp [hpc], by simp [hdua]⟩
    all_goals first | (cases hs; done) | (cases hs; exact ⟨by simp [hpc], by simp [hdua]⟩)
  | sendDualenc => simp [Psi.flow, stepSendDualenc, hpc] at hs
  | recvDualenc =>
    simp only [Psi.flow, stepRecvDualenc] at hs
    split at hs
    · split at hs
      · cases hs
      · split at hs <;> cases hs <;> exact ⟨by simp [hpc], by simp [hdua]⟩
    · split at hs
      · obtain rfl := Option.some.inj hs
        exact ⟨by simp [hpc], by simp [hdua]⟩
      · cases hs
    all_goals first | (cases hs; done) | (cases hs; exact ⟨by simp [hpc], by simp [hdua]⟩)

end Flow

/-! ## The handshake of two parties of this program -/

/-- What both sides have proposed. -/
def agreed (resultToRank : Int) : HandshakeResponse where
  algo := Handshake.algoTypeEcdhPsi
  protocolFamilies := [Handshake.protocolFamilyEcc]
  protocolFamilyParams :=
    [{ version := 1, ecSuit := ⟨1, 30, 3⟩, pointOctetFormat := 1, bitLengthAfterTruncated := 0,
       resultToRank }]
  ioParam := { version := 1, resultToRank }

theorem list_singleton {order : SetOrder} {x : Int} : order.list [x] = [x] := by
  refine List.perm_singleton.mp ?_
  rw [List.perm_ext_iff_of_nodup (order.nodup_list _) (List.nodup_singleton x)]
  exact order.mem_list [x]

variable {args : Args}

/-- The receiver accepts the sender's request exactly if both want the result at the same place. -/
theorem negotiateHandshake_request :
    (args.context .receiver).negotiateHandshake args.order
        (args.context .sender).makeHandshakeRequest =
      if args.sendBack .sender = args.sendBack .receiver then
        .ok (agreed (args.resultToRank .receiver))
      else .error .syntaxError := by
  cases hs : args.sendBack .sender <;> cases hr : args.sendBack .receiver <;>
    simp [Context.negotiateHandshake, Context.makeHandshakeRequest, Args.context, Context.ioParam,
      Args.resultToRank, hs, hr, Handshake.intersectionInt, Handshake.check, Handshake.intersectionSet,
      Handshake.intersectionList, Handshake.common, Except.map, bind, Except.bind, list_singleton,
      Handshake.unpackParams, Handshake.Any.unpackPsi, Handshake.Any.unpackEcc, Handshake.first,
      Handshake.algoTypeEcdhPsi, Handshake.protocolFamilyEcc, pure, Except.pure, receiverRank,
      Handshake.raiseException, agreed, Handshake.intersectionBool, Context.resetFromResponse,
      Handshake.newCurve]

/-- The parameters that both contexts keep. -/
def agreedParam (resultToRank : Int) : EccProtocolResult :=
  { version := 1, ecSuit := ⟨1, 30, 3⟩, pointOctetFormat := 1, bitLengthAfterTruncated := 0,
    resultToRank }

theorem enterFlow_agreed {k : Int} : enterFlow (agreed k) = .flow (agreedParam k) := rfl

/-! ## The invariant -/

def Args.Agree (args : Args) : Prop := args.sendBack .sender = args.sendBack .receiver

/-- The sender waits for a response, or has given up. -/
def Phase.Waits (phase : Phase) : Prop := phase = .awaiting ∨ ∃ e, phase = .raised e

/-- The receiver has not accepted a request. -/
def Phase.Idle (phase : Phase) : Prop := phase = .start ∨ ∃ e, phase = .raised e

/-- How far the handshake is: the phases of the sender and of the receiver, and their messages. -/
inductive Stage (args : Args) :
    Phase → Phase → List HandshakeRequest → List HandshakeResponse → Prop
  | start {p : Phase} (h : p.Idle) : Stage args .start p [] []
  | requested {p q : Phase} (h : p.Waits) (h' : q.Idle) :
    Stage args p q [(args.context .sender).makeHandshakeRequest] []
  | closed {p q : Phase} (h : p.Waits) (h' : q.Idle) : Stage args p q [] []
  | answer {p : Phase} (h : p.Waits) (hagree : args.Agree) :
    Stage args p (.answer (agreed (args.resultToRank .receiver))) [] []
  | answered {p : Phase} (h : p.Waits) (hagree : args.Agree) :
    Stage args p (.flow (agreedParam (args.resultToRank .receiver))) []
      [agreed (args.resultToRank .receiver)]
  | flow (hagree : args.Agree) :
    Stage args (.flow (agreedParam (args.resultToRank .receiver)))
      (.flow (agreedParam (args.resultToRank .receiver))) [] []

structure Inv (args : Args) (s : State) : Prop where
  stage : Stage args (s.phase .sender) (s.phase .receiver) s.request s.response
  silent : ∀ r, (s.phase r).inFlow = false →
    s.flow.party r = initParty (args.config r) r ∧ s.flow.main r = [] ∧ s.flow.dua r = []
  mute : ∀ r, (args.config r).needSendCipher r = false → Mute s.flow r

theorem init_inv (args : Args) : Inv args (init args) where
  stage := .start (.inl rfl)
  silent _ _ := ⟨rfl, rfl, rfl⟩
  mute r h := ⟨by simp [init, initParty, h], rfl⟩

variable {s s' : State} {r : Rank}

theorem Phase.Waits.not_inFlow {p : Phase} (h : p.Waits) : p.inFlow = false := by
  obtain rfl | ⟨e, rfl⟩ := h <;> rfl

theorem Phase.Idle.not_inFlow {p : Phase} (h : p.Idle) : p.inFlow = false := by
  obtain rfl | ⟨e, rfl⟩ := h <;> rfl

/-- A step of the handshake leaves the flow alone. -/
theorem Inv.of_stage (h : Inv args s) (hflow : s'.flow = s.flow)
    (hphase : ∀ r, (s'.phase r).inFlow = false → (s.phase r).inFlow = false)
    (hstage : Stage args (s'.phase .sender) (s'.phase .receiver) s'.request s'.response) :
    Inv args s' where
  stage := hstage
  silent r hr := hflow ▸ h.silent r (hphase r hr)
  mute r hr := hflow ▸ h.mute r hr

theorem stepSender_inv (h : Inv args s) (hs : stepSender args s = some s') : Inv args s' := by
  have hstage := h.stage
  unfold stepSender at hs
  generalize hq : s.phase .receiver = q, hreq : s.request = req, hrsp : s.response = rsps at hstage
  split at hs
  · next hphase =>
    obtain rfl := Option.some.inj hs
    refine h.of_stage rfl (fun r => by cases r <;> simp [hphase, Phase.inFlow]) ?_
    rw [hphase] at hstage
    simp only [State.phase_setPhase, ↓reduceIte, reduceCtorEq, hq, State.request_setPhase, hreq,
      State.response_setPhase, hrsp]
    cases hstage with
    | start hidle => exact .requested (.inl rfl) hidle
    | requested hwaits | closed hwaits | answer hwaits | answered hwaits =>
      simp [Phase.Waits] at hwaits
  · next hphase =>
    rw [hphase] at hstage
    -- only behind its answer is the receiver in the flow
    have hsilent : q.inFlow = false → s.flow.main .receiver = [] := fun hq' =>
      (h.silent .receiver (hq ▸ hq')).2.1
    cases hstage with
    | requested _ hidle | closed _ hidle =>
      rw [hrsp, if_pos (hsilent hidle.not_inFlow)] at hs
      cases hs
    | answer =>
      rw [hrsp, if_pos (hsilent rfl)] at hs
      cases hs
    | answered hwaits hagree =>
      simp only [hrsp, enterFlow_agreed] at hs
      obtain rfl := Option.some.inj hs
      refine h.of_stage rfl (fun r => by cases r <;> simp [hphase, Phase.inFlow]) ?_
      simp only [State.phase_setPhase, ↓reduceIte, reduceCtorEq, hq, State.request_setPhase, hreq,
        State.response_setPhase]
      exact .flow hagree
  · cases hs

theorem stepReceiver_inv (h : Inv args s) (hs : stepReceiver args s = some s') : Inv args s' := by
  have hstage := h.stage
  unfold stepReceiver at hs
  generalize hp : s.phase .sender = p, hreq : s.request = req, hrsp : s.response = rsps at hstage
  split at hs
  · next hphase =>
    rw [hphase] at hstage
    have hidle : Phase.Idle (.raised (some .syntaxError)) := .inr ⟨_, rfl⟩
    cases hstage with
    | start _ =>
      rw [hreq, if_pos (h.silent .sender (hp ▸ rfl)).2.1] at hs
      cases hs
    | closed hwaits _ =>
      rw [hreq, if_pos (h.silent .sender (hp ▸ hwaits.not_inFlow)).2.1] at hs
      cases hs
    | requested hwaits _ =>
      simp only [hreq, negotiateHandshake_request] at hs
      by_cases hagree : args.sendBack .sender = args.sendBack .receiver
      · rw [if_pos hagree] at hs
        obtain rfl := Option.some.inj hs
        refine h.of_stage rfl (fun r => by cases r <;> simp [hphase, Phase.inFlow]) ?_
        simp only [State.phase_setPhase, ↓reduceIte, reduceCtorEq, hp, State.request_setPhase,
          State.response_setPhase, hrsp]
        exact .answer hwaits hagree
      · rw [if_neg hagree] at hs
        obtain rfl := Option.some.inj hs
        refine h.of_stage rfl (fun r => by cases r <;> simp [hphase, Phase.inFlow]) ?_
        simp only [State.phase_setPhase, ↓reduceIte, reduceCtorEq, hp, State.request_setPhase,
          State.response_setPhase, hrsp]
        exact .closed hwaits hidle
  · next rsp hphase =>
    rw [hphase] at hstage
    cases hstage with
    | start hidle | requested _ hidle | closed _ hidle => simp [Phase.Idle] at hidle
    | answer hwaits hagree =>
      rw [enterFlow_agreed] at hs
      obtain rfl := Option.some.inj hs
      refine h.of_stage rfl (fun r => by cases r <;> simp [hphase, Phase.inFlow]) ?_
      simp only [State.phase_setPhase, ↓reduceIte, reduceCtorEq, hp, State.request_setPhase, hreq,
        State.response_setPhase, hrsp, List.nil_append]
      exact .answered hwaits hagree
  · cases hs

theorem fail_inv (h : Inv args s) (hs : (session args).step s (.fail r) = some s') : Inv args s' := by
  have hstage := h.stage
  generalize hp : s.phase .sender = p, hq : s.phase .receiver = q, hreq : s.request = req,
    hrsp : s.response = rsps at hstage
  have hraised : s' = s.setPhase r (.raised none) ∧ (s.phase r).inFlow = false := by
    simp only [session] at hs
    split at hs
    case h_4 => cases hs
    all_goals
      next hphase => exact ⟨(Option.some.inj hs).symm, hphase ▸ rfl⟩
  obtain ⟨rfl, hflow⟩ := hraised
  have hphase : ∀ q, ((s.setPhase r (.raised none)).phase q).inFlow = false →
      (s.phase q).inFlow = false := by
    intro q hq
    by_cases hqr : q = r
    · exact hqr ▸ hflow
    · simpa [hqr] using hq
  refine h.of_stage rfl hphase ?_
  have hwaits : Phase.Waits (.raised none) := .inr ⟨_, rfl⟩
  have hidle : Phase.Idle (.raised none) := .inr ⟨_, rfl⟩
  cases r with
  | sender =>
    simp only [State.phase_setPhase, ↓reduceIte, reduceCtorEq, hq, State.request_setPhase, hreq,
      State.response_setPhase, hrsp]
    rw [hp] at hflow
    cases hstage with
    | start hidle => exact .closed hwaits hidle
    | requested _ hidle => exact .requested hwaits hidle
    | closed _ hidle => exact .closed hwaits hidle
    | answer _ hagree => exact .answer hwaits hagree
    | answered _ hagree => exact .answered hwaits hagree
    | flow => cases hflow
  | receiver =>
    simp only [State.phase_setPhase, ↓reduceIte, reduceCtorEq, hp, State.request_setPhase, hreq,
      State.response_setPhase, hrsp]
    rw [hq] at hflow
    cases hstage with
    | start => exact .start hidle
    | requested hwaits => exact .requested hwaits hidle
    | closed hwaits | answer hwaits => exact .closed hwaits hidle
    | answered | flow => cases hflow

/-- A party in the flow has read its handshake message, and both parties have one context. -/
theorem Inv.of_inFlow (h : Inv args s) (hflow : (s.phase r).inFlow = true) :
    args.Agree ∧ s.unread r = false ∧
      s.phase r = .flow (agreedParam (args.resultToRank .receiver)) := by
  have hstage := h.stage
  generalize hp : s.phase .sender = p, hq : s.phase .receiver = q, hreq : s.request = req,
    hrsp : s.response = rsps at hstage
  cases r with
  | sender =>
    rw [hp] at hflow
    cases hstage with
    | start => cases hflow
    | requested hwaits | closed hwaits | answer hwaits | answered hwaits =>
      rw [hwaits.not_inFlow] at hflow
      cases hflow
    | flow hagree => exact ⟨hagree, by simp [State.unread, hrsp], hp⟩
  | receiver =>
    rw [hq] at hflow
    cases hstage with
    | start hidle | requested _ hidle | closed _ hidle =>
      rw [hidle.not_inFlow] at hflow
      cases hflow
    | answer => cases hflow
    | answered _ hagree | flow hagree => exact ⟨hagree, by simp [State.unread, hreq], hq⟩

/-- A step of a party in the flow is a step of the flow. -/
theorem Inv.stepFlow_eq_some {a : Psi.Action} (h : Inv args s) (hs : stepFlow args s r a = some s') :
    args.Agree ∧ (s.phase r).inFlow = true ∧ ∃ flow,
      (Psi.flow (args.config r)).step s.flow a = some flow ∧ s' = { s with flow } := by
  have hflow : (s.phase r).inFlow = true := by
    unfold stepFlow at hs
    split at hs
    · next hphase => rw [hphase, Phase.inFlow]
    · cases hs
  obtain ⟨hagree, hread, hphase⟩ := h.of_inFlow hflow
  have hsupported : supported (agreedParam (args.resultToRank .receiver)) = true := rfl
  simp only [stepFlow, hphase, hread, hsupported, Bool.not_true, Bool.or_self, Bool.false_eq_true,
    ↓reduceIte] at hs
  obtain ⟨flow, hstep, rfl⟩ := Option.map_eq_some_iff.mp hs
  exact ⟨hagree, hflow, flow, hstep, rfl⟩

theorem stepFlow_inv {a : Psi.Action} (h : Inv args s) (hs : stepFlow args s r a = some s')
    (hframe : ∀ flow, (Psi.flow (args.config r)).step s.flow a = some flow → Frame r s.flow flow)
    (hmute : ∀ flow, Mute s.flow r → (Psi.flow (args.config r)).step s.flow a = some flow →
      Mute flow r) : Inv args s' := by
  obtain ⟨-, hflow, flow, hstep, rfl⟩ := h.stepFlow_eq_some hs
  have hf := hframe flow hstep
  refine ⟨h.stage, fun q hq => ?_, fun q hq => ?_⟩
  · obtain rfl | rfl := Rank.eq_or_eq_next q r
    · exact absurd (hflow.symm.trans hq) (by simp)
    · -- the links from a party that is not in the flow are empty
      obtain ⟨hparty, hmain, hdua⟩ := h.silent r.next hq
      have hmain' := hf.main
      have hdua' := hf.dua
      rw [hmain] at hmain'
      rw [hdua] at hdua'
      exact ⟨hf.party.trans hparty, List.suffix_nil.mp hmain', List.suffix_nil.mp hdua'⟩
  · obtain rfl | rfl := Rank.eq_or_eq_next q r
    · exact hmute flow (h.mute q hq) hstep
    · exact hf.mute (h.mute r.next hq)

theorem inv_step {a : Action} (h : Inv args s) (hs : (session args).step s a = some s') :
    Inv args s' := by
  cases a with
  | shakehand r =>
    cases r with
    | sender => exact stepSender_inv h hs
    | receiver => exact stepReceiver_inv h hs
  | fail r => exact fail_inv h hs
  | step r t =>
    exact stepFlow_inv h hs (fun _ => frame_step) fun _ hmute hstep => mute_step hmute hstep
  | raise r t =>
    exact stepFlow_inv h hs (fun _ => frame_raise) fun _ hmute hstep => mute_raise hmute hstep

variable {as : List Action}

theorem inv_run (hrun : (session args).run (init args) as = some s) : Inv args s :=
  (session args).run_invariant (fun _ _ _ => inv_step) hrun (init_inv args)

/-! ## What the handshake guarantees -/

theorem Args.Agree.config_eq (h : args.Agree) (r q : Rank) : args.config r = args.config q := by
  have hrank : args.resultToRank r = args.resultToRank q := by
    unfold Args.Agree at h
    cases r <;> cases q <;> simp [Args.resultToRank, h]
  simp only [Args.config, hrank]

theorem Inv.not_garbled (h : Inv args s) (r : Rank) : s.phase r ≠ .garbled := by
  have hstage := h.stage
  generalize hp : s.phase .sender = p, hq : s.phase .receiver = q, hreq : s.request = req,
    hrsp : s.response = rsps at hstage
  have hwaits : ¬ Phase.Waits .garbled := by simp [Phase.Waits]
  have hidle : ¬ Phase.Idle .garbled := by simp [Phase.Idle]
  cases r with
  | sender =>
    rw [hp]
    rintro rfl
    cases hstage with
    | requested h | closed h | answer h | answered h => exact hwaits h
  | receiver =>
    rw [hq]
    rintro rfl
    cases hstage with
    | start h | requested _ h | closed _ h => exact hidle h

/-- No party takes a message for one of another kind. Before a party starts the flow, the two have
    agreed on the suit, the format and the receivers of the result, so that one sends double
    encryptions exactly if the other waits for them; parties that disagree never send a cipher. -/
theorem session_agreement (hrun : (session args).run (init args) as = some s) :
    (∀ r, s.phase r ≠ .garbled) ∧
      (∀ r eccParam, s.phase r = .flow eccParam → args.sendBack .sender = args.sendBack .receiver ∧
        eccParam = agreedParam (args.resultToRank .receiver) ∧
        ∀ q, (args.config q).needSendCipher q = (args.config q.next).needRecvCipher q.next) ∧
      (args.sendBack .sender ≠ args.sendBack .receiver →
        ∀ r, (s.phase r).inFlow = false ∧ s.flow.main r = [] ∧ s.flow.dua r = []) := by
  have h := inv_run hrun
  refine ⟨h.not_garbled, fun r eccParam hphase => ?_, fun hne r => ?_⟩
  · obtain ⟨hagree, -, hphase'⟩ := h.of_inFlow (r := r) (by rw [hphase, Phase.inFlow])
    refine ⟨hagree, ?_, fun q => ?_⟩
    · rw [hphase] at hphase'
      exact Phase.flow.inj hphase'
    · rw [hagree.config_eq q.next q]
      cases q <;> simp [Config.needSendCipher, Config.needRecvCipher, Rank.next]
  · have hflow : (s.phase r).inFlow = false := by
      by_contra hflow
      exact hne (h.of_inFlow (Bool.eq_true_of_not_eq_false hflow)).1
    exact ⟨hflow, (h.silent r hflow).2⟩

/-! ## What a session returns -/

theorem stepFlow_flow {a : Psi.Action} (hs : stepFlow args s r a = some s') :
    s'.flow = s.flow ∨ (Psi.flow (args.config r)).step s.flow a = some s'.flow := by
  unfold stepFlow at hs
  split at hs
  · split at hs
    · obtain rfl := Option.some.inj hs
      exact .inl rfl
    · obtain ⟨flow, hstep, rfl⟩ := Option.map_eq_some_iff.mp hs
      exact .inr hstep
  · cases hs

theorem step_flow (hagree : args.Agree) {a : Action} (hs : (session args).step s a = some s') :
    s'.flow = s.flow ∨
      ∃ b, (Psi.flow (args.config .receiver)).step s.flow b = some s'.flow := by
  cases a with
  | shakehand r =>
    left
    cases r with
    | sender =>
      simp only [session, stepSender] at hs
      split at hs
      · obtain rfl := Option.some.inj hs
        rfl
      · split at hs
        · split at hs <;> cases hs
          rfl
        · obtain rfl := Option.some.inj hs
          rfl
      · cases hs
    | receiver =>
      simp only [session, stepReceiver] at hs
      split at hs
      · split at hs
        · split at hs <;> cases hs
          rfl
        · split at hs <;> cases hs <;> rfl
      · obtain rfl := Option.some.inj hs
        rfl
      · cases hs
  | fail r =>
    left
    simp only [session] at hs
    split at hs <;> cases hs <;> rfl
  | step r t =>
    rw [hagree.config_eq .receiver r]
    exact (stepFlow_flow hs).imp_right fun h => ⟨_, h⟩
  | raise r t =>
    rw [hagree.config_eq .receiver r]
    exact (stepFlow_flow hs).imp_right fun h => ⟨_, h⟩

/-- The flow of a session is a run of the flow under the common configuration. -/
theorem flow_run (hagree : args.Agree) (hrun : (session args).run (init args) as = some s) :
    ∃ bs, (Psi.flow (args.config .receiver)).run (Psi.init (args.config .receiver)) bs =
      some s.flow := by
  have hinit : (init args).flow = Psi.init (args.config .receiver) := by
    simp only [init, Psi.init, hagree.config_eq _ .receiver]
  obtain ⟨bs, hbs⟩ := (session args).run_image (Psi.flow (args.config .receiver)) State.flow
    (fun _ _ _ hs => step_flow hagree hs) hrun
  exact ⟨bs, hinit ▸ hbs⟩

theorem Inv.agree_of_finished (h : Inv args s) (hfin : (s.flow.party r).finished) : args.Agree := by
  by_contra hne
  have hflow : (s.phase r).inFlow = false := by
    by_contra hflow
    exact hne (h.of_inFlow (Bool.eq_true_of_not_eq_false hflow)).1
  have hparty := (h.silent r hflow).1
  rw [hparty] at hfin
  simp [Party.finished, initParty] at hfin

theorem needRecvCipher_iff :
    (args.config r).needRecvCipher r = true ↔ args.sendBack r = true ∨ r = .receiver := by
  cases hback : args.sendBack r <;> cases r <;>
    simp [Config.needRecvCipher, Args.config, Args.resultToRank, hback, receiverRank]

/-- A party that is through returns its rows with a common id, or nothing. -/
theorem flowResult_of_finished {ρ : Type} {rowId : ρ → Bytes} {rows : Rank → List ρ}
    (hcomm : args.crypto.Commutes) (hinj : (args.config .receiver).NoCollision)
    (hrows : ∀ r, (rows r).map rowId = args.ids r)
    (hrun : (session args).run (init args) as = some s)
    (hfin : ∀ r, (s.flow.party r).finished) (r : Rank) :
    flowResult (args.config r) s.flow r (rows r) = some (
      if args.sendBack r = true ∨ r = .receiver then
        some ((rows r).filter fun row => rowId row ∈ args.ids r.next)
      else none) := by
  have hagree := (inv_run hrun).agree_of_finished (hfin r)
  obtain ⟨bs, hbs⟩ := flow_run hagree hrun
  rw [hagree.config_eq r .receiver]
  have hiff : (args.config r).needRecvCipher r = true ↔ args.sendBack r = true ∨ r = .receiver :=
    needRecvCipher_iff
  rw [hagree.config_eq r .receiver] at hiff
  by_cases hr : (args.config .receiver).needRecvCipher r = true
  · rw [if_pos (hiff.mp hr)]
    exact flowResult_of_needRecvCipher hcomm hinj (hrows r) hbs hfin hr
  · rw [flowResult, if_neg hr, if_neg (mt hiff.mpr hr)]

/-- When both parties are through, a party to which the result is sent has its rows with a common id,
    and the other one has nothing. Nothing from which the sender could tell the common ids is ever
    on the link without `send_back`. -/
theorem session_intersection {ρ : Type} (rowId : ρ → Bytes) (rows : Rank → List ρ)
    (hcomm : args.crypto.Commutes) (hinj : (args.config .receiver).NoCollision)
    (hrows : ∀ r, (rows r).map rowId = args.ids r)
    (hrun : (session args).run (init args) as = some s) :
    ((∀ r, (s.flow.party r).finished) → ∀ r,
      flowResult (args.config r) s.flow r (rows r) = some (
        if args.sendBack r = true ∨ r = .receiver then
          some ((rows r).filter fun row => rowId row ∈ args.ids r.next)
        else none)) ∧
      (args.sendBack .receiver = false → s.flow.dua .receiver = []) := by
  refine ⟨fun hfin => flowResult_of_finished hcomm hinj hrows hrun hfin, fun hback => ?_⟩
  refine ((inv_run hrun).mute .receiver ?_).2
  simp [Config.needSendCipher, Args.config, Args.resultToRank, hback, receiverRank]

namespace Sample

/-- The sender has `"a", "b"`, the receiver has `"b"`, and every batch has one id. -/
def started (sendBack : Rank → Bool) : Args where
  crypto := Psi.Sample.crypto
  ids := Psi.Sample.config.ids
  key := Psi.Sample.config.key
  batch := 1
  sendBack := sendBack
  order := Handshake.Sample.insertionOrder

/-- The result is for the receiver alone. -/
def oneWay : Args := started fun _ => false

def rows : Rank → List (Bytes × Nat)
  | .sender => [(Psi.Sample.idA, 10), (Psi.Sample.idB, 20)]
  | .receiver => [(Psi.Sample.idB, 30)]

def repeated (n : Nat) (r : Rank) (t : Thread) : List Action := List.replicate n (.step r t)

def schedule : List Action :=
  [.shakehand .sender, .shakehand .receiver, .shakehand .receiver, .shakehand .sender] ++
    repeated 2 .sender .calcuSend ++ repeated 1 .receiver .calcuSend ++
    repeated 9 .receiver .recvCalcu ++ repeated 3 .sender .recvCalcu ++
    repeated 3 .sender .sendDualenc ++ repeated 4 .receiver .recvDualenc

/-- The receiver keeps the row of `"b"`, and the sender has nothing. -/
theorem oneWay_intersection : ∃ s, (session oneWay).run (init oneWay) schedule = some s ∧
    flowResult (oneWay.config .receiver) s.flow .receiver (rows .receiver) =
      some (some [(Psi.Sample.idB, 30)]) ∧
    flowResult (oneWay.config .sender) s.flow .sender (rows .sender) = some none ∧
    s.flow.dua .receiver = [] := by
  have hsome : ((session oneWay).run (init oneWay) schedule).isSome = true := by decide +kernel
  obtain ⟨s, hs⟩ := Option.isSome_iff_exists.mp hsome
  have hfinished : ((session oneWay).run (init oneWay) schedule).any (fun s =>
      decide (s.flow.party .sender).finished && decide (s.flow.party .receiver).finished) = true := by
    decide +kernel
  rw [hs, Option.any_some, Bool.and_eq_true, decide_eq_true_iff, decide_eq_true_iff] at hfinished
  have hfin : ∀ r, (s.flow.party r).finished := by
    intro r
    cases r with
    | sender => exact hfinished.1
    | receiver => exact hfinished.2
  have hcomm : oneWay.crypto.Commutes := fun _ _ _ => Psi.Sample.mul_comm
  have hinj : (oneWay.config .receiver).NoCollision := Psi.Sample.noCollision
  have hrows : ∀ r, (rows r).map Prod.fst = oneWay.ids r := by intro r; cases r <;> rfl
  obtain ⟨hresult, hmute⟩ := session_intersection Prod.fst rows hcomm hinj hrows hs
  exact ⟨s, hs, (hresult hfin .receiver).trans (by decide +kernel),
    (hresult hfin .sender).trans (by decide +kernel), hmute rfl⟩

/-- The sender asks for the result, and the receiver does not send it. -/
def unequal : Args := started fun r => r = .sender

/-- The receiver refuses, and no cipher is sent. -/
theorem unequal_nothing_sent : ∃ s, (session unequal).run (init unequal)
      [.shakehand .sender, .shakehand .receiver] = some s ∧
    s.phase .receiver = .raised (some .syntaxError) ∧ s.flow.main .sender = [] := by
  have hsome : ((session unequal).run (init unequal)
      [.shakehand .sender, .shakehand .receiver]).isSome = true := by decide +kernel
  obtain ⟨s, hs⟩ := Option.isSome_iff_exists.mp hsome
  have hphase : ((session unequal).run (init unequal)
      [.shakehand .sender, .shakehand .receiver]).any (fun s =>
        s.phase .receiver = .raised (some .syntaxError)) = true := by decide +kernel
  rw [hs, Option.any_some, decide_eq_true_iff] at hphase
  obtain ⟨-, -, hnothing⟩ := session_agreement hs
  exact ⟨s, hs, hphase, (hnothing (by decide) .sender).2.1⟩

end Sample

end Psi.Session
