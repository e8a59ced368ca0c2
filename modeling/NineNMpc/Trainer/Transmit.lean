-- SUMMARY: Streamed transmission between trainers: StreamingRequestEnqueue, its completion callback, the retry thread and StreamTransmitHandler.
import Mathlib.Data.List.Sort
import NineNMpc.Lib.Machine

/-!
# Streamed transmission

`Trainer/rpc/rpc_bridge/rpc_bridge_agent.cc`, the dispatcher of `fl_rpc_state.h` and the
handler of `rpc_bridge_agent_service.cc`. The threads move at the granularity of their
critical sections: callers of `StreamingRequestEnqueue` exclude each other and the
sending sections of the retry thread by `dispatch_mu_`, the polling thread runs one
completion callback at a time, and the callback gives up `retry_mu_` between taking an
exchange out of the cache and putting it into the retry queue.
-/

namespace Trainer

variable {μ : Type}

structure TrainerWorkerMessage (μ : Type) where
  seqNum : Nat
  msg : μ
deriving DecidableEq

inductive ResultCode where
  | success
  | unknownError
  | invalidRequest
  | noMoreData
  | dataFinished
  | messageDuplicated
  | messageMissing
deriving DecidableEq

structure TrainerWorkerResponse where
  resultCode : ResultCode
  errorMessage : String
  nextSeqNum : Nat

/-- An exchange in the agent's queues. The pointer to the response is its key. -/
structure ExchangeEntry (μ : Type) where
  request : TrainerWorkerMessage μ
  responsePtr : Nat
deriving DecidableEq

def ExchangeEntry.seqNum (e : ExchangeEntry μ) : Nat := e.request.seqNum

/-! ## Streaming calls -/

/-- Whose callback an exchange completes: that of `StreamingRequestEnqueue`, or that of the
    retry loop. -/
inductive Done where
  | enqueued
  | resent
deriving DecidableEq

structure Exchange (μ : Type) where
  entry : ExchangeEntry μ
  done : Done

/-- A gRPC stream. `outstanding` are the exchanges whose callback has not run, `network` the
    written requests the receiver has not got, `responses` its answers on their way back. -/
structure StreamingCall (μ : Type) where
  outstanding : List (Exchange μ) := []
  network : List (TrainerWorkerMessage μ) := []
  responses : List TrainerWorkerResponse := []
  /-- The sender's end is dead. -/
  broken : Bool := false
  /-- The receiver has finished the call. -/
  finished : Bool := false

namespace StreamingCall

def write (c : StreamingCall μ) (x : Exchange μ) : StreamingCall μ :=
  { c with outstanding := c.outstanding ++ [x], network := c.network ++ [x.entry.request] }

/-- The next exchange to complete: with an error once the call is broken, else with the next
    response. -/
def complete (c : StreamingCall μ) :
    Option (Exchange μ × Option TrainerWorkerResponse × StreamingCall μ) :=
  match c.broken, c.outstanding, c.responses with
  | true, x :: xs, _ => some (x, none, { c with outstanding := xs })
  | false, x :: xs, r :: rs => some (x, some r, { c with outstanding := xs, responses := rs })
  | _, _, _ => none

end StreamingCall

/-! ## The agent -/

inductive ChannelState where
  | active
  | inactive
deriving DecidableEq

/-- A call of `StreamingRequestEnqueue` that holds `dispatch_mu_`. -/
inductive EnqueuePc (μ : Type) where
  | idle
  | send (e : ExchangeEntry μ)
  | failed (e : ExchangeEntry μ)

/-- The callback of an enqueued exchange, between its sections under `retry_mu_`. -/
inductive CallbackPc (μ : Type) where
  | idle
  | taken (e : ExchangeEntry μ) (result : Option TrainerWorkerResponse)
  | retryLater (e : ExchangeEntry μ) (ok : Bool)
  | trigger

/-- The loop of `rpc_retry_chk`. `send` to `sleep` hold the exchange popped last. -/
inductive RetryPc (μ : Type) where
  | start
  | register
  | wait
  | clear
  | reset
  | loop
  | send (e : ExchangeEntry μ)
  | await (e : ExchangeEntry μ) (call : Nat)
  | notified (e : ExchangeEntry μ) (result : Option TrainerWorkerResponse)
  | sleep (e : ExchangeEntry μ)
  | activate

/-- The exchange whose enqueue has not returned. -/
def EnqueuePc.hand : EnqueuePc μ → List (ExchangeEntry μ)
  | send e | failed e => [e]
  | idle => []

/-- The exchange in the callback's hand. -/
def CallbackPc.hand : CallbackPc μ → List (ExchangeEntry μ)
  | taken e _ | retryLater e _ => [e]
  | idle | trigger => []

/-- The exchange in the retry loop's hand. -/
def RetryPc.hand : RetryPc μ → List (ExchangeEntry μ)
  | send e | await e _ | notified e _ | sleep e => [e]
  | start | register | wait | clear | reset | loop | activate => []

structure RpcBridgeAgent (μ : Type) where
  channelState : ChannelState := .active
  msgExchanges : List Nat := []
  msgExchangesCache : List (ExchangeEntry μ) := []
  /-- The priority queue, its top first. -/
  msgReexchanges : List (ExchangeEntry μ) := []
  retryCb : Bool := false
  notification : Bool := false
  /-- `state_` of the dispatcher: the current call. -/
  state : Option Nat := none
  enqueue : EnqueuePc μ := .idle
  callback : CallbackPc μ := .idle
  retry : RetryPc μ := .start

namespace RpcBridgeAgent

def emplace (a : RpcBridgeAgent μ) (e : ExchangeEntry μ) : RpcBridgeAgent μ :=
  { a with msgReexchanges :=
      a.msgReexchanges.orderedInsert (fun e₁ e₂ => e₁.seqNum ≤ e₂.seqNum) e }

/-- `ResetCall` of the dispatcher. -/
def resetCall (a : RpcBridgeAgent μ) : RpcBridgeAgent μ := { a with state := none }

/-- No call of `StreamingRequestEnqueue` holds `dispatch_mu_`. -/
def dispatchUnlocked (a : RpcBridgeAgent μ) : Bool :=
  match a.enqueue with
  | .idle => true
  | .send _ | .failed _ => false

/-- Wake the retry thread when the last exchange in flight is done. -/
def triggerResend (a : RpcBridgeAgent μ) : RpcBridgeAgent μ :=
  { a with notification :=
      a.notification || (a.msgExchanges.isEmpty && !a.msgReexchanges.isEmpty && a.retryCb) }

def eraseCache (a : RpcBridgeAgent μ) (ptr : Nat) : RpcBridgeAgent μ :=
  { a with msgExchangesCache := a.msgExchangesCache.filter fun e => e.responsePtr ≠ ptr }

/-- The first section of the callback of an enqueued exchange. -/
def takeExchange (a : RpcBridgeAgent μ) (ptr : Nat) (result : Option TrainerWorkerResponse) :
    RpcBridgeAgent μ :=
  match a.msgExchangesCache.find? fun e => e.responsePtr = ptr with
  | none => a
  | some e =>
    { a.eraseCache ptr with
      msgExchanges := a.msgExchanges.tail, callback := .taken e result }

/-- `ret = st; nn.Notify()`. -/
def notifyRetry (a : RpcBridgeAgent μ) (result : Option TrainerWorkerResponse) :
    RpcBridgeAgent μ :=
  match a.retry with
  | .await e _ => { a with retry := .notified e result }
  | _ => a

/-- The rest of the callback, up to the next place where it gives up `retry_mu_`. -/
def stepCallback (a : RpcBridgeAgent μ) : Option (RpcBridgeAgent μ) :=
  match a.callback with
  | .idle => none
  | .taken e none => some { a with channelState := .inactive, callback := .retryLater e false }
  | .taken e (some r) =>
    match r.resultCode with
    | .success | .messageDuplicated => some { a with callback := .trigger }
    | _ => some { a with channelState := .inactive, callback := .retryLater e true }
  | .retryLater e ok =>
    if ok then some { a.emplace e with callback := .trigger }
    else some { (a.emplace e).triggerResend with callback := .idle }
  | .trigger => some { a.triggerResend with callback := .idle }

end RpcBridgeAgent

/-! ## The two trainers -/

structure System (μ : Type) where
  agent : RpcBridgeAgent μ := {}
  calls : Nat → StreamingCall μ := fun _ => {}
  /-- How many calls `CreateStreamingState` has made. -/
  created : Nat := 0
  /-- Copies made of requests; the response of the `i`-th copy is at pointer `i`. -/
  copies : List (TrainerWorkerMessage μ) := []
  /-- The receiver's `next_recv_seq_num`. -/
  nextRecvSeqNum : Nat := 0
  /-- The exchanges whose enqueue returned OK. -/
  enqueued : List (ExchangeEntry μ) := []
  /-- The messages `OnReceived` was given and took. -/
  accepted : List (TrainerWorkerMessage μ) := []

namespace System

def setCall (s : System μ) (i : Nat) (c : StreamingCall μ) : System μ :=
  { s with calls := Function.update s.calls i c }

def createStreamingState (s : System μ) : System μ :=
  { s with agent := { s.agent with state := some s.created }, created := s.created + 1 }

/-- `SendNextRequest` of the dispatcher: the system with a call, that call, and whether it is
    alive and has taken the request. -/
def sendNextRequest (s : System μ) (x : Exchange μ) : System μ × Nat × Bool :=
  let (i, s) := match s.agent.state with
    | some i => (i, s)
    | none => (s.created, s.createStreamingState)
  if (s.calls i).broken then (s, i, false)
  else (s.setCall i ((s.calls i).write x), i, true)

/-- `StreamingRequestEnqueue` up to `SendNextRequest`. -/
def enqueueRequest (s : System μ) (request : TrainerWorkerMessage μ) : Option (System μ) :=
  match s.agent.enqueue with
  | .idle =>
    match s.agent.channelState with
    | .inactive => some s
    | .active =>
      let e : ExchangeEntry μ := { request, responsePtr := s.copies.length }
      some { s with
        copies := s.copies ++ [request]
        agent := { s.agent with
          msgExchanges := s.agent.msgExchanges ++ [e.responsePtr]
          msgExchangesCache := s.agent.msgExchangesCache ++ [e]
          enqueue := .send e } }
  | _ => none

/-- `SendNextRequest`, and what is undone when it fails. -/
def stepEnqueue (s : System μ) : Option (System μ) :=
  match s.agent.enqueue with
  | .idle => none
  | .send e =>
    match s.sendNextRequest ⟨e, .enqueued⟩ with
    | (s, _, true) =>
      some { s with agent := { s.agent with enqueue := .idle }, enqueued := s.enqueued ++ [e] }
    | (s, _, false) => some { s with agent := { s.agent with enqueue := .failed e } }
  | .failed e =>
    some { s with agent :=
      { s.agent.eraseCache e.responsePtr with
        msgExchanges := s.agent.msgExchanges.dropLast, enqueue := .idle } }

/-- The polling thread takes the next completed exchange of call `i`. -/
def complete (s : System μ) (i : Nat) : Option (System μ) :=
  match s.agent.callback, (s.calls i).complete with
  | .idle, some (x, result, c) =>
    some { s.setCall i c with
      agent := match x.done with
        | .enqueued => s.agent.takeExchange x.entry.responsePtr result
        | .resent => s.agent.notifyRetry result }
  | _, _ => none

/-- The next step of the retry thread. -/
def stepRetry (s : System μ) : Option (System μ) :=
  match s.agent.retry with
  | .start =>
    if s.agent.msgReexchanges.isEmpty then
      some { s with agent := { s.agent with retry := .register } }
    else some { s with agent := { s.agent with retry := .loop } }
  | .register =>
    if s.agent.dispatchUnlocked then
      some { s with agent :=
        { s.agent with retryCb := true, notification := false, retry := .wait } }
    else none
  | .wait =>
    if s.agent.notification then some { s with agent := { s.agent with retry := .clear } }
    else none
  | .clear => some { s with agent := { s.agent with retryCb := false, retry := .reset } }
  | .reset =>
    if s.agent.dispatchUnlocked then
      some { s with agent := { s.agent.resetCall with retry := .loop } }
    else none
  | .loop =>
    match s.agent.msgReexchanges with
    | [] => some { s with agent := { s.agent with retry := .activate } }
    | e :: es => some { s with agent := { s.agent with msgReexchanges := es, retry := .send e } }
  | .send e =>
    if s.agent.dispatchUnlocked then
      match s.sendNextRequest ⟨e, .resent⟩ with
      | (s, i, true) => some { s with agent := { s.agent with retry := .await e i } }
      | (s, _, false) => some { s with agent := { s.agent with retry := .sleep e } }
    else none
  | .await _ _ => none
  | .notified e none => some { s with agent := { s.agent with retry := .sleep e } }
  | .notified e (some r) =>
    match r.resultCode with
    | .success | .messageDuplicated => some { s with agent := { s.agent with retry := .loop } }
    | _ => some { s with agent := { s.agent with retry := .send e } }
  | .sleep e =>
    if s.agent.dispatchUnlocked then
      some { s with agent := { s.agent.resetCall with retry := .send e } }
    else none
  | .activate => some { s with agent := { s.agent with channelState := .active, retry := .start } }

/-- `StreamTransmitHandler` on a linked-up receiver, with what `OnReceived` would return. -/
def streamTransmitHandler (s : System μ) (m : TrainerWorkerMessage μ)
    (onReceived : Except String Unit) : System μ × TrainerWorkerResponse :=
  if m.seqNum = s.nextRecvSeqNum then
    match onReceived with
    | .ok () =>
      ({ s with nextRecvSeqNum := s.nextRecvSeqNum + 1, accepted := s.accepted ++ [m] },
        ⟨.success, "", s.nextRecvSeqNum + 1⟩)
    | .error message => (s, ⟨.unknownError, message, s.nextRecvSeqNum⟩)
  else if s.nextRecvSeqNum < m.seqNum then (s, ⟨.messageMissing, "", s.nextRecvSeqNum⟩)
  else (s, ⟨.messageDuplicated, "", s.nextRecvSeqNum⟩)

/-- The receiver gets the next request of call `i`; with the link down it finishes the call. -/
def deliver (s : System μ) (i : Nat) (linkUp : Bool) (onReceived : Except String Unit) :
    Option (System μ) :=
  match (s.calls i).finished, (s.calls i).network with
  | false, m :: ms =>
    if linkUp then
      let (s', r) := s.streamTransmitHandler m onReceived
      some (s'.setCall i
        { s.calls i with network := ms, responses := (s.calls i).responses ++ [r] })
    else some (s.setCall i { s.calls i with finished := true })
  | _, _ => none

/-- Call `i` fails; one that is not made yet fails right after it is created. -/
def breakCall (s : System μ) (i : Nat) : System μ :=
  s.setCall i { s.calls i with broken := true }

end System

inductive Action (μ : Type) where
  | enqueueRequest (request : TrainerWorkerMessage μ)
  | enqueue
  | complete (call : Nat)
  | callback
  | retry
  | deliver (call : Nat) (linkUp : Bool) (onReceived : Except String Unit)
  | breakCall (call : Nat)

def System.step (s : System μ) : Action μ → Option (System μ)
  | .enqueueRequest request => s.enqueueRequest request
  | .enqueue => s.stepEnqueue
  | .complete i => s.complete i
  | .callback => s.agent.stepCallback.map fun a => { s with agent := a }
  | .retry => s.stepRetry
  | .deliver i linkUp onReceived => s.deliver i linkUp onReceived
  | .breakCall i => some (s.breakCall i)

def transmission (μ : Type) : Machine (System μ) (Action μ) := ⟨System.step⟩

end Trainer
