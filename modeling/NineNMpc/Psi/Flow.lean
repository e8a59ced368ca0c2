-- SUMMARY: The Diffie-Hellman flow of the PSI: the cipher store, the four threads of each party, and the machine that interleaves them over two FIFO links.
import NineNMpc.Lib.Machine
import NineNMpc.Psi.Crypto
import Mathlib.Logic.Function.Basic

/-!
# The Diffie-Hellman flow

`interconnection_psi/flow.py` and `interconnection_psi/cipher_store.py`. Each party
runs up to four threads that share a `CipherStore`; the parties talk over the main
link and over the `"dua"` sub-world. A thread moves from one shared operation to the
next (a send, a receive, a `put`, a `get`, one insertion, the event), so a run of
the machine is an interleaving at that grain. A thread that raises stays raised.
-/

namespace Psi

inductive Rank where
  | sender
  | receiver
  deriving DecidableEq, Repr

namespace Rank

/-- `lctx.NextRank()` in a world of two. -/
def next : Rank → Rank
  | sender => receiver
  | receiver => sender

@[simp] theorem next_next {r : Rank} : r.next.next = r := by cases r <;> rfl

@[simp] theorem next_ne {r : Rank} : r.next ≠ r := by cases r <;> simp [next]

@[simp] theorem ne_next {r : Rank} : r ≠ r.next := by cases r <;> simp [next]

theorem eq_or_eq_next (r q : Rank) : r = q ∨ r = q.next := by
  cases r <;> cases q <;> simp [next]

end Rank

def senderRank : Int := 0

def receiverRank : Int := 1

structure EcdhPsiCipherBatch where
  type : String
  batchIndex : Nat
  isLastBatch : Bool
  count : Nat
  ciphertext : Bytes
  deriving DecidableEq, Repr

/-- `batch_index` and `count` are `int32` fields: a larger value raises. -/
def EcdhPsiCipherBatch.make (type : String) (batchIndex : Nat) (isLastBatch : Bool) (count : Nat)
    (ciphertext : Bytes) : Option EcdhPsiCipherBatch :=
  if batchIndex ≤ 2147483647 ∧ count ≤ 2147483647 then
    some { type, batchIndex, isLastBatch, count, ciphertext }
  else none

/-- What the two parties bring to the flow. -/
structure Config where
  crypto : Crypto
  ids : Rank → List Bytes
  key : Rank → crypto.Scalar
  batch : Nat
  resultToRank : Int

namespace Config

variable (cfg : Config)

/-- The flags that `Context.reset_from_response` sets. -/
def needRecvCipher (r : Rank) : Bool := cfg.resultToRank == -1 || r != .sender

def needSendCipher (r : Rank) : Bool := cfg.resultToRank == -1 || r == .sender

def hashAndEncrypt (r : Rank) (array : List Bytes) : Option (List Bytes) := do
  let array ← Crypto.hashToCurve "HASH_TO_CURVE_STRATEGY_DIRECT_HASH_AS_POINT_X"
    (cfg.crypto.hash array)
  cfg.crypto.encrypt (cfg.key r) array

end Config

/-- The negotiated point format. -/
def pointOctetFormat : String := "POINT_OCTET_FORMAT_UNCOMPRESSED"

def EcdhPsiCipherBatch.unmarshal (msg : EcdhPsiCipherBatch) : Option (List Bytes) :=
  Crypto.pointOctetUnmarshal pointOctetFormat msg.ciphertext msg.count

/-! ## The cipher store -/

structure CipherStore where
  peerCipher : List (Option (List Bytes)) := []
  peerCipherSet : List Bytes := []
  peerCipherSetDone : Bool := false
  localIndexRecord : Nat := 0
  localTakeIndex : List Nat := []

namespace CipherStore

def put (st : CipherStore) (x : Option (List Bytes)) : CipherStore :=
  { st with peerCipher := st.peerCipher ++ [x] }

/-- `BytesHashSet::insert`. -/
def insert (st : CipherStore) (cipher : Bytes) : CipherStore :=
  { st with peerCipherSet := st.peerCipherSet.insert cipher }

def setDone (st : CipherStore) : CipherStore := { st with peerCipherSetDone := true }

/-- The loop body of `recv_duaenc_local_cipher`. -/
def take (st : CipherStore) (cipher : Bytes) : CipherStore :=
  { st with
    localTakeIndex :=
      if cipher ∈ st.peerCipherSet then st.localTakeIndex ++ [st.localIndexRecord]
      else st.localTakeIndex
    localIndexRecord := st.localIndexRecord + 1 }

end CipherStore

/-! ## Threads -/

inductive Thread where
  | calcuSend
  | recvCalcu
  | sendDualenc
  | recvDualenc
  deriving DecidableEq, Repr

/-- `calcucipher_and_send`: the next value of the loop variable and the batch index. -/
inductive SendPc where
  | loop (i batchIndex : Nat)
  | finished
  | raised
  deriving DecidableEq

/-- `recv_and_calcu` with `calcu_add_peer_cipher`. -/
inductive RecvPc where
  | recv
  | putNone (array : List Bytes)
  | putArray (array : List Bytes) (done : Bool)
  | insert (rest : List Bytes) (done : Bool)
  | finished
  | raised
  deriving DecidableEq

/-- `send_dualenc`; `getLast` is the second `get`, after the sentinel. -/
inductive DualPc where
  | get (batchIndex : Nat)
  | getLast (batchIndex : Nat)
  | send (array : List Bytes) (batchIndex : Nat) (isLastBatch : Bool)
  | finished
  | raised
  deriving DecidableEq

/-- `recv_and_calcu` with `recv_duaenc_local_cipher`. -/
inductive TakePc where
  | recv
  | wait (array : List Bytes) (done : Bool)
  | check (rest : List Bytes) (done : Bool)
  | finished
  | raised
  deriving DecidableEq

structure Party where
  store : CipherStore := {}
  calcuSend : SendPc := .loop 0 0
  recvCalcu : RecvPc := .recv
  sendDualenc : DualPc
  recvDualenc : TakePc

/-- `main r` and `dua r` are the messages on their way from `r` to its peer. -/
structure Sys where
  party : Rank → Party
  main : Rank → List EcdhPsiCipherBatch
  dua : Rank → List EcdhPsiCipherBatch

namespace Sys

def setParty (s : Sys) (r : Rank) (p : Party) : Sys :=
  { s with party := Function.update s.party r p }

def setMain (s : Sys) (r : Rank) (ch : List EcdhPsiCipherBatch) : Sys :=
  { s with main := Function.update s.main r ch }

def setDua (s : Sys) (r : Rank) (ch : List EcdhPsiCipherBatch) : Sys :=
  { s with dua := Function.update s.dua r ch }

end Sys

/-- A thread that `diffie_hellman_flow` does not start counts as finished. -/
def initParty (cfg : Config) (r : Rank) : Party where
  sendDualenc := if cfg.needSendCipher r then .get 0 else .finished
  recvDualenc := if cfg.needRecvCipher r then .recv else .finished

def init (cfg : Config) : Sys where
  party := initParty cfg
  main := fun _ => []
  dua := fun _ => []

/-- One pass of the loop of `calcucipher_and_send`: the message and where the loop goes on. -/
def calcucipherAndSend (cfg : Config) (r : Rank) (i batchIndex : Nat) :
    Option (EcdhPsiCipherBatch × SendPc) :=
  let array := cfg.ids r
  if array.length = 0 then do
    let msg ← EcdhPsiCipherBatch.make "enc" 0 true 0 []
    some (msg, .finished)
  else if cfg.batch = 0 then none  -- `range(0, n, 0)` raises
  else do
    let arr := (array.drop i).take cfg.batch
    let isLastBatch := decide (array.length ≤ i + cfg.batch)
    let enc ← cfg.hashAndEncrypt r arr
    let msg ← EcdhPsiCipherBatch.make "enc" batchIndex isLastBatch arr.length enc.flatten
    some (msg, if isLastBatch then .finished else .loop (i + cfg.batch) (batchIndex + 1))

def stepCalcuSend (cfg : Config) (s : Sys) (r : Rank) : Option Sys :=
  let p := s.party r
  match p.calcuSend with
  | .loop i batchIndex =>
    match calcucipherAndSend cfg r i batchIndex with
    | some (msg, pc) => some ((s.setParty r { p with calcuSend := pc }).setMain r (s.main r ++ [msg]))
    | none => some (s.setParty r { p with calcuSend := .raised })
  | _ => none

/-- After the `put`: the insertions if this party receives, else the next message. -/
def afterPut (cfg : Config) (r : Rank) (array : List Bytes) (done : Bool) : RecvPc :=
  if cfg.needRecvCipher r then .insert array done else if done then .finished else .recv

def stepRecvCalcu (cfg : Config) (s : Sys) (r : Rank) : Option Sys :=
  let p := s.party r
  match p.recvCalcu with
  | .recv =>
    match s.main r.next with
    | [] => none
    | msg :: ch =>
      let s' := s.setMain r.next ch
      match msg.unmarshal >>= cfg.crypto.diffieHellman (cfg.key r) with
      | some array =>
        let pc : RecvPc := if msg.isLastBatch then .putNone array else .putArray array false
        some (s'.setParty r { p with recvCalcu := pc })
      | none => some (s'.setParty r { p with recvCalcu := .raised })
  | .putNone array =>
    some (s.setParty r { p with store := p.store.put none, recvCalcu := .putArray array true })
  | .putArray array done =>
    some (s.setParty r
      { p with store := p.store.put (some array), recvCalcu := afterPut cfg r array done })
  | .insert (cipher :: rest) done =>
    some (s.setParty r { p with store := p.store.insert cipher, recvCalcu := .insert rest done })
  | .insert [] true =>
    some (s.setParty r { p with store := p.store.setDone, recvCalcu := .finished })
  | .insert [] false => some (s.setParty r { p with recvCalcu := .recv })
  | .finished | .raised => none

def stepSendDualenc (s : Sys) (r : Rank) : Option Sys :=
  let p := s.party r
  match p.sendDualenc with
  | .get batchIndex =>
    match p.store.peerCipher with
    | [] => none
    | none :: q =>
      some (s.setParty r { p with
        store := { p.store with peerCipher := q }, sendDualenc := .getLast batchIndex })
    | some arr :: q =>
      some (s.setParty r { p with
        store := { p.store with peerCipher := q }, sendDualenc := .send arr batchIndex false })
  | .getLast batchIndex =>
    match p.store.peerCipher with
    | [] => none
    | none :: q =>
      -- `point_octet_marshal(None)` raises
      some (s.setParty r { p with store := { p.store with peerCipher := q }, sendDualenc := .raised })
    | some arr :: q =>
      some (s.setParty r { p with
        store := { p.store with peerCipher := q }, sendDualenc := .send arr batchIndex true })
  | .send array batchIndex isLastBatch =>
    let msg? := do
      let arr ← Crypto.pointOctetMarshal pointOctetFormat array
      EcdhPsiCipherBatch.make "dual.enc" batchIndex isLastBatch arr.length arr.flatten
    match msg? with
    | some msg =>
      let pc : DualPc := if isLastBatch then .finished else .get (batchIndex + 1)
      some ((s.setParty r { p with sendDualenc := pc }).setDua r (s.dua r ++ [msg]))
    | none => some (s.setParty r { p with sendDualenc := .raised })
  | .finished | .raised => none

def stepRecvDualenc (s : Sys) (r : Rank) : Option Sys :=
  let p := s.party r
  match p.recvDualenc with
  | .recv =>
    match s.dua r.next with
    | [] => none
    | msg :: ch =>
      let s' := s.setDua r.next ch
      match msg.unmarshal with
      | some array => some (s'.setParty r { p with recvDualenc := .wait array msg.isLastBatch })
      | none => some (s'.setParty r { p with recvDualenc := .raised })
  | .wait array done =>
    if p.store.peerCipherSetDone then some (s.setParty r { p with recvDualenc := .check array done })
    else none
  | .check (cipher :: rest) done =>
    some (s.setParty r { p with store := p.store.take cipher, recvDualenc := .check rest done })
  | .check [] done =>
    some (s.setParty r { p with recvDualenc := if done then .finished else .recv })
  | .finished | .raised => none

/-- An exception in a running thread, at any point of it. -/
def raiseIn (s : Sys) (r : Rank) (t : Thread) : Option Sys :=
  let p := s.party r
  match t with
  | .calcuSend =>
    match p.calcuSend with
    | .finished => none
    | _ => some (s.setParty r { p with calcuSend := .raised })
  | .recvCalcu =>
    match p.recvCalcu with
    | .finished => none
    | _ => some (s.setParty r { p with recvCalcu := .raised })
  | .sendDualenc =>
    match p.sendDualenc with
    | .finished => none
    | _ => some (s.setParty r { p with sendDualenc := .raised })
  | .recvDualenc =>
    match p.recvDualenc with
    | .finished => none
    | _ => some (s.setParty r { p with recvDualenc := .raised })

inductive Action where
  | step (r : Rank) (t : Thread)
  | raise (r : Rank) (t : Thread)
  deriving DecidableEq, Repr

/-- `diffie_hellman_flow` on both sides. -/
def flow (cfg : Config) : Machine Sys Action where
  step s
    | .step r .calcuSend => stepCalcuSend cfg s r
    | .step r .recvCalcu => stepRecvCalcu cfg s r
    | .step r .sendDualenc => stepSendDualenc s r
    | .step r .recvDualenc => stepRecvDualenc s r
    | .raise r t => raiseIn s r t

/-- All threads of the party ran to the end of their target function. -/
def Party.finished (p : Party) : Prop :=
  p.calcuSend = .finished ∧ p.recvCalcu = .finished ∧
    p.sendDualenc = .finished ∧ p.recvDualenc = .finished

instance {p : Party} : Decidable p.finished :=
  inferInstanceAs (Decidable (_ ∧ _ ∧ _ ∧ _))

/-- What `diffie_hellman_flow` returns after the joins, for an input with these rows; the
    outer `none` is an index out of the range of `psi_in.take`. -/
def flowResult {ρ : Type} (cfg : Config) (s : Sys) (r : Rank) (psiIn : List ρ) :
    Option (Option (List ρ)) :=
  if cfg.needRecvCipher r then
    ((s.party r).store.localTakeIndex.mapM fun i => psiIn[i]?).map some
  else some none

end Psi
