-- SUMMARY: The Diffie-Hellman flow always ends: a bound on the moves of its threads, no deadlock, and no exception that the flow raises by itself.
import NineNMpc.Psi.FlowRaised
import Mathlib

/-!
# The flow ends

A batch becomes cheaper wherever it goes: on the main link, in `recv_and_calcu`, in the
queue, in `send_dualenc`, on the dual link and in the thread that compares it. The sum of
what everything on the way is worth bounds the moves that are left. Where no thread can
move and none has raised, all have finished.
-/

namespace Psi

/-! ## What is left to do -/

/-- A last batch without ids is worth 11 moves, and every id is worth 13. -/
def SendPc.work (ids : List Bytes) : SendPc → Nat
  | loop i _ => 13 * (ids.length - i) + 11
  | _ => 0

def RecvPc.work : RecvPc → Nat
  | putNone array => 2 * array.length + 9
  | putArray array _ => 2 * array.length + 7
  | insert rest _ => rest.length + 1
  | _ => 0

def DualPc.work : DualPc → Nat
  | send array _ _ => array.length + 4
  | _ => 0

def TakePc.work : TakePc → Nat
  | wait array _ => array.length + 2
  | check rest _ => rest.length + 1
  | _ => 0

namespace EcdhPsiCipherBatch

/-- A batch on the main link: it goes into the set and, by way of the queue, to the peer. -/
def mainWork (msg : EcdhPsiCipherBatch) : Nat := 2 * msg.count + 10

def duaWork (msg : EcdhPsiCipherBatch) : Nat := msg.count + 3

end EcdhPsiCipherBatch

/-- An entry of `peer_cipher`. -/
def entryWork : Option (List Bytes) → Nat
  | none => 1
  | some array => array.length + 5

def Party.work (ids : List Bytes) (p : Party) : Nat :=
  p.calcuSend.work ids + p.recvCalcu.work + (p.store.peerCipher.map entryWork).sum +
    p.sendDualenc.work + p.recvDualenc.work

namespace Sys

/-- The threads of `r` and the messages that it has sent. -/
def workOf (ids : Rank → List Bytes) (s : Sys) (r : Rank) : Nat :=
  (s.party r).work (ids r) + ((s.main r).map (·.mainWork)).sum + ((s.dua r).map (·.duaWork)).sum

def work (ids : Rank → List Bytes) (s : Sys) : Nat :=
  s.workOf ids .sender + s.workOf ids .receiver

theorem work_eq {ids : Rank → List Bytes} {s : Sys} (q : Rank) :
    s.work ids = s.workOf ids q + s.workOf ids q.next := by
  cases q with
  | sender => rfl
  | receiver => exact Nat.add_comm _ _

end Sys

variable {cfg : Config} {s s' : Sys} {q : Rank}

theorem initParty_work : (initParty cfg q).work (cfg.ids q) = 13 * (cfg.ids q).length + 11 := by
  cases hsend : cfg.needSendCipher q <;> cases hrecv : cfg.needRecvCipher q <;>
    simp [Party.work, initParty, hsend, hrecv, SendPc.work, RecvPc.work, DualPc.work, TakePc.work]

theorem EcdhPsiCipherBatch.length_unmarshal {msg : EcdhPsiCipherBatch} {array : List Bytes}
    (h : msg.unmarshal = some array) : array.length = msg.count := by
  simp only [unmarshal, Crypto.pointOctetUnmarshal, Crypto.supportCurvePointOctet, pointOctetFormat,
    List.mem_singleton, if_true] at h
  split at h
  · next hcount =>
    cases h
    simp [hcount]
  · cases h
    simp

theorem EcdhPsiCipherBatch.length_diffieHellman {msg : EcdhPsiCipherBatch} {C : Crypto}
    {k : C.Scalar} {array : List Bytes} (h : msg.unmarshal >>= C.diffieHellman k = some array) :
    array.length = msg.count := by
  obtain ⟨points, hpoints, harray⟩ := Option.bind_eq_some_iff.mp h
  obtain ⟨-, rfl⟩ := C.diffieHellman_eq_some_iff.mp harray
  rw [List.length_map, EcdhPsiCipherBatch.length_unmarshal hpoints]

/-- What one pass of the loop sends is worth less than what it takes off. -/
theorem calcucipherAndSend_work {i n : Nat} {msg : EcdhPsiCipherBatch} {pc : SendPc}
    (h : calcucipherAndSend cfg q i n = some (msg, pc)) :
    pc.work (cfg.ids q) + msg.mainWork < (SendPc.loop i n).work (cfg.ids q) := by
  simp only [calcucipherAndSend] at h
  split at h
  · simp only [Option.bind_eq_bind, Option.bind_eq_some_iff, Option.some.injEq, Prod.mk.injEq] at h
    obtain ⟨m, hm, rfl, rfl⟩ := h
    simp [SendPc.work, EcdhPsiCipherBatch.mainWork, (EcdhPsiCipherBatch.make_eq hm).2.1]
  · split at h
    · cases h
    · next hbatch =>
      simp only [cfg.hashAndEncrypt_eq, Option.bind_eq_bind, Option.bind_some,
        Option.bind_eq_some_iff, Option.some.injEq, Prod.mk.injEq] at h
      obtain ⟨m, hm, rfl, rfl⟩ := h
      have hcount := (EcdhPsiCipherBatch.make_eq hm).2.1
      rw [List.length_take, List.length_drop] at hcount
      by_cases hlast : (cfg.ids q).length ≤ i + cfg.batch
      · simp only [hlast, decide_true, if_true, SendPc.work, EcdhPsiCipherBatch.mainWork]
        omega
      · simp only [hlast, decide_false, Bool.false_eq_true, if_false, SendPc.work,
          EcdhPsiCipherBatch.mainWork]
        omega

theorem stepCalcuSend_work (hs : stepCalcuSend cfg s q = some s') :
    s'.work cfg.ids < s.work cfg.ids := by
  simp only [stepCalcuSend] at hs
  rw [Sys.work_eq q, Sys.work_eq q]
  split at hs
  case h_2 => cases hs
  case h_1 i n hpc =>
    split at hs
    case h_1 msg pc hmsg =>
      have hlt := calcucipherAndSend_work hmsg
      cases hs
      simp only [Sys.workOf, Party.work, Sys.setMain_party, Sys.setParty_party, Sys.setMain_main,
        List.map_append, List.map_cons, List.map_nil, List.sum_append, List.sum_cons, List.sum_nil,
        Sys.setMain_dua, Sys.setParty_dua, Sys.setParty_party_next, Sys.setMain_main_next,
        Sys.setParty_main, hpc]
      omega
    case h_2 =>
      cases hs
      simp [Sys.workOf, Party.work, hpc, SendPc.work]

theorem afterPut_work {array : List Bytes} {done : Bool} :
    (afterPut cfg q array done).work ≤ array.length + 1 := by
  simp only [afterPut]
  split
  · exact Nat.le_refl _
  · cases done <;> exact Nat.zero_le _

theorem stepRecvCalcu_work (hs : stepRecvCalcu cfg s q = some s') :
    s'.work cfg.ids < s.work cfg.ids := by
  simp only [stepRecvCalcu] at hs
  rw [Sys.work_eq q, Sys.work_eq q]
  split at hs
  case h_1 hpc =>
    split at hs
    case h_1 => cases hs
    case h_2 msg ch hch =>
      split at hs
      case h_1 array harray =>
        have hlen := EcdhPsiCipherBatch.length_diffieHellman harray
        cases hs
        cases msg.isLastBatch <;>
          simp [Sys.workOf, Party.work, hpc, hch, RecvPc.work, EcdhPsiCipherBatch.mainWork] <;> omega
      case h_2 =>
        cases hs
        simp [Sys.workOf, Party.work, hpc, hch, RecvPc.work, EcdhPsiCipherBatch.mainWork]
  case h_2 array hpc =>
    cases hs
    simp only [Sys.workOf, Party.work, CipherStore.put, Sys.setParty_party, RecvPc.work,
      List.map_append, List.map_cons, entryWork, List.map_nil, List.sum_append, List.sum_cons,
      List.sum_nil, Sys.setParty_main, Sys.setParty_dua, Sys.setParty_party_next, hpc]
    omega
  case h_3 array done hpc =>
    have hle : (afterPut cfg q array done).work ≤ array.length + 1 := afterPut_work
    have hput : (RecvPc.putArray array done).work = 2 * array.length + 7 := rfl
    cases hs
    simp only [Sys.workOf, Party.work, CipherStore.put, Sys.setParty_party, List.map_append,
      List.map_cons, entryWork, List.map_nil, List.sum_append, List.sum_cons, List.sum_nil,
      Sys.setParty_main, Sys.setParty_dua, Sys.setParty_party_next, hpc, hput]
    omega
  case h_4 cipher rest done hpc =>
    cases hs
    simp [Sys.workOf, Party.work, hpc, RecvPc.work, CipherStore.insert]
  case h_5 hpc =>
    cases hs
    simp [Sys.workOf, Party.work, hpc, RecvPc.work, CipherStore.setDone]
  case h_6 hpc =>
    cases hs
    simp [Sys.workOf, Party.work, hpc, RecvPc.work]
  case h_7 => cases hs
  case h_8 => cases hs

theorem stepSendDualenc_work {ids : Rank → List Bytes} (hs : stepSendDualenc s q = some s') :
    s'.work ids < s.work ids := by
  simp only [stepSendDualenc] at hs
  rw [Sys.work_eq q, Sys.work_eq q]
  split at hs
  case h_1 i hpc =>
    split at hs
    case h_1 => cases hs
    case h_2 rest hqueue =>
      cases hs
      simp [Sys.workOf, Party.work, hpc, hqueue, DualPc.work, entryWork]
    case h_3 array rest hqueue =>
      cases hs
      simp only [Sys.workOf, Party.work, Sys.setParty_party, DualPc.work, Sys.setParty_main,
        Sys.setParty_dua, Sys.setParty_party_next, hqueue, List.map_cons, entryWork, List.sum_cons,
        hpc]
      omega
  case h_2 i hpc =>
    split at hs
    case h_1 => cases hs
    case h_2 rest hqueue =>
      cases hs
      simp [Sys.workOf, Party.work, hpc, hqueue, DualPc.work, entryWork]
    case h_3 array rest hqueue =>
      cases hs
      simp only [Sys.workOf, Party.work, Sys.setParty_party, DualPc.work, Sys.setParty_main,
        Sys.setParty_dua, Sys.setParty_party_next, hqueue, List.map_cons, entryWork, List.sum_cons,
        hpc]
      omega
  case h_3 array i last hpc =>
    split at hs
    case h_1 msg hmsg =>
      simp only [Crypto.pointOctetMarshal, Crypto.supportCurvePointOctet, pointOctetFormat,
        List.mem_singleton, if_true, Option.bind_eq_bind, Option.bind_some] at hmsg
      have hcount := (EcdhPsiCipherBatch.make_eq hmsg).2.1
      cases hs
      cases last <;>
        simp [Sys.workOf, Party.work, hpc, DualPc.work, EcdhPsiCipherBatch.duaWork, hcount] <;> omega
    case h_2 =>
      cases hs
      simp [Sys.workOf, Party.work, hpc, DualPc.work]
  case h_4 => cases hs
  case h_5 => cases hs

theorem stepRecvDualenc_work {ids : Rank → List Bytes} (hs : stepRecvDualenc s q = some s') :
    s'.work ids < s.work ids := by
  simp only [stepRecvDualenc] at hs
  rw [Sys.work_eq q, Sys.work_eq q]
  split at hs
  case h_1 hpc =>
    split at hs
    case h_1 => cases hs
    case h_2 msg ch hch =>
      split at hs
      case h_1 array harray =>
        have hlen := EcdhPsiCipherBatch.length_unmarshal harray
        have hwork : msg.duaWork = msg.count + 3 := rfl
        cases hs
        simp only [Sys.workOf, Party.work, Sys.setParty_party, TakePc.work, Sys.setParty_main,
          Sys.setDua_main, Sys.setParty_dua, Sys.setDua_next_dua, Sys.setParty_party_next,
          Sys.setDua_party, Sys.setDua_dua, hpc, hch, hwork, List.map_cons, List.sum_cons]
        omega
      case h_2 =>
        cases hs
        simp [Sys.workOf, Party.work, hpc, hch, TakePc.work, EcdhPsiCipherBatch.duaWork]
  case h_2 array done hpc =>
    split at hs
    case isFalse => cases hs
    case isTrue =>
      cases hs
      simp [Sys.workOf, Party.work, hpc, TakePc.work]
  case h_3 cipher rest done hpc =>
    cases hs
    simp [Sys.workOf, Party.work, hpc, TakePc.work, CipherStore.take]
  case h_4 done hpc =>
    cases hs
    cases done <;> simp [Sys.workOf, Party.work, hpc, TakePc.work]
  case h_5 => cases hs
  case h_6 => cases hs

/-- Every move of a thread makes the work less. -/
theorem step_work {t : Thread} (hs : (flow cfg).step s (.step q t) = some s') :
    s'.work cfg.ids < s.work cfg.ids := by
  cases t with
  | calcuSend => exact stepCalcuSend_work hs
  | recvCalcu => exact stepRecvCalcu_work hs
  | sendDualenc => exact stepSendDualenc_work hs
  | recvDualenc => exact stepRecvDualenc_work hs

/-- What a thread that raises has not done is not done any more. -/
theorem raise_work {ids : Rank → List Bytes} {t : Thread} (hs : raiseIn s q t = some s') :
    s'.work ids ≤ s.work ids := by
  rw [(raiseIn_eq hs).1, Sys.work_eq q, Sys.work_eq q]
  cases t <;>
    simp [Sys.workOf, Party.work, Party.raise, SendPc.work, RecvPc.work, DualPc.work, TakePc.work]

/-! ## The batches are numbered -/

/-- An input is sent in at most so many batches. -/
def Config.batches (cfg : Config) (r : Rank) : Nat := max 1 (cfg.ids r).length

def SendPc.unsentBatches (total : Nat) : SendPc → Nat
  | loop _ batchIndex => total - batchIndex
  | _ => 0

def RecvPc.heldBatches : RecvPc → Nat
  | putNone _ => 1
  | putArray _ _ => 1
  | _ => 0

/-- With the batch that is being sent. -/
def DualPc.sentBatches : DualPc → Nat
  | get batchIndex => batchIndex
  | getLast batchIndex => batchIndex
  | send _ batchIndex _ => batchIndex + 1
  | _ => 0

/-- The batches of `r`, from its loop to the peer's `send_dualenc`. -/
def Sys.batchesOf (cfg : Config) (s : Sys) (r : Rank) : Nat :=
  (s.party r).calcuSend.unsentBatches (cfg.batches r) + (s.main r).length +
    (s.party r.next).recvCalcu.heldBatches +
    (s.party r.next).store.peerCipher.countP Option.isSome +
    (s.party r.next).sendDualenc.sentBatches

theorem Rank.forall_of_both {P : Rank → Prop} (q : Rank) (h : P q) (h' : P q.next) (r : Rank) :
    P r := by
  obtain rfl | rfl := Rank.eq_or_eq_next r q
  · exact h
  · exact h'

/-- The loop has sent a batch in each pass. -/
def Sys.InLoop (cfg : Config) (s : Sys) (r : Rank) : Prop :=
  ∀ i n, (s.party r).calcuSend = .loop i n → i = n * cfg.batch ∧ n < cfg.batches r

theorem calcucipherAndSend_inLoop {i n : Nat} {msg : EcdhPsiCipherBatch} {pc : SendPc}
    (hloop : i = n * cfg.batch ∧ n < cfg.batches q)
    (h : calcucipherAndSend cfg q i n = some (msg, pc)) :
    (∀ j m, pc = .loop j m → j = m * cfg.batch ∧ m < cfg.batches q) ∧
      pc.unsentBatches (cfg.batches q) + 1 ≤ cfg.batches q - n := by
  obtain ⟨rfl, hn⟩ := hloop
  simp only [calcucipherAndSend] at h
  split at h
  · simp only [Option.bind_eq_bind, Option.bind_eq_some_iff, Option.some.injEq, Prod.mk.injEq] at h
    obtain ⟨m, hm, rfl, rfl⟩ := h
    refine ⟨by simp, ?_⟩
    simp only [SendPc.unsentBatches]
    omega
  · split at h
    · cases h
    · next hbatch =>
      simp only [cfg.hashAndEncrypt_eq, Option.bind_eq_bind, Option.bind_some,
        Option.bind_eq_some_iff, Option.some.injEq, Prod.mk.injEq] at h
      obtain ⟨m, hm, rfl, rfl⟩ := h
      by_cases hlast : (cfg.ids q).length ≤ n * cfg.batch + cfg.batch
      · simp only [hlast, decide_true, if_true, SendPc.unsentBatches]
        refine ⟨by simp, by omega⟩
      · simp only [hlast, decide_false, Bool.false_eq_true, if_false, SendPc.unsentBatches]
        refine ⟨fun j k hk => ?_, by omega⟩
        obtain ⟨rfl, rfl⟩ := SendPc.loop.inj hk
        -- every batch but the last has an id
        have hle : n + 1 ≤ (n + 1) * cfg.batch := Nat.le_mul_of_pos_right _ (by omega)
        rw [Nat.succ_mul] at hle ⊢
        refine ⟨rfl, ?_⟩
        unfold Config.batches
        omega

theorem stepCalcuSend_batches (hloop : ∀ r, s.InLoop cfg r) (hs : stepCalcuSend cfg s q = some s') :
    (∀ r, s'.InLoop cfg r) ∧ ∀ r, s'.batchesOf cfg r ≤ s.batchesOf cfg r := by
  simp only [stepCalcuSend] at hs
  split at hs
  case h_2 => cases hs
  case h_1 i n hpc =>
    split at hs
    case h_1 msg pc hmsg =>
      obtain ⟨hnext, hle⟩ := calcucipherAndSend_inLoop (hloop q i n hpc) hmsg
      cases hs
      refine ⟨Rank.forall_of_both q ?_ ?_, Rank.forall_of_both q ?_ ?_⟩
      · simpa [Sys.InLoop] using hnext
      · simpa [Sys.InLoop] using hloop q.next
      · have hleft : (SendPc.loop i n).unsentBatches (cfg.batches q) = cfg.batches q - n := rfl
        simp only [Sys.batchesOf, Sys.setMain_party, Sys.setParty_party, Sys.setMain_main,
          List.length_append, List.length_cons, List.length_nil, Sys.setParty_party_next, hpc,
          hleft]
        omega
      · simp [Sys.batchesOf]
    case h_2 =>
      cases hs
      refine ⟨Rank.forall_of_both q ?_ ?_, Rank.forall_of_both q ?_ ?_⟩
      · simp [Sys.InLoop]
      · simpa [Sys.InLoop] using hloop q.next
      · simp [Sys.batchesOf, hpc, SendPc.unsentBatches]
      · simp [Sys.batchesOf]

/-- The main link, `recv_and_calcu` and the queue pass a batch on, or lose it with an exception. -/
theorem stepRecvCalcu_batches (hs : stepRecvCalcu cfg s q = some s') :
    ∀ r, s'.batchesOf cfg r ≤ s.batchesOf cfg r := by
  simp only [stepRecvCalcu] at hs
  refine Rank.forall_of_both q ?_ ?_
  · split at hs
    case h_1 =>
      split at hs
      · cases hs
      · split at hs <;> cases hs <;> simp [Sys.batchesOf]
    all_goals first | (cases hs; done) | (cases hs; simp [Sys.batchesOf])
  · split at hs
    case h_1 hpc =>
      split at hs
      case h_1 => cases hs
      case h_2 msg ch hch =>
        split at hs
        case h_1 array _ =>
          cases hs
          cases msg.isLastBatch <;> simp [Sys.batchesOf, hpc, hch, RecvPc.heldBatches]
        case h_2 =>
          cases hs
          simp [Sys.batchesOf, hpc, hch, RecvPc.heldBatches]
    case h_2 array hpc =>
      cases hs
      simp [Sys.batchesOf, hpc, RecvPc.heldBatches, CipherStore.put]
    case h_3 array done hpc =>
      have hheld : (afterPut cfg q array done).heldBatches = 0 := by
        simp only [afterPut]
        split
        · rfl
        · cases done <;> rfl
      have hput : (RecvPc.putArray array done).heldBatches = 1 := rfl
      cases hs
      simp only [Sys.batchesOf, CipherStore.put, Sys.setParty_party_next, Sys.setParty_main,
        Rank.next_next, Sys.setParty_party, hheld, List.countP_append, Option.isSome_some,
        List.countP_cons_of_pos, List.countP_nil, hpc, hput]
      omega
    case h_4 hpc =>
      cases hs
      simp [Sys.batchesOf, hpc, RecvPc.heldBatches, CipherStore.insert]
    case h_5 hpc =>
      cases hs
      simp [Sys.batchesOf, hpc, RecvPc.heldBatches, CipherStore.setDone]
    case h_6 hpc =>
      cases hs
      simp [Sys.batchesOf, hpc, RecvPc.heldBatches]
    case h_7 => cases hs
    case h_8 => cases hs

theorem stepSendDualenc_batches (hs : stepSendDualenc s q = some s') :
    ∀ r, s'.batchesOf cfg r ≤ s.batchesOf cfg r := by
  simp only [stepSendDualenc] at hs
  refine Rank.forall_of_both q ?_ ?_
  · split at hs
    case h_1 | h_2 => split at hs <;> cases hs <;> simp [Sys.batchesOf]
    case h_3 => split at hs <;> cases hs <;> simp [Sys.batchesOf]
    case h_4 | h_5 => cases hs
  · split at hs
    case h_1 i hpc =>
      split at hs
      case h_1 => cases hs
      case h_2 rest hqueue =>
        cases hs
        simp [Sys.batchesOf, hpc, hqueue, DualPc.sentBatches]
      case h_3 array rest hqueue =>
        cases hs
        simp only [Sys.batchesOf, Sys.setParty_party_next, Sys.setParty_main, Rank.next_next,
          Sys.setParty_party, DualPc.sentBatches, hqueue, Option.isSome_some,
          List.countP_cons_of_pos, hpc]
        omega
    case h_2 i hpc =>
      split at hs
      case h_1 => cases hs
      case h_2 rest hqueue =>
        cases hs
        simp [Sys.batchesOf, hpc, hqueue, DualPc.sentBatches]
      case h_3 array rest hqueue =>
        cases hs
        simp only [Sys.batchesOf, Sys.setParty_party_next, Sys.setParty_main, Rank.next_next,
          Sys.setParty_party, DualPc.sentBatches, hqueue, Option.isSome_some,
          List.countP_cons_of_pos, hpc]
        omega
    case h_3 array i last hpc =>
      split at hs
      case h_1 =>
        cases hs
        cases last <;> simp [Sys.batchesOf, hpc, DualPc.sentBatches]
      case h_2 =>
        cases hs
        simp [Sys.batchesOf, hpc, DualPc.sentBatches]
    case h_4 => cases hs
    case h_5 => cases hs

theorem stepRecvDualenc_batches (hs : stepRecvDualenc s q = some s') :
    ∀ r, s'.batchesOf cfg r = s.batchesOf cfg r := by
  simp only [stepRecvDualenc] at hs
  refine Rank.forall_of_both q ?_ ?_
  all_goals
    split at hs
    case h_1 =>
      split at hs
      · cases hs
      · split at hs <;> cases hs <;> simp [Sys.batchesOf]
    case h_2 =>
      split at hs <;> cases hs
      simp [Sys.batchesOf]
    case h_3 | h_4 =>
      cases hs
      simp [Sys.batchesOf, CipherStore.take]
    case h_5 | h_6 => cases hs

/-! ## No exception of its own -/

/-- The batch size is positive, and neither input has more ids than an `int32` counts. -/
structure Config.Fits (cfg : Config) : Prop where
  batch : 0 < cfg.batch
  ids : ∀ r, (cfg.ids r).length ≤ 2147483647

theorem Config.Fits.batches_le (h : cfg.Fits) (r : Rank) : cfg.batches r ≤ 2147483647 := by
  have := h.ids r
  unfold Config.batches
  omega

theorem EcdhPsiCipherBatch.make_isSome {type : String} {i count : Nat} {last : Bool} {c : Bytes}
    (hi : i ≤ 2147483647) (hcount : count ≤ 2147483647) :
    ∃ msg, make type i last count c = some msg := by
  simp [make, hi, hcount]

theorem calcucipherAndSend_isSome {i n : Nat} (h : cfg.Fits) (hn : n < cfg.batches q) :
    ∃ msg pc, calcucipherAndSend cfg q i n = some (msg, pc) := by
  have hbatches := h.batches_le q
  have hids := h.ids q
  simp only [calcucipherAndSend, cfg.hashAndEncrypt_eq, Option.bind_eq_bind, Option.bind_some,
    if_neg (Nat.ne_of_gt h.batch)]
  split
  · obtain ⟨msg, hmsg⟩ : ∃ msg, EcdhPsiCipherBatch.make "enc" 0 true 0 [] = some msg :=
      EcdhPsiCipherBatch.make_isSome (Nat.zero_le _) (Nat.zero_le _)
    exact ⟨msg, .finished, by rw [hmsg]; rfl⟩
  · have hcount : (((cfg.ids q).drop i).take cfg.batch).length ≤ 2147483647 := by
      rw [List.length_take, List.length_drop]
      omega
    obtain ⟨msg, hmsg⟩ : ∃ msg, EcdhPsiCipherBatch.make "enc" n
        (decide ((cfg.ids q).length ≤ i + cfg.batch)) (((cfg.ids q).drop i).take cfg.batch).length
        ((((cfg.ids q).drop i).take cfg.batch).map (cfg.encId q)).flatten = some msg :=
      EcdhPsiCipherBatch.make_isSome (by omega) hcount
    exact ⟨msg, _, by rw [hmsg]; rfl⟩

/-- A state of a run in which only threads move. -/
structure Sys.Running (cfg : Config) (s : Sys) : Prop where
  calm : s.Calm cfg
  inLoop : ∀ r, s.InLoop cfg r
  batches : ∀ r, s.batchesOf cfg r ≤ cfg.batches r

theorem running_init (cfg : Config) : (init cfg).Running cfg where
  calm := calm_init cfg
  inLoop r i n h := by
    obtain ⟨rfl, rfl⟩ := SendPc.loop.inj h
    exact ⟨(Nat.zero_mul _).symm, Nat.lt_of_lt_of_le Nat.zero_lt_one (Nat.le_max_left _ _)⟩
  batches r := by
    simp only [Sys.batchesOf, init, initParty, SendPc.unsentBatches, RecvPc.heldBatches]
    split <;> simp [DualPc.sentBatches]

theorem stepCalcuSend_running (hfits : cfg.Fits) (h : s.Running cfg)
    (hs : stepCalcuSend cfg s q = some s') : s'.Running cfg := by
  obtain ⟨hloop, hbatches⟩ := stepCalcuSend_batches h.inLoop hs
  refine ⟨?_, hloop, fun r => (hbatches r).trans (h.batches r)⟩
  obtain hcalm | hraise := stepCalcuSend_calm h.calm hs
  · exact hcalm
  · have hraised : (s'.party q).calcuSend = .raised := by
      rw [(raiseIn_eq hraise).1, Sys.setParty_party]
      rfl
    simp only [stepCalcuSend] at hs
    split at hs
    case h_2 => cases hs
    case h_1 i n hpc =>
      obtain ⟨msg, pc, hmsg⟩ := calcucipherAndSend_isSome (i := i) hfits (h.inLoop q i n hpc).2
      rw [hmsg] at hs
      cases hs
      have hpc' := calcucipherAndSend_isRaised hmsg
      simp only [Sys.setMain_party, Sys.setParty_party] at hraised
      rw [hraised] at hpc'
      cases hpc'

/-- The loop variable belongs to `calcucipher_and_send`. -/
theorem step_calcuSend {t : Thread} (ht : t ≠ .calcuSend)
    (hs : (flow cfg).step s (.step q t) = some s') :
    ∀ r, (s'.party r).calcuSend = (s.party r).calcuSend := by
  refine Rank.forall_of_both q ?_ ?_
  all_goals
    cases t with
    | calcuSend => exact absurd rfl ht
    | recvCalcu =>
      simp only [flow, stepRecvCalcu] at hs
      split at hs
      case h_1 =>
        split at hs
        · cases hs
        · split at hs <;> cases hs <;> simp
      all_goals first | (cases hs; done) | (cases hs; simp)
    | sendDualenc =>
      simp only [flow, stepSendDualenc] at hs
      split at hs
      case h_4 | h_5 => cases hs
      all_goals split at hs <;> cases hs <;> simp
    | recvDualenc =>
      simp only [flow, stepRecvDualenc] at hs
      split at hs
      case h_1 =>
        split at hs
        · cases hs
        · split at hs <;> cases hs <;> simp
      case h_2 =>
        split at hs <;> cases hs
        simp
      case h_3 | h_4 =>
        cases hs
        simp
      case h_5 | h_6 => cases hs

/-- What a party has encrypted again is a part of the peer's ids. -/
theorem Sys.Calm.length_toSend (h : s.Calm cfg) (hneed : cfg.needSendCipher q = true) :
    (s.party q).sendDualenc.toSend.length ≤ (cfg.ids q.next).length := by
  have hdual := (h.inv q.next).dual (by rw [cfg.needRecvCipher_iff, Rank.next_next, hneed])
  rw [Rank.next_next] at hdual
  have hlen := congrArg List.length hdual.conserved
  simp only [List.length_append, List.length_drop, Config.dual, List.length_map] at hlen
  omega

theorem stepSendDualenc_calm_of_fits (hfits : cfg.Fits) (h : s.Running cfg)
    (hs : stepSendDualenc s q = some s') : s'.Calm cfg := by
  obtain hcalm | hraise := stepSendDualenc_calm h.calm hs
  · exact hcalm
  · have hraised : (s'.party q).sendDualenc = .raised := by
      rw [(raiseIn_eq hraise).1, Sys.setParty_party]
      rfl
    have hneed : cfg.needSendCipher q = true := by
      by_contra hneed
      exact (raiseIn_eq hraise).2 rfl (h.calm.sendDualenc q (Bool.not_eq_true _ ▸ hneed))
    have hbatches := h.batches q.next
    have hlength := h.calm.length_toSend hneed
    simp only [stepSendDualenc] at hs
    split at hs
    case h_1 i hpc =>
      split at hs <;> cases hs <;> simp at hraised
    case h_2 i hpc =>
      split at hs
      case h_1 => cases hs
      case h_2 rest hqueue =>
        have hdual := (h.calm.inv q.next).dual (by rw [cfg.needRecvCipher_iff, Rank.next_next, hneed])
        simp only [Rank.next_next, hqueue, hpc] at hdual
        exact absurd rfl (SentinelQueue.getLast hdual.queue).1
      case h_3 =>
        cases hs
        simp at hraised
    case h_3 array i last hpc =>
      rw [hpc] at hlength
      simp only [Sys.batchesOf, Rank.next_next, hpc, DualPc.sentBatches] at hbatches
      have hi := hfits.batches_le q.next
      obtain ⟨msg, hmsg⟩ : ∃ msg, EcdhPsiCipherBatch.make "dual.enc" i last array.length
          array.flatten = some msg :=
        EcdhPsiCipherBatch.make_isSome (by omega) (hlength.trans (hfits.ids q.next))
      simp only [Crypto.pointOctetMarshal, Crypto.supportCurvePointOctet, pointOctetFormat,
        List.mem_singleton, if_true, Option.bind_eq_bind, Option.bind_some, hmsg] at hs
      cases hs
      cases last <;> simp at hraised
    case h_4 => cases hs
    case h_5 => cases hs

/-- Threads that only move never raise. -/
theorem step_running {t : Thread} (hfits : cfg.Fits) (h : s.Running cfg)
    (hs : (flow cfg).step s (.step q t) = some s') : s'.Running cfg := by
  have hother (ht : t ≠ .calcuSend) (r : Rank) : s'.InLoop cfg r := by
    rw [Sys.InLoop, step_calcuSend ht hs r]
    exact h.inLoop r
  cases t with
  | calcuSend => exact stepCalcuSend_running hfits h hs
  | recvCalcu =>
    exact ⟨stepRecvCalcu_calm h.calm hs, hother (by simp),
      fun r => (stepRecvCalcu_batches hs r).trans (h.batches r)⟩
  | sendDualenc =>
    exact ⟨stepSendDualenc_calm_of_fits hfits h hs, hother (by simp),
      fun r => (stepSendDualenc_batches hs r).trans (h.batches r)⟩
  | recvDualenc =>
    exact ⟨stepRecvDualenc_calm h.calm hs, hother (by simp),
      fun r => (stepRecvDualenc_batches hs r).le.trans (h.batches r)⟩

/-! ## No deadlock -/

/-- `recv_and_calcu` of a receiving party sets the event before it ends. -/
def Sys.SetsEvent (cfg : Config) (s : Sys) (r : Rank) : Prop :=
  cfg.needRecvCipher r = true → (s.party r).recvCalcu = .finished →
    (s.party r).store.peerCipherSetDone = true

theorem step_setsEvent {a : Action} (h : ∀ r, s.SetsEvent cfg r)
    (hs : (flow cfg).step s a = some s') : ∀ r, s'.SetsEvent cfg r := by
  cases a with
  | raise q t =>
    rw [(raiseIn_eq hs).1]
    refine Rank.forall_of_both q ?_ (by simpa [Sys.SetsEvent] using h q.next)
    have hq := h q
    cases t with
    | recvCalcu => simp [Sys.SetsEvent, Party.raise]
    | _ => simpa [Sys.SetsEvent, Party.raise] using hq
  | step q t =>
    have hq := h q
    have hnext := h q.next
    unfold Sys.SetsEvent at hq hnext
    refine Rank.forall_of_both q ?_ ?_
    all_goals
      unfold Sys.SetsEvent
      cases t with
      | calcuSend =>
        simp only [flow, stepCalcuSend] at hs
        grind [Sys.setParty_party, Sys.setParty_party_next, Sys.setMain_party]
      | recvCalcu =>
        simp only [flow, stepRecvCalcu, afterPut] at hs
        grind [Sys.setParty_party, Sys.setParty_party_next, Sys.setMain_party, CipherStore.put,
          CipherStore.insert, CipherStore.setDone]
      | sendDualenc =>
        simp only [flow, stepSendDualenc] at hs
        grind [Sys.setParty_party, Sys.setParty_party_next, Sys.setDua_party]
      | recvDualenc =>
        simp only [flow, stepRecvDualenc] at hs
        grind [Sys.setParty_party, Sys.setParty_party_next, Sys.setDua_party, CipherStore.take]

namespace Sys.Calm

theorem calcuSend_finished (h : s.Calm cfg) (hstuck : (flow cfg).step s (.step q .calcuSend) = none) :
    (s.party q).calcuSend = .finished := by
  have hraised := (Party.isRaised_eq_false.mp (h.raised q)).1
  cases hpc : (s.party q).calcuSend with
  | loop i n =>
    simp only [flow, stepCalcuSend, hpc] at hstuck
    split at hstuck <;> cases hstuck
  | finished => rfl
  | raised =>
    rw [hpc] at hraised
    cases hraised

/-- The peer's last message has not been taken while `recv_and_calcu` waits for one. -/
theorem recvCalcu_finished (h : s.Calm cfg) (hsend : (s.party q.next).calcuSend = .finished)
    (hstuck : (flow cfg).step s (.step q .recvCalcu) = none) :
    (s.party q).recvCalcu = .finished := by
  have hraised := (Party.isRaised_eq_false.mp (h.raised q)).2.1
  cases hpc : (s.party q).recvCalcu with
  | recv =>
    have hmarked := (h.inv q.next).enc.marked
    rw [Rank.next_next, hsend, hpc] at hmarked
    have hmain := hmarked.ne_nil
    simp only [flow, stepRecvCalcu, hpc] at hstuck
    split at hstuck
    · next hch =>
      rw [hch] at hmain
      exact absurd rfl hmain
    · split at hstuck <;> cases hstuck
  | putNone array => simp [flow, stepRecvCalcu, hpc] at hstuck
  | putArray array done => simp [flow, stepRecvCalcu, hpc] at hstuck
  | insert rest done =>
    cases rest with
    | nil => cases done <;> simp [flow, stepRecvCalcu, hpc] at hstuck
    | cons cipher rest => simp [flow, stepRecvCalcu, hpc] at hstuck
  | finished => rfl
  | raised =>
    rw [hpc] at hraised
    cases hraised

/-- Once `recv_and_calcu` has put everything, the queue holds what `send_dualenc` has not taken. -/
theorem peerCipher_ne_nil (h : s.Calm cfg) (hneed : cfg.needSendCipher q = true)
    (hrecv : (s.party q).recvCalcu = .finished)
    (hget : (s.party q).sendDualenc.getStage ≠ .done) : (s.party q).store.peerCipher ≠ [] := by
  have hqueue := ((h.inv q.next).dual (by rw [cfg.needRecvCipher_iff, Rank.next_next, hneed])).queue
  rw [Rank.next_next, hrecv] at hqueue
  intro hnil
  rw [hnil] at hqueue
  exact hget (SentinelQueue.done_of_nil hqueue)

theorem sendDualenc_finished (h : s.Calm cfg) (hrecv : (s.party q).recvCalcu = .finished)
    (hstuck : (flow cfg).step s (.step q .sendDualenc) = none) :
    (s.party q).sendDualenc = .finished := by
  have hraised := (Party.isRaised_eq_false.mp (h.raised q)).2.2.1
  by_cases hneed : cfg.needSendCipher q = true
  · have hqueue := h.peerCipher_ne_nil hneed hrecv
    cases hpc : (s.party q).sendDualenc with
    | get i =>
      simp only [flow, stepSendDualenc, hpc] at hstuck
      split at hstuck
      · next hnil => exact absurd hnil (hqueue (by simp [hpc, DualPc.getStage]))
      · cases hstuck
      · cases hstuck
    | getLast i =>
      simp only [flow, stepSendDualenc, hpc] at hstuck
      split at hstuck
      · next hnil => exact absurd hnil (hqueue (by simp [hpc, DualPc.getStage]))
      · cases hstuck
      · cases hstuck
    | send array i last =>
      simp only [flow, stepSendDualenc, hpc] at hstuck
      split at hstuck <;> cases hstuck
    | finished => rfl
    | raised =>
      rw [hpc] at hraised
      cases hraised
  · exact h.sendDualenc q (Bool.not_eq_true _ ▸ hneed)

/-- Once the set is complete and the peer has sent everything, nothing holds the comparison up. -/
theorem recvDualenc_finished (h : s.Calm cfg) (hevent : s.SetsEvent cfg q)
    (hrecv : (s.party q).recvCalcu = .finished)
    (hsend : (s.party q.next).sendDualenc = .finished)
    (hstuck : (flow cfg).step s (.step q .recvDualenc) = none) :
    (s.party q).recvDualenc = .finished := by
  have hraised := (Party.isRaised_eq_false.mp (h.raised q)).2.2.2
  by_cases hneed : cfg.needRecvCipher q = true
  · cases hpc : (s.party q).recvDualenc with
    | recv =>
      have hmarked := ((h.inv q).dual hneed).marked
      rw [hsend, hpc] at hmarked
      have hdua := hmarked.ne_nil
      simp only [flow, stepRecvDualenc, hpc] at hstuck
      split at hstuck
      · next hch =>
        rw [hch] at hdua
        exact absurd rfl hdua
      · split at hstuck <;> cases hstuck
    | wait array done => simp [flow, stepRecvDualenc, hpc, hevent hneed hrecv] at hstuck
    | check rest done => cases rest <;> simp [flow, stepRecvDualenc, hpc] at hstuck
    | finished => rfl
    | raised =>
      rw [hpc] at hraised
      cases hraised
  · exact h.recvDualenc q (Bool.not_eq_true _ ▸ hneed)

/-- Where no thread can move and none has raised, all have finished. -/
theorem finished_of_stuck (h : s.Calm cfg) (hevent : ∀ r, s.SetsEvent cfg r)
    (hstuck : ∀ r t, (flow cfg).step s (.step r t) = none) (r : Rank) : (s.party r).finished := by
  have hcalcu r := h.calcuSend_finished (hstuck r .calcuSend)
  have hrecv r := h.recvCalcu_finished (hcalcu r.next) (hstuck r .recvCalcu)
  have hsend r := h.sendDualenc_finished (hrecv r) (hstuck r .sendDualenc)
  have htake r := h.recvDualenc_finished (hevent r) (hrecv r) (hsend r.next) (hstuck r .recvDualenc)
  exact ⟨hcalcu r, hrecv r, hsend r, htake r⟩

end Sys.Calm

/-! ## Runs -/

/-- Up to the first exception. -/
theorem run_calm {as : List Action} (hrun : (flow cfg).run (init cfg) as = some s) :
    (∃ r, (s.party r).isRaised = true) ∨ s.Calm cfg := by
  refine (flow cfg).run_invariant
    (P := fun s => (∃ r, (s.party r).isRaised = true) ∨ s.Calm cfg) (fun s a s' h hs => ?_) hrun
    (.inr (calm_init cfg))
  obtain ⟨r, hr⟩ | h := h
  · exact .inl (step_raised hs hr)
  · cases a with
    | raise q t => exact .inl ⟨q, raiseIn_raised hs⟩
    | step q t =>
      cases t with
      | calcuSend => exact (stepCalcuSend_calm h hs).symm.imp_left fun hr => ⟨q, raiseIn_raised hr⟩
      | recvCalcu => exact .inr (stepRecvCalcu_calm h hs)
      | sendDualenc =>
        exact (stepSendDualenc_calm h hs).symm.imp_left fun hr => ⟨q, raiseIn_raised hr⟩
      | recvDualenc => exact .inr (stepRecvDualenc_calm h hs)

theorem run_setsEvent {as : List Action} (hrun : (flow cfg).run (init cfg) as = some s) :
    ∀ r, s.SetsEvent cfg r :=
  (flow cfg).run_invariant (P := fun s => ∀ r, s.SetsEvent cfg r) (fun _ _ _ => step_setsEvent) hrun
    fun r _ h => by simp [init, initParty] at h

end Psi
