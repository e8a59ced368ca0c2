-- SUMMARY: Every step of the Diffie-Hellman flow keeps the invariant of both parties, and a thread that has raised stays raised.
import NineNMpc.Psi.FlowInvariant

/-!
# The steps of the flow

The four invariants of `FlowInvariant` hold of both parties in every reachable state
in which no thread has raised: one lemma for each thread.
-/

namespace Psi

def SendPc.isRaised : SendPc → Bool
  | raised => true
  | _ => false

def RecvPc.isRaised : RecvPc → Bool
  | raised => true
  | _ => false

def DualPc.isRaised : DualPc → Bool
  | raised => true
  | _ => false

def TakePc.isRaised : TakePc → Bool
  | raised => true
  | _ => false

/-- Some thread of the party has ended by an exception. -/
def Party.isRaised (p : Party) : Bool :=
  p.calcuSend.isRaised || p.recvCalcu.isRaised || p.sendDualenc.isRaised || p.recvDualenc.isRaised

/-- The double encryptions of `r`'s ids that are not in the peer's queue yet. -/
def Sys.pending (cfg : Config) (s : Sys) (r : Rank) : List Bytes :=
  dualPending cfg r (s.party r).calcuSend (s.main r) (s.party r.next).recvCalcu

structure Sys.Inv (cfg : Config) (s : Sys) (r : Rank) : Prop where
  enc : EncInv (s.party r).calcuSend (s.main r) (s.party r.next).recvCalcu
  dual : cfg.needRecvCipher r = true →
    DualInv cfg r (s.pending cfg r) (s.party r.next).recvCalcu.putStage
      (s.party r.next).store.peerCipher (s.party r.next).sendDualenc (s.dua r.next)
      (s.party r).recvDualenc (s.party r).store.localIndexRecord
  set : cfg.needRecvCipher r = true →
    SetInv cfg r (s.pending cfg r.next) (s.party r).recvCalcu (s.party r).store.peerCipherSet
      (s.party r).store.peerCipherSetDone
  take : cfg.needRecvCipher r = true →
    TakeInv cfg r (s.party r).store.peerCipherSetDone (s.party r).recvDualenc
      (s.party r).store.localIndexRecord (s.party r).store.localTakeIndex

theorem init_inv (cfg : Config) (r : Rank) : (init cfg).Inv cfg r where
  enc := ⟨by simp [init], EndMarked.init⟩
  dual := by
    intro hr
    have hs : cfg.needSendCipher r.next = true := cfg.needRecvCipher_iff ▸ hr
    refine ⟨Nat.zero_le _, ?_, by simp [init], ?_, ?_⟩
    · simp [init, initParty, hr, hs, Sys.pending, dualPending, encPending, SendPc.unsent,
        RecvPc.toPut, DualPc.toSend, TakePc.toCheck, Config.dual, Config.dualId]
    · simpa [init, initParty, hs, RecvPc.putStage, DualPc.getStage] using
        SentinelQueue.filling ([] : List (List Bytes))
    · simpa [init, initParty, hr, hs, DualPc.sentLast, TakePc.gotLast] using EndMarked.init
  set := by
    intro hr
    refine ⟨fun b => ?_, by simp [init, initParty]⟩
    simp [init, initParty, Sys.pending, dualPending, encPending, SendPc.unsent, RecvPc.toPut,
      RecvPc.toInsert, Config.dual, Config.dualId]
  take := by
    intro hr
    refine ⟨fun rest done h => ?_, by simp [init, initParty]⟩
    simp [init, initParty, hr] at h

/-! ## Updates of the global state -/

namespace Sys

variable {s : Sys} {r : Rank} {p : Party} {ch : List EcdhPsiCipherBatch}

@[simp] theorem setParty_party : (s.setParty r p).party r = p := by simp [setParty]

@[simp] theorem setParty_party_next : (s.setParty r p).party r.next = s.party r.next := by
  simp [setParty]

@[simp] theorem setParty_main : (s.setParty r p).main = s.main := rfl

@[simp] theorem setParty_dua : (s.setParty r p).dua = s.dua := rfl

@[simp] theorem setMain_party : (s.setMain r ch).party = s.party := rfl

@[simp] theorem setMain_main : (s.setMain r ch).main r = ch := by simp [setMain]

@[simp] theorem setMain_main_next : (s.setMain r ch).main r.next = s.main r.next := by
  simp [setMain]

@[simp] theorem setMain_next_main : (s.setMain r.next ch).main r = s.main r := by
  simp [setMain]

@[simp] theorem setMain_dua : (s.setMain r ch).dua = s.dua := rfl

@[simp] theorem setDua_party : (s.setDua r ch).party = s.party := rfl

@[simp] theorem setDua_main : (s.setDua r ch).main = s.main := rfl

@[simp] theorem setDua_dua : (s.setDua r ch).dua r = ch := by simp [setDua]

@[simp] theorem setDua_dua_next : (s.setDua r ch).dua r.next = s.dua r.next := by simp [setDua]

@[simp] theorem setDua_next_dua : (s.setDua r.next ch).dua r = s.dua r := by simp [setDua]

/-- The invariant of both parties, from the party that moves and its peer. -/
theorem inv_of_both {cfg : Config} (q : Rank) (h₁ : s.Inv cfg q) (h₂ : s.Inv cfg q.next) (r : Rank) :
    s.Inv cfg r := by
  obtain rfl | rfl := Rank.eq_or_eq_next r q
  · exact h₁
  · exact h₂

end Sys

/-! ## One lemma per thread -/

variable {cfg : Config} {s s' : Sys} {q : Rank}

theorem stepCalcuSend_inv (h : ∀ r, s.Inv cfg r) (hs : stepCalcuSend cfg s q = some s')
    (hok : ∀ r, (s'.party r).isRaised = false) : ∀ r, s'.Inv cfg r := by
  simp only [stepCalcuSend] at hs
  split at hs
  case h_2 => cases hs
  case h_1 i n hpc =>
    split at hs
    case h_2 =>
      cases hs
      have := hok q
      simp [Party.isRaised, SendPc.isRaised] at this
    case h_1 msg pc hmsg =>
      cases hs
      have henc := (h q).enc
      rw [hpc] at henc
      obtain ⟨henc', hpend⟩ := henc.send hmsg
      have hpend' : dualPending cfg q pc (s.main q ++ [msg]) (s.party q.next).recvCalcu =
          s.pending cfg q := by
        simp only [Sys.pending, dualPending, hpend, hpc]
      refine Sys.inv_of_both q ⟨?_, ?_, ?_, ?_⟩ ⟨?_, ?_, ?_, ?_⟩
      · simpa using henc'
      · intro hr
        simpa [Sys.pending, hpend'] using (h q).dual hr
      · intro hr
        simpa [Sys.pending] using (h q).set hr
      · intro hr
        simpa using (h q).take hr
      · simpa using (h q.next).enc
      · intro hr
        simpa [Sys.pending] using (h q.next).dual hr
      · intro hr
        simpa [Sys.pending, hpend'] using (h q.next).set hr
      · intro hr
        simpa using (h q.next).take hr

/-- A move of `send_dualenc`: only the path of the peer's ids has to be looked at. -/
theorem Sys.inv_sendDualenc {queue : List (Option (List Bytes))} {pc : DualPc}
    {ch : List EcdhPsiCipherBatch} (h : ∀ r, s.Inv cfg r)
    (hdual : cfg.needRecvCipher q.next = true →
      DualInv cfg q.next (s.pending cfg q.next) (s.party q).recvCalcu.putStage queue pc ch
        (s.party q.next).recvDualenc (s.party q.next).store.localIndexRecord) :
    ∀ r, ((s.setParty q { s.party q with
      store := { (s.party q).store with peerCipher := queue }, sendDualenc := pc }).setDua q ch).Inv
        cfg r := by
  refine Sys.inv_of_both q ⟨by simpa using (h q).enc, ?_, ?_, ?_⟩
    ⟨by simpa using (h q.next).enc, ?_, ?_, ?_⟩
  · intro hr
    simpa [Sys.pending] using (h q).dual hr
  · intro hr
    simpa [Sys.pending] using (h q).set hr
  · intro hr
    simpa using (h q).take hr
  · intro hr
    simpa [Sys.pending] using hdual hr
  · intro hr
    simpa [Sys.pending] using (h q.next).set hr
  · intro hr
    simpa using (h q.next).take hr

/-- A move of the comparing thread: the path of the own ids and the index list. -/
theorem Sys.inv_recvDualenc {pc : TakePc} {n : Nat} {idx : List Nat}
    {ch : List EcdhPsiCipherBatch} (h : ∀ r, s.Inv cfg r)
    (hdual : cfg.needRecvCipher q = true →
      DualInv cfg q (s.pending cfg q) (s.party q.next).recvCalcu.putStage
        (s.party q.next).store.peerCipher (s.party q.next).sendDualenc ch pc n)
    (htake : cfg.needRecvCipher q = true →
      TakeInv cfg q (s.party q).store.peerCipherSetDone pc n idx) :
    ∀ r, ((s.setParty q { s.party q with
      store := { (s.party q).store with localIndexRecord := n, localTakeIndex := idx }
      recvDualenc := pc }).setDua q.next ch).Inv cfg r := by
  refine Sys.inv_of_both q ⟨by simpa using (h q).enc, ?_, ?_, ?_⟩
    ⟨by simpa using (h q.next).enc, ?_, ?_, ?_⟩
  · intro hr
    simpa [Sys.pending] using hdual hr
  · intro hr
    simpa [Sys.pending] using (h q).set hr
  · intro hr
    simpa using htake hr
  · intro hr
    simpa [Sys.pending] using (h q.next).dual hr
  · intro hr
    simpa [Sys.pending] using (h q.next).set hr
  · intro hr
    simpa using (h q.next).take hr

/-- A move of `recv_and_calcu` on the main link: the link, the path of the peer's ids, the set. -/
theorem Sys.inv_recvCalcu {queue : List (Option (List Bytes))} {set : List Bytes} {event : Bool}
    {pc : RecvPc} {ch : List EcdhPsiCipherBatch} (h : ∀ r, s.Inv cfg r)
    (henc : EncInv (s.party q.next).calcuSend ch pc)
    (hdual : cfg.needRecvCipher q.next = true →
      DualInv cfg q.next (dualPending cfg q.next (s.party q.next).calcuSend ch pc) pc.putStage
        queue (s.party q).sendDualenc (s.dua q) (s.party q.next).recvDualenc
        (s.party q.next).store.localIndexRecord)
    (hset : cfg.needRecvCipher q = true →
      SetInv cfg q (dualPending cfg q.next (s.party q.next).calcuSend ch pc) pc set event)
    (htake : cfg.needRecvCipher q = true →
      TakeInv cfg q event (s.party q).recvDualenc (s.party q).store.localIndexRecord
        (s.party q).store.localTakeIndex) :
    ∀ r, ((s.setParty q { s.party q with
      store := { (s.party q).store with
        peerCipher := queue, peerCipherSet := set, peerCipherSetDone := event }
      recvCalcu := pc }).setMain q.next ch).Inv cfg r := by
  refine Sys.inv_of_both q ⟨by simpa using (h q).enc, ?_, ?_, ?_⟩ ⟨by simpa using henc, ?_, ?_, ?_⟩
  · intro hr
    simpa [Sys.pending] using (h q).dual hr
  · intro hr
    simpa [Sys.pending] using hset hr
  · intro hr
    simpa using htake hr
  · intro hr
    simpa [Sys.pending] using hdual hr
  · intro hr
    simpa [Sys.pending] using (h q.next).set hr
  · intro hr
    simpa using (h q.next).take hr

theorem Sys.setParty_setDua {p : Party} {r : Rank} :
    (s.setParty q p).setDua r (s.dua r) = s.setParty q p := by
  simp [Sys.setDua, Sys.setParty]

theorem Sys.setParty_setMain {p : Party} {r : Rank} :
    (s.setParty q p).setMain r (s.main r) = s.setParty q p := by
  simp [Sys.setMain, Sys.setParty]

theorem stepSendDualenc_inv (h : ∀ r, s.Inv cfg r) (hs : stepSendDualenc s q = some s')
    (hok : ∀ r, (s'.party r).isRaised = false) : ∀ r, s'.Inv cfg r := by
  have hdual := (h q.next).dual
  simp only [Rank.next_next] at hdual
  simp only [stepSendDualenc] at hs
  split at hs
  case h_1 i hpc =>
    split at hs
    case h_1 => cases hs
    case h_2 rest hqueue =>
      cases hs
      simp only [hqueue, hpc] at hdual
      rw [← Sys.setParty_setDua (r := q)]
      exact Sys.inv_sendDualenc h fun hr => (hdual hr).getNone
    case h_3 arr rest hqueue =>
      cases hs
      simp only [hqueue, hpc] at hdual
      rw [← Sys.setParty_setDua (r := q)]
      exact Sys.inv_sendDualenc h fun hr => (hdual hr).get
  case h_2 i hpc =>
    split at hs
    case h_1 => cases hs
    case h_2 rest hqueue =>
      cases hs
      have := hok q
      simp [Party.isRaised, DualPc.isRaised] at this
    case h_3 arr rest hqueue =>
      cases hs
      simp only [hqueue, hpc] at hdual
      rw [← Sys.setParty_setDua (r := q)]
      exact Sys.inv_sendDualenc h fun hr => (hdual hr).getLast
  case h_3 array i last hpc =>
    split at hs
    case h_1 msg hmsg =>
      cases hs
      simp only [Crypto.pointOctetMarshal, Crypto.supportCurvePointOctet, pointOctetFormat,
        List.mem_singleton, if_true, Option.bind_eq_bind, Option.bind_some] at hmsg
      simp only [hpc] at hdual
      exact Sys.inv_sendDualenc h fun hr => (hdual hr).send hmsg
    case h_2 =>
      cases hs
      have := hok q
      simp [Party.isRaised, DualPc.isRaised] at this
  case h_4 => cases hs
  case h_5 => cases hs

theorem stepRecvDualenc_inv (h : ∀ r, s.Inv cfg r) (hs : stepRecvDualenc s q = some s')
    (hok : ∀ r, (s'.party r).isRaised = false) : ∀ r, s'.Inv cfg r := by
  have hdual := (h q).dual
  have htake := (h q).take
  simp only [stepRecvDualenc] at hs
  split at hs
  case h_1 hpc =>
    split at hs
    case h_1 => cases hs
    case h_2 msg ch hch =>
      split at hs
      case h_2 =>
        cases hs
        have := hok q
        simp [Party.isRaised, TakePc.isRaised] at this
      case h_1 array hmsg =>
        cases hs
        simp only [hch, hpc] at hdual htake
        have hpts : msg.points = array := by simp [EcdhPsiCipherBatch.points, hmsg]
        refine Sys.inv_recvDualenc h (fun hr => hpts ▸ (hdual hr).recv) fun hr => ?_
        exact ⟨fun rest done hpc' => by simp at hpc', (htake hr).take⟩
  case h_2 array done hpc =>
    split at hs
    case isFalse => cases hs
    case isTrue hev =>
      cases hs
      simp only [hpc] at hdual htake
      rw [← Sys.setParty_setDua (r := q.next)]
      refine Sys.inv_recvDualenc h (fun hr => ?_) fun hr => ⟨fun _ _ _ => hev, (htake hr).take⟩
      exact { hdual hr with }
  case h_3 cipher rest done hpc =>
    cases hs
    simp only [hpc] at hdual htake
    rw [← Sys.setParty_setDua (r := q.next)]
    refine Sys.inv_recvDualenc h (fun hr => (hdual hr).take.2) fun hr => ?_
    -- the event has been set, so the set is complete
    have hev := (htake hr).event _ _ rfl
    have hfin := ((h q).set hr).event hev
    have henc := (h q.next).enc
    have hset := ((h q).set hr).conserved
    simp only [Rank.next_next, hfin] at henc
    simp only [Sys.pending, dualPending, Rank.next_next, hfin, henc.encPending_nil rfl,
      RecvPc.toPut, RecvPc.toInsert, List.map_nil, List.append_nil, List.not_mem_nil, or_false] at hset
    rw [hev] at htake ⊢
    exact (htake hr).step (hdual hr).take.1 hset
  case h_4 done hpc =>
    cases hs
    simp only [hpc] at hdual htake
    rw [← Sys.setParty_setDua (r := q.next)]
    refine Sys.inv_recvDualenc h (fun hr => ?_) fun hr => ⟨fun rest done' hpc' => ?_, (htake hr).take⟩
    · cases done <;> exact { hdual hr with }
    · cases done <;> simp at hpc'
  case h_5 => cases hs
  case h_6 => cases hs

theorem afterPut_gotLast {array : List Bytes} {done : Bool} :
    (afterPut cfg q array done).gotLast = done := by
  simp only [afterPut]
  split
  · rfl
  · cases done <;> rfl

theorem afterPut_putStage {array : List Bytes} {done : Bool} :
    (afterPut cfg q array done).putStage = if done then .closed else .opened := by
  simp only [afterPut]
  split
  · rfl
  · cases done <;> rfl

theorem afterPut_toPut {array : List Bytes} {done : Bool} : (afterPut cfg q array done).toPut = [] := by
  simp only [afterPut]
  split
  · rfl
  · cases done <;> rfl

/-- Where `recv_and_calcu` goes on with a batch that it has encrypted. -/
def RecvPc.received (array : List Bytes) (last : Bool) : RecvPc :=
  if last then .putNone array else .putArray array false

theorem RecvPc.received_spec {array : List Bytes} {last : Bool} :
    (received array last).gotLast = last ∧ (received array last).putStage = .opened ∧
      (received array last).toPut = array ∧ (received array last).toInsert = [] := by
  cases last <;> exact ⟨rfl, rfl, rfl, rfl⟩

/-- Before `recv_and_calcu` has ended, the event is not set, so only the set has to be looked at. -/
theorem SetInv.goto {pending pending' set set' : List Bytes} {pc pc' : RecvPc} {event : Bool}
    (h : SetInv cfg q pending pc set event) (hpc : pc ≠ .finished)
    (hset : ∀ b, b ∈ set' ∨ b ∈ pc'.toInsert ∨ b ∈ pending' ↔ b ∈ cfg.dual q.next) :
    SetInv cfg q pending' pc' set' event :=
  ⟨hset, fun hev => absurd (h.event hev) hpc⟩

/-- `recv_and_calcu` takes a batch from the main link. -/
theorem Sys.inv_received {msg : EcdhPsiCipherBatch} {ch : List EcdhPsiCipherBatch}
    (h : ∀ r, s.Inv cfg r) (hpc : (s.party q).recvCalcu = .recv) (hch : s.main q.next = msg :: ch) :
    ∀ r, ((s.setMain q.next ch).setParty q { s.party q with
      recvCalcu := .received (msg.points.map (cfg.crypto.dh (cfg.key q))) msg.isLastBatch }).Inv cfg r := by
  have henc := (h q.next).enc
  have hdual := (h q.next).dual
  have hset := (h q).set
  simp only [Sys.pending, Rank.next_next, hpc] at henc hdual hset
  set pc : RecvPc := .received (msg.points.map (cfg.crypto.dh (cfg.key q))) msg.isLastBatch
  obtain ⟨hgot, hstage, hput, hins⟩ : pc.gotLast = _ ∧ pc.putStage = _ ∧ pc.toPut = _ ∧
    pc.toInsert = _ := RecvPc.received_spec
  have hpend : dualPending cfg q.next (s.party q.next).calcuSend ch pc =
      dualPending cfg q.next (s.party q.next).calcuSend (s.main q.next) .recv := by
    rw [dualPending, hput]
    simp [dualPending, encPending, hch, RecvPc.toPut]
  rw [hch] at henc
  refine Sys.inv_recvCalcu h (henc.recv hgot) (fun hr => ?_) (fun hr => ?_) (h q).take
  · rw [hpend, hstage]
    exact hdual hr
  · rw [hpend]
    refine (hset hr).goto (by simp) fun b => ?_
    rw [hins]
    exact (hset hr).conserved b

theorem stepRecvCalcu_inv (h : ∀ r, s.Inv cfg r) (hs : stepRecvCalcu cfg s q = some s') :
    ∀ r, s'.Inv cfg r := by
  have henc := (h q.next).enc
  have hdual := (h q.next).dual
  have hset := (h q).set
  have htake := (h q).take
  simp only [Sys.pending, Rank.next_next] at henc hdual hset
  simp only [stepRecvCalcu] at hs
  split at hs
  case h_1 hpc =>
    split at hs
    case h_1 => cases hs
    case h_2 msg ch hch =>
      rw [hch] at henc
      obtain ⟨hun, hlen⟩ := henc.wf msg (by simp)
      rw [hun, Option.bind_eq_bind, Option.bind_some, cfg.crypto.diffieHellman_eq hlen] at hs
      cases hs
      exact Sys.inv_received h hpc hch
  case h_2 array hpc =>
    cases hs
    rw [hpc] at henc hdual hset
    rw [← Sys.setParty_setMain (r := q.next)]
    exact Sys.inv_recvCalcu h ⟨henc.wf, henc.marked⟩ (fun hr => (hdual hr).putNone)
      (fun hr => (hset hr).goto (by simp) (hset hr).conserved) htake
  case h_3 array done hpc =>
    cases hs
    rw [hpc] at henc hdual hset
    rw [← Sys.setParty_setMain (r := q.next)]
    refine Sys.inv_recvCalcu h ⟨henc.wf, ?_⟩ (fun hr => ?_)
      (fun hr => (hset hr).goto (by simp) fun b => ?_) htake
    · rw [afterPut_gotLast]
      exact henc.marked
    · rw [afterPut_putStage, dualPending, afterPut_toPut, List.nil_append]
      cases done with
      | true => exact (hdual hr).putLast
      | false => exact (hdual hr).put
    · have := (hset hr).conserved b
      simp only [dualPending, RecvPc.toPut, RecvPc.toInsert, List.mem_append, List.not_mem_nil,
        false_or] at this
      simpa [dualPending, afterPut, hr, RecvPc.toPut, RecvPc.toInsert] using this
  case h_4 cipher rest done hpc =>
    cases hs
    rw [hpc] at henc hdual hset
    rw [← Sys.setParty_setMain (r := q.next)]
    refine Sys.inv_recvCalcu h ⟨henc.wf, henc.marked⟩ hdual
      (fun hr => (hset hr).goto (by simp) fun b => ?_) htake
    have := (hset hr).conserved b
    simp only [RecvPc.toInsert, List.mem_cons, dualPending, RecvPc.toPut, List.nil_append] at this ⊢
    rw [← this, List.mem_insert_iff]
    tauto
  case h_5 hpc =>
    cases hs
    rw [hpc] at henc hdual hset
    rw [← Sys.setParty_setMain (r := q.next)]
    exact Sys.inv_recvCalcu h ⟨henc.wf, henc.marked⟩ hdual
      (fun hr => ⟨(hset hr).conserved, fun _ => rfl⟩)
      (fun hr => ⟨fun _ _ _ => rfl, (htake hr).take⟩)
  case h_6 hpc =>
    cases hs
    rw [hpc] at henc hdual hset
    rw [← Sys.setParty_setMain (r := q.next)]
    exact Sys.inv_recvCalcu h ⟨henc.wf, henc.marked⟩ hdual
      (fun hr => (hset hr).goto (by simp) (hset hr).conserved) htake
  case h_7 => cases hs
  case h_8 => cases hs

/-! ## A raised thread stays raised -/

/-- The party after an exception in one of its threads. -/
def Party.raise (p : Party) : Thread → Party
  | .calcuSend => { p with calcuSend := .raised }
  | .recvCalcu => { p with recvCalcu := .raised }
  | .sendDualenc => { p with sendDualenc := .raised }
  | .recvDualenc => { p with recvDualenc := .raised }

/-- An exception ends a thread that has not finished, and touches nothing else. -/
theorem raiseIn_eq {t : Thread} (hs : raiseIn s q t = some s') :
    s' = s.setParty q ((s.party q).raise t) ∧
      (t = .sendDualenc → (s.party q).sendDualenc ≠ .finished) := by
  cases t with
  | sendDualenc =>
    simp only [raiseIn] at hs
    split at hs
    · cases hs
    · rename_i hne
      cases hs
      exact ⟨rfl, fun _ => hne⟩
  | _ =>
    simp only [raiseIn] at hs
    split at hs
    · cases hs
    · cases hs
      exact ⟨rfl, by simp⟩

theorem raiseIn_raised {t : Thread} (hs : raiseIn s q t = some s') : (s'.party q).isRaised = true := by
  rw [(raiseIn_eq hs).1, Sys.setParty_party]
  cases t with
  | calcuSend => simp [Party.raise, Party.isRaised, SendPc.isRaised]
  | recvCalcu => simp [Party.raise, Party.isRaised, RecvPc.isRaised]
  | sendDualenc => simp [Party.raise, Party.isRaised, DualPc.isRaised]
  | recvDualenc => simp [Party.raise, Party.isRaised, TakePc.isRaised]

/-- Only the party that moves changes, and a thread that moves has not raised. -/
theorem step_raised {a : Action} {r : Rank} (hs : (flow cfg).step s a = some s')
    (hr : (s.party r).isRaised = true) : ∃ r, (s'.party r).isRaised = true := by
  cases a with
  | raise q t => exact ⟨q, raiseIn_raised hs⟩
  | step q t =>
    refine ⟨r, ?_⟩
    obtain rfl | rfl := Rank.eq_or_eq_next r q
    · cases t with
      | calcuSend =>
        simp only [flow, stepCalcuSend] at hs
        grind [Party.isRaised, SendPc.isRaised, Sys.setParty_party, Sys.setMain_party]
      | recvCalcu =>
        simp only [flow, stepRecvCalcu] at hs
        grind [Party.isRaised, RecvPc.isRaised, Sys.setParty_party, Sys.setMain_party]
      | sendDualenc =>
        simp only [flow, stepSendDualenc] at hs
        grind [Party.isRaised, DualPc.isRaised, Sys.setParty_party, Sys.setDua_party]
      | recvDualenc =>
        simp only [flow, stepRecvDualenc] at hs
        grind [Party.isRaised, TakePc.isRaised, Sys.setParty_party, Sys.setDua_party]
    · have hparty : s'.party q.next = s.party q.next := by
        cases t with
        | calcuSend =>
          simp only [flow, stepCalcuSend] at hs
          grind [Sys.setParty_party_next, Sys.setMain_party]
        | recvCalcu =>
          simp only [flow, stepRecvCalcu] at hs
          grind [Sys.setParty_party_next, Sys.setMain_party]
        | sendDualenc =>
          simp only [flow, stepSendDualenc] at hs
          grind [Sys.setParty_party_next, Sys.setDua_party]
        | recvDualenc =>
          simp only [flow, stepRecvDualenc] at hs
          grind [Sys.setParty_party_next, Sys.setDua_party]
      rw [hparty]
      exact hr

end Psi
