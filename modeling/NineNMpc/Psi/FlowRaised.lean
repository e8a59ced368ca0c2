-- SUMMARY: The Diffie-Hellman flow with threads that raise: what a returned batch contains, and which exception truncates it silently.
import NineNMpc.Psi.FlowCorrect

/-!
# The flow when threads raise

`join()` does not see the exception of a thread, so `diffie_hellman_flow` returns when all
threads of its party have ended, in whichever way. An exception changes nothing that the
threads share: a run with exceptions is followed, step by step, by a run in which the
threads that raised have just stopped. The invariant of the flow holds of the latter.
-/

namespace Psi

variable {cfg : Config} {s s' s₀ : Sys} {q r : Rank}

/-- All threads of the party have ended, so that the joins return. -/
def Party.joined (p : Party) : Prop :=
  (p.calcuSend = .finished ∨ p.calcuSend = .raised) ∧
  (p.recvCalcu = .finished ∨ p.recvCalcu = .raised) ∧
  (p.sendDualenc = .finished ∨ p.sendDualenc = .raised) ∧
  (p.recvDualenc = .finished ∨ p.recvDualenc = .raised)

instance {p : Party} : Decidable p.joined :=
  inferInstanceAs (Decidable ((_ ∨ _) ∧ (_ ∨ _) ∧ (_ ∨ _) ∧ (_ ∨ _)))

/-- The comparing thread has taken the last batch and has compared all its ciphers. -/
def TakePc.Compared (pc : TakePc) : Prop := pc.gotLast = true ∧ pc.toCheck = []

/-- The comparing thread of `r` raises, if at all, when it has nothing left to compare. -/
def ComparesAll (r : Rank) (s : Sys) (a : Action) : Prop :=
  a = .raise r .recvDualenc → (s.party r).recvDualenc.Compared

instance {pc : TakePc} : Decidable pc.Compared :=
  inferInstanceAs (Decidable (_ ∧ _))

instance {r : Rank} {s : Sys} {a : Action} : Decidable (ComparesAll r s a) :=
  inferInstanceAs (Decidable (_ → _))

/-! ## Threads that stop instead of raising -/

/-- The same party, except that threads may have raised in `p`: `send_dualenc` if it has not finished
    in `p₀`, the comparing thread only if it had compared everything, where `all` says so. -/
structure Party.Follows (all : Prop) (p p₀ : Party) : Prop where
  store : p.store = p₀.store
  calcuSend : p.calcuSend = p₀.calcuSend ∨ p.calcuSend = .raised
  recvCalcu : p.recvCalcu = p₀.recvCalcu ∨ p.recvCalcu = .raised
  sendDualenc : p.sendDualenc = p₀.sendDualenc ∨
    p.sendDualenc = .raised ∧ p₀.sendDualenc ≠ .finished
  recvDualenc : p.recvDualenc = p₀.recvDualenc ∨
    p.recvDualenc = .raised ∧ (all → p₀.recvDualenc.Compared)

namespace Party.Follows

variable {all : Prop} {p p₀ : Party} {st : CipherStore}

theorem moveCalcuSend {pc : SendPc} (h : p.Follows all p₀) :
    Party.Follows all { p with calcuSend := pc } { p₀ with calcuSend := pc } :=
  ⟨h.store, .inl rfl, h.recvCalcu, h.sendDualenc, h.recvDualenc⟩

theorem moveRecvCalcu {pc : RecvPc} (h : p.Follows all p₀) :
    Party.Follows all { p with store := st, recvCalcu := pc }
      { p₀ with store := st, recvCalcu := pc } :=
  ⟨rfl, h.calcuSend, .inl rfl, h.sendDualenc, h.recvDualenc⟩

theorem moveSendDualenc {pc : DualPc} (h : p.Follows all p₀) :
    Party.Follows all { p with store := st, sendDualenc := pc }
      { p₀ with store := st, sendDualenc := pc } :=
  ⟨rfl, h.calcuSend, h.recvCalcu, .inl rfl, h.recvDualenc⟩

theorem moveRecvDualenc {pc : TakePc} (h : p.Follows all p₀) :
    Party.Follows all { p with store := st, recvDualenc := pc }
      { p₀ with store := st, recvDualenc := pc } :=
  ⟨rfl, h.calcuSend, h.recvCalcu, h.sendDualenc, .inl rfl⟩

theorem raise {t : Thread} (h : p.Follows all p₀)
    (hsend : t = .sendDualenc → p.sendDualenc ≠ .finished)
    (hcond : all → t = .recvDualenc → p.recvDualenc.Compared) : (p.raise t).Follows all p₀ := by
  cases t with
  | calcuSend => exact ⟨h.store, .inr rfl, h.recvCalcu, h.sendDualenc, h.recvDualenc⟩
  | recvCalcu => exact ⟨h.store, h.calcuSend, .inr rfl, h.sendDualenc, h.recvDualenc⟩
  | sendDualenc =>
    refine ⟨h.store, h.calcuSend, h.recvCalcu, .inr ⟨rfl, ?_⟩, h.recvDualenc⟩
    obtain heq | ⟨_, hne⟩ := h.sendDualenc
    · rw [← heq]
      exact hsend rfl
    · exact hne
  | recvDualenc =>
    refine ⟨h.store, h.calcuSend, h.recvCalcu, h.sendDualenc, .inr ⟨rfl, fun hall => ?_⟩⟩
    obtain heq | ⟨_, hcomp⟩ := h.recvDualenc
    · rw [← heq]
      exact hcond hall rfl
    · exact hcomp hall

theorem unraise {t : Thread} (h : p.Follows all (p₀.raise t))
    (hsend : t = .sendDualenc → p₀.sendDualenc ≠ .finished) (ht : t ≠ .recvDualenc) :
    p.Follows all p₀ := by
  cases t with
  | recvDualenc => exact absurd rfl ht
  | calcuSend =>
    exact ⟨h.store, .inr (h.calcuSend.elim id id), h.recvCalcu, h.sendDualenc, h.recvDualenc⟩
  | recvCalcu =>
    exact ⟨h.store, h.calcuSend, .inr (h.recvCalcu.elim id id), h.sendDualenc, h.recvDualenc⟩
  | sendDualenc =>
    exact ⟨h.store, h.calcuSend, h.recvCalcu, .inr ⟨h.sendDualenc.elim id And.left, hsend rfl⟩,
      h.recvDualenc⟩

end Party.Follows

/-- `s₀` is the state of the run in which threads stop, for the party `r`. -/
structure Sys.Follows (r : Rank) (s s₀ : Sys) : Prop where
  main : s.main = s₀.main
  dua : s.dua = s₀.dua
  party : ∀ q, (s.party q).Follows (q = r) (s₀.party q)

namespace Sys.Follows

variable {ch : List EcdhPsiCipherBatch} {p p₀ : Party}

theorem setParty (h : s.Follows r s₀) (hp : p.Follows (q = r) p₀) :
    (s.setParty q p).Follows r (s₀.setParty q p₀) where
  main := h.main
  dua := h.dua
  party := by
    intro q'
    obtain rfl | rfl := Rank.eq_or_eq_next q' q
    · simpa using hp
    · simpa using h.party q.next

/-- Only one side moves: a thread raises. -/
theorem raise (h : s.Follows r s₀) (hp : p.Follows (q = r) (s₀.party q)) :
    (s.setParty q p).Follows r s₀ where
  main := h.main
  dua := h.dua
  party := by
    intro q'
    obtain rfl | rfl := Rank.eq_or_eq_next q' q
    · simpa using hp
    · simpa using h.party q.next

theorem setMain (h : s.Follows r s₀) : (s.setMain q ch).Follows r (s₀.setMain q ch) where
  main := by
    unfold Sys.setMain
    rw [h.main]
  dua := h.dua
  party := h.party

theorem setDua (h : s.Follows r s₀) : (s.setDua q ch).Follows r (s₀.setDua q ch) where
  main := h.main
  dua := by
    unfold Sys.setDua
    rw [h.dua]
  party := h.party

end Sys.Follows

/-! ## The same step on both sides -/

theorem stepCalcuSend_follows (h : s.Follows r s₀) (hs : stepCalcuSend cfg s q = some s') :
    ∃ s₀', stepCalcuSend cfg s₀ q = some s₀' ∧ s'.Follows r s₀' := by
  have hq := h.party q
  have hpc : (s.party q).calcuSend = (s₀.party q).calcuSend := by
    refine hq.calcuSend.resolve_right fun hraised => ?_
    simp [stepCalcuSend, hraised] at hs
  simp only [stepCalcuSend, ← hpc, ← h.main] at hs ⊢
  split at hs
  case h_2 => cases hs
  case h_1 =>
    split at hs
    case h_1 =>
      cases hs
      exact ⟨_, rfl, (h.setParty hq.moveCalcuSend).setMain⟩
    case h_2 =>
      cases hs
      exact ⟨_, rfl, h.setParty hq.moveCalcuSend⟩

theorem stepRecvCalcu_follows (h : s.Follows r s₀) (hs : stepRecvCalcu cfg s q = some s') :
    ∃ s₀', stepRecvCalcu cfg s₀ q = some s₀' ∧ s'.Follows r s₀' := by
  have hq := h.party q
  have hst := hq.store
  have hpc : (s.party q).recvCalcu = (s₀.party q).recvCalcu := by
    refine hq.recvCalcu.resolve_right fun hraised => ?_
    simp [stepRecvCalcu, hraised] at hs
  simp only [stepRecvCalcu, ← hpc, ← h.main, ← hst] at hs ⊢
  split at hs
  case h_1 =>
    split at hs
    case h_1 => cases hs
    case h_2 =>
      split at hs
      all_goals
        cases hs
        exact ⟨_, rfl, h.setMain.setParty hq.moveRecvCalcu⟩
  case h_2 =>
    cases hs
    exact ⟨_, rfl, h.setParty hq.moveRecvCalcu⟩
  case h_3 =>
    cases hs
    exact ⟨_, rfl, h.setParty hq.moveRecvCalcu⟩
  case h_4 =>
    cases hs
    exact ⟨_, rfl, h.setParty hq.moveRecvCalcu⟩
  case h_5 =>
    cases hs
    exact ⟨_, rfl, h.setParty hq.moveRecvCalcu⟩
  case h_6 =>
    cases hs
    exact ⟨_, rfl, h.setParty hq.moveRecvCalcu⟩
  case h_7 => cases hs
  case h_8 => cases hs

theorem stepSendDualenc_follows (h : s.Follows r s₀) (hs : stepSendDualenc s q = some s') :
    ∃ s₀', stepSendDualenc s₀ q = some s₀' ∧ s'.Follows r s₀' := by
  have hq := h.party q
  have hst := hq.store
  have hpc : (s.party q).sendDualenc = (s₀.party q).sendDualenc := by
    refine hq.sendDualenc.resolve_right fun hraised => ?_
    simp [stepSendDualenc, hraised.1] at hs
  simp only [stepSendDualenc, ← hpc, ← h.dua, ← hst] at hs ⊢
  split at hs
  case h_1 =>
    split at hs
    case h_1 => cases hs
    all_goals
      cases hs
      exact ⟨_, rfl, h.setParty hq.moveSendDualenc⟩
  case h_2 =>
    split at hs
    case h_1 => cases hs
    all_goals
      cases hs
      exact ⟨_, rfl, h.setParty hq.moveSendDualenc⟩
  case h_3 =>
    split at hs
    case h_1 =>
      cases hs
      exact ⟨_, rfl, (h.setParty hq.moveSendDualenc).setDua⟩
    case h_2 =>
      cases hs
      exact ⟨_, rfl, h.setParty hq.moveSendDualenc⟩
  case h_4 => cases hs
  case h_5 => cases hs

theorem stepRecvDualenc_follows (h : s.Follows r s₀) (hs : stepRecvDualenc s q = some s') :
    ∃ s₀', stepRecvDualenc s₀ q = some s₀' ∧ s'.Follows r s₀' := by
  have hq := h.party q
  have hst := hq.store
  have hpc : (s.party q).recvDualenc = (s₀.party q).recvDualenc := by
    refine hq.recvDualenc.resolve_right fun hraised => ?_
    simp [stepRecvDualenc, hraised.1] at hs
  simp only [stepRecvDualenc, ← hpc, ← h.dua, ← hst] at hs ⊢
  split at hs
  case h_1 =>
    split at hs
    case h_1 => cases hs
    case h_2 =>
      split at hs
      all_goals
        cases hs
        exact ⟨_, rfl, h.setDua.setParty hq.moveRecvDualenc⟩
  case h_2 =>
    split at hs
    case isFalse => cases hs
    case isTrue hdone =>
      cases hs
      exact ⟨_, if_pos hdone, h.setParty hq.moveRecvDualenc⟩
  case h_3 =>
    cases hs
    exact ⟨_, rfl, h.setParty hq.moveRecvDualenc⟩
  case h_4 =>
    cases hs
    exact ⟨_, rfl, h.setParty hq.moveRecvDualenc⟩
  case h_5 => cases hs
  case h_6 => cases hs

/-! ## The run in which threads stop -/

/-- The invariant of a state in which no thread has raised. -/
structure Sys.Calm (cfg : Config) (s : Sys) : Prop where
  inv : ∀ r, s.Inv cfg r
  raised : ∀ r, (s.party r).isRaised = false
  sendDualenc : ∀ r, cfg.needSendCipher r = false → (s.party r).sendDualenc = .finished
  recvDualenc : ∀ r, cfg.needRecvCipher r = false → (s.party r).recvDualenc = .finished

theorem calm_init (cfg : Config) : (init cfg).Calm cfg where
  inv := init_inv cfg
  raised := by
    intro r
    simp only [init, initParty, Party.isRaised, SendPc.isRaised, RecvPc.isRaised]
    split <;> split <;> rfl
  sendDualenc := fun r hr => by simp [init, initParty, hr]
  recvDualenc := fun r hr => by simp [init, initParty, hr]

/-- One party has moved, and none of its threads has raised. -/
theorem Sys.Calm.move {p : Party} (h : s.Calm cfg) (hparty : s'.party = (s.setParty q p).party)
    (hinv : (∀ r, (s'.party r).isRaised = false) → ∀ r, s'.Inv cfg r) (hraised : p.isRaised = false)
    (hsend : cfg.needSendCipher q = false → p.sendDualenc = .finished)
    (hrecv : cfg.needRecvCipher q = false → p.recvDualenc = .finished) : s'.Calm cfg := by
  have hok : ∀ r, (s'.party r).isRaised = false := by
    intro r
    rw [hparty]
    obtain rfl | rfl := Rank.eq_or_eq_next r q
    · simpa using hraised
    · simpa using h.raised q.next
  refine ⟨hinv hok, hok, fun r hr => ?_, fun r hr => ?_⟩
  all_goals
    rw [hparty]
    obtain rfl | rfl := Rank.eq_or_eq_next r q
  · simpa using hsend hr
  · simpa using h.sendDualenc q.next hr
  · simpa using hrecv hr
  · simpa using h.recvDualenc q.next hr

theorem Party.isRaised_eq_false {p : Party} : p.isRaised = false ↔
    p.calcuSend.isRaised = false ∧ p.recvCalcu.isRaised = false ∧
      p.sendDualenc.isRaised = false ∧ p.recvDualenc.isRaised = false := by
  simp [Party.isRaised, and_assoc]

theorem calcucipherAndSend_isRaised {i n : Nat} {msg : EcdhPsiCipherBatch} {pc : SendPc}
    (h : calcucipherAndSend cfg q i n = some (msg, pc)) : pc.isRaised = false := by
  simp only [calcucipherAndSend] at h
  split at h
  · simp only [Option.bind_eq_bind, Option.bind_eq_some_iff, Option.some.injEq, Prod.mk.injEq] at h
    obtain ⟨_, _, _, rfl⟩ := h
    rfl
  · split at h
    · cases h
    · simp only [Option.bind_eq_bind, Option.bind_eq_some_iff, Option.some.injEq, Prod.mk.injEq] at h
      obtain ⟨_, _, _, _, _, rfl⟩ := h
      split <;> rfl

theorem stepCalcuSend_calm (h : s.Calm cfg) (hs : stepCalcuSend cfg s q = some s') :
    s'.Calm cfg ∨ raiseIn s q .calcuSend = some s' := by
  have hinv := stepCalcuSend_inv h.inv hs
  have hq := Party.isRaised_eq_false.mp (h.raised q)
  simp only [stepCalcuSend] at hs
  split at hs
  case h_2 => cases hs
  case h_1 i n hpc =>
    split at hs
    case h_1 msg pc hmsg =>
      cases hs
      have hraised := calcucipherAndSend_isRaised hmsg
      exact .inl (h.move rfl hinv (Party.isRaised_eq_false.mpr ⟨hraised, hq.2⟩) (h.sendDualenc q)
        (h.recvDualenc q))
    case h_2 =>
      cases hs
      exact .inr (by simp [raiseIn, hpc])

/-- What the peer encrypts can be decoded, so `recv_and_calcu` does not raise by itself. -/
theorem stepRecvCalcu_calm (h : s.Calm cfg) (hs : stepRecvCalcu cfg s q = some s') : s'.Calm cfg := by
  have hinv := fun (_ : ∀ r, (s'.party r).isRaised = false) => stepRecvCalcu_inv h.inv hs
  obtain ⟨hsend, _, hdual⟩ := Party.isRaised_eq_false.mp (h.raised q)
  simp only [stepRecvCalcu] at hs
  split at hs
  case h_1 hpc =>
    split at hs
    case h_1 => cases hs
    case h_2 msg ch hch =>
      have henc := (h.inv q.next).enc
      rw [hch] at henc
      obtain ⟨hun, hlen⟩ := henc.wf msg (by simp)
      rw [hun, Option.bind_eq_bind, Option.bind_some, cfg.crypto.diffieHellman_eq hlen] at hs
      cases hs
      refine h.move rfl hinv (Party.isRaised_eq_false.mpr ⟨hsend, ?_, hdual⟩) (h.sendDualenc q)
        (h.recvDualenc q)
      cases msg.isLastBatch <;> rfl
  case h_3 array done _ =>
    cases hs
    refine h.move rfl hinv (Party.isRaised_eq_false.mpr ⟨hsend, ?_, hdual⟩) (h.sendDualenc q)
      (h.recvDualenc q)
    simp only [afterPut]
    split
    · rfl
    · cases done <;> rfl
  case h_7 => cases hs
  case h_8 => cases hs
  all_goals
    cases hs
    exact h.move rfl hinv (Party.isRaised_eq_false.mpr ⟨hsend, rfl, hdual⟩) (h.sendDualenc q)
      (h.recvDualenc q)

/-- Behind the sentinel there is an array, so `send_dualenc` raises only when it sends. -/
theorem stepSendDualenc_calm (h : s.Calm cfg) (hs : stepSendDualenc s q = some s') :
    s'.Calm cfg ∨ raiseIn s q .sendDualenc = some s' := by
  have hinv := stepSendDualenc_inv h.inv hs
  obtain ⟨hcalcu, hrecv, _, htake⟩ := Party.isRaised_eq_false.mp (h.raised q)
  have hfin : ∀ pc : DualPc, pc ≠ .finished → (s.party q).sendDualenc = pc →
      cfg.needSendCipher q = true := by
    intro pc hne hpc
    by_contra hneed
    exact hne (hpc.symm.trans (h.sendDualenc q (Bool.not_eq_true _ ▸ hneed)))
  have hmoved : ∀ (st : CipherStore) {pc : DualPc}, pc.isRaised = false →
      s'.party = (s.setParty q { s.party q with store := st, sendDualenc := pc }).party →
      cfg.needSendCipher q = true → s'.Calm cfg := by
    intro st pc hpc hparty hneed
    refine h.move hparty hinv (Party.isRaised_eq_false.mpr ⟨hcalcu, hrecv, hpc, htake⟩) ?_
      (h.recvDualenc q)
    intro hnot
    rw [hneed] at hnot
    cases hnot
  simp only [stepSendDualenc] at hs
  split at hs
  case h_1 i hpc =>
    have hneed := hfin _ (by simp) hpc
    split at hs
    case h_1 => cases hs
    all_goals
      cases hs
      exact .inl (hmoved _ rfl rfl hneed)
  case h_2 i hpc =>
    have hneed := hfin _ (by simp) hpc
    split at hs
    case h_1 => cases hs
    case h_2 rest hqueue =>
      have hdual := (h.inv q.next).dual (by rw [cfg.needRecvCipher_iff, Rank.next_next, hneed])
      simp only [Rank.next_next, hqueue, hpc] at hdual
      exact absurd rfl (SentinelQueue.getLast hdual.queue).1
    case h_3 =>
      cases hs
      exact .inl (hmoved _ rfl rfl hneed)
  case h_3 array i last hpc =>
    have hneed := hfin _ (by simp) hpc
    split at hs
    case h_1 =>
      cases hs
      refine .inl (hmoved (s.party q).store ?_ rfl hneed)
      cases last <;> rfl
    case h_2 =>
      cases hs
      exact .inr (by simp [raiseIn, hpc])
  case h_4 => cases hs
  case h_5 => cases hs

theorem stepRecvDualenc_calm (h : s.Calm cfg) (hs : stepRecvDualenc s q = some s') : s'.Calm cfg := by
  have hinv := stepRecvDualenc_inv h.inv hs
  obtain ⟨hcalcu, hrecv, hdual, _⟩ := Party.isRaised_eq_false.mp (h.raised q)
  have hneed : cfg.needRecvCipher q = true := by
    by_contra hneed
    simp [stepRecvDualenc, h.recvDualenc q (Bool.not_eq_true _ ▸ hneed)] at hs
  have hmoved : ∀ (st : CipherStore) {pc : TakePc}, pc.isRaised = false →
      s'.party = (s.setParty q { s.party q with store := st, recvDualenc := pc }).party →
      s'.Calm cfg := by
    intro st pc hpc hparty
    refine h.move hparty hinv (Party.isRaised_eq_false.mpr ⟨hcalcu, hrecv, hdual, hpc⟩)
      (h.sendDualenc q) ?_
    intro hnot
    rw [hneed] at hnot
    cases hnot
  simp only [stepRecvDualenc] at hs
  split at hs
  case h_1 hpc =>
    split at hs
    case h_1 => cases hs
    case h_2 msg ch hch =>
      have hd := (h.inv q).dual hneed
      rw [hch] at hd
      obtain ⟨hun, _⟩ := hd.wf msg (by simp)
      rw [hun] at hs
      cases hs
      exact hmoved (s.party q).store rfl rfl
  case h_2 =>
    split at hs
    case isFalse => cases hs
    case isTrue =>
      cases hs
      exact hmoved (s.party q).store rfl rfl
  case h_3 =>
    cases hs
    exact hmoved _ rfl rfl
  case h_4 done _ =>
    cases hs
    refine hmoved (s.party q).store ?_ rfl
    cases done <;> rfl
  case h_5 => cases hs
  case h_6 => cases hs

/-! ## Runs -/

/-- A thread that has not finished raises; the other run does nothing. -/
theorem raiseIn_follows {t : Thread} (h : s.Follows r s₀)
    (hcond : q = r → t = .recvDualenc → (s.party q).recvDualenc.Compared)
    (hs : raiseIn s q t = some s') : s'.Follows r s₀ := by
  obtain ⟨rfl, hsend⟩ := raiseIn_eq hs
  exact h.raise ((h.party q).raise hsend hcond)

/-- Where both runs raise in the same thread, the other run may as well have stopped. -/
theorem Sys.Follows.unraise {s₁ : Sys} {t : Thread} (h : s.Follows r s₁)
    (hs : raiseIn s₀ q t = some s₁) (ht : t ≠ .recvDualenc) : s.Follows r s₀ := by
  obtain ⟨rfl, hsend⟩ := raiseIn_eq hs
  refine ⟨h.main, h.dua, fun q' => ?_⟩
  have hq := h.party q'
  obtain rfl | rfl := Rank.eq_or_eq_next q' q
  · rw [Sys.setParty_party] at hq
    exact hq.unraise hsend ht
  · simpa using hq

theorem step_follows {a : Action} (hcond : ComparesAll r s a)
    (h : ∃ s₀, Sys.Calm cfg s₀ ∧ s.Follows r s₀) (hs : (flow cfg).step s a = some s') :
    ∃ s₀, Sys.Calm cfg s₀ ∧ s'.Follows r s₀ := by
  obtain ⟨s₀, hcalm, hf⟩ := h
  cases a with
  | raise q t =>
    refine ⟨s₀, hcalm, raiseIn_follows hf ?_ hs⟩
    rintro rfl rfl
    exact hcond rfl
  | step q t =>
    cases t with
    | calcuSend =>
      obtain ⟨s₁, hs₁, hf₁⟩ := stepCalcuSend_follows hf hs
      obtain hcalm₁ | hraise := stepCalcuSend_calm hcalm hs₁
      · exact ⟨s₁, hcalm₁, hf₁⟩
      · exact ⟨s₀, hcalm, hf₁.unraise hraise (by simp)⟩
    | recvCalcu =>
      obtain ⟨s₁, hs₁, hf₁⟩ := stepRecvCalcu_follows hf hs
      exact ⟨s₁, stepRecvCalcu_calm hcalm hs₁, hf₁⟩
    | sendDualenc =>
      obtain ⟨s₁, hs₁, hf₁⟩ := stepSendDualenc_follows hf hs
      obtain hcalm₁ | hraise := stepSendDualenc_calm hcalm hs₁
      · exact ⟨s₁, hcalm₁, hf₁⟩
      · exact ⟨s₀, hcalm, hf₁.unraise hraise (by simp)⟩
    | recvDualenc =>
      obtain ⟨s₁, hs₁, hf₁⟩ := stepRecvDualenc_follows hf hs
      exact ⟨s₁, stepRecvDualenc_calm hcalm hs₁, hf₁⟩

theorem run_follows {as : List Action} (hC : (flow cfg).Meets (ComparesAll r) (init cfg) as)
    (hrun : (flow cfg).run (init cfg) as = some s) : ∃ s₀, Sys.Calm cfg s₀ ∧ s.Follows r s₀ := by
  refine (flow cfg).run_induct (fun _ _ _ => step_follows) hC hrun ⟨init cfg, calm_init cfg, rfl, rfl, ?_⟩
  exact fun q => ⟨rfl, .inl rfl, .inl rfl, .inl rfl, .inl rfl⟩

/-! ## What is returned -/

theorem RecvPc.of_putStage_closed {pc : RecvPc} (h : pc.putStage = .closed) :
    pc.toPut = [] ∧ pc.gotLast = true := by
  cases pc with
  | putArray array done => cases done <;> simp [putStage] at h
  | insert rest done => cases done <;> simp_all [putStage, toPut, gotLast]
  | recv => simp [putStage] at h
  | putNone => simp [putStage] at h
  | finished => exact ⟨rfl, rfl⟩
  | raised => exact ⟨rfl, rfl⟩

/-- Where the last batch has been compared, so has every row of the party. -/
theorem Sys.Calm.compared (h : s.Calm cfg) (hr : cfg.needRecvCipher r = true)
    (hpc : (s.party r).recvDualenc.Compared) :
    (s.party r.next).sendDualenc = .finished ∧ s.dua r.next = [] ∧
      (s.party r).store.localIndexRecord = (cfg.ids r).length := by
  have hdual := (h.inv r).dual hr
  obtain ⟨hgot, hcheck⟩ := hpc
  obtain ⟨hfin, hdua, _, hstage⟩ := hdual.drained hgot
  obtain ⟨hput, hlast⟩ := RecvPc.of_putStage_closed hstage
  have hpending : s.pending cfg r = [] := by
    simp [Sys.pending, dualPending, hput, (h.inv r).enc.encPending_nil hlast]
  rw [hpending] at hdual
  refine ⟨hfin, hdua, ?_⟩
  rw [hdual.length_eq hgot hcheck, Config.dual, List.length_map]

/-- A batch that is returned is the whole intersection, whichever threads raise, as long as the
    comparing thread of the party does not raise before it has compared everything. -/
theorem diffieHellmanFlow_not_truncated {ρ : Type} (rowId : ρ → Bytes) (rows : List ρ)
    {as : List Action} (hcomm : cfg.crypto.Commutes) (hinj : cfg.NoCollision)
    (hrows : rows.map rowId = cfg.ids r) (hr : cfg.needRecvCipher r = true)
    (hC : (flow cfg).Meets (ComparesAll r) (init cfg) as)
    (hrun : (flow cfg).run (init cfg) as = some s) (hjoin : (s.party r).joined) :
    (s.party r.next).sendDualenc = .finished ∧ s.dua r.next = [] ∧
    (s.party r).store.localIndexRecord = (cfg.ids r).length ∧
    flowResult cfg s r rows = some (some (rows.filter fun row => rowId row ∈ cfg.ids r.next)) := by
  obtain ⟨s₀, hcalm, hf⟩ := run_follows hC hrun
  have hpc : (s₀.party r).recvDualenc.Compared := by
    obtain heq | ⟨_, hall⟩ := (hf.party r).recvDualenc
    · have hraised := (Party.isRaised_eq_false.mp (hcalm.raised r)).2.2.2
      obtain hfin | hfin := hjoin.2.2.2
      · rw [← heq, hfin]
        exact ⟨rfl, rfl⟩
      · rw [← heq, hfin] at hraised
        cases hraised
    · exact hall rfl
  obtain ⟨hsent, hdua, hrecord⟩ := hcalm.compared hr hpc
  have hstore := (hf.party r).store
  have hsent' : (s.party r.next).sendDualenc = .finished := by
    obtain heq | ⟨_, hne⟩ := (hf.party r.next).sendDualenc
    · rw [heq, hsent]
    · exact absurd hsent hne
  refine ⟨hsent', by rw [hf.dua, hdua], by rw [hstore, hrecord], ?_⟩
  refine flowResult_of_localTakeIndex hcomm hinj hrows hr ?_
  rw [hstore, ((hcalm.inv r).take hr).take, hrecord]

namespace Sample

/-- The complete run of `schedule`, up to where the receiver compares. -/
def beforeComparing : List Action := schedule.take (schedule.length - 4)

/-- The receiver's comparing thread raises in its last pass through the loop. -/
def raisedAfterComparing : List Action :=
  beforeComparing ++ repeated 3 .receiver .recvDualenc ++ [.raise .receiver .recvDualenc]

/-- The receiver's comparing thread raises in its first `Recv`. -/
def raisedInRecv : List Action := beforeComparing ++ [.raise .receiver .recvDualenc]

/-- An exception that comes after the last comparison truncates nothing. -/
theorem raisedAfterComparing_not_truncated :
    ∃ s, (flow config).run (init config) raisedAfterComparing = some s ∧
      (s.party .receiver).joined ∧ (s.party .receiver).recvDualenc = .raised ∧
      flowResult config s .receiver [(idB, 30)] = some (some [(idB, 30)]) := by
  have hsome : ((flow config).run (init config) raisedAfterComparing).isSome = true := by
    decide +kernel
  obtain ⟨s, hs⟩ := Option.isSome_iff_exists.mp hsome
  have hpcs : ((flow config).run (init config) raisedAfterComparing).any (fun s =>
      decide (s.party .receiver).joined && decide ((s.party .receiver).recvDualenc = .raised)) =
        true := by
    decide +kernel
  rw [hs, Option.any_some, Bool.and_eq_true, decide_eq_true_iff, decide_eq_true_iff] at hpcs
  have hC : (flow config).Meets (ComparesAll .receiver) (init config) raisedAfterComparing := by
    decide +kernel
  have hresult := diffieHellmanFlow_not_truncated (r := .receiver) Prod.fst [(idB, 30)]
    (fun _ _ _ => mul_comm) noCollision rfl (by decide) hC hs hpcs.1
  exact ⟨s, hs, hpcs.1, hpcs.2, hresult.2.2.2.trans (by decide +kernel)⟩

/-- An exception in the first `Recv` gives an empty batch, and no exception, for a party whose
    only row is in the intersection. -/
theorem raisedInRecv_truncated :
    config.needRecvCipher .receiver = true ∧
    [(idB, 30)].filter (fun row => row.1 ∈ config.ids .sender) = [(idB, 30)] ∧
    ∃ s, (flow config).run (init config) raisedInRecv = some s ∧ (s.party .receiver).joined ∧
      s.dua .sender ≠ [] ∧ (s.party .receiver).store.localIndexRecord = 0 ∧
      flowResult config s .receiver [(idB, 30)] = some (some []) := by
  have hrun : ((flow config).run (init config) raisedInRecv).any (fun s =>
      decide ((s.party .receiver).joined ∧ s.dua .sender ≠ [] ∧
        (s.party .receiver).store.localIndexRecord = 0 ∧
        flowResult config s .receiver [(idB, 30)] = some (some []))) = true := by
    decide +kernel
  obtain ⟨s, hs, hprops⟩ := Option.any_eq_true _ _ |>.mp hrun
  exact ⟨rfl, by decide +kernel, s, hs, of_decide_eq_true hprops⟩

end Sample

end Psi
