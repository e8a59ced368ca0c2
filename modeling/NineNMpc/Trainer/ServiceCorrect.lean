-- SUMMARY: The service of a trainer against any peer: messages are taken in order, answered truthfully and filed; nothing comes in before a connect of the right application, and nothing after the connect that aborts.
import NineNMpc.Trainer.Service

/-! # Correctness of the service -/

namespace Trainer

variable {δ : Type}

/-- The entry `OnReceived` files a message under. -/
def TrainerWorkerMessage.key? (m : TrainerWorkerMessage (WorkerMsg δ)) : Option CacheKey :=
  m.msg.recvKey.map (·.1)

namespace Service

variable {p : Params} {s s' t : Service δ}

/-- The messages that were answered with `SUCCESS`. -/
def successes (s : Service δ) : List (TrainerWorkerMessage (WorkerMsg δ)) :=
  (s.answers.filter (·.2 = .success)).map (·.1)

/-- What the peer may know or ask for is for this worker of this application. -/
def Addressed (p : Params) (req : ConnectRequest) : Prop :=
  req.appId = p.appliId ∧ req.workerRank = p.rankId

/-- Nothing has come in, and nothing is being loaded. -/
structure Untouched (s : Service δ) : Prop where
  linkUp : s.linkUp = false
  answers : s.answers = []
  accepted : s.accepted = []
  loading : s.loading = none
  files : s.files.received = []
  endOfFiles : s.files.endReceived = false

structure Inv (p : Params) (s : Service δ) : Prop where
  numbered : s.accepted.map (·.seqNum) = List.range s.nextRecvSeqNum
  keyed : ∀ m ∈ s.accepted, m.key?.isSome = true
  filed : s.cache.received = s.accepted.filterMap fun m => m.key?.map fun k => (k, m)
  acknowledged : s.successes = s.accepted
  duplicated : ∀ a ∈ s.answers, a.2 = .messageDuplicated → a.1.seqNum < s.nextRecvSeqNum
  peer : s.peer.received = s.connects
  addressed : ∀ req ∈ s.connects, Addressed p req
  untouched : s.connects = [] → s.Untouched
  aborting : s.aborting = true → s.linkUp = false

theorem inv_init : Inv p ({} : Service δ) where
  numbered := rfl
  keyed := by simp
  filed := rfl
  acknowledged := rfl
  duplicated := by simp
  peer := rfl
  addressed := by simp
  untouched := fun _ => ⟨rfl, rfl, rfl, rfl, rfl, rfl⟩
  aborting := by simp

/-! ## Handlers -/

theorem Inv.connectHandler (h : Inv p s) (habort : s.aborting = false) (req : ConnectRequest) :
    Inv p (connectHandler p s req).1 := by
  unfold Service.connectHandler
  split
  · split
    · exact h
    · next hto =>
      have haddr : Addressed p req := by
        simpa [Addressed, not_or] using hto
      exact {
        numbered := h.numbered
        keyed := h.keyed
        filed := h.filed
        acknowledged := h.acknowledged
        duplicated := h.duplicated
        peer := by
          rw [← h.peer]
          unfold PeerReady.onReceived
          split <;> rfl
        addressed := by
          intro req' hreq'
          rcases List.mem_append.mp hreq' with hreq' | hreq'
          · exact h.addressed req' hreq'
          · exact List.mem_singleton.mp hreq' ▸ haddr
        untouched := by simp
        aborting := by simp [habort] }
  all_goals
    exact {
      numbered := h.numbered
      keyed := h.keyed
      filed := h.filed
      acknowledged := h.acknowledged
      duplicated := h.duplicated
      peer := h.peer
      addressed := h.addressed
      untouched := fun hc => { h.untouched hc with linkUp := rfl }
      aborting := fun _ => rfl }

/-- A message with the link up: it is taken and answered with `SUCCESS`, or refused with nothing
    changed but the state of the manager. -/
theorem onMessage_cases (s : Service δ) (m : TrainerWorkerMessage (WorkerMsg δ)) :
    (s.linkUp = false ∧ s.onMessage m = (s, none)) ∨
    (s.linkUp = true ∧ m.seqNum = s.nextRecvSeqNum ∧ ∃ k cache, m.key? = some k ∧
      s.cache.onReceived m = (cache, .ok ()) ∧ cache.received = s.cache.received ++ [(k, m)] ∧
      s.onMessage m = ({ s with
        state := .started, cache, nextRecvSeqNum := s.nextRecvSeqNum + 1
        accepted := s.accepted ++ [m] }, some ⟨.success, "", s.nextRecvSeqNum + 1⟩)) ∨
    (s.linkUp = true ∧ ∃ r, s.onMessage m = ({ s with state := .started }, some r) ∧
      r.resultCode ≠ .success ∧ r.nextSeqNum = s.nextRecvSeqNum ∧
      (r.resultCode = .messageDuplicated → m.seqNum < s.nextRecvSeqNum)) := by
  cases hlink : s.linkUp with
  | false => exact .inl ⟨rfl, by simp [Service.onMessage, hlink]⟩
  | true =>
    right
    by_cases hseq : m.seqNum = s.nextRecvSeqNum
    · obtain ⟨k, w, hkey, hok, hreceived⟩ | ⟨e, herr⟩ := s.cache.onReceived_cases m
      · obtain ⟨cache, result, hc⟩ : ∃ cache result, s.cache.onReceived m = (cache, result) :=
          ⟨_, _, rfl⟩
        rw [hc] at hok hreceived
        obtain rfl : result = .ok () := hok
        refine .inl ⟨rfl, hseq, k, cache, by simp [TrainerWorkerMessage.key?, hkey], hc, hreceived, ?_⟩
        simp [Service.onMessage, stateMove, hlink, hseq, hc]
      · refine .inr ⟨rfl, ⟨.unknownError, e, s.nextRecvSeqNum⟩, ?_, by simp, rfl, by simp⟩
        simp [Service.onMessage, stateMove, hlink, hseq, herr]
    · by_cases hlt : s.nextRecvSeqNum < m.seqNum
      · refine .inr ⟨rfl, ⟨.messageMissing, "", s.nextRecvSeqNum⟩, ?_, by simp, rfl, by simp⟩
        simp [Service.onMessage, stateMove, hlink, hseq, hlt]
      · refine .inr ⟨rfl, ⟨.messageDuplicated, "", s.nextRecvSeqNum⟩, ?_, by simp, rfl, ?_⟩
        · simp [Service.onMessage, stateMove, hlink, hseq, hlt]
        · exact fun _ => by omega

theorem successes_append {m : TrainerWorkerMessage (WorkerMsg δ)} {code : ResultCode} :
    ((s.answers ++ [(m, code)]).filter (·.2 = .success)).map (·.1) =
      if code = .success then s.successes ++ [m] else s.successes := by
  by_cases hcode : code = .success <;> simp [successes, hcode]

theorem Inv.onMessage (h : Inv p s) (m : TrainerWorkerMessage (WorkerMsg δ)) :
    Inv p (answer m (s.onMessage m)) := by
  obtain ⟨-, heq⟩ | ⟨hlink, hseq, k, cache, hkey, -, hreceived, heq⟩ |
    ⟨hlink, r, heq, hcode, -, hdup⟩ := s.onMessage_cases m
  · rw [heq]
    exact h
  · rw [heq]
    exact {
      numbered := by simp [h.numbered, hseq, List.range_succ, Service.answer]
      keyed := by
        intro m' hm'
        rcases List.mem_append.mp hm' with hm' | hm'
        · exact h.keyed m' hm'
        · rw [List.mem_singleton.mp hm', hkey]
          rfl
      filed := by
        simp only [Service.answer, hreceived, h.filed, List.filterMap_append]
        simp [hkey]
      acknowledged := by
        unfold successes Service.answer
        simp only [successes_append, ↓reduceIte, h.acknowledged]
      duplicated := by
        intro a ha hd
        rcases List.mem_append.mp ha with ha | ha
        · exact Nat.lt_succ_of_lt (h.duplicated a ha hd)
        · rw [List.mem_singleton.mp ha] at hd
          cases hd
      peer := h.peer
      addressed := h.addressed
      untouched := by
        intro hc
        have := (h.untouched hc).linkUp
        simp [hlink] at this
      aborting := h.aborting }
  · rw [heq]
    exact {
      numbered := h.numbered
      keyed := h.keyed
      filed := h.filed
      acknowledged := by
        unfold successes Service.answer
        simp only [successes_append, if_neg hcode]
        exact h.acknowledged
      duplicated := by
        intro a ha hd
        rcases List.mem_append.mp ha with ha | ha
        · exact h.duplicated a ha hd
        · rw [List.mem_singleton.mp ha] at hd ⊢
          exact hdup hd
      peer := h.peer
      addressed := h.addressed
      untouched := by
        intro hc
        have := (h.untouched hc).linkUp
        simp [hlink] at this
      aborting := h.aborting }

theorem loadDataBlockHandler_cases {req : LoadDataBlock.Request}
    (hstep : loadDataBlockHandler p s req = some s') :
    s.loading = none ∧ ((s.linkUp = false ∧ s' = s) ∨
      (s.linkUp = true ∧ ((p.roleDef = "follower" ∧
          s' = { s with state := .started, loading := some req }) ∨
        (p.roleDef ≠ "follower" ∧ s' = { s with state := .started })))) := by
  unfold Service.loadDataBlockHandler at hstep
  split at hstep
  · cases hstep
  · next hload =>
    refine ⟨hload, ?_⟩
    split at hstep
    · next hdown => exact .inl ⟨by simpa using hdown, (Option.some.inj hstep).symm⟩
    · next hup =>
      refine .inr ⟨by simpa using hup, ?_⟩
      split at hstep
      · next hrole => exact .inl ⟨hrole, (Option.some.inj hstep).symm⟩
      · next hrole => exact .inr ⟨hrole, (Option.some.inj hstep).symm⟩

theorem Inv.loadDataBlockHandler {req : LoadDataBlock.Request} (h : Inv p s)
    (hstep : loadDataBlockHandler p s req = some s') : Inv p s' := by
  have hup : s.linkUp = true → s.connects ≠ [] := by
    intro hlink hc
    have := (h.untouched hc).linkUp
    simp [hlink] at this
  obtain ⟨-, ⟨-, rfl⟩ | ⟨hlink, ⟨-, rfl⟩ | ⟨-, rfl⟩⟩⟩ := loadDataBlockHandler_cases hstep
  · exact h
  · exact { h with untouched := fun hc => absurd hc (hup hlink) }
  · exact { h with untouched := fun hc => absurd hc (hup hlink) }

/-- The end of a load queues a file, or the end, or nothing. -/
theorem loaded_cases {env : LoadDataBlock.Env} (hstep : s.loaded env = some s') :
    s.loading ≠ none ∧ ∃ nextId files, s' = { s with files, loadNextId := nextId, loading := none } ∧
      (files = s.files ∨ ∃ fname endOfBlocks, files = s.files.onReceived fname endOfBlocks) := by
  unfold Service.loaded at hstep
  split at hstep
  · cases hstep
  · next req hload =>
    refine ⟨by simp [hload], ?_⟩
    split at hstep
    · exact ⟨_, _, by simpa using hstep.symm, .inl rfl⟩
    · exact ⟨_, _, by simpa using hstep.symm, .inl rfl⟩
    · next fname endOfBlocks _ =>
      exact ⟨_, _, by simpa using hstep.symm, .inr ⟨_, _, rfl⟩⟩

theorem Inv.loaded {env : LoadDataBlock.Env} (h : Inv p s) (hstep : s.loaded env = some s') :
    Inv p s' := by
  obtain ⟨hload, nextId, files, rfl, -⟩ := loaded_cases hstep
  exact { h with untouched := fun hc => absurd (h.untouched hc).loading hload }

/-! ## Calls of the local trainer -/

theorem withCache_eq_some {cache : Option (RecvCache δ)} (hstep : s.withCache cache = some s') :
    ∃ c, cache = some c ∧ s' = { s with cache := c } := by
  obtain ⟨c, hc, rfl⟩ := Option.map_eq_some_iff.mp hstep
  exact ⟨c, hc, rfl⟩

theorem withPeer_eq_some {peer : Option PeerReady} (hstep : s.withPeer peer = some s') :
    ∃ c, peer = some c ∧ s' = { s with peer := c } := by
  obtain ⟨c, hc, rfl⟩ := Option.map_eq_some_iff.mp hstep
  exact ⟨c, hc, rfl⟩

theorem withFiles_eq_some {files : Option ReadyFiles} (hstep : s.withFiles files = some s') :
    ∃ c, files = some c ∧ s' = { s with files := c } := by
  obtain ⟨c, hc, rfl⟩ := Option.map_eq_some_iff.mp hstep
  exact ⟨c, hc, rfl⟩

/-- What a call of the local trainer, or the last moment of the process, leaves as it was. -/
theorem Inv.local (h : Inv p s) (hlink : s'.linkUp = s.linkUp)
    (hseq : s'.nextRecvSeqNum = s.nextRecvSeqNum) (hcache : s'.cache.received = s.cache.received)
    (hpeer : s'.peer.received = s.peer.received) (hfiles : s'.files.received = s.files.received)
    (hend : s'.files.endReceived = s.files.endReceived) (hload : s'.loading = s.loading)
    (habort : s'.aborting = s.aborting) (hconnects : s'.connects = s.connects)
    (haccepted : s'.accepted = s.accepted) (hanswers : s'.answers = s.answers) : Inv p s' where
  numbered := by rw [haccepted, hseq]; exact h.numbered
  keyed := haccepted ▸ h.keyed
  filed := by rw [hcache, haccepted]; exact h.filed
  acknowledged := by
    unfold successes
    rw [hanswers, haccepted]
    exact h.acknowledged
  duplicated := by rw [hanswers, hseq]; exact h.duplicated
  peer := by rw [hpeer, hconnects]; exact h.peer
  addressed := hconnects ▸ h.addressed
  untouched hc := by
    have hu := h.untouched (hconnects ▸ hc)
    exact ⟨hlink ▸ hu.linkUp, hanswers ▸ hu.answers, haccepted ▸ hu.accepted, hload ▸ hu.loading,
      hfiles ▸ hu.files, hend ▸ hu.endOfFiles⟩
  aborting ha := by rw [hlink]; exact h.aborting (habort ▸ ha)

/-- A step of `QueryReadyFile` receives nothing. -/
theorem received_readyFiles {f f' : ReadyFiles} {a : ReadyFiles.Action}
    (ha : ∀ fname endOfFiles, a ≠ .onReceived fname endOfFiles) (hstep : f.step a = some f') :
    f'.received = f.received ∧ f'.endReceived = f.endReceived := by
  cases a with
  | onReceived fname endOfFiles => exact absurd rfl (ha fname endOfFiles)
  | queryReadyFile =>
    obtain rfl := Option.some.inj hstep
    exact ⟨rfl, rfl⟩
  | check i =>
    simp only [ReadyFiles.step] at hstep
    split at hstep
    · obtain rfl := Option.some.inj hstep
      unfold ReadyFiles.check
      split <;> exact ⟨rfl, rfl⟩
    · cases hstep
  | endWait i | reset i =>
    simp only [ReadyFiles.step] at hstep
    split at hstep
    · obtain rfl := Option.some.inj hstep
      exact ⟨rfl, rfl⟩
    · cases hstep

theorem stepTcq_eq_some {next : Service δ} (hstep : s.stepTcq next = some s') :
    s.aborting = false ∧ s' = next := by
  unfold Service.stepTcq at hstep
  split at hstep
  · cases hstep
  · next habort => exact ⟨by simpa using habort, (Option.some.inj hstep).symm⟩

theorem step_eq_some {a : Action δ} (hstep : step p s a = some s') : s.exited = false := by
  unfold Service.step at hstep
  split at hstep
  · cases hstep
  · next hexited => simpa using hexited

theorem Inv.withFiles {a : ReadyFiles.Action} (h : Inv p s)
    (ha : ∀ fname endOfFiles, a ≠ .onReceived fname endOfFiles)
    (hstep : s.withFiles (s.files.step a) = some s') : Inv p s' := by
  obtain ⟨files, hfiles, rfl⟩ := withFiles_eq_some hstep
  obtain ⟨hreceived, hend⟩ := received_readyFiles ha hfiles
  exact h.local rfl rfl rfl rfl hreceived hend rfl rfl rfl rfl rfl

theorem Inv.step {a : Action δ} (h : Inv p s) (hstep : step p s a = some s') : Inv p s' := by
  have hlive := step_eq_some hstep
  simp only [Service.step, hlive, Bool.false_eq_true, ↓reduceIte] at hstep
  cases a with
  | connect req =>
    obtain ⟨habort, rfl⟩ := stepTcq_eq_some hstep
    exact h.connectHandler habort req
  | transmit m | streamTransmit m =>
    obtain ⟨-, rfl⟩ := stepTcq_eq_some hstep
    exact h.onMessage m
  | loadDataBlock req => exact h.loadDataBlockHandler hstep
  | loaded env => exact h.loaded hstep
  | exit =>
    obtain ⟨-, hs⟩ := Option.ite_none_right_eq_some.mp hstep
    obtain rfl := Option.some.inj hs
    exact h.local rfl rfl rfl rfl rfl rfl rfl rfl rfl rfl rfl
  | trainStartInternal =>
    obtain rfl := Option.some.inj hstep
    exact h.local rfl rfl rfl rfl rfl rfl rfl rfl rfl rfl rfl
  | queryResult k =>
    obtain ⟨cache, hcache, rfl⟩ := withCache_eq_some hstep
    obtain rfl := Option.some.inj hcache
    exact h.local rfl rfl RecvCache.received_queryResult rfl rfl rfl rfl rfl rfl rfl rfl
  | endQuery i =>
    obtain ⟨cache, hcache, rfl⟩ := withCache_eq_some hstep
    obtain ⟨_, _, -, rfl⟩ := RecvCache.endWait_eq_some hcache
    exact h.local rfl rfl rfl rfl rfl rfl rfl rfl rfl rfl rfl
  | finishQuery i =>
    obtain ⟨cache, hcache, rfl⟩ := withCache_eq_some hstep
    obtain ⟨_, _, -, rfl⟩ := RecvCache.finish_eq_some hcache
    exact h.local rfl rfl rfl rfl rfl rfl rfl rfl rfl rfl rfl
  | waitPeerReady =>
    obtain ⟨peer, hpeer, rfl⟩ := withPeer_eq_some hstep
    obtain rfl := Option.some.inj hpeer
    refine h.local rfl rfl rfl ?_ rfl rfl rfl rfl rfl rfl rfl
    unfold PeerReady.waitPeerReady
    split <;> rfl
  | endPeerWait i =>
    obtain ⟨peer, hpeer, rfl⟩ := withPeer_eq_some hstep
    obtain ⟨_, -, rfl⟩ := PeerReady.endWait_eq_some hpeer
    exact h.local rfl rfl rfl rfl rfl rfl rfl rfl rfl rfl rfl
  | finishPeerWait i =>
    obtain ⟨peer, hpeer, rfl⟩ := withPeer_eq_some hstep
    obtain ⟨_, -, rfl⟩ := PeerReady.finish_eq_some hpeer
    exact h.local rfl rfl rfl rfl rfl rfl rfl rfl rfl rfl rfl
  | queryReadyFile | checkReadyFile i | endReadyFileWait i | resetReadyFile i =>
    exact h.withFiles (by simp) hstep

theorem inv_run {acts : List (Action δ)} (hrun : (machine δ p).run {} acts = some s) : Inv p s :=
  (machine δ p).run_invariant (fun _ _ _ h hstep => h.step hstep) hrun inv_init

theorem Inv.length_accepted (h : Inv p s) : s.accepted.length = s.nextRecvSeqNum := by
  simpa using congrArg List.length h.numbered

/-- A number below the counter is that of a message that was taken. -/
theorem Inv.exists_accepted (h : Inv p s) {n : Nat} (hn : n < s.nextRecvSeqNum) :
    ∃ m ∈ s.accepted, m.seqNum = n := by
  have hmem : n ∈ s.accepted.map (·.seqNum) := h.numbered ▸ List.mem_range.mpr hn
  obtain ⟨m, hm, rfl⟩ := List.mem_map.mp hmem
  exact ⟨m, hm, rfl⟩

/-- Whatever the peer sends, over either kind of call: the messages taken have the numbers 0, 1, 2, …,
    they are those answered with `SUCCESS`, one that is answered as a duplicate has the number of one
    of them, and all have a key and are filed under it; only connect requests for this worker are
    taken, and before the first of them no message gets an answer and no file or end of files comes
    in. -/
theorem service_takes_in_order {acts : List (Action δ)}
    (hrun : (machine δ p).run {} acts = some s) :
    s.accepted.map (·.seqNum) = List.range s.accepted.length ∧
      s.successes = s.accepted ∧
      (∀ a ∈ s.answers, a.2 = .messageDuplicated → ∃ m ∈ s.accepted, m.seqNum = a.1.seqNum) ∧
      (∀ m ∈ s.accepted, m.key?.isSome = true) ∧
      s.cache.received = s.accepted.filterMap (fun m => m.key?.map fun k => (k, m)) ∧
      s.peer.received = s.connects ∧ (∀ req ∈ s.connects, Addressed p req) ∧
      (s.connects = [] → s.Untouched) := by
  have h := inv_run hrun
  refine ⟨?_, h.acknowledged, ?_, h.keyed, h.filed, h.peer, h.addressed, h.untouched⟩
  · rw [h.length_accepted, h.numbered]
  · intro a ha hd
    exact h.exists_accepted (h.duplicated a ha hd)

/-! ## After a late connect -/

/-- The process aborts: of what came in before `s` nothing is added but the load in progress. -/
structure Closing (s t : Service δ) : Prop where
  aborting : t.aborting = true
  linkUp : t.linkUp = false
  accepted : t.accepted = s.accepted
  answers : t.answers = s.answers
  connects : t.connects = s.connects
  files : (t.files.received = s.files.received ∧ (t.loading ≠ none → s.loading ≠ none)) ∨
    (t.loading = none ∧ s.loading ≠ none ∧ ∃ fname, t.files.received = s.files.received ++ [fname])

variable {t' : Service δ}

theorem received_onReceived (f : ReadyFiles) (fname : String) (endOfFiles : Bool) :
    (f.onReceived fname endOfFiles).received = f.received ∨
      (f.onReceived fname endOfFiles).received = f.received ++ [fname] := by
  cases endOfFiles with
  | true => exact .inl rfl
  | false => exact .inr rfl

theorem Closing.local (h : Closing s t) (habort : t'.aborting = t.aborting)
    (hlink : t'.linkUp = t.linkUp) (haccepted : t'.accepted = t.accepted)
    (hanswers : t'.answers = t.answers) (hconnects : t'.connects = t.connects)
    (hfiles : t'.files.received = t.files.received) (hload : t'.loading = t.loading) :
    Closing s t' where
  aborting := habort ▸ h.aborting
  linkUp := hlink ▸ h.linkUp
  accepted := haccepted ▸ h.accepted
  answers := hanswers ▸ h.answers
  connects := hconnects ▸ h.connects
  files := by rw [hfiles, hload]; exact h.files

theorem Closing.loaded {env : LoadDataBlock.Env} (h : Closing s t) (hstep : t.loaded env = some t') :
    Closing s t' := by
  obtain ⟨hload, nextId, files, rfl, hfiles⟩ := loaded_cases hstep
  obtain ⟨hbefore, hpending⟩ := h.files.resolve_right fun hr => hload hr.1
  refine ⟨h.aborting, h.linkUp, h.accepted, h.answers, h.connects, ?_⟩
  rcases hfiles with rfl | ⟨fname, endOfBlocks, rfl⟩
  · exact .inl ⟨hbefore, by simp⟩
  · rcases received_onReceived t.files fname endOfBlocks with hsame | hmore
    · exact .inl ⟨hsame.trans hbefore, by simp⟩
    · exact .inr ⟨rfl, hpending hload, fname, by rw [hmore, hbefore]⟩

theorem Closing.step {a : Action δ} (h : Closing s t) (hstep : step p t a = some t') :
    Closing s t' := by
  have hlive := step_eq_some hstep
  simp only [Service.step, hlive, Bool.false_eq_true, ↓reduceIte] at hstep
  cases a with
  | connect req | transmit m | streamTransmit m =>
    -- the first thread is gone
    have := (stepTcq_eq_some hstep).1
    simp [h.aborting] at this
  | loadDataBlock req =>
    obtain ⟨-, ⟨-, rfl⟩ | ⟨hup, -⟩⟩ := loadDataBlockHandler_cases hstep
    · exact h
    · simp [h.linkUp] at hup
  | loaded env => exact h.loaded hstep
  | exit =>
    obtain ⟨-, hs⟩ := Option.ite_none_right_eq_some.mp hstep
    obtain rfl := Option.some.inj hs
    exact h.local rfl rfl rfl rfl rfl rfl rfl
  | trainStartInternal =>
    obtain rfl := Option.some.inj hstep
    exact h.local rfl rfl rfl rfl rfl rfl rfl
  | queryResult k | endQuery i | finishQuery i =>
    obtain ⟨cache, -, rfl⟩ := withCache_eq_some hstep
    exact h.local rfl rfl rfl rfl rfl rfl rfl
  | waitPeerReady | endPeerWait i | finishPeerWait i =>
    obtain ⟨peer, -, rfl⟩ := withPeer_eq_some hstep
    exact h.local rfl rfl rfl rfl rfl rfl rfl
  | queryReadyFile | checkReadyFile i | endReadyFileWait i | resetReadyFile i =>
    obtain ⟨files, hfiles, rfl⟩ := withFiles_eq_some hstep
    exact h.local rfl rfl rfl rfl rfl (received_readyFiles (by simp) hfiles).1 rfl

/-- A connect that comes once training has started closes the service: whatever follows, no message is
    taken or answered and no connect is taken any more, the link stays down, and of the data blocks at
    most the one that was being loaded still comes in. -/
theorem late_connect_closes {req : ConnectRequest} {after : List (Action δ)}
    (hlate : s.state ≠ .new) (hrun : (machine δ p).run s (.connect req :: after) = some t) :
    t.linkUp = false ∧ t.accepted = s.accepted ∧ t.answers = s.answers ∧ t.connects = s.connects ∧
      (t.files.received = s.files.received ∨
        s.loading ≠ none ∧ ∃ fname, t.files.received = s.files.received ++ [fname]) := by
  obtain ⟨u, hconnect, hafter⟩ := (machine δ p).run_cons.mp hrun
  have hu : Closing s u := by
    change step p s (.connect req) = some u at hconnect
    have hlive := step_eq_some hconnect
    simp only [Service.step, hlive, Bool.false_eq_true, ↓reduceIte] at hconnect
    obtain ⟨-, rfl⟩ := stepTcq_eq_some hconnect
    unfold connectHandler
    split
    · next hnew => exact absurd hnew hlate
    all_goals exact ⟨rfl, rfl, rfl, rfl, rfl, .inl ⟨rfl, id⟩⟩
  have ht : Closing s t :=
    (machine δ p).run_invariant (fun _ _ _ h hstep => h.step hstep) hafter hu
  refine ⟨ht.linkUp, ht.accepted, ht.answers, ht.connects, ?_⟩
  rcases ht.files with ⟨hsame, -⟩ | ⟨-, hload, hmore⟩
  · exact .inl hsame
  · exact .inr ⟨hload, hmore⟩

namespace Sample

def params : Params := ⟨"app", 0, "follower"⟩

def peer : ConnectRequest := ⟨"app", 0, "1"⟩

def tensor (seqNum : Nat) : TrainerWorkerMessage (WorkerMsg Nat) := ⟨seqNum, .data "w" seqNum⟩

/-- A message before the connect, a connect of another rank, a message over either kind of call, one
    that has to wait for the consumer, a duplicate and a gap, and the begin of a load. -/
def before : List (Action Nat) :=
  [.streamTransmit (tensor 0), .connect ⟨"app", 1, "0"⟩, .connect peer, .transmit (tensor 0),
    .streamTransmit (tensor 1), .queryResult (dataKey "w"), .streamTransmit (tensor 1),
    .transmit (tensor 0), .transmit (tensor 3), .loadDataBlock ⟨0, "block-0"⟩]

/-- The peer has restarted: it connects again. -/
def after : List (Action Nat) := [.loaded LoadDataBlock.Sample.env, .exit]

theorem before_in_order : ∃ s, (machine Nat params).run {} before = some s ∧
    s.accepted = [tensor 0, tensor 1] ∧
    s.accepted.map (·.seqNum) = List.range s.accepted.length ∧ s.successes = s.accepted ∧
    (∀ a ∈ s.answers, a.2 = .messageDuplicated → ∃ m ∈ s.accepted, m.seqNum = a.1.seqNum) ∧
    (∀ m ∈ s.accepted, m.key?.isSome = true) ∧
    s.cache.received = s.accepted.filterMap (fun m => m.key?.map fun k => (k, m)) ∧
    s.peer.received = s.connects ∧ (∀ req ∈ s.connects, Addressed params req) ∧
    (s.connects = [] → s.Untouched) :=
  ⟨_, rfl, rfl, @service_takes_in_order _ _ _ before rfl⟩

theorem after_closed : ∃ s t, (machine Nat params).run {} before = some s ∧
    (machine Nat params).run s (.connect ⟨"app", 0, "2"⟩ :: after) = some t ∧
    t.files.received = s.files.received ++ ["/data/block"] ∧
    t.linkUp = false ∧ t.accepted = s.accepted ∧ t.answers = s.answers ∧ t.connects = s.connects ∧
    (t.files.received = s.files.received ∨
      s.loading ≠ none ∧ ∃ fname, t.files.received = s.files.received ++ [fname]) := by
  refine ⟨_, _, rfl, rfl, rfl, ?_⟩
  exact @late_connect_closes _ params _ _ ⟨"app", 0, "2"⟩ after (by decide) rfl

end Sample

end Service

end Trainer
