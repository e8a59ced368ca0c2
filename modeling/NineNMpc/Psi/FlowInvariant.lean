-- SUMMARY: The invariant of the Diffie-Hellman flow: every double encryption is in exactly one place between the sender thread and the index list.
import NineNMpc.Lib.Streams
import NineNMpc.Psi.Flow

/-!
# The invariant of the flow

The ids of a party travel through six places: its own loop, the main link, the peer's
`recv_and_calcu`, the peer's queue, the peer's `send_dualenc` and the dual link. The
invariant says that the concatenation of what is in these places is the part of the
double encryptions that `recv_duaenc_local_cipher` has not looked at yet.
-/

namespace Psi

/-! ## Encryptions -/

namespace Config

variable (cfg : Config)

/-- The encryption of an id under the key of its owner `r`. -/
def encId (r : Rank) (x : Bytes) : Bytes := cfg.crypto.dh (cfg.key r) (cfg.crypto.shake256 x).1

/-- The double encryption of an id of `r`, as the peer of `r` computes it. -/
def dualId (r : Rank) (x : Bytes) : Bytes := cfg.crypto.dh (cfg.key r.next) (cfg.encId r x)

/-- The double encryptions of the rows of `r`, in row order. -/
def dual (r : Rank) : List Bytes := (cfg.ids r).map (cfg.dualId r)

theorem length_encId {r : Rank} {x : Bytes} : (cfg.encId r x).length = 32 :=
  cfg.crypto.length_dh (cfg.crypto.shake256 x).2

theorem length_dualId {r : Rank} {x : Bytes} : (cfg.dualId r x).length = 32 :=
  cfg.crypto.length_dh cfg.length_encId

theorem length_of_mem_dual {r : Rank} {b : Bytes} (h : b ∈ cfg.dual r) : b.length = 32 := by
  obtain ⟨x, _, rfl⟩ := List.mem_map.mp h
  exact cfg.length_dualId

theorem hashAndEncrypt_eq {r : Rank} {arr : List Bytes} :
    cfg.hashAndEncrypt r arr = some (arr.map (cfg.encId r)) := by
  have hlen : ∀ b ∈ cfg.crypto.hash arr, b.length = 32 := by
    intro b hb
    obtain ⟨x, _, rfl⟩ := List.mem_map.mp hb
    exact (cfg.crypto.shake256 x).2
  simp only [hashAndEncrypt, Crypto.hashToCurve, Crypto.supportHashToCurve, List.mem_singleton,
    if_true, Option.bind_eq_bind, Option.bind_some, cfg.crypto.encrypt_eq hlen]
  simp [Crypto.hash, encId]

theorem needRecvCipher_iff {r : Rank} : cfg.needRecvCipher r = cfg.needSendCipher r.next := by
  cases r <;> simp [needRecvCipher, needSendCipher, Rank.next]

end Config

/-! ## Messages -/

namespace EcdhPsiCipherBatch

/-- The points of a batch. -/
def points (msg : EcdhPsiCipherBatch) : List Bytes := msg.unmarshal.getD []

/-- The batch decodes into points of 32 bytes. -/
def Wf (msg : EcdhPsiCipherBatch) : Prop :=
  msg.unmarshal = some msg.points ∧ ∀ b ∈ msg.points, b.length = 32

theorem make_eq {type : String} {i count : Nat} {last : Bool} {c : Bytes} {msg : EcdhPsiCipherBatch}
    (h : make type i last count c = some msg) :
    msg.isLastBatch = last ∧ msg.count = count ∧ msg.ciphertext = c := by
  simp only [make] at h
  split at h
  · cases h
    exact ⟨rfl, rfl, rfl⟩
  · cases h

/-- A batch made from points decodes to these points. -/
theorem make_points {type : String} {i : Nat} {last : Bool} {b : List Bytes}
    {msg : EcdhPsiCipherBatch} (hb : ∀ p ∈ b, p.length = 32)
    (h : make type i last b.length b.flatten = some msg) :
    msg.isLastBatch = last ∧ msg.points = b ∧ msg.Wf := by
  obtain ⟨hlast, hcount, hcipher⟩ := make_eq h
  have hun : msg.unmarshal = some b := by
    simp only [unmarshal, hcount, hcipher, pointOctetFormat, Crypto.pointOctetUnmarshal_join hb]
  have hpts : msg.points = b := by simp [points, hun]
  exact ⟨hlast, hpts, by rw [hpts]; exact hun, by rw [hpts]; exact hb⟩

end EcdhPsiCipherBatch

/-! ## What each thread holds -/

namespace SendPc

def sentLast : SendPc → Bool
  | finished => true
  | _ => false

/-- The ids the loop has not sent yet. -/
def unsent (ids : List Bytes) : SendPc → List Bytes
  | loop i _ => ids.drop i
  | _ => []

end SendPc

namespace RecvPc

def gotLast : RecvPc → Bool
  | recv => false
  | putNone _ => true
  | putArray _ done => done
  | insert _ done => done
  | _ => true

def putStage : RecvPc → PutStage
  | recv => .opened
  | putNone _ => .opened
  | putArray _ done => if done then .sentinel else .opened
  | insert _ done => if done then .closed else .opened
  | _ => .closed

/-- The array that is not in the queue yet. -/
def toPut : RecvPc → List Bytes
  | putNone array => array
  | putArray array _ => array
  | _ => []

/-- The ciphers of a queued array that are not in the set yet. -/
def toInsert : RecvPc → List Bytes
  | insert rest _ => rest
  | _ => []

end RecvPc

namespace DualPc

def getStage : DualPc → GetStage
  | get _ => .reading
  | getLast _ => .atLast
  | send _ _ last => if last then .done else .reading
  | _ => .done

def sentLast : DualPc → Bool
  | finished => true
  | _ => false

def toSend : DualPc → List Bytes
  | send array _ _ => array
  | _ => []

end DualPc

namespace TakePc

def gotLast : TakePc → Bool
  | recv => false
  | wait _ done => done
  | check _ done => done
  | _ => true

def toCheck : TakePc → List Bytes
  | wait array _ => array
  | check rest _ => rest
  | _ => []

end TakePc

/-- The encryptions of `r`'s ids that the peer has not received yet. -/
def encPending (cfg : Config) (r : Rank) (pc : SendPc) (ch : List EcdhPsiCipherBatch) : List Bytes :=
  ch.flatMap (·.points) ++ (pc.unsent (cfg.ids r)).map (cfg.encId r)

/-- The double encryptions of `r`'s ids that the peer has not put into its queue yet. -/
def dualPending (cfg : Config) (r : Rank) (pc : SendPc) (ch : List EcdhPsiCipherBatch)
    (pc' : RecvPc) : List Bytes :=
  pc'.toPut ++ (encPending cfg r pc ch).map (cfg.crypto.dh (cfg.key r.next))

/-! ## The main link -/

/-- The main link from `r`, between its loop and the peer's `recv_and_calcu`. -/
structure EncInv (pc : SendPc) (ch : List EcdhPsiCipherBatch) (pc' : RecvPc) : Prop where
  wf : ∀ msg ∈ ch, msg.Wf
  marked : EndMarked (ch.map (·.isLastBatch)) pc.sentLast pc'.gotLast

/-- A message behind the others; the loop has sent the last batch with it if it is marked so. -/
theorem EncInv.append {i n : Nat} {ch : List EcdhPsiCipherBatch} {pc : SendPc} {pc' : RecvPc}
    {msg : EcdhPsiCipherBatch} (h : EncInv (.loop i n) ch pc') (hwf : msg.Wf)
    (hlast : pc.sentLast = msg.isLastBatch) : EncInv pc (ch ++ [msg]) pc' where
  wf m' hm' := by
    obtain hm' | rfl := List.mem_append.mp hm' |>.imp_right List.mem_singleton.mp
    · exact h.wf m' hm'
    · exact hwf
  marked := by
    rw [hlast, List.map_append, List.map_singleton]
    exact EndMarked.send h.marked

theorem EncInv.send {cfg : Config} {r : Rank} {i n : Nat} {ch : List EcdhPsiCipherBatch}
    {pc : SendPc} {pc' : RecvPc} {msg : EcdhPsiCipherBatch} (h : EncInv (.loop i n) ch pc')
    (hmsg : calcucipherAndSend cfg r i n = some (msg, pc)) :
    EncInv pc (ch ++ [msg]) pc' ∧
      encPending cfg r pc (ch ++ [msg]) = encPending cfg r (.loop i n) ch := by
  simp only [calcucipherAndSend] at hmsg
  split at hmsg
  case isTrue hnil =>
    -- the empty input: one last batch without points
    simp only [Option.bind_eq_bind, Option.bind_eq_some_iff, Option.some.injEq, Prod.mk.injEq] at hmsg
    obtain ⟨m, hm, rfl, rfl⟩ := hmsg
    obtain ⟨hlast, hpts, hwf⟩ := EcdhPsiCipherBatch.make_points (b := []) (by simp) hm
    have hids : cfg.ids r = [] := List.length_eq_zero_iff.mp hnil
    refine ⟨h.append hwf hlast.symm, ?_⟩
    simp [encPending, SendPc.unsent, hpts, hids]
  case isFalse hne =>
    split at hmsg
    case isTrue => cases hmsg
    simp only [cfg.hashAndEncrypt_eq, Option.bind_eq_bind, Option.bind_some,
      Option.bind_eq_some_iff, Option.some.injEq, Prod.mk.injEq] at hmsg
    obtain ⟨m, hm, rfl, hpc⟩ := hmsg
    set arr := ((cfg.ids r).drop i).take cfg.batch with harr
    rw [show arr.length = (arr.map (cfg.encId r)).length by simp] at hm
    obtain ⟨hlast, hpts, hwf⟩ := EcdhPsiCipherBatch.make_points (by
      intro b hb
      obtain ⟨x, _, rfl⟩ := List.mem_map.mp hb
      exact cfg.length_encId) hm
    have hsent : pc.sentLast = decide ((cfg.ids r).length ≤ i + cfg.batch) := by
      rw [← hpc]
      by_cases hb : (cfg.ids r).length ≤ i + cfg.batch <;> simp [hb, SendPc.sentLast]
    have hrest : pc.unsent (cfg.ids r) = (cfg.ids r).drop (i + cfg.batch) := by
      rw [← hpc]
      by_cases hb : (cfg.ids r).length ≤ i + cfg.batch
      · simp [hb, SendPc.unsent, List.drop_eq_nil_of_le hb]
      · simp [hb, SendPc.unsent]
    refine ⟨h.append hwf (hsent.trans hlast.symm), ?_⟩
    have hsplit : (cfg.ids r).drop i = arr ++ (cfg.ids r).drop (i + cfg.batch) := by
      rw [harr, ← List.drop_drop, List.take_append_drop]
    rw [encPending, hrest]
    simp only [encPending, SendPc.unsent, hsplit, List.flatMap_append, List.flatMap_cons,
      List.flatMap_nil, hpts, List.map_append, List.append_nil, List.append_assoc]

theorem EncInv.recv {pc : SendPc} {ch : List EcdhPsiCipherBatch} {pc' : RecvPc}
    {msg : EcdhPsiCipherBatch} (h : EncInv pc (msg :: ch) .recv)
    (hpc : pc'.gotLast = msg.isLastBatch) : EncInv pc ch pc' where
  wf := fun m hm => h.wf m (by simp [hm])
  marked := by
    have := h.marked
    simp only [List.map_cons, RecvPc.gotLast] at this
    rw [hpc]
    exact this.recv

/-- Where `recv_and_calcu` has seen the last batch, the main link is exhausted. -/
theorem EncInv.encPending_nil {cfg : Config} {r : Rank} {pc : SendPc}
    {ch : List EcdhPsiCipherBatch} {pc' : RecvPc} (h : EncInv pc ch pc')
    (hpc : pc'.gotLast = true) : encPending cfg r pc ch = [] := by
  have hm := h.marked
  rw [hpc] at hm
  obtain ⟨hsent, hch⟩ := hm.closed
  have hch : ch = [] := List.map_eq_nil_iff.mp hch
  cases pc with
  | loop i n => simp [SendPc.sentLast] at hsent
  | finished => simp [encPending, hch, SendPc.unsent]
  | raised => simp [SendPc.sentLast] at hsent

/-! ## From the peer's queue to the index list -/

/-- The double encryptions of `r`'s ids: `pending` before the peer's queue `q`, then the peer's
    `send_dualenc`, the dual link `ch` and the thread of `r` that compares them. -/
structure DualInv (cfg : Config) (r : Rank) (pending : List Bytes) (stage : PutStage)
    (q : List (Option (List Bytes))) (pcd : DualPc) (ch : List EcdhPsiCipherBatch) (pct : TakePc)
    (n : Nat) : Prop where
  le : n ≤ (cfg.dual r).length
  conserved : (cfg.dual r).drop n =
    pct.toCheck ++ (ch.flatMap (·.points) ++ (pcd.toSend ++ (q.flatMap (·.getD []) ++ pending)))
  wf : ∀ msg ∈ ch, msg.Wf
  queue : SentinelQueue q stage pcd.getStage
  marked : EndMarked (ch.map (·.isLastBatch)) pcd.sentLast pct.gotLast

namespace DualInv

variable {cfg : Config} {r : Rank} {pending array rest : List Bytes} {stage : PutStage}
  {q : List (Option (List Bytes))} {pcd : DualPc} {ch : List EcdhPsiCipherBatch} {pct : TakePc}
  {n i : Nat} {cipher : Bytes} {done : Bool} {msg : EcdhPsiCipherBatch}

theorem putNone (h : DualInv cfg r pending .opened q pcd ch pct n) :
    DualInv cfg r pending .sentinel (q ++ [none]) pcd ch pct n :=
  { h with
    conserved := by simpa using h.conserved
    queue := h.queue.putSentinel }

theorem put (h : DualInv cfg r (array ++ pending) .opened q pcd ch pct n) :
    DualInv cfg r pending .opened (q ++ [some array]) pcd ch pct n :=
  { h with
    conserved := by simpa using h.conserved
    queue := h.queue.put }

theorem putLast (h : DualInv cfg r (array ++ pending) .sentinel q pcd ch pct n) :
    DualInv cfg r pending .closed (q ++ [some array]) pcd ch pct n :=
  { h with
    conserved := by simpa using h.conserved
    queue := h.queue.putLast }

theorem getNone (h : DualInv cfg r pending stage (none :: q) (.get i) ch pct n) :
    DualInv cfg r pending stage q (.getLast i) ch pct n :=
  { h with
    conserved := by simpa [DualPc.toSend] using h.conserved
    queue := SentinelQueue.getSentinel h.queue }

theorem get (h : DualInv cfg r pending stage (some array :: q) (.get i) ch pct n) :
    DualInv cfg r pending stage q (.send array i false) ch pct n :=
  { h with
    conserved := by simpa [DualPc.toSend] using h.conserved
    queue := SentinelQueue.get h.queue }

theorem getLast (h : DualInv cfg r pending stage (some array :: q) (.getLast i) ch pct n) :
    DualInv cfg r pending stage q (.send array i true) ch pct n :=
  { h with
    conserved := by simpa [DualPc.toSend] using h.conserved
    queue := (SentinelQueue.getLast h.queue).2 }

theorem send (h : DualInv cfg r pending stage q (.send array i done) ch pct n)
    (hmsg : EcdhPsiCipherBatch.make "dual.enc" i done array.length array.flatten = some msg) :
    DualInv cfg r pending stage q (if done then .finished else .get (i + 1)) (ch ++ [msg]) pct n := by
  have harray : ∀ b ∈ array, b.length = 32 := by
    intro b hb
    refine cfg.length_of_mem_dual (r := r) (List.mem_of_mem_drop (i := n) ?_)
    rw [h.conserved]
    simp [DualPc.toSend, hb]
  obtain ⟨hlast, hpts, hwf⟩ := EcdhPsiCipherBatch.make_points harray hmsg
  refine { le := h.le, conserved := ?_, wf := ?_, queue := ?_, marked := ?_ }
  · rw [h.conserved]
    cases done <;> simp [DualPc.toSend, hpts]
  · intro m hm
    obtain hm | rfl := List.mem_append.mp hm |>.imp_right List.mem_singleton.mp
    · exact h.wf m hm
    · exact hwf
  · have := h.queue
    cases done <;> exact this
  · have := EndMarked.send (e := done) h.marked
    cases done <;> simpa [DualPc.sentLast, hlast] using this

theorem recv (h : DualInv cfg r pending stage q pcd (msg :: ch) .recv n) :
    DualInv cfg r pending stage q pcd ch (.wait msg.points msg.isLastBatch) n where
  le := h.le
  conserved := by simpa [TakePc.toCheck] using h.conserved
  wf := fun m hm => h.wf m (by simp [hm])
  queue := h.queue
  marked := by
    have := h.marked
    simp only [List.map_cons, TakePc.gotLast] at this
    exact this.recv

theorem take (h : DualInv cfg r pending stage q pcd ch (.check (cipher :: rest) done) n) :
    (cfg.dual r)[n]? = some cipher ∧
      DualInv cfg r pending stage q pcd ch (.check rest done) (n + 1) := by
  have hc := h.conserved
  simp only [TakePc.toCheck, List.cons_append] at hc
  have hlt : n < (cfg.dual r).length := by
    by_contra hge
    rw [List.drop_eq_nil_of_le (Nat.le_of_not_lt hge)] at hc
    cases hc
  rw [List.drop_eq_getElem_cons hlt, List.cons.injEq] at hc
  refine ⟨by rw [List.getElem?_eq_getElem hlt, hc.1], { h with le := hlt, conserved := hc.2 }⟩

/-- When the comparing thread has the last batch, nothing is left on the way to it. -/
theorem drained (h : DualInv cfg r pending stage q pcd ch pct n) (hgot : pct.gotLast = true) :
    pcd = .finished ∧ ch = [] ∧ q = [] ∧ stage = .closed := by
  have hmarked := h.marked
  rw [hgot] at hmarked
  obtain ⟨hsent, hch⟩ := hmarked.closed
  have hch : ch = [] := List.map_eq_nil_iff.mp hch
  cases pcd with
  | finished => exact ⟨rfl, hch, SentinelQueue.eq_nil h.queue, SentinelQueue.closed_of_done h.queue⟩
  | _ => simp [DualPc.sentLast] at hsent

/-- When it has compared the last batch, it has compared every row. -/
theorem length_eq (h : DualInv cfg r [] stage q pcd ch pct n) (hgot : pct.gotLast = true)
    (hcheck : pct.toCheck = []) : n = (cfg.dual r).length := by
  obtain ⟨rfl, rfl, rfl, _⟩ := h.drained hgot
  have hc := h.conserved
  simp only [hcheck, DualPc.toSend, List.flatMap_nil, List.append_nil, List.drop_eq_nil_iff] at hc
  exact Nat.le_antisymm h.le hc

end DualInv

/-! ## The set of peer ciphers and the comparison -/

/-- The set of `r`, to which the double encryptions of the peer's ids are added. -/
structure SetInv (cfg : Config) (r : Rank) (pending : List Bytes) (pc : RecvPc) (set : List Bytes)
    (event : Bool) : Prop where
  conserved : ∀ b, b ∈ set ∨ b ∈ pc.toInsert ∨ b ∈ pending ↔ b ∈ cfg.dual r.next
  event : event = true → pc = .finished

/-- The rows of `r` that have been compared, against the complete set. -/
structure TakeInv (cfg : Config) (r : Rank) (event : Bool) (pct : TakePc) (n : Nat)
    (take : List Nat) : Prop where
  event : ∀ rest done, pct = .check rest done → event = true
  take : take = (List.range n).filter fun i => (cfg.dual r)[i]?.any (· ∈ cfg.dual r.next)

theorem TakeInv.step {cfg : Config} {r : Rank} {rest set : List Bytes} {n : Nat} {idx : List Nat}
    {cipher : Bytes} {done : Bool} (h : TakeInv cfg r true (.check (cipher :: rest) done) n idx)
    (hn : (cfg.dual r)[n]? = some cipher) (hset : ∀ b, b ∈ set ↔ b ∈ cfg.dual r.next) :
    TakeInv cfg r true (.check rest done) (n + 1)
      (if cipher ∈ set then idx ++ [n] else idx) where
  event := fun _ _ _ => rfl
  take := by
    rw [List.range_succ, List.filter_append, ← h.take]
    by_cases hc : cipher ∈ set
    · have hc' := (hset cipher).mp hc
      simp [hc, hc', hn]
    · have hc' := mt (hset cipher).mpr hc
      simp [hc, hc', hn]

end Psi
