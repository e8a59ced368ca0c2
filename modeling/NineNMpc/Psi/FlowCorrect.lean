-- SUMMARY: Every interleaving of the Diffie-Hellman flow that runs to the end returns exactly the intersection.
import NineNMpc.Psi.FlowSteps
import Mathlib.Data.Set.Function

/-!
# Correctness of the flow

When all threads have finished, the index list of a receiving party is the list of
its rows whose double encryption the peer also has. With commuting multiplications
and no collision of double encryptions these are the rows whose id the peer has.
-/

namespace Psi

variable {cfg : Config} {s s' : Sys}

/-! ## Runs -/

/-- The invariant, up to the first exception. -/
def Sys.Safe (cfg : Config) (s : Sys) : Prop :=
  (∃ r, (s.party r).isRaised = true) ∨ ∀ r, s.Inv cfg r

theorem step_safe {a : Action} (h : s.Safe cfg) (hs : (flow cfg).step s a = some s') : s'.Safe cfg := by
  obtain ⟨r, hr⟩ | h := h
  · exact .inl (step_raised hs hr)
  · by_cases hok : ∃ r, (s'.party r).isRaised = true
    · exact .inl hok
    · simp only [not_exists, Bool.not_eq_true] at hok
      refine .inr ?_
      cases a with
      | raise q t =>
        have := raiseIn_raised hs
        rw [hok q] at this
        cases this
      | step q t =>
        cases t with
        | calcuSend => exact stepCalcuSend_inv h hs hok
        | recvCalcu => exact stepRecvCalcu_inv h hs
        | sendDualenc => exact stepSendDualenc_inv h hs hok
        | recvDualenc => exact stepRecvDualenc_inv h hs hok

theorem run_safe {as : List Action} (hrun : (flow cfg).run (init cfg) as = some s) : s.Safe cfg :=
  (flow cfg).run_invariant (fun _ _ _ => step_safe) hrun (.inr (init_inv cfg))

theorem Party.isRaised_of_finished {p : Party} (h : p.finished) : p.isRaised = false := by
  obtain ⟨h₁, h₂, h₃, h₄⟩ := h
  simp [isRaised, h₁, h₂, h₃, h₄, SendPc.isRaised, RecvPc.isRaised, DualPc.isRaised, TakePc.isRaised]

/-- At the end of a complete run the index list is complete. -/
theorem localTakeIndex_of_finished {as : List Action} {r : Rank}
    (hrun : (flow cfg).run (init cfg) as = some s) (hfin : ∀ r, (s.party r).finished)
    (hr : cfg.needRecvCipher r = true) :
    (s.party r).store.localTakeIndex = (List.range (cfg.ids r).length).filter fun i =>
      (cfg.dual r)[i]?.any (· ∈ cfg.dual r.next) := by
  obtain ⟨q, hq⟩ | hinv := run_safe hrun
  · rw [Party.isRaised_of_finished (hfin q)] at hq
    cases hq
  · have hdual := (hinv r).dual hr
    have henc := (hinv r).enc
    have hrecv := (hfin r.next).2.1
    rw [hrecv] at henc
    simp only [Sys.pending, dualPending, hrecv, henc.encPending_nil rfl, RecvPc.toPut,
      List.map_nil, List.append_nil, (hfin r).2.2.2] at hdual
    have hn : (s.party r).store.localIndexRecord = (cfg.ids r).length := by
      rw [hdual.length_eq rfl rfl, Config.dual, List.length_map]
    rw [((hinv r).take hr).take, hn]

/-! ## Double encryptions and ids -/

/-- `k(lP) = l(kP)`. -/
def Crypto.Commutes (C : Crypto) : Prop :=
  ∀ k l p, C.mul k (C.mul l p) = C.mul l (C.mul k p)

/-- The double encryption of an id, under the two keys of the configuration. -/
def Config.commonId (cfg : Config) (x : Bytes) : Point :=
  cfg.crypto.mul (cfg.key .sender) (cfg.crypto.mul (cfg.key .receiver) (cfg.crypto.shake256 x))

/-- No two ids of the two parties have the same double encryption. -/
def Config.NoCollision (cfg : Config) : Prop :=
  Set.InjOn cfg.commonId {x | ∃ r, x ∈ cfg.ids r}

/-- The two parties encrypt in opposite orders and get the same point. -/
theorem Config.dualId_eq (hcomm : cfg.crypto.Commutes) {r : Rank} {x : Bytes} :
    cfg.dualId r x = (cfg.commonId x).1 := by
  cases r with
  | sender =>
    simp only [dualId, encId, commonId, Crypto.dh_val, Rank.next]
    rw [hcomm]
  | receiver => simp only [dualId, encId, commonId, Crypto.dh_val, Rank.next]

theorem Config.dualId_mem_dual (hcomm : cfg.crypto.Commutes) (hinj : cfg.NoCollision) {r : Rank}
    {x : Bytes} (hx : x ∈ cfg.ids r) : cfg.dualId r x ∈ cfg.dual r.next ↔ x ∈ cfg.ids r.next := by
  simp only [dual, List.mem_map]
  constructor
  · rintro ⟨y, hy, hxy⟩
    rw [cfg.dualId_eq hcomm, cfg.dualId_eq hcomm] at hxy
    have : y = x := hinj ⟨r.next, hy⟩ ⟨r, hx⟩ (Subtype.ext hxy)
    exact this ▸ hy
  · intro hx'
    exact ⟨x, hx', by rw [cfg.dualId_eq hcomm, cfg.dualId_eq hcomm]⟩

/-- What a receiving party keeps of its rows when all of them have been compared. -/
theorem flowResult_of_localTakeIndex {ρ : Type} {rowId : ρ → Bytes} {rows : List ρ} {r : Rank}
    (hcomm : cfg.crypto.Commutes) (hinj : cfg.NoCollision) (hrows : rows.map rowId = cfg.ids r)
    (hr : cfg.needRecvCipher r = true)
    (htake : (s.party r).store.localTakeIndex = (List.range (cfg.ids r).length).filter fun i =>
      (cfg.dual r)[i]?.any (· ∈ cfg.dual r.next)) :
    flowResult cfg s r rows = some (some (rows.filter fun row => rowId row ∈ cfg.ids r.next)) := by
  have hlen : (cfg.ids r).length = rows.length := by rw [← hrows, List.length_map]
  rw [hlen] at htake
  have hmap := List.mapM_getElem?_filter_range (l := rows)
    (p := fun i => (cfg.dual r)[i]?.any (· ∈ cfg.dual r.next))
    (q := fun row => decide (rowId row ∈ cfg.ids r.next)) (by
      intro i row hrow
      have hid : (cfg.ids r)[i]? = some (rowId row) := by simp [← hrows, hrow]
      have hdual : (cfg.dual r)[i]? = some (cfg.dualId r (rowId row)) := by simp [Config.dual, hid]
      rw [hdual, Option.any_some]
      exact decide_eq_decide.mpr (cfg.dualId_mem_dual hcomm hinj (List.mem_of_getElem? hid)))
  simp only [flowResult, hr, if_true, htake, hmap, Option.map_some]

/-- What a receiving party keeps of its rows. -/
theorem flowResult_of_needRecvCipher {ρ : Type} {rowId : ρ → Bytes} {rows : List ρ} {r : Rank}
    {as : List Action} (hcomm : cfg.crypto.Commutes) (hinj : cfg.NoCollision)
    (hrows : rows.map rowId = cfg.ids r) (hrun : (flow cfg).run (init cfg) as = some s)
    (hfin : ∀ r, (s.party r).finished) (hr : cfg.needRecvCipher r = true) :
    flowResult cfg s r rows = some (some (rows.filter fun row => rowId row ∈ cfg.ids r.next)) :=
  flowResult_of_localTakeIndex hcomm hinj hrows hr (localTakeIndex_of_finished hrun hfin hr)

/-- The flow computes the intersection, whatever the interleaving. -/
theorem diffieHellmanFlow_intersection {ρ : Type} (rowId : ρ → Bytes) (rows : Rank → List ρ)
    {as : List Action} (hcomm : cfg.crypto.Commutes) (hinj : cfg.NoCollision)
    (hrows : ∀ r, (rows r).map rowId = cfg.ids r)
    (hrun : (flow cfg).run (init cfg) as = some s) (hfin : ∀ r, (s.party r).finished) :
    (cfg.resultToRank = -1 → ∀ r, flowResult cfg s r (rows r) =
      some (some ((rows r).filter fun row => rowId row ∈ cfg.ids r.next))) ∧
    (cfg.resultToRank = receiverRank →
      flowResult cfg s .receiver (rows .receiver) =
        some (some ((rows .receiver).filter fun row => rowId row ∈ cfg.ids .sender)) ∧
      flowResult cfg s .sender (rows .sender) = some none) := by
  refine ⟨fun hrank r => ?_, fun hrank => ⟨?_, ?_⟩⟩
  · exact flowResult_of_needRecvCipher hcomm hinj (hrows r) hrun hfin (by
      simp [Config.needRecvCipher, hrank])
  · exact flowResult_of_needRecvCipher (r := .receiver) hcomm hinj (hrows _) hrun hfin (by
      simp [Config.needRecvCipher])
  · simp [flowResult, Config.needRecvCipher, hrank, receiverRank]

/-! ## A complete run -/

namespace Sample

inductive Id where
  | a
  | b
  deriving DecidableEq

/-- SHAKE-256 of `"a"` and `"b"`, and its multiples by two, by three and by six on the curve. -/
def point : Id → Bool → Bool → Point
  | .a, false, false =>
    ⟨[134, 126, 44, 176, 79, 90, 4, 220, 189, 89, 37, 1, 165, 232, 254, 156, 234, 175, 202,
      80, 37, 86, 38, 202, 115, 108, 19, 128, 66, 83, 11, 164], rfl⟩
  | .a, true, false =>
    ⟨[79, 19, 188, 80, 173, 158, 104, 47, 151, 215, 104, 249, 9, 176, 134, 20, 196, 208, 65,
      191, 187, 217, 108, 181, 139, 225, 183, 58, 186, 64, 126, 43], rfl⟩
  | .a, false, true =>
    ⟨[213, 30, 251, 170, 83, 97, 29, 235, 164, 68, 241, 117, 122, 83, 87, 109, 115, 138, 27,
      95, 215, 154, 45, 61, 47, 210, 241, 244, 191, 161, 147, 89], rfl⟩
  | .a, true, true =>
    ⟨[29, 241, 237, 186, 69, 60, 38, 144, 178, 166, 84, 133, 8, 24, 253, 242, 84, 114, 245,
      36, 29, 20, 253, 61, 232, 201, 174, 149, 172, 121, 10, 36], rfl⟩
  | .b, false, false =>
    ⟨[229, 121, 99, 81, 245, 156, 98, 100, 172, 24, 102, 218, 23, 11, 121, 222, 4, 206, 203,
      99, 23, 222, 107, 5, 202, 8, 228, 42, 191, 50, 199, 133], rfl⟩
  | .b, true, false =>
    ⟨[76, 41, 184, 13, 192, 57, 164, 170, 228, 7, 127, 174, 58, 161, 58, 40, 190, 121, 11,
      201, 1, 67, 195, 161, 81, 67, 121, 12, 248, 157, 70, 38], rfl⟩
  | .b, false, true =>
    ⟨[6, 128, 184, 185, 217, 129, 115, 205, 54, 188, 150, 217, 97, 159, 231, 45, 107, 117, 27,
      69, 209, 137, 245, 189, 185, 22, 58, 127, 83, 11, 89, 27], rfl⟩
  | .b, true, true =>
    ⟨[2, 84, 109, 243, 187, 205, 224, 124, 144, 6, 85, 169, 155, 90, 116, 170, 131, 140, 13,
      218, 149, 97, 251, 109, 28, 203, 193, 162, 133, 233, 146, 108], rfl⟩

def table : List (Id × Bool × Bool) :=
  [.a, .b].flatMap fun x => [(x, false, false), (x, true, false), (x, false, true), (x, true, true)]

def classify (p : Point) : Option (Id × Bool × Bool) :=
  table.find? fun m => point m.1 m.2.1 m.2.2 = p

/-- The scalars two (`false`) and three (`true`); on other points the table says nothing. -/
def mul (k : Bool) (p : Point) : Point :=
  match classify p with
  | some (x, two, three) => point x (two || !k) (three || k)
  | none => p

theorem classify_point {x : Id} {two three : Bool} :
    classify (point x two three) = some (x, two, three) := by
  cases x <;> cases two <;> cases three <;> decide +kernel

theorem mul_comm {k l : Bool} {p : Point} : mul k (mul l p) = mul l (mul k p) := by
  cases hp : classify p with
  | none => simp [mul, hp]
  | some m =>
    obtain ⟨x, two, three⟩ := m
    simp only [mul, hp, classify_point]
    cases k <;> cases l <;> simp

/-- The bytes of `"a"` and of `"b"`. -/
def idA : Bytes := [97]

def idB : Bytes := [98]

def crypto : Crypto where
  Scalar := Bool
  shake256 := fun x => if x = idA then point .a false false else point .b false false
  mul := mul

/-- The sender has `"a", "b"`, the receiver has `"b"`, and every batch has one id. -/
def config : Config where
  crypto := crypto
  ids
    | .sender => [idA, idB]
    | .receiver => [idB]
  key
    | .sender => false
    | .receiver => true
  batch := 1
  resultToRank := -1

theorem noCollision : config.NoCollision := by
  have hdistinct : config.commonId idA ≠ config.commonId idB := by decide +kernel
  rintro x ⟨q, hx⟩ y ⟨r, hy⟩ hxy
  have hx : x = idA ∨ x = idB := by cases q <;> simp [config] at hx <;> tauto
  have hy : y = idA ∨ y = idB := by cases r <;> simp [config] at hy <;> tauto
  obtain rfl | rfl := hx <;> obtain rfl | rfl := hy
  · rfl
  · exact absurd hxy hdistinct
  · exact absurd hxy.symm hdistinct
  · rfl

def repeated (n : Nat) (r : Rank) (t : Thread) : List Action := List.replicate n (.step r t)

/-- The receiver takes the first batch before the sender's second one is on the link. -/
def schedule : List Action :=
  repeated 1 .sender .calcuSend ++ repeated 3 .receiver .recvCalcu ++
    repeated 1 .sender .calcuSend ++ repeated 1 .receiver .calcuSend ++
    repeated 2 .receiver .sendDualenc ++ repeated 1 .sender .recvDualenc ++
    repeated 5 .sender .recvCalcu ++ repeated 6 .receiver .recvCalcu ++
    repeated 3 .sender .sendDualenc ++ repeated 3 .receiver .sendDualenc ++
    repeated 7 .sender .recvDualenc ++ repeated 4 .receiver .recvDualenc

/-- The complete run, in which both parties keep the row of `"b"`. -/
theorem intersection_sample : ∃ s, (flow config).run (init config) schedule = some s ∧
    (∀ r, (s.party r).finished) ∧
    flowResult config s .sender [(idA, 10), (idB, 20)] = some (some [(idB, 20)]) ∧
    flowResult config s .receiver [(idB, 30)] = some (some [(idB, 30)]) := by
  have hsome : ((flow config).run (init config) schedule).isSome = true := by decide +kernel
  obtain ⟨s, hs⟩ := Option.isSome_iff_exists.mp hsome
  have hfinished : ((flow config).run (init config) schedule).any (fun s =>
      decide (s.party .sender).finished && decide (s.party .receiver).finished) = true := by
    decide +kernel
  rw [hs, Option.any_some, Bool.and_eq_true, decide_eq_true_iff, decide_eq_true_iff] at hfinished
  have hfin : ∀ r, (s.party r).finished := by
    intro r
    cases r with
    | sender => exact hfinished.1
    | receiver => exact hfinished.2
  have := diffieHellmanFlow_intersection Prod.fst
    (fun r => match r with
      | .sender => [(idA, 10), (idB, 20)]
      | .receiver => [(idB, 30)])
    (fun _ _ _ => mul_comm) noCollision (by intro r; cases r <;> rfl) hs hfin
  refine ⟨s, hs, hfin, ?_, ?_⟩
  · exact (this.1 rfl .sender).trans (by decide +kernel)
  · exact (this.1 rfl .receiver).trans (by decide +kernel)

end Sample

end Psi
