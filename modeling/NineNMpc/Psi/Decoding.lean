-- SUMMARY: The decoding of a cipher batch by recv_and_calcu, and when it is exact; what the peer's own loop sends is decoded exactly in every run.
import NineNMpc.Psi.FlowCorrect

/-!
# Decoding a cipher batch

`recv_and_calcu` of `interconnection_psi/flow.py` up to the points of
`calcu_add_peer_cipher`. The size of a block is the quotient of the length by the peer's
count. Nothing compares the two: bytes behind the last block are dropped, and with count 0
all of them.
-/

namespace Psi

namespace Crypto

variable (C : Crypto)

/-- The argument `count`, an `int32` of the message; a negative one raises. -/
def usize (count : Int) : Option Nat := if 0 ≤ count then some count.toNat else none

/-- The blocks of a batch, and what `diffie_hellman` makes of them. -/
def decode (k : C.Scalar) (ciphertext : Bytes) (count : Int) : Option (List Bytes × List Bytes) := do
  let count ← usize count
  let blocks ← pointOctetUnmarshal pointOctetFormat ciphertext count
  let array ← C.diffieHellman k blocks
  return (blocks, array)

/-- What the receiving thread does with a message. -/
theorem decode_eq_unmarshal {k : C.Scalar} {msg : EcdhPsiCipherBatch} :
    (C.decode k msg.ciphertext msg.count).map (·.2) = msg.unmarshal >>= C.diffieHellman k := by
  have hcount : usize msg.count = some msg.count := by simp [usize]
  simp only [decode, hcount, Option.bind_eq_bind, Option.bind_some, EcdhPsiCipherBatch.unmarshal]
  cases pointOctetUnmarshal pointOctetFormat msg.ciphertext msg.count with
  | none => rfl
  | some blocks =>
    simp only [Option.bind_some]
    cases C.diffieHellman k blocks <;> rfl

variable {C} {k : C.Scalar} {ciphertext : Bytes} {count : Int} {n : Nat} {blocks array : List Bytes}

theorem pointOctetUnmarshal_eq : pointOctetUnmarshal pointOctetFormat ciphertext n =
    some (List.slices (ciphertext.length / n) n ciphertext) := by
  simp only [pointOctetUnmarshal, supportCurvePointOctet, pointOctetFormat, List.mem_singleton, if_true]
  split
  · next hn => rw [hn, List.slices_zero]
  · rfl

/-- The blocks are points when the quotient is 32, or there are none. -/
theorem forall_length_iff : (∀ b ∈ List.slices (ciphertext.length / n) n ciphertext, b.length = 32) ↔
    n = 0 ∨ ciphertext.length / n = 32 := by
  have hlen : ∀ b ∈ List.slices (ciphertext.length / n) n ciphertext,
      b.length = ciphertext.length / n := fun b hb =>
    List.length_of_mem_slices (Nat.mul_div_le _ _) hb
  constructor
  · intro h
    match n with
    | 0 => exact .inl rfl
    | n + 1 =>
      have hfirst : ciphertext.take (ciphertext.length / (n + 1)) ∈
          List.slices (ciphertext.length / (n + 1)) (n + 1) ciphertext := by
        rw [List.slices_succ]
        exact List.mem_cons_self
      exact .inr ((hlen _ hfirst).symm.trans (h _ hfirst))
  · rintro (rfl | hq) b hb
    · cases hb
    · exact (hlen b hb).trans hq

/-- What is decoded, and when. -/
theorem decode_eq_some_iff : C.decode k ciphertext n = some (blocks, array) ↔
    (n = 0 ∨ ciphertext.length / n = 32) ∧ blocks = List.slices 32 n ciphertext ∧
      array = blocks.map (C.dh k) := by
  have hcount : usize n = some n := by simp [usize]
  have hslices : n = 0 ∨ ciphertext.length / n = 32 →
      List.slices (ciphertext.length / n) n ciphertext = List.slices 32 n ciphertext := by
    rintro (rfl | hq)
    · rfl
    · rw [hq]
  simp only [decode, hcount, pointOctetUnmarshal_eq, Option.bind_eq_bind, Option.bind_some,
    Option.bind_eq_some_iff, Option.pure_def, Option.some.injEq, Prod.mk.injEq,
    diffieHellman_eq_some_iff, forall_length_iff]
  constructor
  · rintro ⟨_, ⟨hq, rfl⟩, rfl, rfl⟩
    exact ⟨hq, hslices hq, rfl⟩
  · rintro ⟨hq, rfl, rfl⟩
    exact ⟨_, ⟨hq, rfl⟩, hslices hq, by rw [hslices hq]⟩

theorem decode_of_neg (h : count < 0) : C.decode k ciphertext count = none := by
  simp [decode, usize, Int.not_le.mpr h]

/-! ## Exact batches -/

/-- What is decoded are `count` points that make up the ciphertext, any other length is rejected, and
    an encrypted array that was joined is decoded. -/
structure DecodesExactly (C : Crypto) (k : C.Scalar) (ciphertext : Bytes) (count : Int) : Prop where
  exact : ∀ blocks array, C.decode k ciphertext count = some (blocks, array) →
    (blocks.length : Int) = count ∧ (∀ b ∈ blocks, b.length = 32) ∧ blocks.flatten = ciphertext
  rejected : (ciphertext.length : Int) ≠ 32 * count → C.decode k ciphertext count = none
  undoes : ∀ key points enc, C.encrypt key points = some enc → enc.flatten = ciphertext →
    (enc.length : Int) = count → ∃ array, C.decode k ciphertext count = some (enc, array)

/-- Points that are joined are decoded again. -/
theorem decode_flatten (h : ∀ b ∈ blocks, b.length = 32) :
    C.decode k blocks.flatten blocks.length = some (blocks, blocks.map (C.dh k)) := by
  refine decode_eq_some_iff.mpr ⟨?_, (List.slices_flatten h).symm, rfl⟩
  by_cases hnil : blocks = []
  · exact .inl (by simp [hnil])
  · rw [List.length_flatten_of_uniform h]
    exact .inr (Nat.mul_div_cancel_left _ (List.length_pos_iff.mpr hnil))

theorem length_of_encrypt {points enc : List Bytes} (h : C.encrypt k points = some enc) :
    ∀ b ∈ enc, b.length = 32 := by
  obtain ⟨hlen, rfl⟩ := C.diffieHellman_eq_some_iff.mp h
  intro b hb
  obtain ⟨p, hp, rfl⟩ := List.mem_map.mp hb
  exact C.length_dh (hlen p hp)

/-- A batch of 32 bytes for each block is decoded exactly. -/
theorem decode_of_length (h : ciphertext.length = 32 * n) :
    ∃ blocks array, C.decode k ciphertext n = some (blocks, array) ∧ blocks.length = n ∧
      (∀ b ∈ blocks, b.length = 32) ∧ blocks.flatten = ciphertext := by
  refine ⟨List.slices 32 n ciphertext, _, decode_eq_some_iff.mpr ⟨?_, rfl, rfl⟩, List.length_slices,
    fun b hb => List.length_of_mem_slices (by omega) hb, ?_⟩
  · rcases Nat.eq_zero_or_pos n with hn | hn
    · exact .inl hn
    · exact .inr (by rw [h, Nat.mul_div_cancel _ hn])
  · rw [List.flatten_slices, List.take_of_length_le (by omega)]

/-- The other lengths that are decoded: the quotient does not see the bytes that are left over. -/
theorem length_of_decode (h : C.decode k ciphertext n = some (blocks, array)) :
    n = 0 ∨ 32 * n ≤ ciphertext.length ∧ ciphertext.length < 33 * n := by
  obtain ⟨hn | hq, -, -⟩ := decode_eq_some_iff.mp h
  · exact .inl hn
  · rcases Nat.eq_zero_or_pos n with hn | hn
    · exact .inl hn
    · have hbounds := (Nat.div_eq_iff hn).mp hq
      exact .inr (by omega)

theorem decodesExactly_of_neg (h : count < 0) : DecodesExactly C k ciphertext count where
  exact blocks array hd := by
    rw [decode_of_neg h] at hd
    cases hd
  rejected _ := decode_of_neg h
  undoes key points enc _ _ hlen := by
    have hpos := Int.natCast_nonneg enc.length
    omega

/-- A decoded batch of the right length is exact. -/
theorem exact_of_decode (hlen : ciphertext.length = 32 * n)
    (h : C.decode k ciphertext n = some (blocks, array)) :
    blocks.length = n ∧ (∀ b ∈ blocks, b.length = 32) ∧ blocks.flatten = ciphertext := by
  obtain ⟨blocks', array', hd, hexact⟩ := decode_of_length (C := C) (k := k) hlen
  rw [h, Option.some.injEq, Prod.mk.injEq] at hd
  rw [hd.1]
  exact hexact

/-- A batch is decoded exactly if only the length of `count` points is decoded. -/
theorem decodesExactly_of_length (hlen : ∀ blocks array,
    C.decode k ciphertext n = some (blocks, array) → ciphertext.length = 32 * n) :
    DecodesExactly C k ciphertext n where
  exact blocks array hd := by
    obtain ⟨hn, hexact⟩ := exact_of_decode (hlen blocks array hd) hd
    exact ⟨congrArg Nat.cast hn, hexact⟩
  rejected hne := by
    refine Option.eq_none_iff_forall_ne_some.mpr fun ⟨blocks, array⟩ hd => hne ?_
    rw [hlen blocks array hd]
    rfl
  undoes key points enc henc hjoin hcount := by
    rw [← hjoin, ← hcount]
    exact ⟨_, decode_flatten (length_of_encrypt henc)⟩

/-- The batches that are decoded exactly: not those of count 0 with a ciphertext, and not those with
    fewer than `count` bytes behind the last point. -/
theorem decodesExactly_iff (C : Crypto) (k : C.Scalar) (ciphertext : Bytes) (count : Int) :
    DecodesExactly C k ciphertext count ↔
      (count = 0 → ciphertext = []) ∧
        ¬ (32 * count < ciphertext.length ∧ (ciphertext.length : Int) < 33 * count) := by
  constructor
  · intro h
    refine ⟨?_, ?_⟩
    · rintro rfl
      have hd : C.decode k ciphertext (0 : Nat) = some ([], []) :=
        decode_eq_some_iff.mpr ⟨.inl rfl, rfl, rfl⟩
      exact (h.exact [] [] hd).2.2.symm
    · rintro ⟨hlt, hlt'⟩
      obtain ⟨n, rfl⟩ := Int.eq_ofNat_of_zero_le (show 0 ≤ count by omega)
      have hq : ciphertext.length / n = 32 := (Nat.div_eq_iff (by omega)).mpr (by omega)
      have hd : C.decode k ciphertext n = some (_, _) :=
        decode_eq_some_iff.mpr ⟨.inr hq, rfl, rfl⟩
      rw [h.rejected (by omega)] at hd
      cases hd
  · rintro ⟨hzero, hbounds⟩
    rcases Int.lt_or_le count 0 with hneg | hpos
    · exact decodesExactly_of_neg hneg
    obtain ⟨n, rfl⟩ := Int.eq_ofNat_of_zero_le hpos
    refine decodesExactly_of_length fun blocks array hd => ?_
    rcases length_of_decode hd with rfl | hn
    · rw [hzero rfl]
      rfl
    · omega

end Crypto

/-! ## The messages of the peer's own loop -/

variable {cfg : Config} {s s' : Sys}

/-- The sender counts the points that it joins. -/
theorem length_of_calcucipherAndSend {r : Rank} {i n : Nat} {msg : EcdhPsiCipherBatch} {pc : SendPc}
    (h : calcucipherAndSend cfg r i n = some (msg, pc)) : msg.ciphertext.length = 32 * msg.count := by
  simp only [calcucipherAndSend, cfg.hashAndEncrypt_eq, Option.bind_eq_bind, Option.bind_some] at h
  split at h
  · obtain ⟨m, hm, hmsg⟩ := Option.bind_eq_some_iff.mp h
    obtain ⟨rfl, -⟩ := Prod.mk.inj (Option.some.inj hmsg)
    obtain ⟨-, hcount, hcipher⟩ := EcdhPsiCipherBatch.make_eq hm
    simp [hcount, hcipher]
  · split at h
    · cases h
    · obtain ⟨m, hm, hmsg⟩ := Option.bind_eq_some_iff.mp h
      obtain ⟨rfl, -⟩ := Prod.mk.inj (Option.some.inj hmsg)
      obtain ⟨-, hcount, hcipher⟩ := EcdhPsiCipherBatch.make_eq hm
      have hlen : ∀ b ∈ (((cfg.ids r).drop i).take cfg.batch).map (cfg.encId r), b.length = 32 := by
        intro b hb
        obtain ⟨x, -, rfl⟩ := List.mem_map.mp hb
        exact cfg.length_encId
      rw [hcipher, hcount, List.length_flatten_of_uniform hlen, List.length_map, Nat.mul_comm]

/-- Only `calcucipher_and_send` puts a message on the main link. -/
theorem step_main {a : Action} (hs : (flow cfg).step s a = some s') {r : Rank}
    {msg : EcdhPsiCipherBatch} (hmsg : msg ∈ s'.main r) :
    msg ∈ s.main r ∨ ∃ i n pc, calcucipherAndSend cfg r i n = some (msg, pc) := by
  cases a with
  | raise q t =>
    rw [(raiseIn_eq hs).1] at hmsg
    exact .inl hmsg
  | step q t =>
    cases t with
    | calcuSend =>
      simp only [flow, stepCalcuSend] at hs
      split at hs
      · next i n _ =>
        split at hs
        · next m pc hsend =>
          cases hs
          obtain rfl | rfl := Rank.eq_or_eq_next r q
          · rw [Sys.setMain_main, List.mem_append, List.mem_singleton] at hmsg
            obtain hold | rfl := hmsg
            · exact .inl hold
            · exact .inr ⟨i, n, pc, hsend⟩
          · rw [Sys.setMain_main_next] at hmsg
            exact .inl hmsg
        · cases hs
          exact .inl hmsg
      · cases hs
    | recvCalcu =>
      left
      simp only [flow, stepRecvCalcu] at hs
      split at hs
      · split at hs
        · cases hs
        · next m ch hch =>
          have hmain : s'.main = Function.update s.main q.next ch := by
            split at hs <;> (cases hs; rfl)
          obtain rfl | rfl := Rank.eq_or_eq_next r q
          · simpa [hmain] using hmsg
          · rw [hmain, Function.update_self] at hmsg
            rw [hch]
            exact List.mem_cons_of_mem m hmsg
      all_goals cases hs
      all_goals exact hmsg
    | sendDualenc =>
      simp only [flow, stepSendDualenc] at hs
      grind [Sys.setDua, Sys.setParty]
    | recvDualenc =>
      simp only [flow, stepRecvDualenc] at hs
      grind [Sys.setDua, Sys.setParty]

/-- In every state of a run, also of one in which threads raise, the batches on their way to
    `recv_and_calcu` are decoded exactly. -/
theorem main_decodesExactly {as : List Action} (hrun : (flow cfg).run (init cfg) as = some s)
    {r : Rank} {msg : EcdhPsiCipherBatch} (hmsg : msg ∈ s.main r) (k : cfg.crypto.Scalar) :
    Crypto.DecodesExactly cfg.crypto k msg.ciphertext msg.count := by
  have hlen : ∀ r, ∀ msg ∈ s.main r, msg.ciphertext.length = 32 * msg.count := by
    refine (flow cfg).run_invariant (P := fun s : Sys => ∀ r, ∀ msg ∈ s.main r,
      msg.ciphertext.length = 32 * msg.count) ?_ hrun (fun r msg hmsg => by cases hmsg)
    intro s a s' ih hs r msg hmsg
    rcases step_main hs hmsg with hold | ⟨i, n, pc, hnew⟩
    · exact ih r msg hold
    · exact length_of_calcucipherAndSend hnew
  exact Crypto.decodesExactly_of_length fun _ _ _ => hlen r msg hmsg

namespace Sample

/-- Two points and a byte behind them. -/
def leftover : Bytes := List.replicate 65 0

/-- The byte behind the two points is dropped, and with count 0 a byte is dropped as well. -/
theorem decode_leftover :
    crypto.decode false leftover 2 =
        some (List.slices 32 2 leftover, (List.slices 32 2 leftover).map (crypto.dh false)) ∧
      crypto.decode false [0] 0 = some ([], []) ∧
      ¬ Crypto.DecodesExactly crypto false leftover 2 ∧
      ¬ Crypto.DecodesExactly crypto false [0] 0 := by
  have hdrop : crypto.decode false leftover 2 =
      some (List.slices 32 2 leftover, (List.slices 32 2 leftover).map (crypto.dh false)) :=
    Crypto.decode_eq_some_iff.mpr ⟨.inr (by decide), rfl, rfl⟩
  have hempty : crypto.decode false [0] 0 = some ([], []) :=
    Crypto.decode_eq_some_iff.mpr ⟨.inl rfl, rfl, rfl⟩
  refine ⟨hdrop, hempty, fun h => ?_, fun h => ?_⟩
  · have hnone := h.rejected (by decide)
    rw [hdrop] at hnone
    cases hnone
  · have hnone := h.rejected (by decide)
    rw [hempty] at hnone
    cases hnone

end Sample

end Psi
