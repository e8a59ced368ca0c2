-- SUMMARY: The crypto extension: points, scalar multiplication over arrays, and the octet format of point arrays.
import Mathlib.Data.List.Basic
import NineNMpc.Lib.Slices

/-!
# The crypto extension

`crypto/src/curve.rs` and `crypto/src/hash.rs`. The hash function (SHAKE-256 of
the `sha3` crate) and the scalar multiplication of `curve25519_dalek` are
parameters. A Rust panic is `none`.
-/

namespace Psi

abbrev Bytes := List UInt8

/-- The 32 bytes of a Montgomery point. -/
abbrev Point := {b : Bytes // b.length = 32}

structure Crypto where
  Scalar : Type
  shake256 : Bytes → Point
  mul : Scalar → Point → Point

namespace Crypto

variable (C : Crypto)

/-- `MontgomeryPoint(data.try_into().expect(..)) * self.0`: any other length than 32 panics. -/
def mulBytes (k : C.Scalar) (data : Bytes) : Option Bytes :=
  if h : data.length = 32 then some (C.mul k ⟨data, h⟩).1 else none

def encryptImpl (k : C.Scalar) (data : Bytes) : Option Bytes := C.mulBytes k data

def diffieHellmanImpl (k : C.Scalar) (data : Bytes) : Option Bytes := C.mulBytes k data

/-- `Secret::run_impl`: apply the function to every entry of the array. -/
def runImpl (func : Bytes → Option Bytes) (array : List Bytes) : Option (List Bytes) :=
  array.mapM func

def encrypt (k : C.Scalar) (array : List Bytes) : Option (List Bytes) :=
  runImpl (C.encryptImpl k) array

def diffieHellman (k : C.Scalar) (array : List Bytes) : Option (List Bytes) :=
  runImpl (C.diffieHellmanImpl k) array

/-- `hash_impl` with `HASH_TYPE_SHAKE_256`. -/
def hash (array : List Bytes) : List Bytes := array.map fun x => (C.shake256 x).1

def supportHashToCurve : List String := ["HASH_TO_CURVE_STRATEGY_DIRECT_HASH_AS_POINT_X"]

def hashToCurve (typ : String) (array : List Bytes) : Option (List Bytes) :=
  if typ ∈ supportHashToCurve then some array else none

def supportCurvePointOctet : List String := ["POINT_OCTET_FORMAT_UNCOMPRESSED"]

def pointOctetMarshal (typ : String) (array : List Bytes) : Option (List Bytes) :=
  if typ ∈ supportCurvePointOctet then some array else none

/-- The block size is not fixed: it is the integer quotient of the two lengths. -/
def pointOctetUnmarshal (typ : String) (data : Bytes) (count : Nat) : Option (List Bytes) :=
  if typ ∈ supportCurvePointOctet then
    if count = 0 then some []
    else
      let blockSize := data.length / count
      some (List.slices blockSize count data)
  else none

/-! ## What the array functions compute on well-formed points -/

/-- Scalar multiplication on byte strings, the identity where the code panics. -/
def dh (k : C.Scalar) (data : Bytes) : Bytes := (C.mulBytes k data).getD data

theorem mulBytes_eq_some {k : C.Scalar} {b : Bytes} (h : b.length = 32) :
    C.mulBytes k b = some (C.dh k b) := by
  simp [dh, mulBytes, h]

theorem length_dh {k : C.Scalar} {b : Bytes} (h : b.length = 32) : (C.dh k b).length = 32 := by
  simp [dh, mulBytes, h, (C.mul k ⟨b, h⟩).2]

theorem dh_val {k : C.Scalar} {p : Point} : C.dh k p.1 = (C.mul k p).1 := by
  simp [dh, mulBytes, p.2]

theorem mapM_mulBytes {k : C.Scalar} {bs : List Bytes} (h : ∀ b ∈ bs, b.length = 32) :
    bs.mapM (C.mulBytes k) = some (bs.map (C.dh k)) := by
  induction bs with
  | nil => rfl
  | cons b bs ih =>
    have hb := C.mulBytes_eq_some (k := k) (h b (by simp))
    have hbs := ih fun c hc => h c (by simp [hc])
    simp [List.mapM_cons, hb, hbs]

theorem diffieHellman_eq {k : C.Scalar} {bs : List Bytes} (h : ∀ b ∈ bs, b.length = 32) :
    C.diffieHellman k bs = some (bs.map (C.dh k)) :=
  C.mapM_mulBytes h

theorem encrypt_eq {k : C.Scalar} {bs : List Bytes} (h : ∀ b ∈ bs, b.length = 32) :
    C.encrypt k bs = some (bs.map (C.dh k)) :=
  C.mapM_mulBytes h

theorem length_of_mulBytes {k : C.Scalar} {b c : Bytes} (h : C.mulBytes k b = some c) :
    b.length = 32 := by
  unfold mulBytes at h
  split at h
  · assumption
  · cases h

/-- The conversion panics at the first block that is not a point. -/
theorem length_of_mapM_mulBytes {k : C.Scalar} {bs cs : List Bytes}
    (h : bs.mapM (C.mulBytes k) = some cs) : ∀ b ∈ bs, b.length = 32 := by
  induction bs generalizing cs with
  | nil => simp
  | cons b bs ih =>
    rw [List.mapM_cons] at h
    obtain ⟨c, hc, h⟩ := Option.bind_eq_some_iff.mp h
    obtain ⟨cs', hcs, -⟩ := Option.bind_eq_some_iff.mp h
    rw [List.forall_mem_cons]
    exact ⟨C.length_of_mulBytes hc, ih hcs⟩

theorem diffieHellman_eq_some_iff {k : C.Scalar} {bs array : List Bytes} :
    C.diffieHellman k bs = some array ↔
      (∀ b ∈ bs, b.length = 32) ∧ array = bs.map (C.dh k) := by
  constructor
  · intro h
    have hlen := C.length_of_mapM_mulBytes h
    rw [C.diffieHellman_eq hlen, Option.some.injEq] at h
    exact ⟨hlen, h.symm⟩
  · rintro ⟨hlen, rfl⟩
    exact C.diffieHellman_eq hlen

/-- The octet format undoes the sender's `b''.join`. -/
theorem pointOctetUnmarshal_join {bs : List Bytes} (h : ∀ b ∈ bs, b.length = 32) :
    pointOctetUnmarshal "POINT_OCTET_FORMAT_UNCOMPRESSED" bs.flatten bs.length = some bs := by
  cases bs with
  | nil => simp [pointOctetUnmarshal, supportCurvePointOctet]
  | cons b bs =>
    have hlen := List.length_flatten_of_uniform h
    have hq : (b :: bs).flatten.length / (b :: bs).length = 32 := by
      rw [hlen, Nat.mul_div_cancel_left _ (by simp)]
    simp only [pointOctetUnmarshal, supportCurvePointOctet, List.mem_singleton, if_true, hq,
      List.slices_flatten h]
    simp

end Crypto

end Psi
