-- SUMMARY: The handshake of interconnection PSI: unpacking and intersecting proposals, the negotiated response, and when everything in it was proposed by both sides.
import NineNMpc.Lib.Fallible
import Mathlib

/-!
# The PSI handshake

`psi/interconnection_psi/base.py` and `Context.negotiate_handshake` of `config.py`. The
proposals that unpack to the type asked for, of both sides, form one list, and each field
is intersected over that list, starting from its head. A Python exception is an error of
`Except`; `raise_exception` itself raises a `SyntaxError` when it has inputs to show, since
it formats the list `filedpos` into the expression it evaluates. Messages have no hash, as
in the `upb` runtime, so `ec_suits` takes the path for unhashable elements.
-/

namespace Psi.Handshake

/-! ## Messages -/

structure EcSuit where
  curve : Int
  hash : Int
  hash2curveStrategy : Int
deriving DecidableEq

structure EccProtocolProposal where
  supportedVersions : List Int
  ecSuits : List EcSuit
  pointOctetFormats : List Int
  supportPointTruncation : Bool
deriving DecidableEq

structure PsiDataInfoProposal where
  supportedVersions : List Int
  itemNum : Int
  resultToRank : Int
deriving DecidableEq

/-- `google.protobuf.Any`, by the type it names; `none` is a value that does not parse. -/
inductive Any where
  | eccProtocolProposal (value : Option EccProtocolProposal)
  | psiDataInfoProposal (value : Option PsiDataInfoProposal)
  | other
deriving DecidableEq

structure HandshakeRequest where
  version : Int
  requesterRank : Int
  supportedAlgos : List Int
  protocolFamilies : List Int
  protocolFamilyParams : List Any
  ioParam : Any

structure EccProtocolResult where
  version : Int
  ecSuit : EcSuit
  pointOctetFormat : Int
  bitLengthAfterTruncated : Int
  resultToRank : Int
deriving DecidableEq

structure PsiDataInfoResult where
  version : Int
  resultToRank : Int
deriving DecidableEq

structure HandshakeResponse where
  algo : Int
  protocolFamilies : List Int
  protocolFamilyParams : List EccProtocolResult
  ioParam : PsiDataInfoResult
deriving DecidableEq

def algoTypeEcdhPsi : Int := 1

def protocolFamilyEcc : Int := 1

inductive ErrorCode where
  | unsupportedVersion
  | unsupportedAlgo
  | unsupportedParams
deriving DecidableEq

inductive PyError where
  | psiException (code : ErrorCode) (msg : String)
  | syntaxError
  | indexError
  | keyError
  | decodeError
  /-- A panic of the crypto extension. -/
  | panicException
deriving DecidableEq

/-! ## base.py -/

/-- The order in which a Python set of ints lists its elements. -/
structure SetOrder where
  list : List Int → List Int
  mem_list : ∀ l x, x ∈ list l ↔ x ∈ l
  nodup_list : ∀ l, (list l).Nodup

variable {α β : Type}

def raiseException (code : ErrorCode) (errMsg : String) (input : List α) : Except PyError β :=
  if input.isEmpty then .error (.psiException code (errMsg ++ " ")) else .error .syntaxError

/-- `intersection(.., int)`. -/
def intersectionInt (input : List α) (filed : α → Int) : Except PyError Bool :=
  match input with
  | [] => .error .indexError
  | head :: _ => .ok ((input.map filed).sum == filed head * input.length)

/-- `intersection(.., bool)`. -/
def intersectionBool (input : List α) (filed : α → Bool) : Except PyError Bool :=
  match input with
  | [] => .error .indexError
  | _ :: _ => .ok (input.all filed)

/-- The elements of the head's field that all other fields have. -/
def common [DecidableEq β] (filed : α → List β) (head : α) (rest : List α) : List β :=
  (filed head).filter fun element => rest.all fun lst => (filed lst).contains element

/-- `intersection(.., list)` of elements without a hash. -/
def intersectionList [DecidableEq β] (input : List α) (filed : α → List β) :
    Except PyError (List β) :=
  match input with
  | [] => .error .indexError
  | head :: rest => if (filed head).isEmpty then .error .indexError else .ok (common filed head rest)

/-- `intersection(.., list)` of elements with a hash, through a set. -/
def intersectionSet (order : SetOrder) (input : List α) (filed : α → List Int) :
    Except PyError (List Int) :=
  (intersectionList input filed).map order.list

def Any.unpackEcc : Any → Except PyError (List EccProtocolProposal)
  | eccProtocolProposal (some p) => .ok [p]
  | eccProtocolProposal none => .error .decodeError
  | _ => .ok []

def Any.unpackPsi : Any → Except PyError (List PsiDataInfoProposal)
  | psiDataInfoProposal (some p) => .ok [p]
  | psiDataInfoProposal none => .error .decodeError
  | _ => .ok []

/-- `unpack_params` over the fields of all inputs: the parameters of another type are dropped. -/
def unpackParams (unpack : Any → Except PyError (List α)) (input : List Any) :
    Except PyError (List α) :=
  (input.mapM unpack).map List.flatten

/-! ## config.py -/

structure Context where
  version : Int := 1
  protocolFamilies : List Int := [protocolFamilyEcc]
  protocolFamilyParams : List EccProtocolProposal :=
    [{ supportedVersions := [1]
       ecSuits := [{ curve := 1, hash := 30, hash2curveStrategy := 3 }]
       pointOctetFormats := [1]
       supportPointTruncation := false }]
  supportedAlgos : List Int := [algoTypeEcdhPsi]
  supportedVersions : List Int := [1]
  rank : Int
  itemNum : Int
  resultToRank : Int

def Context.ioParam (ctx : Context) : PsiDataInfoProposal :=
  { supportedVersions := ctx.supportedVersions
    itemNum := ctx.itemNum
    resultToRank := ctx.resultToRank }

def Context.makeHandshakeRequest (ctx : Context) : HandshakeRequest :=
  { version := ctx.version
    requesterRank := ctx.rank
    supportedAlgos := ctx.supportedAlgos
    protocolFamilies := ctx.protocolFamilies
    protocolFamilyParams := ctx.protocolFamilyParams.map fun p => .eccProtocolProposal (some p)
    ioParam := .psiDataInfoProposal (some ctx.ioParam) }

/-- `crypto.Curve` of the enum's name: only `CURVE_TYPE_CURVE25519` is supported, and a number
    outside the enum has no name. -/
def newCurve (curve : Int) : Except PyError Unit :=
  if curve = 1 then .ok ()
  else if curve = 0 ∨ curve = 2 then .error .panicException
  else .error .keyError

def Context.resetFromResponse (rsp : HandshakeResponse) : Except PyError Unit :=
  match rsp.protocolFamilyParams with
  | [] => .error .indexError
  | eccParam :: _ => newCurve eccParam.ecSuit.curve

/-- `lst[0]` after its length has been checked. -/
def first (code : ErrorCode) (errMsg : String) (input : List α) (lst : List β) : Except PyError β :=
  match lst with
  | [] => raiseException code errMsg input
  | x :: _ => .ok x

def check (cond : Bool) (code : ErrorCode) (errMsg : String) (input : List α) :
    Except PyError Unit :=
  if cond then .ok () else raiseException code errMsg input

def Context.negotiateHandshake (order : SetOrder) (ctx : Context) (req : HandshakeRequest) :
    Except PyError HandshakeResponse := do
  let reqs := [ctx.makeHandshakeRequest, req]
  check (← intersectionInt reqs (·.version)) .unsupportedVersion "" reqs
  let supportedAlgos ← intersectionSet order reqs (·.supportedAlgos)
  check (supportedAlgos.contains algoTypeEcdhPsi) .unsupportedAlgo
    "algo not support ALGO_TYPE_ECDH_PSI" reqs
  let ioParam ← unpackParams Any.unpackPsi (reqs.map (·.ioParam))
  let supportedVersions ← intersectionSet order ioParam (·.supportedVersions)
  let algoVersion ← first .unsupportedVersion "" ioParam supportedVersions
  check (← intersectionInt ioParam (·.resultToRank)) .unsupportedParams "" ioParam
  let protocolFamilies ← intersectionSet order reqs (·.protocolFamilies)
  check (protocolFamilies.contains protocolFamilyEcc) .unsupportedParams
    "cannot negotiate an protocol_families " reqs
  let params ← unpackParams Any.unpackEcc (reqs.flatMap (·.protocolFamilyParams))
  check (!params.isEmpty) .unsupportedParams "cannot negotiate an protocol_family_params " reqs
  let supportedVersions ← intersectionSet order params (·.supportedVersions)
  let eccVersion ← first .unsupportedVersion "" params supportedVersions
  let ecSuits ← intersectionList params (·.ecSuits)
  let ecSuit ← first .unsupportedParams "cannot negotiate an ec_suits " params ecSuits
  let formats ← intersectionSet order params (·.pointOctetFormats)
  let format ← first .unsupportedParams "cannot negotiate an point_octet_formats " params formats
  let truncation ← intersectionBool params (·.supportPointTruncation)
  check (!truncation) .unsupportedParams "not support point_truncation" ([] : List Any)
  let rsp : HandshakeResponse :=
    { algo := algoTypeEcdhPsi
      protocolFamilies := [protocolFamilyEcc]
      protocolFamilyParams :=
        [{ version := eccVersion, ecSuit, pointOctetFormat := format, bitLengthAfterTruncated := 0,
           resultToRank := ctx.resultToRank }]
      ioParam := { version := algoVersion, resultToRank := ctx.resultToRank } }
  resetFromResponse rsp
  return rsp

/-! ## What both sides proposed -/

def Any.ecc? : Any → Option EccProtocolProposal
  | eccProtocolProposal value => value
  | _ => none

def Any.psi? : Any → Option PsiDataInfoProposal
  | psiDataInfoProposal value => value
  | _ => none

def HandshakeRequest.eccProposals (req : HandshakeRequest) : List EccProtocolProposal :=
  req.protocolFamilyParams.filterMap Any.ecc?

/-- The version, the suit and the format are each in one of the proposals. -/
def EccProtocolResult.ProposedBy (result : EccProtocolResult) (ps : List EccProtocolProposal) :
    Prop :=
  (∃ p ∈ ps, result.version ∈ p.supportedVersions) ∧ (∃ p ∈ ps, result.ecSuit ∈ p.ecSuits) ∧
    ∃ p ∈ ps, result.pointOctetFormat ∈ p.pointOctetFormats

/-- Everything in the response was proposed by both sides. -/
structure Sound (ctx : Context) (req : HandshakeRequest) (rsp : HandshakeResponse) : Prop where
  algo : rsp.algo ∈ ctx.supportedAlgos ∧ rsp.algo ∈ req.supportedAlgos
  families : ∀ f ∈ rsp.protocolFamilies, f ∈ ctx.protocolFamilies ∧ f ∈ req.protocolFamilies
  ecc : ∀ result ∈ rsp.protocolFamilyParams,
    result.ProposedBy ctx.protocolFamilyParams ∧ result.ProposedBy req.eccProposals
  psi : ∃ p, req.ioParam.psi? = some p ∧
    rsp.ioParam.version ∈ ctx.ioParam.supportedVersions ∧
    rsp.ioParam.version ∈ p.supportedVersions ∧
    rsp.ioParam.resultToRank = ctx.ioParam.resultToRank ∧
    rsp.ioParam.resultToRank = p.resultToRank ∧
    ∀ result ∈ rsp.protocolFamilyParams,
      result.resultToRank = ctx.ioParam.resultToRank ∧ result.resultToRank = p.resultToRank

/-! ## Specifications of the parts -/

variable {order : SetOrder} {input rest : List α} {a b : α}

theorem check_eq_ok {cond : Bool} {code : ErrorCode} {errMsg : String} {u : Unit} :
    check cond code errMsg input = .ok u ↔ cond = true := by
  cases cond with
  | true => simp [check]
  | false =>
    simp only [check, raiseException, Bool.false_eq_true, ↓reduceIte, iff_false]
    split <;> simp

theorem first_eq_ok {code : ErrorCode} {errMsg : String} {lst : List β} {x : β}
    (h : first code errMsg input lst = .ok x) : x ∈ lst := by
  unfold first at h
  split at h
  · unfold raiseException at h
    split at h <;> cases h
  · next y ys =>
    obtain rfl : y = x := Except.ok.inj h
    simp

theorem intersectionInt_pair {filed : α → Int} (h : intersectionInt [a, b] filed = .ok true) :
    filed a = filed b := by
  simp only [intersectionInt, List.map_cons, List.map_nil, List.sum_cons, List.sum_nil,
    List.length_cons, List.length_nil, Except.ok.injEq, beq_iff_eq] at h
  omega

theorem intersectionList_mem [DecidableEq β] {filed : α → List β} {lst : List β} {x : β}
    (h : intersectionList input filed = .ok lst) (hx : x ∈ lst) : ∀ a ∈ input, x ∈ filed a := by
  unfold intersectionList at h
  split at h
  · cases h
  · next head rest =>
    split at h
    · cases h
    · obtain rfl : common filed head rest = lst := Except.ok.inj h
      simp only [common, List.mem_filter, List.all_eq_true, List.contains_iff_mem] at hx
      intro a ha
      rcases List.mem_cons.mp ha with rfl | ha
      · exact hx.1
      · exact hx.2 a ha

theorem intersectionSet_mem {filed : α → List Int} {lst : List Int} {x : Int}
    (h : intersectionSet order input filed = .ok lst) (hx : x ∈ lst) :
    ∀ a ∈ input, x ∈ filed a := by
  unfold intersectionSet at h
  cases hlist : intersectionList input filed with
  | error e => simp [hlist, Except.map] at h
  | ok l =>
    rw [hlist] at h
    obtain rfl : order.list l = lst := Except.ok.inj h
    exact intersectionList_mem hlist ((order.mem_list l x).mp hx)

/-- Unpacking keeps the parameters of the type asked for, in order. -/
theorem unpackParams_eq_ok {unpack : Any → Except PyError (List α)} {get : Any → Option α}
    {input : List Any} {ps : List α}
    (hget : ∀ any l, unpack any = .ok l → l = (get any).toList)
    (h : unpackParams unpack input = .ok ps) : ps = input.filterMap get := by
  unfold unpackParams at h
  cases hm : input.mapM unpack with
  | error e => simp [hm, Except.map] at h
  | ok ls =>
    rw [hm] at h
    obtain rfl : ls.flatten = ps := Except.ok.inj h
    clear h
    induction input generalizing ls with
    | nil =>
      obtain rfl : ls = [] := by simpa [pure, Except.pure] using hm.symm
      rfl
    | cons any input ih =>
      rw [List.mapM_cons, Except.bind_eq_ok_iff] at hm
      obtain ⟨l, hl, hm⟩ := hm
      rw [Except.bind_eq_ok_iff] at hm
      obtain ⟨ls', hls', hm⟩ := hm
      obtain rfl : l :: ls' = ls := Except.ok.inj hm
      rw [List.flatten_cons, ih ls' hls', hget any l hl]
      cases hg : get any <;> simp [hg]

theorem unpackEcc_toList (any : Any) (l : List EccProtocolProposal) (h : any.unpackEcc = .ok l) :
    l = any.ecc?.toList := by
  unfold Any.unpackEcc at h
  split at h
  · exact (Except.ok.inj h).symm
  · cases h
  · next h₁ h₂ =>
    cases any with
    | eccProtocolProposal value =>
      cases value with
      | none => exact absurd rfl h₂
      | some p => exact absurd rfl (h₁ p)
    | psiDataInfoProposal _ => exact (Except.ok.inj h).symm
    | other => exact (Except.ok.inj h).symm

theorem unpackPsi_toList (any : Any) (l : List PsiDataInfoProposal) (h : any.unpackPsi = .ok l) :
    l = any.psi?.toList := by
  unfold Any.unpackPsi at h
  split at h
  · exact (Except.ok.inj h).symm
  · cases h
  · next h₁ h₂ =>
    cases any with
    | psiDataInfoProposal value =>
      cases value with
      | none => exact absurd rfl h₂
      | some p => exact absurd rfl (h₁ p)
    | eccProtocolProposal _ => exact (Except.ok.inj h).symm
    | other => exact (Except.ok.inj h).symm

/-! ## The negotiation -/

section Negotiation

variable {ctx : Context} {req : HandshakeRequest} {rsp : HandshakeResponse}

theorem filterMap_ioParam :
    ([ctx.makeHandshakeRequest, req].map (·.ioParam)).filterMap Any.psi? =
      ctx.ioParam :: req.ioParam.psi?.toList := by
  have hlocal : ctx.makeHandshakeRequest.ioParam.psi? = some ctx.ioParam := rfl
  cases h : req.ioParam.psi? with
  | none => simp [hlocal, h]
  | some p => simp [hlocal, h]

theorem filterMap_protocolFamilyParams :
    ([ctx.makeHandshakeRequest, req].flatMap (·.protocolFamilyParams)).filterMap Any.ecc? =
      ctx.protocolFamilyParams ++ req.eccProposals := by
  simp [Context.makeHandshakeRequest, HandshakeRequest.eccProposals, List.filterMap_append,
    List.filterMap_map, Function.comp_def, Any.ecc?]

/-- The head of a list of proposals and another one agree on the rank. -/
theorem resultToRank_eq {p : PsiDataInfoProposal} {value : Option PsiDataInfoProposal}
    (h : intersectionInt (p :: value.toList) (·.resultToRank) = .ok true) :
    ∀ q ∈ p :: value.toList, p.resultToRank = q.resultToRank := by
  intro q hq
  cases value with
  | none =>
    rw [List.mem_singleton.mp hq]
  | some p' =>
    simp only [Option.toList_some, List.mem_cons, List.not_mem_nil, or_false] at hq
    rcases hq with rfl | rfl
    · rfl
    · exact intersectionInt_pair h

/-- What a returned response contains is in every proposal that was unpacked, the request's and the
    local ones. -/
theorem negotiateHandshake_eq_ok (h : ctx.negotiateHandshake order req = .ok rsp) :
    (rsp.algo ∈ ctx.supportedAlgos ∧ rsp.algo ∈ req.supportedAlgos) ∧
      (∀ f ∈ rsp.protocolFamilies, f ∈ ctx.protocolFamilies ∧ f ∈ req.protocolFamilies) ∧
      (∃ result, rsp.protocolFamilyParams = [result] ∧
        result.resultToRank = rsp.ioParam.resultToRank ∧
        ∀ p ∈ ctx.protocolFamilyParams ++ req.eccProposals,
          result.version ∈ p.supportedVersions ∧ result.ecSuit ∈ p.ecSuits ∧
            result.pointOctetFormat ∈ p.pointOctetFormats) ∧
      ∀ p ∈ ctx.ioParam :: req.ioParam.psi?.toList,
        rsp.ioParam.version ∈ p.supportedVersions ∧
          rsp.ioParam.resultToRank = p.resultToRank := by
  unfold Context.negotiateHandshake at h
  simp only [Except.bind_eq_ok_iff, check_eq_ok] at h
  obtain ⟨_, -, _, -, algos, halgos, _, halgo, ioParam, hio, versions, hversions, version, hversion,
    _, hranks, _, rfl, families, hfamilies, _, hfamily, params, hparams, _, -, eccVersions,
    heccVersions, eccVersion, heccVersion, suits, hsuits, suit, hsuit, formats, hformats, format,
    hformat, _, -, _, -, _, -, hrsp⟩ := h
  obtain rfl := Except.ok.inj hrsp
  obtain rfl := unpackParams_eq_ok unpackPsi_toList hio
  obtain rfl := unpackParams_eq_ok unpackEcc_toList hparams
  rw [filterMap_ioParam] at hversions hranks
  rw [filterMap_protocolFamilyParams] at heccVersions hsuits hformats
  have halgoIn := intersectionSet_mem halgos (List.contains_iff_mem.mp halgo)
  have hfamilyIn := intersectionSet_mem hfamilies (List.contains_iff_mem.mp hfamily)
  refine ⟨⟨halgoIn ctx.makeHandshakeRequest (by simp), halgoIn req (by simp)⟩, ?_,
    ⟨_, rfl, rfl, fun p hp => ?_⟩, fun p hp => ?_⟩
  · intro f hf
    rw [List.mem_singleton.mp hf]
    exact ⟨hfamilyIn ctx.makeHandshakeRequest (by simp), hfamilyIn req (by simp)⟩
  · exact ⟨intersectionSet_mem heccVersions (first_eq_ok heccVersion) p hp,
      intersectionList_mem hsuits (first_eq_ok hsuit) p hp,
      intersectionSet_mem hformats (first_eq_ok hformat) p hp⟩
  · exact ⟨intersectionSet_mem hversions (first_eq_ok hversion) p hp,
      resultToRank_eq hranks p hp⟩

/-- Both sides have made an ECC proposal, and the request carries a PSI proposal. -/
def Proposals (ctx : Context) (req : HandshakeRequest) : Prop :=
  ctx.protocolFamilyParams ≠ [] ∧ req.eccProposals ≠ [] ∧ req.ioParam.psi? ≠ none

instance : Decidable (Proposals ctx req) :=
  inferInstanceAs (Decidable (_ ∧ _ ∧ _))

/-- What every proposal of a list has, one of them has. -/
theorem proposedBy_of_forall {result : EccProtocolResult} {ps : List EccProtocolProposal}
    (hne : ps ≠ []) (h : ∀ p ∈ ps, result.version ∈ p.supportedVersions ∧
      result.ecSuit ∈ p.ecSuits ∧ result.pointOctetFormat ∈ p.pointOctetFormats) :
    result.ProposedBy ps := by
  obtain ⟨p, hp⟩ := List.exists_mem_of_ne_nil ps hne
  obtain ⟨hversion, hsuit, hformat⟩ := h p hp
  exact ⟨⟨p, hp, hversion⟩, ⟨p, hp, hsuit⟩, ⟨p, hp, hformat⟩⟩

theorem EccProtocolResult.ProposedBy.ne_nil {result : EccProtocolResult}
    {ps : List EccProtocolProposal} (h : result.ProposedBy ps) : ps ≠ [] := by
  obtain ⟨⟨p, hp, -⟩, -⟩ := h
  exact List.ne_nil_of_mem hp

/-- A returned response contains only what both sides proposed exactly when there were proposals
    of both sides to compare. -/
theorem negotiateHandshake_sound_iff (h : ctx.negotiateHandshake order req = .ok rsp) :
    Sound ctx req rsp ↔ Proposals ctx req := by
  obtain ⟨halgo, hfamilies, ⟨result, hparams, hrank, hecc⟩, hpsi⟩ := negotiateHandshake_eq_ok h
  constructor
  · intro hsound
    have hproposed := hsound.ecc result (by simp [hparams])
    obtain ⟨p, hp, -⟩ := hsound.psi
    exact ⟨hproposed.1.ne_nil, hproposed.2.ne_nil, by simp [hp]⟩
  · rintro ⟨hlocal, hreq, hio⟩
    obtain ⟨p, hp⟩ := Option.ne_none_iff_exists'.mp hio
    have hctx := hpsi ctx.ioParam (by simp)
    have hpeer := hpsi p (by simp [hp])
    exact {
      algo := halgo
      families := hfamilies
      ecc := by
        intro result' hresult'
        obtain rfl : result' = result := by simpa [hparams] using hresult'
        exact ⟨proposedBy_of_forall hlocal fun p hp => hecc p (by simp [hp]),
          proposedBy_of_forall hreq fun p hp => hecc p (by simp [hp])⟩
      psi := by
        refine ⟨p, hp, hctx.1, hpeer.1, hctx.2, hpeer.2, ?_⟩
        intro result' hresult'
        obtain rfl : result' = result := by simpa [hparams] using hresult'
        exact ⟨hrank.trans hctx.2, hrank.trans hpeer.2⟩ }

end Negotiation

namespace Sample

/-- Small sets list their elements in the order of their first occurrence. -/
def insertionOrder : SetOrder where
  list := List.dedup
  mem_list _ _ := List.mem_dedup
  nodup_list := List.nodup_dedup

def ours : Context := { rank := 1, itemNum := 100, resultToRank := -1 }

/-- A request with the right version, algorithm and family, and no parameters. -/
def bare : HandshakeRequest :=
  { version := 1, requesterRank := 0, supportedAlgos := [1], protocolFamilies := [1],
    protocolFamilyParams := [], ioParam := .other }

/-- The request is accepted with the parameters of the local side alone. -/
theorem bare_accepted :
    ∃ rsp, ours.negotiateHandshake insertionOrder bare = .ok rsp ∧ ¬ Sound ours bare rsp := by
  refine ⟨_, rfl, fun h => ?_⟩
  obtain ⟨p, hp, -⟩ := h.psi
  cases hp

/-- The request of a peer with the same context. -/
def honest : HandshakeRequest :=
  { rank := 0, itemNum := 7, resultToRank := -1 : Context }.makeHandshakeRequest

theorem honest_sound :
    ∃ rsp, ours.negotiateHandshake insertionOrder honest = .ok rsp ∧ Sound ours honest rsp :=
  ⟨_, rfl, (@negotiateHandshake_sound_iff insertionOrder ours honest _ rfl).mpr (by decide)⟩

end Sample

end Psi.Handshake
