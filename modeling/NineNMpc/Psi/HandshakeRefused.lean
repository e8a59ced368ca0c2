-- SUMMARY: Refusals of the PSI handshake: the eight checks with their error codes, and that an incompatible request never gets the exception that carries one.
import NineNMpc.Psi.Handshake

/-!
# Refused handshakes

What `Context.negotiate_handshake` of `config.py` does with a request that does not fit.
Each of its checks calls `raise_exception` with an error code, the proposals and the
field; `raise_exception` of `base.py` puts the list of the field's path into the
expression it evaluates on every proposal, and that expression is a `SyntaxError`.
-/

namespace Psi.Handshake

variable {α β : Type}

/-! ## The checks -/

/-- The checks of `negotiate_handshake`, in the order in which they are made. -/
inductive Check where
  | version
  | algos
  | psiVersion
  | resultToRank
  | families
  | eccVersion
  | ecSuits
  | pointOctetFormats
deriving DecidableEq

def Check.all : List Check :=
  [version, algos, psiVersion, resultToRank, families, eccVersion, ecSuits, pointOctetFormats]

/-- The error code that the check hands to `raise_exception`. -/
def Check.errorCode : Check → ErrorCode
  | version | psiVersion | eccVersion => .unsupportedVersion
  | algos => .unsupportedAlgo
  | resultToRank | families | ecSuits | pointOctetFormats => .unsupportedParams

/-- Some element is in the field of every proposal. -/
def inAll [DecidableEq β] (filed : α → List β) (input : List α) : Bool :=
  input.head?.any fun head => (filed head).any fun x => input.all fun a => x ∈ filed a

/-- The local context and the request, with its PSI proposal, are compatible in one respect. -/
def Check.passes (ctx : Context) (req : HandshakeRequest) (proposal : PsiDataInfoProposal) :
    Check → Bool
  | version => ctx.version = req.version
  | algos => algoTypeEcdhPsi ∈ ctx.supportedAlgos ∧ algoTypeEcdhPsi ∈ req.supportedAlgos
  | psiVersion => inAll (·.supportedVersions) [ctx.ioParam, proposal]
  | resultToRank => ctx.resultToRank = proposal.resultToRank
  | families => protocolFamilyEcc ∈ ctx.protocolFamilies ∧ protocolFamilyEcc ∈ req.protocolFamilies
  | eccVersion => inAll (·.supportedVersions) (ctx.protocolFamilyParams ++ req.eccProposals)
  | ecSuits => inAll (·.ecSuits) (ctx.protocolFamilyParams ++ req.eccProposals)
  | pointOctetFormats => inAll (·.pointOctetFormats) (ctx.protocolFamilyParams ++ req.eccProposals)

/-- The first check that fails. -/
def firstFailing (ctx : Context) (req : HandshakeRequest) (proposal : PsiDataInfoProposal) :
    Option Check :=
  Check.all.find? fun c => !c.passes ctx req proposal

/-- The packed parameters are well typed: one PSI proposal, and at least one ECC proposal. -/
structure WellTyped (req : HandshakeRequest) (proposal : PsiDataInfoProposal) : Prop where
  psi : req.ioParam = .psiDataInfoProposal (some proposal)
  parses : .eccProtocolProposal none ∉ req.protocolFamilyParams
  ecc : req.eccProposals ≠ []

/-! ## Errors that are not PsiExceptions -/

/-- The computation ends in an error of Python itself. -/
def Breaks (x : Except PyError α) : Prop := x = .error .syntaxError ∨ x = .error .indexError

/-- The computation returns or breaks. -/
def Fragile (x : Except PyError α) : Prop := (∃ a, x = .ok a) ∨ Breaks x

theorem Breaks.bind {x : Except PyError α} {f : α → Except PyError β} (hx : Fragile x)
    (hf : ∀ a, x = .ok a → Breaks (f a)) : Breaks (x >>= f) := by
  obtain ⟨a, rfl⟩ | rfl | rfl := hx
  · exact hf a rfl
  · exact .inl rfl
  · exact .inr rfl

theorem Breaks.not_psiException {x : Except PyError α} (h : Breaks x) (code : ErrorCode)
    (msg : String) : x ≠ .error (.psiException code msg) := by
  rintro rfl
  obtain h | h := h <;> cases h

variable {input : List α} {code : ErrorCode} {errMsg : String} {order : SetOrder}

/-- With something to show, `raise_exception` raises a `SyntaxError`. -/
theorem raiseException_breaks (h : input ≠ []) :
    Breaks (raiseException code errMsg input : Except PyError β) := by
  left
  simp [raiseException, h]

theorem check_fragile {cond : Bool} (h : input ≠ []) : Fragile (check cond code errMsg input) := by
  cases cond with
  | true => exact .inl ⟨(), rfl⟩
  | false => exact .inr (raiseException_breaks h)

theorem first_fragile {lst : List β} (h : input ≠ []) : Fragile (first code errMsg input lst) := by
  cases lst with
  | nil => exact .inr (raiseException_breaks h)
  | cons x xs => exact .inl ⟨x, rfl⟩

theorem intersectionInt_fragile {filed : α → Int} : Fragile (intersectionInt input filed) := by
  cases input with
  | nil => exact .inr (.inr rfl)
  | cons a input => exact .inl ⟨_, rfl⟩

theorem intersectionList_fragile [DecidableEq β] {filed : α → List β} :
    Fragile (intersectionList input filed) := by
  cases input with
  | nil => exact .inr (.inr rfl)
  | cons a input =>
    simp only [intersectionList]
    split
    · exact .inr (.inr rfl)
    · exact .inl ⟨_, rfl⟩

theorem intersectionSet_fragile {filed : α → List Int} :
    Fragile (intersectionSet order input filed) := by
  have hlist : Fragile (intersectionList input filed) := intersectionList_fragile
  obtain ⟨l, hl⟩ | hl | hl := hlist
  · exact .inl ⟨order.list l, by rw [intersectionSet, hl]; rfl⟩
  · exact .inr (.inl (by rw [intersectionSet, hl]; rfl))
  · exact .inr (.inr (by rw [intersectionSet, hl]; rfl))

theorem unpackParams_isOk {unpack : Any → Except PyError (List α)} {input : List Any}
    (h : ∀ any ∈ input, ∃ l, unpack any = .ok l) : Fragile (unpackParams unpack input) := by
  obtain ⟨ls, hls⟩ := List.exists_mapM_eq_ok_iff.mpr h
  exact .inl ⟨ls.flatten, by rw [unpackParams, hls]; rfl⟩

/-! ## The negotiation -/

theorem inAll_eq_true [DecidableEq β] {filed : α → List β} {x : β} (hne : input ≠ [])
    (h : ∀ a ∈ input, x ∈ filed a) : inAll filed input = true := by
  obtain ⟨a, input, rfl⟩ := List.exists_cons_of_ne_nil hne
  simp only [inAll, List.head?_cons, Option.any_some, List.any_eq_true]
  exact ⟨x, h a (by simp), by simpa using h⟩

theorem firstFailing_eq_none_iff {ctx : Context} {req : HandshakeRequest}
    {proposal : PsiDataInfoProposal} :
    firstFailing ctx req proposal = none ↔ ∀ c : Check, c.passes ctx req proposal = true := by
  have hall : ∀ c, c ∈ Check.all := by
    intro c
    cases c <;> decide
  simp only [firstFailing, List.find?_eq_none, Bool.not_eq_true', Bool.not_eq_false]
  exact ⟨fun h c => h c (hall c), fun h c _ => h c⟩

variable {ctx : Context} {req : HandshakeRequest} {proposal : PsiDataInfoProposal}

theorem WellTyped.unpackPsi (h : WellTyped req proposal) :
    ∀ any ∈ [ctx.makeHandshakeRequest, req].map (·.ioParam), ∃ l, any.unpackPsi = .ok l := by
  intro any hany
  simp only [List.map_cons, List.map_nil, List.mem_cons, List.not_mem_nil, or_false] at hany
  obtain rfl | rfl := hany
  · exact ⟨_, rfl⟩
  · rw [h.psi]
    exact ⟨_, rfl⟩

theorem WellTyped.unpackEcc (h : WellTyped req proposal) :
    ∀ any ∈ [ctx.makeHandshakeRequest, req].flatMap (·.protocolFamilyParams),
      ∃ l, any.unpackEcc = .ok l := by
  intro any hany
  have hne : any ≠ .eccProtocolProposal none := by
    rintro rfl
    simp only [List.flatMap_cons, List.flatMap_nil, List.append_nil, List.mem_append] at hany
    obtain hlocal | hreq := hany
    · simp [Context.makeHandshakeRequest] at hlocal
    · exact h.parses hreq
  cases any with
  | eccProtocolProposal value =>
    cases value with
    | none => exact absurd rfl hne
    | some p => exact ⟨_, rfl⟩
  | psiDataInfoProposal value => exact ⟨_, rfl⟩
  | other => exact ⟨_, rfl⟩

/-- A well-typed request that fails one of the checks is never answered with the exception of that
    check: the negotiation ends in a `SyntaxError`, or in an `IndexError` where the local side
    proposes nothing. -/
theorem negotiateHandshake_never_refused {c : Check} (hwell : WellTyped req proposal)
    (hfail : firstFailing ctx req proposal = some c) :
    Breaks (ctx.negotiateHandshake order req) ∧
      ∀ code msg, ctx.negotiateHandshake order req ≠ .error (.psiException code msg) := by
  have hbreaks : Breaks (ctx.negotiateHandshake order req) := by
    unfold Context.negotiateHandshake
    refine Breaks.bind intersectionInt_fragile fun sameVersion hversion => ?_
    refine Breaks.bind (check_fragile (by simp)) fun _ hsame => ?_
    refine Breaks.bind intersectionSet_fragile fun algos halgos => ?_
    refine Breaks.bind (check_fragile (by simp)) fun _ halgo => ?_
    refine Breaks.bind (unpackParams_isOk hwell.unpackPsi) fun ioParam hio => ?_
    obtain rfl := unpackParams_eq_ok unpackPsi_toList hio
    rw [filterMap_ioParam, hwell.psi]
    refine Breaks.bind intersectionSet_fragile fun versions hversions => ?_
    refine Breaks.bind (first_fragile (by simp)) fun algoVersion halgoVersion => ?_
    refine Breaks.bind intersectionInt_fragile fun sameRank hrank => ?_
    refine Breaks.bind (check_fragile (by simp)) fun _ hsameRank => ?_
    refine Breaks.bind intersectionSet_fragile fun families hfamilies => ?_
    refine Breaks.bind (check_fragile (by simp)) fun _ hfamily => ?_
    refine Breaks.bind (unpackParams_isOk hwell.unpackEcc) fun params hparams => ?_
    obtain rfl := unpackParams_eq_ok unpackEcc_toList hparams
    rw [filterMap_protocolFamilyParams]
    have hne : ctx.protocolFamilyParams ++ req.eccProposals ≠ [] := by simp [hwell.ecc]
    refine Breaks.bind (check_fragile (by simp)) fun _ _ => ?_
    refine Breaks.bind intersectionSet_fragile fun eccVersions heccVersions => ?_
    refine Breaks.bind (first_fragile hne) fun eccVersion heccVersion => ?_
    refine Breaks.bind intersectionList_fragile fun suits hsuits => ?_
    refine Breaks.bind (first_fragile hne) fun suit hsuit => ?_
    refine Breaks.bind intersectionSet_fragile fun formats hformats => ?_
    refine Breaks.bind (first_fragile hne) fun format hformat => ?_
    -- every check has passed
    rw [check_eq_ok] at hsame halgo hsameRank hfamily
    subst hsame hsameRank
    have halgoIn := intersectionSet_mem halgos (List.contains_iff_mem.mp halgo)
    have hfamilyIn := intersectionSet_mem hfamilies (List.contains_iff_mem.mp hfamily)
    have hpasses : firstFailing ctx req proposal = none := by
      rw [firstFailing_eq_none_iff]
      intro c
      cases c with
      | version =>
        simpa [Check.passes, Context.makeHandshakeRequest] using intersectionInt_pair hversion
      | algos =>
        simpa [Check.passes] using
          ⟨halgoIn ctx.makeHandshakeRequest (by simp), halgoIn req (by simp)⟩
      | psiVersion =>
        exact inAll_eq_true (by simp) (intersectionSet_mem hversions (first_eq_ok halgoVersion))
      | resultToRank =>
        simpa [Check.passes, Context.ioParam] using intersectionInt_pair hrank
      | families =>
        simpa [Check.passes] using
          ⟨hfamilyIn ctx.makeHandshakeRequest (by simp), hfamilyIn req (by simp)⟩
      | eccVersion =>
        exact inAll_eq_true hne (intersectionSet_mem heccVersions (first_eq_ok heccVersion))
      | ecSuits => exact inAll_eq_true hne (intersectionList_mem hsuits (first_eq_ok hsuit))
      | pointOctetFormats =>
        exact inAll_eq_true hne (intersectionSet_mem hformats (first_eq_ok hformat))
    rw [hpasses] at hfail
    cases hfail
  exact ⟨hbreaks, hbreaks.not_psiException⟩

namespace Sample

/-- A peer that only knows version 2. -/
def newer : HandshakeRequest := { honest with version := 2 }

theorem newer_not_refused :
    WellTyped newer { supportedVersions := [1], itemNum := 7, resultToRank := -1 } ∧
    firstFailing ours newer { supportedVersions := [1], itemNum := 7, resultToRank := -1 } =
      some .version ∧
    ours.negotiateHandshake insertionOrder newer = .error .syntaxError ∧
    ¬ ∃ msg, ours.negotiateHandshake insertionOrder newer =
      .error (.psiException Check.version.errorCode msg) := by
  have hraised : ours.negotiateHandshake insertionOrder newer = .error .syntaxError := rfl
  refine ⟨⟨rfl, by decide, by decide⟩, by decide, hraised, ?_⟩
  rintro ⟨msg, h⟩
  rw [hraised] at h
  cases h

/-- A peer whose only suit has another curve. -/
def otherCurve : HandshakeRequest :=
  { honest with
    protocolFamilyParams := [.eccProtocolProposal (some
      { supportedVersions := [1]
        ecSuits := [{ curve := 2, hash := 30, hash2curveStrategy := 3 }]
        pointOctetFormats := [1]
        supportPointTruncation := false })] }

theorem otherCurve_never_refused : Breaks (ours.negotiateHandshake insertionOrder otherCurve) ∧
    ∀ code msg,
      ours.negotiateHandshake insertionOrder otherCurve ≠ .error (.psiException code msg) := by
  have hwell : WellTyped otherCurve { supportedVersions := [1], itemNum := 7, resultToRank := -1 } :=
    ⟨rfl, by decide, by decide⟩
  have hfail : firstFailing ours otherCurve
      { supportedVersions := [1], itemNum := 7, resultToRank := -1 } = some .ecSuits := by
    decide
  exact negotiateHandshake_never_refused hwell hfail

end Sample

end Psi.Handshake
