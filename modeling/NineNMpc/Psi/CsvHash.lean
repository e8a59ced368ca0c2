-- SUMMARY: The hash of an id that is read from a CSV file: exactly when two files give one id text the same hash.
import NineNMpc.Psi.Repartition

/-!
# Hashes of ids from CSV files

`read_data_from_filesystem` hands the ids of a CSV file to `add_hash_column` of
`psi_actors.py`. pyarrow's reader, with the default options the code gives it, makes a
column of integers if every cell is one and a column of strings otherwise, and
`get_hash` encodes an integer and a string differently. What counts as an integer is a
parameter.
-/

namespace Psi.Repartition

variable {φ ρ σ : Type}

deriving instance DecidableEq for HashedRow

/-! ## The reader -/

structure CsvReader where
  parseInteger : String → Option Int

namespace CsvReader

/-- Every cell of the column is an integer. -/
def isInteger (reader : CsvReader) (cells : List String) : Bool :=
  cells.all fun cell => (reader.parseInteger cell).isSome

/-- The value of a cell of the column. -/
def convert (reader : CsvReader) (cells : List String) (cell : String) : PyValue φ :=
  if reader.isInteger cells then .int ((reader.parseInteger cell).getD 0) else .str cell

/-- What `get_hash` hashes for a cell, by the type of its column. -/
def bytes? (reader : CsvReader) (integer : Bool) (cell : String) : Option Bytes :=
  if integer then (reader.parseInteger cell).bind toBytes8 else some cell.toUTF8.toList

end CsvReader

/-- `add_hash_column` on the rows of a CSV file, where `text` is the cell of the id. -/
def addHashColumnCsv (H : Hasher φ) (reader : CsvReader) (text : ρ → String) (rows : List ρ)
    (hashedModN : Nat) : Except PyError (List (HashedRow ρ)) :=
  addHashColumn H (fun row => reader.convert (rows.map text) (text row)) rows hashedModN

/-- Rows with the id text `x` have one hash in both tables. -/
def SameHash (text₁ : ρ → String) (text₂ : σ → String) (x : String) (t₁ : List (HashedRow ρ))
    (t₂ : List (HashedRow σ)) : Prop :=
  ∀ a ∈ t₁, ∀ b ∈ t₂, text₁ a.row = x → text₂ b.row = x → a.hashed = b.hashed

/-- blake2b does not map the eight bytes of the integer `x` and the text `x` to one digest. -/
def Separates (H : Hasher φ) (reader : CsvReader) (x : String) : Prop :=
  ∀ i b, reader.parseInteger x = some i → toBytes8 i = some b →
    H.hash16 b ≠ H.hash16 x.toUTF8.toList

/-! ## The hashed column -/

variable {H : Hasher φ} {idOf : ρ → PyValue φ} {df : List ρ} {n : Nat} {t : List (HashedRow ρ)}

/-- The columns are put beside the rows. -/
theorem rows_of_zipWith {hashedId : List Digest} {hashedMod : List (Option Int)}
    (hid : hashedId.length = df.length) (hmod : hashedMod.length = df.length)
    (ht : t = (hashedId.zip hashedMod).zipWith
      (fun cols row => { hashed := cols.1, hashedMod := cols.2, row }) df) :
    t.map (·.row) = df ∧ ∀ a ∈ t, (a.row, a.hashed) ∈ df.zip hashedId := by
  subst ht
  constructor
  · rw [List.map_zipWith]
    apply List.ext_getElem
    · simp [hid, hmod]
    · intro i _ _
      simp
  · intro a ha
    obtain ⟨i, hi, rfl⟩ := List.getElem_of_mem ha
    simp only [List.length_zipWith, List.length_zip] at hi
    have hlt : i < (df.zip hashedId).length := by
      rw [List.length_zip]
      omega
    refine List.mem_of_getElem (h := hlt) ?_
    simp

/-- What a table with the added columns has in its rows. -/
theorem addHashColumn_ok (h : addHashColumn H idOf df n = .ok t) :
    t.map (·.row) = df ∧ ∃ typ, (∀ x ∈ (df.map idOf).head?, x.idType = some typ) ∧
      ∀ a ∈ t, ∃ b, encode H typ (idOf a.row) = .ok b ∧ a.hashed = H.hash16 b := by
  unfold addHashColumn at h
  split at h
  case h_1 => cases h
  case h_2 head idTail hids =>
    split at h
    case h_1 => cases h
    case h_2 typ htyp =>
      rw [← hids] at h
      cases hhash : getHash H (df.map idOf) typ with
      | error e =>
        rw [hhash] at h
        cases h
      | ok hashedId =>
        have hall := List.forall₂_of_mapM_eq_ok hhash
        have hid : hashedId.length = df.length := by simpa using hall.length_eq.symm
        have hmods : ∃ hashedMod : List (Option Int), hashedMod.length = df.length ∧
            t = (hashedId.zip hashedMod).zipWith
              (fun cols row => { hashed := cols.1, hashedMod := cols.2, row }) df := by
          rw [hhash] at h
          simp only [bind, Except.bind] at h
          split at h
          case isTrue =>
            cases h
            exact ⟨_, by simp [hid], rfl⟩
          case isFalse =>
            split at h
            case h_1 => cases h
            case h_2 hashedMod hmod =>
              cases h
              exact ⟨hashedMod, by rw [← (List.forall₂_of_mapM_eq_ok hmod).length_eq, hid], rfl⟩
        obtain ⟨hashedMod, hmod, ht⟩ := hmods
        obtain ⟨hrows, hmem⟩ := rows_of_zipWith hid hmod ht
        refine ⟨hrows, typ, by simp [hids, htyp], fun a ha => ?_⟩
        have hget := List.forall₂_zip (List.forall₂_map_left_iff.mp hall) (hmem a ha)
        cases hencode : encode H typ (idOf a.row) with
        | error e =>
          rw [hencode] at hget
          cases hget
        | ok b =>
          rw [hencode] at hget
          exact ⟨b, rfl, (Except.ok.inj hget).symm⟩

/-! ## Two files -/

variable {reader : CsvReader} {x : String} {text : ρ → String} {rows : List ρ}

/-- The hash of a row depends on its text and on the type of the column. -/
theorem addHashColumnCsv_ok (h : addHashColumnCsv H reader text rows n = .ok t) :
    t.map (·.row) = rows ∧ ∀ a ∈ t, ∃ b,
      reader.bytes? (reader.isInteger (rows.map text)) (text a.row) = some b ∧
        a.hashed = H.hash16 b := by
  obtain ⟨hrows, typ, htyp, hhash⟩ := addHashColumn_ok h
  refine ⟨hrows, fun a ha => ?_⟩
  obtain ⟨b, hencode, hhashed⟩ := hhash a ha
  refine ⟨b, ?_, hhashed⟩
  have hrow : a.row ∈ rows := by
    rw [← hrows]
    exact List.mem_map_of_mem ha
  obtain ⟨row, rows', rfl⟩ := List.exists_cons_of_ne_nil (List.ne_nil_of_mem hrow)
  have hhead := htyp (reader.convert ((row :: rows').map text) (text row)) (by simp)
  cases hint : reader.isInteger ((row :: rows').map text) with
  | false =>
    simp only [CsvReader.convert, hint, Bool.false_eq_true, if_false] at hhead hencode
    cases hhead
    cases hencode
    rfl
  | true =>
    simp only [CsvReader.convert, hint, if_true] at hhead hencode
    cases hhead
    have hsome : (reader.parseInteger (text a.row)).isSome = true := by
      have hall := hint
      simp only [CsvReader.isInteger, List.all_eq_true] at hall
      exact hall _ (List.mem_map_of_mem hrow)
    obtain ⟨i, hi⟩ := Option.isSome_iff_exists.mp hsome
    simp only [encode, hi, Option.getD_some] at hencode
    split at hencode
    case h_1 b' hb =>
      cases hencode
      simp [CsvReader.bytes?, hi, hb]
    case h_2 => cases hencode

/-- The row of an id text that the file has. -/
theorem exists_row (h : addHashColumnCsv H reader text rows n = .ok t) (hx : x ∈ rows.map text) :
    ∃ a ∈ t, text a.row = x := by
  obtain ⟨row, hrow, rfl⟩ := List.mem_map.mp hx
  rw [← (addHashColumnCsv_ok h).1] at hrow
  obtain ⟨a, ha, rfl⟩ := List.mem_map.mp hrow
  exact ⟨a, ha, rfl⟩

variable {text' : σ → String} {rows' : List σ} {m : Nat} {t' : List (HashedRow σ)}

theorem sameHash_of_isInteger (h : addHashColumnCsv H reader text rows n = .ok t)
    (h' : addHashColumnCsv H reader text' rows' m = .ok t')
    (htype : reader.isInteger (rows.map text) = reader.isInteger (rows'.map text')) :
    SameHash text text' x t t' := by
  intro a ha b hb hax hbx
  obtain ⟨c, hc, hhash⟩ := (addHashColumnCsv_ok h).2 a ha
  obtain ⟨c', hc', hhash'⟩ := (addHashColumnCsv_ok h').2 b hb
  rw [htype, hax, ← hbx, hc', Option.some.injEq] at hc
  rw [hhash, hhash', hc]

/-- An integer column and a string column hash the integer `x` differently. -/
theorem hashed_ne_of_isInteger (hsep : Separates H reader x)
    (h : addHashColumnCsv H reader text rows n = .ok t)
    (h' : addHashColumnCsv H reader text' rows' m = .ok t')
    (hint : reader.isInteger (rows.map text) = true)
    (hint' : reader.isInteger (rows'.map text') = false) {a : HashedRow ρ} {b : HashedRow σ}
    (ha : a ∈ t) (hb : b ∈ t') (hax : text a.row = x) (hbx : text' b.row = x) :
    a.hashed ≠ b.hashed := by
  obtain ⟨c, hc, hhash⟩ := (addHashColumnCsv_ok h).2 a ha
  obtain ⟨c', hc', hhash'⟩ := (addHashColumnCsv_ok h').2 b hb
  simp only [CsvReader.bytes?, hint, hint', hax, hbx, if_true, Bool.false_eq_true, if_false,
    Option.bind_eq_some_iff, Option.some.injEq] at hc hc'
  obtain ⟨i, hi, hbytes⟩ := hc
  rw [hhash, hhash', ← hc']
  exact hsep i c hi hbytes

/-- Equal hashes are what the intersection looks at. -/
theorem mem_doPsi {a : HashedRow ρ} (ha : a ∈ t) (hsame : SameHash text text' (text a.row) t t')
    (h' : addHashColumnCsv H reader text' rows' m = .ok t') (hx : text a.row ∈ rows'.map text') :
    a ∈ doPsi t t' := by
  obtain ⟨b, hb, hbx⟩ := exists_row h' hx
  have hhash := hsame a ha b hb rfl hbx
  simp only [doPsi, List.semijoin, List.mem_filter, decide_eq_true_eq]
  exact ⟨ha, hhash ▸ List.mem_map_of_mem hb⟩

/-- Two files that both have the id text `x` give it the same hash if and only if their columns are
    of one type, and then every common id text is in the intersection. -/
theorem addHashColumn_independent_iff (hsep : Separates H reader x)
    (h : addHashColumnCsv H reader text rows n = .ok t)
    (h' : addHashColumnCsv H reader text' rows' m = .ok t') (hx : x ∈ rows.map text)
    (hx' : x ∈ rows'.map text') :
    (SameHash text text' x t t' ↔
      reader.isInteger (rows.map text) = reader.isInteger (rows'.map text')) ∧
    (reader.isInteger (rows.map text) = reader.isInteger (rows'.map text') →
      (∀ a ∈ t, text a.row ∈ rows'.map text' → a ∈ doPsi t t') ∧
      (∀ b ∈ t', text' b.row ∈ rows.map text → b ∈ doPsi t' t)) := by
  obtain ⟨a, ha, hax⟩ := exists_row h hx
  obtain ⟨b, hb, hbx⟩ := exists_row h' hx'
  refine ⟨⟨fun hsame => ?_, sameHash_of_isInteger h h'⟩, fun htype => ⟨?_, ?_⟩⟩
  · have hhash := hsame a ha b hb hax hbx
    cases hint : reader.isInteger (rows.map text) <;>
      cases hint' : reader.isInteger (rows'.map text')
    · rfl
    · exact absurd hhash.symm (hashed_ne_of_isInteger hsep h' h hint' hint hb ha hbx hax)
    · exact absurd hhash (hashed_ne_of_isInteger hsep h h' hint hint' ha hb hax hbx)
    · rfl
  · intro a ha hmem
    exact mem_doPsi ha (sameHash_of_isInteger h h' htype) h' hmem
  · intro b hb hmem
    exact mem_doPsi hb (sameHash_of_isInteger h' h htype.symm) h hmem

namespace CsvSample

def digits? (cs : List Char) : Option Nat :=
  if cs ≠ [] ∧ cs.all Char.isDigit then some (Nat.ofDigitChars 10 cs 0) else none

/-- Decimal integers. -/
def decimal : CsvReader where
  parseInteger s :=
    match s.toList with
    | '-' :: cs => (digits? cs).map fun k => -(k : Int)
    | cs => (digits? cs).map Int.ofNat

def digestOfText : Digest :=
  ⟨[158, 40, 127, 89, 13, 45, 203, 191, 56, 123, 251, 112, 146, 142, 98, 29], rfl⟩

def digestOfInteger : Digest :=
  ⟨[90, 176, 127, 252, 184, 104, 199, 55, 249, 206, 9, 191, 181, 4, 66, 8], rfl⟩

def digestOfA : Digest :=
  ⟨[39, 195, 94, 110, 147, 115, 135, 127, 41, 229, 98, 70, 78, 70, 73, 126], rfl⟩

def sevenBytes : Bytes := (toBytes8 7).getD []

/-- blake2b on the text `"7"`, on the eight bytes of the integer `7` and on `"a"`; nothing else is hashed. -/
def hasher : Hasher Empty where
  hash16 b :=
    if b = "7".toUTF8.toList then digestOfText
    else if b = sevenBytes then digestOfInteger
    else digestOfA
  packFloat := fun _ => none

/-- One party has only `7`, the other has `a` too. -/
theorem mixedColumns_lose_id :
    ∃ t t', addHashColumnCsv hasher decimal id ["7"] 0 = .ok t ∧
      addHashColumnCsv hasher decimal id ["7", "a"] 0 = .ok t' ∧
      ¬ SameHash id id "7" t t' ∧ doPsi t t' = [] := by
  refine ⟨[⟨digestOfInteger, none, "7"⟩], [⟨digestOfText, none, "7"⟩, ⟨digestOfA, none, "a"⟩],
    ?_, ?_, ?_, ?_⟩
  · decide +kernel
  · decide +kernel
  · intro h
    have hhash := h ⟨digestOfInteger, none, "7"⟩ (by simp) ⟨digestOfText, none, "7"⟩ (by simp) rfl rfl
    exact absurd hhash (by decide)
  · decide +kernel

theorem separates_seven : Separates hasher decimal "7" := by
  intro i b hi hb
  have hseven : decimal.parseInteger "7" = some 7 := by decide +kernel
  rw [hseven] at hi
  cases hi
  have hbytes : b = sevenBytes := by rw [sevenBytes, hb, Option.getD_some]
  rw [hbytes]
  decide +kernel

/-- In two columns of strings `7` has one hash, and it is in the intersection. -/
theorem stringColumns_keep_id :
    ∃ t t', addHashColumnCsv hasher decimal id ["7", "a"] 0 = .ok t ∧
      addHashColumnCsv hasher decimal id ["a", "7"] 0 = .ok t' ∧ SameHash id id "7" t t' ∧
      ∀ a ∈ t, a.row ∈ ["a", "7"] → a ∈ doPsi t t' := by
  have h : addHashColumnCsv hasher decimal id ["7", "a"] 0 =
      .ok [⟨digestOfText, none, "7"⟩, ⟨digestOfA, none, "a"⟩] := by
    decide +kernel
  have h' : addHashColumnCsv hasher decimal id ["a", "7"] 0 =
      .ok [⟨digestOfA, none, "a"⟩, ⟨digestOfText, none, "7"⟩] := by
    decide +kernel
  have htype : decimal.isInteger (["7", "a"].map id) = decimal.isInteger (["a", "7"].map id) := by
    decide +kernel
  obtain ⟨hiff, hcommon⟩ := addHashColumn_independent_iff separates_seven h h' (by simp) (by simp)
  exact ⟨_, _, h, h', hiff.mpr htype, fun a ha hmem => (hcommon htype).1 a ha (by simpa using hmem)⟩

end CsvSample

end Psi.Repartition
