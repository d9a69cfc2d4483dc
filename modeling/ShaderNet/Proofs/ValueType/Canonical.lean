import ShaderNet.Proofs.ValueType.Normal
import ShaderNet.Proofs.ValueType.Regular

/-! Types as documents write them. A canonical type is read back from what it is written as, and
every type that is read is canonical. -/
namespace ShaderNet.ValueType

def isBasic : ValueType → Bool
  | .scalar _ | .sampler | .broken => true
  | .vector _ size => 2 ≤ size && size ≤ 4
  | .matrix base rows cols =>
    (base = .float || base = .double) && (2 ≤ rows && rows ≤ 4) && (2 ≤ cols && cols ≤ 4)
  | .variant _ => false

def isCanonical : ValueType → Bool
  | .variant ts => 2 ≤ ts.length && ts.Nodup && ts.all isBasic
  | t => t.isBasic

theorem basicVector {base : Scalar} {size : Nat} (basic : (vector base size).isBasic = true) :
    2 ≤ size ∧ size ≤ 4 := by simpa [isBasic] using basic

theorem basicMatrix {base : Scalar} {rows cols : Nat} (basic : (matrix base rows cols).isBasic = true) :
    (base = .float ∨ base = .double) ∧ (2 ≤ rows ∧ rows ≤ 4) ∧ 2 ≤ cols ∧ cols ≤ 4 := by
  simpa [isBasic, and_assoc] using basic

theorem basicPlain {t : ValueType} (basic : t.isBasic = true) : t.isVariant = false := by
  cases t <;> first | rfl | cases basic

theorem canonicalIff {t : ValueType} :
    t.isCanonical = true ↔ t.isNormal = true ∧ ∀ u ∈ t.alternatives, u.isBasic = true := by
  cases t with
  | variant ts =>
    simp only [isCanonical, Bool.and_eq_true, decide_eq_true_eq, List.all_eq_true, variantNormal,
      alternatives]
    constructor
    · rintro ⟨⟨several, nodup⟩, basic⟩
      exact ⟨⟨several, nodup, fun u member => basicPlain (basic u member)⟩, basic⟩
    · rintro ⟨⟨several, nodup, _⟩, basic⟩
      exact ⟨⟨several, nodup⟩, basic⟩
  | _ => simp [isCanonical, isNormal, alternatives]

theorem alternativesBasic {t : ValueType} (canonical : t.isCanonical = true) :
    ∀ u ∈ t.alternatives, u.isBasic = true := (canonicalIff.mp canonical).2

/-! Reading -/

theorem canonicalAdmits : Admits fun t => t.isCanonical = true where
  scalar _ := rfl
  vector _ _ range := by simpa [isCanonical, isBasic] using range
  matrix _ _ _ real rows cols := by simpa [isCanonical, isBasic] using ⟨⟨real, rows⟩, cols⟩
  oneOf ts each := by
    have normal : ∀ t ∈ ts, t.isNormal = true := fun t inside => (canonicalIff.mp (each t inside)).1
    by_cases none : ts = []
    · rw [none]
      rfl
    · refine canonicalIff.mpr ⟨oneOfNormal normal, fun u member => ?_⟩
      obtain ⟨t, inside, member⟩ := (memOneOfNormal normal none).mp member
      exact alternativesBasic (each t inside) u member
  sampler := rfl
  broken := rfl

theorem decodeCanonical {j : Json} {t : ValueType} (read : decode j = some t) :
    t.isCanonical = true := decodeAdmitted canonicalAdmits read

/-! Reading what is written -/

theorem decodeBaseName (base : Scalar) : decodeBase (.string base.name) = some base := by
  cases base <;> rfl

theorem decodeDimensionNatural {n : Nat} (range : 2 ≤ n ∧ n ≤ 4) :
    decodeDimension (.natural n) = some n := by
  obtain ⟨least, most⟩ := range
  have small : (n : Int) < 256 := by omega
  simp [decodeDimension, Json.natural?, Json.natural, small, Option.filter, least, most]

theorem appendDistinct {flat ts : List ValueType} (nodup : (flat ++ ts).Nodup) :
    ts.foldl append flat = flat ++ ts := by
  induction ts generalizing flat with
  | nil => simp
  | cons t ts ih =>
    have fresh : t ∉ flat := fun member =>
      (List.nodup_append.mp nodup).2.2 t member t List.mem_cons_self rfl
    rw [List.foldl_cons, append, if_neg fresh, ih (by simpa using nodup)]
    simp

theorem oneOfDistinct {ts : List ValueType} (plain : ∀ t ∈ ts, t.isVariant = false)
    (nodup : ts.Nodup) (several : 2 ≤ ts.length) : oneOf ts = .variant ts := by
  unfold oneOf
  rw [alternativesEach plain, appendDistinct (by simpa using nodup), List.nil_append]
  rcases ts with _ | ⟨t, _ | ⟨u, rest⟩⟩
  · simp at several
  · simp at several
  · rfl

theorem decodeBasic (nested : Bool) {t : ValueType} (basic : t.isBasic = true) :
    decodeWithin nested t.encode = some t := by
  cases t with
  | scalar base => cases base <;> rfl
  | vector base size =>
    simp [encode, decodeWithin, givenFields, ofFields, uniqueGiven, Kind.decode, Kind.all, Kind.name,
      Kind.fields, ofGiven, decodeBaseName, decodeDimensionNatural (basicVector basic)]
  | matrix base rows cols =>
    obtain ⟨real, first, second⟩ := basicMatrix basic
    have held : decodeMatrixBase (.string base.name) = some base := by
      rw [decodeMatrixBase, decodeBaseName]
      exact if_pos (by simpa using real)
    simp [encode, decodeWithin, givenFields, ofFields, uniqueGiven, Kind.decode, Kind.all, Kind.name,
      Kind.fields, ofGiven, held, decodeDimensionNatural first, decodeDimensionNatural second]
  | variant ts => cases basic
  | sampler => rfl
  | broken => rfl

theorem decodeAllBasic {ts : List ValueType} (basic : ∀ t ∈ ts, t.isBasic = true) :
    decodeAll (encodeAll ts) = some ts := by
  induction ts with
  | nil => rfl
  | cons t ts ih =>
    simp [encodeAll, decodeAll, decodeBasic true (basic t List.mem_cons_self),
      ih fun u member => basic u (List.mem_cons_of_mem _ member)]

mutual

theorem encodeReadable : (t : ValueType) → t.encode.isReadable = true
  | .scalar _ | .vector _ _ | .matrix _ _ _ | .sampler | .broken => rfl
  | .variant ts => by
    simp [encode, Json.isReadable, Json.fieldsReadable, encodeAllReadable ts]

theorem encodeAllReadable : (ts : List ValueType) → Json.areReadable (encodeAll ts) = true
  | [] => rfl
  | t :: ts => by
    simp [encodeAll, Json.areReadable, encodeReadable t, encodeAllReadable ts]

end

theorem decodeEncode {t : ValueType} (canonical : t.isCanonical = true) :
    decode t.encode = some t := by
  rw [decode, if_pos (encodeReadable t)]
  cases t with
  | variant ts =>
    simp only [isCanonical, Bool.and_eq_true, decide_eq_true_eq, List.all_eq_true] at canonical
    obtain ⟨⟨several, nodup⟩, basic⟩ := canonical
    have listed : decodeList (.array (encodeAll ts)) = some ts := by
      rw [decodeList, decodeAllBasic basic]
    have whole := oneOfDistinct (fun t member => basicPlain (basic t member)) nodup several
    simp [encode, decodeWithin, givenFields, ofFields, uniqueGiven, Kind.decode, Kind.all, Kind.name,
      Kind.fields, ofGiven, listed, whole]
  | _ => exact decodeBasic false canonical

end ShaderNet.ValueType
