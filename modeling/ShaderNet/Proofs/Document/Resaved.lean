import ShaderNet.Proofs.Document.RoundTrip
import ShaderNet.Proofs.Json.Pretty
import ShaderNet.Proofs.Number.Twice

/-! Documents saved as text and loaded again. All but the numbers comes back, and each number comes
back as its own numeral is read. Numbers with few digits come back as they were. -/
namespace ShaderNet
open Number (Binary Double Single)

def Passage.written : Passage where
  double x := x.documentText.bind fun text => (Json.read text).bind Json.double?
  single x := x.documentText.bind fun text => (Json.read text).bind Json.single?

namespace Json

/-! What is read again is faithful -/

theorem resavedItemsMap (items : List Json) : resavedItems items = items.map resaved := by
  induction items with
  | nil => rfl
  | cons j rest ih => rw [resavedItems, ih, List.map_cons]

theorem resavedFieldsMap (fields : List (String × Json)) :
    resavedFields fields = fields.map fun e => (e.1, e.2.resaved) := by
  induction fields with
  | nil => rfl
  | cons e rest ih => rw [resavedFields, ih, List.map_cons]

theorem faithfulResaved : Faithful resaved where
  bool _ := by rw [resaved]; all_goals simp
  natural _ _ := by rw [natural, resaved]; all_goals simp
  string _ := by rw [resaved]; all_goals simp
  array items := by rw [resaved, resavedItemsMap]
  object fields := by rw [resaved, resavedFieldsMap]

/- A number alone is a tree too. -/
theorem passageResaved : passage resaved = Passage.written := by
  have double : (passage resaved).double = Passage.written.double := by
    funext x
    cases x with
    | finite s w =>
      have read := readPretty (j := .double (.finite s w)) trivial
      have text := Binary.documentNumeral ⟨-4, 16⟩ s w
      simp only [pretty, prettyAt, atom, Double.documentText, text, Option.getD_some] at read
      simp only [Passage.written, Double.documentText, text, Option.bind_some, read]
      rfl
    | _ => rfl
  have single : (passage resaved).single = Passage.written.single := by
    funext x
    cases x with
    | finite s w =>
      have read := readPretty (j := .single (.finite s w)) trivial
      have text := Binary.documentNumeral ⟨-5, 13⟩ s w
      simp only [pretty, prettyAt, atom, Single.documentText, text, Option.getD_some] at read
      simp only [Passage.written, Single.documentText, text, Option.bind_some, read]
      rfl
    | _ => rfl
  exact congrArg₂ Passage.mk double single

end Json

/-! Numbers that come back -/

namespace Number

def Double.isShort : Double → Bool
  | .finite _ w => w.val = 0 || (Decimal.shortest .double .even w).isShort
  | _ => false

def Single.isShort : Single → Bool
  | .finite _ w => w.val = 0 ||
    (Decimal.shortest .single .even w).isShort && -12 ≤ (Decimal.shortest .single .even w).exponent
  | _ => false

theorem Binary.numeralZero {f : Format} (range : PointRange) {w : Fin f.infinity}
    {v : Fin Format.double.infinity} (none : w.val = 0) (zero : v.val = 0) (s : Bool) :
    (numeral range w).value s = .double (.finite s v) := by
  rw [numeral, if_pos none]
  refine Json.Numeral.readExact (m := 0) (e := -1) (.inl (by simp)) rfl rfl (by decide) (by decide)
    (by decide) (Decimal.toBinaryExact s ?_)
  rw [zero, Format.magnitudeZero, Decimal.value, Nat.cast_zero, zero_mul]

/- A numeral that is short as it stands is read as the double nearest to it. -/
theorem Binary.numeralShort {f : Format} (range : PointRange) {w : Fin f.infinity} (some : w.val ≠ 0)
    (short : (Decimal.shortest f .even w).isShort = true) {s : Bool} {v : Fin Format.double.infinity}
    (reads : ((Decimal.shortest f .even w).toBinary s : Double) = .finite s v) :
    (numeral range w).value s = .double (.finite s v) := by
  rw [numeral, if_neg some]
  exact Decimal.numeralExact range
    (Decimal.shortestPositive w.isLt (Nat.pos_of_ne_zero some)) short reads

end Number

namespace Passage

theorem writtenDouble {x : Double} (short : x.isShort = true) : written.double x = some x := by
  rw [← Json.passageResaved]
  cases x with
  | finite s w =>
    have back : (Binary.numeral ⟨-4, 16⟩ w).value s = .double (.finite s w) := by
      by_cases zero : w.val = 0
      · exact Binary.numeralZero _ zero zero s
      · have short : (Number.Decimal.shortest .double .even w).isShort = true := by
          simpa [Number.Double.isShort, zero] using short
        exact Binary.numeralShort _ zero short (Number.Decimal.shortestReads s w)
    exact congrArg Json.double? back
  | _ => cases short

theorem writtenSingle {x : Single} (short : x.isShort = true) : written.single x = some x := by
  rw [← Json.passageResaved]
  cases x with
  | finite s w =>
    obtain ⟨v, back, same⟩ : ∃ v, (Binary.numeral ⟨-5, 13⟩ w).value s = .double (.finite s v) ∧
        ((.finite s v : Double).convert : Single) = .finite s w := by
      by_cases zero : w.val = 0
      · refine ⟨⟨0, by decide⟩, Binary.numeralZero _ zero rfl s, Binary.convertExact s ?_⟩
        rw [zero, Number.Format.magnitudeZero, Number.Format.magnitudeZero]
      · simp only [Number.Single.isShort, zero, decide_false, Bool.false_or, Bool.and_eq_true,
          decide_eq_true_eq] at short
        obtain ⟨v, reads, same⟩ := Number.Decimal.throughDouble
          (Number.Decimal.shortestPositive w.isLt (Nat.pos_of_ne_zero zero)) short.1 short.2
          (Number.Decimal.shortestReads s w)
        exact ⟨v, Binary.numeralShort _ zero short.1 reads, same⟩
    exact (congrArg Json.single? back).trans (congrArg some same)
  | _ => cases short

end Passage

namespace Json

/-! Documents are not nested deeply -/

theorem allFit {room : Nat} {items : List Json} : AllFit room items ↔ ∀ j ∈ items, j.Fits room := by
  induction items with
  | nil => simp [AllFit]
  | cons j rest ih => rw [AllFit, ih, List.forall_mem_cons]

theorem fieldsFit {room : Nat} {fields : List (String × Json)} :
    FieldsFit room fields ↔ ∀ e ∈ fields, e.2.Fits room := by
  induction fields with
  | nil => simp [FieldsFit]
  | cons e rest ih => rw [FieldsFit, ih, List.forall_mem_cons]

theorem arrayFits {room : Nat} {items : List Json} :
    (array items).Fits (room + 1) ↔ ∀ j ∈ items, j.Fits room := by simp [Fits, allFit]

theorem objectFits {room : Nat} {fields : List (String × Json)} :
    (object fields).Fits (room + 1) ↔ ∀ e ∈ fields, e.2.Fits room := by simp [Fits, fieldsFit]

theorem naturalFits {n : Nat} (small : n < 4294967296) (room : Nat) : (natural n).Fits room := by
  simp [natural, Fits, largestWord]
  omega

theorem listFits {α : Type} {encode : α → Json} {l : List α} {room : Nat} :
    (ofList encode l).Fits (room + 1) ↔ ∀ a ∈ l, (encode a).Fits room := by
  rw [ofList, arrayFits, List.forall_mem_map]

theorem tryListFits {α : Type} {encode : α → Option Json} {l : List α} {j : Json} {room : Nat}
    (wrote : tryList encode l = some j) (each : ∀ a ∈ l, ∀ i, encode a = some i → i.Fits room) :
    j.Fits (room + 1) := by
  obtain ⟨items, listed, rfl⟩ := Option.map_eq_some_iff.mp wrote
  refine arrayFits.mpr fun i member => ?_
  obtain ⟨a, inside, encoded⟩ := ValueType.pairedMember (ValueType.mapMPaired listed) member
  exact each a inside i encoded

theorem tryTableFits {α : Type} {encode : α → Option Json} {t : Table String α} {j : Json} {room : Nat}
    (wrote : tryTable encode t = some j)
    (each : ∀ a ∈ t.values, ∀ i, encode a = some i → i.Fits room) : j.Fits (room + 1) := by
  obtain ⟨fields, listed, rfl⟩ := Option.map_eq_some_iff.mp wrote
  refine objectFits.mpr fun field member => ?_
  obtain ⟨e, inside, encoded⟩ := ValueType.pairedMember (ValueType.mapMPaired listed) member
  obtain ⟨i, value, rfl⟩ := Option.map_eq_some_iff.mp encoded
  exact each e.2 (List.mem_map_of_mem inside) i value

theorem doubleFits (x : Double) (room : Nat) : (ofDouble x).Fits room := by
  unfold ofDouble
  split <;> trivial

theorem singleFits (x : Single) (room : Nat) : (ofSingle x).Fits room := by
  unfold ofSingle
  split <;> trivial

theorem stringFits (s : String) (room : Nat) : (string s).Fits room := trivial

end Json

section Fits

open Json (Fits objectFits arrayFits listFits tryListFits tryTableFits naturalFits doubleFits singleFits stringFits)

variable (room : Nat)

theorem Parameter.valueFits {q : Parameter} {j : Json} (wrote : q.encodeValue = some j) :
    j.Fits (room + 1) := by
  cases q with
  | path p =>
    obtain ⟨s, _, rfl⟩ := Option.map_eq_some_iff.mp wrote
    exact stringFits s _
  | number x => cases wrote; exact doubleFits x _
  | color c => cases wrote; exact listFits.mpr fun x _ => singleFits x _
  | floatVector xs => cases wrote; exact listFits.mpr fun x _ => singleFits x _
  | _ => cases wrote; trivial

theorem Parameter.encodeFits {q : Parameter} {j : Json} (wrote : q.encode = some j) :
    j.Fits (room + 2) := by
  obtain ⟨value, wroteValue, rfl⟩ := Option.map_eq_some_iff.mp wrote
  simp [objectFits, stringFits, valueFits room wroteValue]

theorem Point.encodeFits (q : Point) : q.encode.Fits (room + 1) := by
  simp [encode, objectFits, doubleFits]

theorem Node.encodeFits {n : Node} {j : Json} (wrote : n.encode = some j) : j.Fits (room + 4) := by
  obtain ⟨table, wroteTable, rfl⟩ := Option.map_eq_some_iff.mp wrote
  have parameters : table.Fits (room + 3) :=
    tryTableFits wroteTable fun _ _ _ wrote => Parameter.encodeFits room wrote
  have position : n.position.encode.Fits (room + 3) := n.position.encodeFits (room + 2)
  simp [objectFits, stringFits, position, parameters]

theorem Socket.encodeFits (s : Socket) : s.encode.Fits (room + 1) := by
  simp [encode, objectFits, stringFits]

theorem ValueType.basicFits {t : ValueType} (basic : t.isBasic = true) : t.encode.Fits (room + 1) := by
  cases t with
  | vector base size =>
    have range := basicVector basic
    have small : size < 4294967296 := by omega
    simp [encode, objectFits, stringFits, naturalFits small]
  | matrix base rows cols =>
    obtain ⟨_, height, width⟩ := basicMatrix basic
    have first : rows < 4294967296 := by omega
    have second : cols < 4294967296 := by omega
    simp [encode, objectFits, stringFits, naturalFits first, naturalFits second]
  | variant ts => cases basic
  | _ => simp [encode, objectFits, stringFits]

theorem ValueType.encodeAllMap (ts : List ValueType) : encodeAll ts = ts.map encode := by
  induction ts with
  | nil => rfl
  | cons t rest ih => rw [encodeAll, ih, List.map_cons]

theorem ValueType.encodeFits {t : ValueType} (canonical : t.isCanonical = true) :
    t.encode.Fits (room + 3) := by
  cases t with
  | variant ts =>
    have each : (Json.array (encodeAll ts)).Fits (room + 2) := by
      rw [encodeAllMap, arrayFits, List.forall_mem_map]
      exact fun t member => basicFits room (alternativesBasic canonical t member)
    simp [encode, objectFits, stringFits, each]
  | _ => exact basicFits (room + 2) canonical

theorem Connection.encodeFits {c : Connection}
    (canonical : ∀ t, c.type = some t → t.isCanonical = true) : c.encode.Fits (room + 4) := by
  have source : c.source.encode.Fits (room + 3) := c.source.encodeFits (room + 2)
  have target : c.target.encode.Fits (room + 3) := c.target.encodeFits (room + 2)
  cases type : c.type with
  | none => simp [encode, type, Json.given, objectFits, source, target]
  | some t =>
    have given := ValueType.encodeFits room (canonical t type)
    simp [encode, type, Json.given, objectFits, source, target, given]

theorem Uniform.encodeFits {u : Uniform} {j : Json} (canonical : u.type.isCanonical = true)
    (wrote : u.encode = some j) : j.Fits (room + 4) := by
  obtain ⟨value, wroteValue, rfl⟩ := Option.map_eq_some_iff.mp wrote
  have type := ValueType.encodeFits room canonical
  cases default : u.default with
  | none =>
    rw [default] at wroteValue
    cases wroteValue
    simp [Json.given, objectFits, stringFits, type]
  | some q =>
    rw [default] at wroteValue
    obtain ⟨i, wroteDefault, rfl⟩ := Option.map_eq_some_iff.mp wroteValue
    have value : i.Fits (room + 3) := Parameter.encodeFits (room + 1) wroteDefault
    simp [Json.given, objectFits, stringFits, type, value]

theorem Document.encodeFits {d : Document} {j : Json} (version : d.version < 4294967296)
    (canonical : d.isCanonical = true) (wrote : d.encode = some j) : j.Fits (room + 6) := by
  simp only [isCanonical, Bool.and_eq_true, List.all_eq_true, Option.all_eq_true] at canonical
  obtain ⟨list, wroteNodes, rest⟩ := Option.bind_eq_some_iff.mp wrote
  obtain ⟨table, wroteUniforms, same⟩ := Option.bind_eq_some_iff.mp rest
  cases same
  have includes : (Json.strings d.includes).Fits (room + 5) :=
    listFits.mpr fun s _ => stringFits s _
  have nodes : list.Fits (room + 5) :=
    tryListFits wroteNodes fun _ _ _ wrote => Node.encodeFits room wrote
  have connections : (Json.ofList Connection.encode d.connections).Fits (room + 5) :=
    listFits.mpr fun c member => Connection.encodeFits room (canonical.1 c member)
  have uniforms : table.Fits (room + 5) :=
    tryTableFits wroteUniforms fun u member _ wrote =>
      Uniform.encodeFits room (canonical.2 u member) wrote
  simp [objectFits, naturalFits version, includes, nodes, connections, uniforms]

end Fits

/-! Documents that were read -/

namespace Json

variable {α : Type} {decode : Json → Option α}

theorem requiredRead {j : Option Json} {a : α} (read : required decode j = some a) :
    ∃ i, decode i = some a := by
  cases j with
  | some i => exact ⟨i, read⟩
  | none => cases read

theorem optionalRead {j : Option Json} {a : α} (read : optional decode j = some (some a)) :
    ∃ i, decode i = some a := by
  unfold optional at read
  split at read
  · cases read
  · cases read
  · rename_i i _
    obtain ⟨b, decoded, same⟩ := Option.map_eq_some_iff.mp read
    cases same
    exact ⟨i, decoded⟩

theorem listRead {j : Option Json} {l : List α} (read : defaulted [] (listOf decode) j = some l)
    {a : α} (member : a ∈ l) : ∃ i, decode i = some a := by
  cases j with
  | none => cases read; cases member
  | some j =>
    cases j with
    | array items =>
      obtain ⟨i, _, decoded⟩ := ValueType.pairedMember (ValueType.mapMPaired read) member
      exact ⟨i, decoded⟩
    | _ => cases read

theorem tableRead {j : Option Json} {t : Table String α} (read : defaulted ∅ (tableOf decode) j = some t)
    {a : α} (member : a ∈ t.values) : ∃ i, decode i = some a := by
  cases j with
  | none => cases read; cases member
  | some j =>
    cases j with
    | object fields =>
      obtain ⟨entries, listed, same⟩ := Option.bind_eq_some_iff.mp read
      cases same
      obtain ⟨e, inside, rfl⟩ := List.mem_map.mp member
      have given : e ∈ entries := Table.getOfListMember (Table.getIff.mpr inside)
      obtain ⟨field, _, here⟩ := ValueType.pairedMember (ValueType.mapMPaired listed) given
      obtain ⟨v, value, rfl⟩ := Option.map_eq_some_iff.mp here
      exact ⟨field.2, value⟩
    | _ => cases read

theorem naturalRange {limit n : Nat} {j : Json} (read : natural? limit j = some n) : n < limit := by
  cases j with
  | integer k =>
    rw [natural?] at read
    split at read
    · cases read
      omega
    · cases read
  | _ => cases read

end Json

theorem Parameter.decodeTexts {j : Json} {q : Parameter} (read : decode j = some q) :
    ∀ p ∈ q.paths, p.text? ≠ none := by
  simp only [decode, Option.bind_eq_bind, Option.bind_eq_some_iff] at read
  obtain ⟨fields, _, read⟩ := read
  split at read
  · obtain ⟨kind, _, value⟩ := Option.bind_eq_some_iff.mp read
    cases kind with
    | path =>
      obtain ⟨s, _, rfl⟩ := Option.map_eq_some_iff.mp value
      intro p member
      cases List.mem_singleton.mp member
      exact Path.ofTextReads s
    | _ =>
      obtain ⟨_, _, rfl⟩ := Option.map_eq_some_iff.mp value
      exact List.forall_mem_nil _
  · cases read

theorem Node.decodeTexts {j : Json} {n : Node} (read : decode j = some n) :
    ∀ p ∈ n.paths, p.text? ≠ none := by
  simp only [decode, Option.bind_eq_bind, Option.bind_eq_some_iff] at read
  obtain ⟨fields, _, read⟩ := read
  split at read
  · simp only [Option.bind_eq_some_iff] at read
    obtain ⟨id, _, type, _, position, _, parameters, tabled, same⟩ := read
    cases same
    intro p member
    obtain ⟨q, inside, member⟩ := List.mem_flatMap.mp member
    obtain ⟨i, decoded⟩ := Json.tableRead tabled inside
    exact Parameter.decodeTexts decoded p member
  · cases read

theorem Connection.decodeCanonical {j : Json} {c : Connection} (read : decode j = some c) {t : ValueType}
    (type : c.type = some t) : t.isCanonical = true := by
  simp only [decode, Option.bind_eq_bind, Option.bind_eq_some_iff] at read
  obtain ⟨fields, _, read⟩ := read
  split at read
  · simp only [Option.bind_eq_some_iff] at read
    obtain ⟨source, _, target, _, given, optional, same⟩ := read
    cases same
    cases type
    obtain ⟨i, decoded⟩ := Json.optionalRead optional
    exact ValueType.decodeCanonical decoded
  · cases read

theorem Uniform.decodeRegular {j : Json} {u : Uniform} (read : decode j = some u) :
    u.type.isCanonical = true ∧ ∀ p ∈ u.paths, p.text? ≠ none := by
  simp only [decode, Option.bind_eq_bind, Option.bind_eq_some_iff] at read
  obtain ⟨fields, _, read⟩ := read
  split at read
  · simp only [Option.bind_eq_some_iff] at read
    obtain ⟨id, _, type, required, default, optional, same⟩ := read
    cases same
    obtain ⟨i, decoded⟩ := Json.requiredRead required
    refine ⟨ValueType.decodeCanonical decoded, fun p member => ?_⟩
    obtain ⟨q, given, inside⟩ := List.mem_flatMap.mp member
    cases Option.mem_toList.mp given
    obtain ⟨i, decoded⟩ := Json.optionalRead optional
    exact Parameter.decodeTexts decoded p inside
  · cases read

namespace Document

/- What is left out of a document is empty. -/
theorem decodeRegular {j : Json} {d : Document} (read : decode j = some d) :
    d.version < 4294967296 ∧ d.isCanonical = true ∧ ∀ p ∈ d.paths, p.text? ≠ none := by
  simp only [decode, Option.bind_eq_bind, Option.bind_eq_some_iff] at read
  obtain ⟨fields, _, read⟩ := read
  split at read
  · simp only [Option.bind_eq_some_iff] at read
    obtain ⟨version, number, includes, _, nodes, found, connections, listed, uniforms, tabled, same⟩ :=
      read
    cases same
    refine ⟨?_, ?_, fun p member => ?_⟩
    · obtain ⟨i, decoded⟩ := Json.requiredRead number
      exact Json.naturalRange decoded
    · simp only [isCanonical, Bool.and_eq_true, List.all_eq_true, Option.all_eq_true]
      refine ⟨fun c member t type => ?_, fun u member => ?_⟩
      · obtain ⟨i, decoded⟩ := Json.listRead listed member
        exact Connection.decodeCanonical decoded type
      · obtain ⟨i, decoded⟩ := Json.tableRead tabled member
        exact (Uniform.decodeRegular decoded).1
    · rcases List.mem_append.mp member with member | member
      · obtain ⟨n, inside, member⟩ := List.mem_flatMap.mp member
        obtain ⟨i, decoded⟩ := Json.listRead found inside
        exact Node.decodeTexts decoded p member
      · obtain ⟨u, inside, member⟩ := List.mem_flatMap.mp member
        obtain ⟨i, decoded⟩ := Json.tableRead tabled inside
        exact (Uniform.decodeRegular decoded).2 p member
  · cases read

theorem writeTexts {d : Document} (texts : ∀ p ∈ d.paths, p.text? ≠ none) :
    ∃ saved, d.write = some saved := by
  obtain ⟨j, wrote⟩ := encodeTexts texts
  exact ⟨j.pretty, congrArg (Option.map Json.pretty) wrote⟩

theorem readWritten {d : Document} {saved : String} (version : d.version < 4294967296)
    (canonical : d.isCanonical = true) (wrote : d.write = some saved) :
    read saved = d.through Passage.written := by
  obtain ⟨j, encoded, rfl⟩ := Option.map_eq_some_iff.mp wrote
  have room : j.Fits Json.nestingLimit := encodeFits 121 version canonical encoded
  rw [read, Json.readPretty room, Option.bind_some,
    decodeThrough Json.faithfulResaved version canonical encoded, Json.passageResaved]

def isShort (d : Document) : Bool := d.doubles.all Double.isShort && d.singles.all Single.isShort

theorem shortKept {d : Document} (short : d.isShort = true) :
    Passage.written.Keeps d.doubles d.singles := by
  simp only [isShort, Bool.and_eq_true, List.all_eq_true] at short
  exact ⟨fun x member => Passage.writtenDouble (short.1 x member),
    fun x member => Passage.writtenSingle (short.2 x member)⟩

theorem keptFinite {d : Document} (kept : Passage.written.Keeps d.doubles d.singles) :
    d.isFinite = true := by
  simp only [isFinite, Bool.and_eq_true, List.all_eq_true]
  constructor
  · intro x member
    have passes := kept.doubles x member
    cases x <;> first | rfl | cases passes
  · intro x member
    have passes := kept.singles x member
    cases x <;> first | rfl | cases passes

theorem resavedIff {text : String} {d : Document} (accepted : read text = some d) :
    ∃ saved, d.write = some saved ∧ read saved = d.through Passage.written ∧
      (read saved = some d ↔ Passage.written.Keeps d.doubles d.singles) ∧
      (d.isShort = true → read saved = some d) ∧ (read saved = some d → d.isFinite = true) := by
  obtain ⟨j, _, decoded⟩ := Option.bind_eq_some_iff.mp accepted
  obtain ⟨version, canonical, texts⟩ := decodeRegular decoded
  obtain ⟨saved, wrote⟩ := writeTexts texts
  refine ⟨saved, wrote, ?_⟩
  rw [readWritten version canonical wrote]
  exact ⟨rfl, throughSame, fun short => throughSame.mpr (shortKept short),
    fun same => keptFinite (throughSame.mp same)⟩

def paintText : String :=
  "\x7b\"version\": 1, \"nodes\": [[\"c\", \"color\", [1e1, -0.1], \x7b\"color\": " ++
  "[\"color\", [1, 0.1, 0, 1]]\x7d]]\x7d"

def paintDocument : Document :=
  ⟨1, [], [⟨"c", "color", ⟨.ofInt 10, .ofRatio true 1 10⟩,
    Table.ofList [("color", .color ⟨.ofInt 1, .ofRatio false 1 10, .zero, .ofInt 1⟩)]⟩], [], ∅⟩

theorem resavedIffPaint :
    (read paintText = some paintDocument ∧ paintDocument.isShort = true) ∧
      ∃ saved, paintDocument.write = some saved ∧ read saved = some paintDocument := by
  have accepted : read paintText = some paintDocument := by decide +kernel
  have short : paintDocument.isShort = true := by decide +kernel
  obtain ⟨saved, wrote, _, _, again, _⟩ := resavedIff accepted
  exact ⟨⟨accepted, short⟩, saved, wrote, again short⟩

def glowText : String :=
  "\x7b\"version\": 1, \"nodes\": [[\"c\", \"color\", [0, 0], \x7b\"color\": " ++
  "[\"color\", [1e39, 0, 0, 1]]\x7d]]\x7d"

def glowDocument : Document :=
  ⟨1, [], [⟨"c", "color", .origin,
    Table.ofList [("color", .color ⟨.infinite false, .zero, .zero, .ofInt 1⟩)]⟩], [], ∅⟩

def remoteText : String :=
  "\x7b\"version\": 1, \"nodes\": [[\"f\", \"float\", [123456789.123456789, 0]]]\x7d"

def remoteDocument (x : Double) : Document := ⟨1, [], [⟨"f", "float", ⟨x, .zero⟩, ∅⟩], [], ∅⟩

/- The bright color is read as infinite, for which there is no numeral; the remote place is written
with seventeen digits, which are read as the next place. -/
theorem resavingLoses :
    (read glowText = some glowDocument ∧ ∃ saved, glowDocument.write = some saved ∧ read saved = none) ∧
    ∃ x y, read remoteText = some (remoteDocument x) ∧
      (∃ saved, (remoteDocument x).write = some saved ∧ read saved = some (remoteDocument y)) ∧
      remoteDocument x ≠ remoteDocument y := by
  refine ⟨⟨by decide +kernel, ?_⟩, .ofRatio false 12345678912345679 100000000,
    .ofRatio false 1234567891234568 10000000, by decide +kernel, ?_, by decide +kernel⟩
  · obtain ⟨saved, wrote⟩ := writeTexts (d := glowDocument) (by decide +kernel)
    refine ⟨saved, wrote, ?_⟩
    rw [readWritten (by decide) (by decide +kernel) wrote]
    decide +kernel
  · obtain ⟨saved, wrote⟩ :=
      writeTexts (d := remoteDocument (.ofRatio false 12345678912345679 100000000)) (by decide +kernel)
    refine ⟨saved, wrote, ?_⟩
    rw [readWritten (by decide) (by decide +kernel) wrote]
    decide +kernel

end Document
end ShaderNet
