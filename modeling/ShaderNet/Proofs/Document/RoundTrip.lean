import ShaderNet.Document.Basic
import ShaderNet.Proofs.Table
import ShaderNet.Proofs.ValueType.Canonical

/-! Documents written as trees and read back. A document can be written if each of its paths is a text.
On the way a tree may change in its numbers; then the document that is read differs from the one that
was written in just these. -/
namespace ShaderNet
open Number (Binary Double Single)

/-- What becomes of the numbers of a document; `none` for one that is refused. -/
structure Passage where
  double : Double → Option Double
  single : Single → Option Single

/-! Documents with other numbers -/

section Through

variable (p : Passage)

def Color.through (c : Color) : Option Color := do
  some ⟨← p.single c.red, ← p.single c.green, ← p.single c.blue, ← p.single c.alpha⟩

def Parameter.through : Parameter → Option Parameter
  | number x => (p.double x).map number
  | color c => (c.through p).map color
  | floatVector xs => (xs.mapM p.single).map floatVector
  | other => some other

def Point.through (q : Point) : Option Point := do some ⟨← p.double q.x, ← p.double q.y⟩

def Table.through {α : Type} (f : α → Option α) (t : Table String α) : Option (Table String α) :=
  (t.entries.mapM fun e => (f e.2).map fun v => (e.1, v)).map Table.ofList

def Node.through (n : Node) : Option Node := do
  some ⟨n.id, n.type, ← n.position.through p, ← Table.through (Parameter.through p) n.parameters⟩

def Uniform.through (u : Uniform) : Option Uniform := do
  some ⟨u.id, u.type, ← u.default.mapM (Parameter.through p)⟩

def Document.through (d : Document) : Option Document := do
  some ⟨d.version, d.includes, ← d.nodes.mapM (Node.through p), d.connections,
    ← Table.through (Uniform.through p) d.uniforms⟩

end Through

theorem mapMSame {α : Type} {f : α → Option α} {l : List α} :
    l.mapM f = some l ↔ ∀ a ∈ l, f a = some a := by
  induction l with
  | nil => simp
  | cons a rest ih =>
    simp only [List.mapM_cons, Option.bind_eq_bind, Option.bind_eq_some_iff, List.forall_mem_cons, ← ih]
    constructor
    · rintro ⟨b, here, others, later, same⟩
      cases same
      exact ⟨here, later⟩
    · rintro ⟨here, later⟩
      exact ⟨a, here, rest, later, rfl⟩

theorem mapMFails {α β : Type} {f : α → Option β} {l : List α} :
    l.mapM f = none ↔ ∃ a ∈ l, f a = none := by
  induction l with
  | nil => simp
  | cons a rest ih =>
    rw [List.mapM_cons]
    cases here : f a with
    | none => simp [here]
    | some b => cases later : rest.mapM f <;> simp_all

theorem mapMThen {α β γ : Type} {f : α → Option β} {g : α → Option γ} {h : β → Option γ} {l : List α}
    {results : List β} (read : l.mapM f = some results)
    (each : ∀ a ∈ l, ∀ b, f a = some b → h b = g a) : results.mapM h = l.mapM g := by
  have paired := ValueType.mapMPaired read
  clear read
  induction paired with
  | nil => rfl
  | cons here _ ih =>
    have later := ih fun a member => each a (List.mem_cons_of_mem _ member)
    simp only [List.mapM_cons, each _ List.mem_cons_self _ here, later]

theorem Path.textIff {p : Path} {s : String} : p.text? = some s ↔ p = .ofText s := by
  unfold text? String.fromUTF8?
  constructor
  · intro read
    split at read
    · cases read
      simp [ofText, String.fromUTF8]
    · cases read
  · rintro rfl
    have valid : (⟨(ofText s).bytes.toArray⟩ : ByteArray).IsValidUTF8 := by
      simpa [ofText] using s.isValidUTF8
    rw [dif_pos valid]
    simp [ofText, String.fromUTF8]

theorem Path.ofTextReads (s : String) : (ofText s).text? ≠ none := by
  rw [textIff.mpr rfl]
  exact Option.some_ne_none s

/-! Trees with other numbers -/

namespace Json

structure Faithful (f : Json → Json) : Prop where
  bool : ∀ b, f (.bool b) = .bool b
  natural : ∀ n < 4294967296, f (.natural n) = .natural n
  string : ∀ s, f (.string s) = .string s
  array : ∀ items, f (.array items) = .array (items.map f)
  object : ∀ fields, f (.object fields) = .object (fields.map fun e => (e.1, f e.2))

def passage (f : Json → Json) : Passage where
  double x := (f (.ofDouble x)).double?
  single x := (f (.ofSingle x)).single?

theorem faithfulSame : Faithful fun j => j :=
  ⟨fun _ => rfl, fun _ _ => rfl, fun _ => rfl, by simp, by simp⟩

variable {α β : Type} {f : Json → Json} (faithful : Faithful f)
include faithful

theorem tryListThrough {encode : α → Option Json} {decode : Json → Option β} {g : α → Option β}
    {l : List α} {j : Json} (wrote : tryList encode l = some j)
    (each : ∀ a ∈ l, ∀ i, encode a = some i → decode (f i) = g a) :
    listOf decode (f j) = l.mapM g := by
  obtain ⟨items, listed, rfl⟩ := Option.map_eq_some_iff.mp wrote
  rw [faithful.array, listOf, List.mapM_map]
  exact mapMThen listed each

theorem listOfThrough {encode : α → Json} {decode : Json → Option β} {g : α → Option β} {l : List α}
    (each : ∀ a ∈ l, decode (f (encode a)) = g a) :
    listOf decode (f (.ofList encode l)) = l.mapM g := by
  have wrote : tryList (fun a => some (encode a)) l = some (ofList encode l) :=
    congrArg (Option.map array) List.mapM_pure
  refine tryListThrough faithful wrote fun a member i same => ?_
  cases same
  exact each a member

theorem tryTableThrough {encode : α → Option Json} {decode : Json → Option α} {g : α → Option α}
    {t : Table String α} {j : Json} (wrote : tryTable encode t = some j)
    (each : ∀ a ∈ t.values, ∀ i, encode a = some i → decode (f i) = g a) :
    tableOf decode (f j) = Table.through g t := by
  obtain ⟨fields, listed, rfl⟩ := Option.map_eq_some_iff.mp wrote
  have entries : fields.mapM ((fun e => (decode e.2).map fun v => (e.1, v)) ∘ fun e => (e.1, f e.2)) =
      t.entries.mapM fun e => (g e.2).map fun v => (e.1, v) := by
    refine mapMThen listed fun e member field encoded => ?_
    obtain ⟨i, value, rfl⟩ := Option.map_eq_some_iff.mp encoded
    rw [Function.comp_apply, each e.2 (List.mem_map_of_mem member) i value]
  rw [faithful.object, tableOf, List.mapM_map, entries, Table.through]
  cases t.entries.mapM fun e => (g e.2).map fun v => (e.1, v) <;> rfl

omit faithful in
theorem tryListFails {encode : α → Option Json} {l : List α} :
    tryList encode l = none ↔ ∃ a ∈ l, encode a = none := by
  rw [tryList, Option.map_eq_none_iff, mapMFails]

omit faithful in
theorem tryTableFails {encode : α → Option Json} {t : Table String α} :
    tryTable encode t = none ↔ ∃ a ∈ t.values, encode a = none := by
  rw [tryTable, Option.map_eq_none_iff, mapMFails]
  simp only [Option.map_eq_none_iff, Table.values, List.mem_map, exists_exists_and_eq_and]

omit faithful in
theorem optionalPresent {decode : Json → Option α} {j : Json} (present : j.isNull = false) :
    optional decode (some j) = (decode j).map some := by
  cases j <;> first | rfl | cases present

end Json

/-! Reading what is written -/

section Through

open Json (Faithful passage)

variable {f : Json → Json} (faithful : Faithful f)
include faithful

theorem ValueType.basicThrough {t : ValueType} (basic : t.isBasic = true) :
    f t.encode = t.encode := by
  cases t with
  | vector base size =>
    have range := basicVector basic
    have small : size < 4294967296 := by omega
    simp [encode, faithful.object, faithful.string, faithful.natural size small]
  | matrix base rows cols =>
    obtain ⟨_, height, width⟩ := basicMatrix basic
    have first : rows < 4294967296 := by omega
    have second : cols < 4294967296 := by omega
    simp [encode, faithful.object, faithful.string, faithful.natural rows first,
      faithful.natural cols second]
  | variant ts => cases basic
  | _ => simp [encode, faithful.object, faithful.string]

theorem ValueType.encodeAllThrough {ts : List ValueType} (basic : ∀ t ∈ ts, t.isBasic = true) :
    (encodeAll ts).map f = encodeAll ts := by
  induction ts with
  | nil => rfl
  | cons t ts ih =>
    rw [encodeAll, List.map_cons, basicThrough faithful (basic t List.mem_cons_self),
      ih fun u member => basic u (List.mem_cons_of_mem _ member)]

theorem ValueType.encodeThrough {t : ValueType} (canonical : t.isCanonical = true) :
    f t.encode = t.encode := by
  cases t with
  | variant ts =>
    have basic : ∀ u ∈ ts, u.isBasic = true := alternativesBasic canonical
    simp [encode, faithful.object, faithful.string, faithful.array, encodeAllThrough faithful basic]
  | _ => exact basicThrough faithful canonical

omit faithful in
theorem ParameterKind.ofTagged (k : ParameterKind) : ofTag? k.tag = some k := by cases k <;> rfl

theorem Parameter.decodeColorThrough (c : Color) :
    decodeColor (f (.ofList .ofSingle c.channels)) = c.through (passage f) := by
  have channels : Json.listOf Json.single? (f (.ofList .ofSingle c.channels)) =
      c.channels.mapM (passage f).single := Json.listOfThrough faithful fun _ _ => rfl
  rw [decodeColor, channels]
  simp only [Color.channels, Color.through, List.mapM_cons, List.mapM_nil]
  generalize (passage f).single c.red = r, (passage f).single c.green = g,
    (passage f).single c.blue = b, (passage f).single c.alpha = a
  cases r <;> cases g <;> cases b <;> cases a <;> rfl

theorem Parameter.decodeAsThrough {q : Parameter} {j : Json} (wrote : q.encodeValue = some j) :
    decodeAs (f j) q.kind = q.through (passage f) := by
  cases q with
  | number x => cases wrote; rfl
  | boolean b => cases wrote; simp [decodeAs, kind, through, faithful.bool, Json.bool?]
  | text s => cases wrote; simp [decodeAs, kind, through, faithful.string, Json.string?]
  | color c => cases wrote; simp [decodeAs, kind, through, decodeColorThrough faithful]
  | floatVector xs =>
    cases wrote
    have list : Json.listOf Json.single? (f (.ofList .ofSingle xs)) = xs.mapM (passage f).single :=
      Json.listOfThrough faithful fun _ _ => rfl
    simp [decodeAs, kind, through, list]
  | path p =>
    obtain ⟨s, text, rfl⟩ := Option.map_eq_some_iff.mp wrote
    simp [decodeAs, kind, through, faithful.string, Json.string?, Path.textIff.mp text]

theorem Parameter.decodeThrough {q : Parameter} {j : Json} (wrote : q.encode = some j) :
    decode (f j) = q.through (passage f) := by
  obtain ⟨value, wroteValue, rfl⟩ := Option.map_eq_some_iff.mp wrote
  have tag : decodeKind true (.string q.kind.tag) = some q.kind := ParameterKind.ofTagged q.kind
  simp [decode, faithful.object, faithful.string, Json.record, Json.unique?, Json.isObject, tag,
    decodeAsThrough faithful wroteValue]

theorem Point.decodeThrough (q : Point) : decode (f q.encode) = q.through (passage f) := by
  simp [decode, encode, faithful.object, Json.record, Json.unique?, Json.required, through, passage]

theorem Node.decodeThrough {n : Node} {j : Json} (wrote : n.encode = some j) :
    decode (f j) = n.through (passage f) := by
  obtain ⟨table, wroteTable, rfl⟩ := Option.map_eq_some_iff.mp wrote
  have parameters : Json.tableOf Parameter.decode (f table) =
      Table.through (Parameter.through (passage f)) n.parameters :=
    Json.tryTableThrough faithful wroteTable fun _ _ _ wrote => Parameter.decodeThrough faithful wrote
  simp [decode, faithful.object, faithful.string, Json.record, Json.unique?, Json.required,
    Json.defaulted, Json.string?, through, parameters, Point.decodeThrough faithful]

theorem Socket.decodeThrough (s : Socket) : decode (f s.encode) = some s := by
  simp [decode, encode, faithful.object, faithful.string, Json.record, Json.unique?, Json.required,
    Json.string?]

theorem Connection.decodeThrough {c : Connection}
    (canonical : ∀ t, c.type = some t → t.isCanonical = true) : decode (f c.encode) = some c := by
  obtain ⟨source, target, type⟩ := c
  cases type with
  | none =>
    simp [decode, encode, faithful.object, Json.given, Json.record, Json.unique?, Json.required,
      Json.optional, Socket.decodeThrough faithful]
  | some t =>
    have canonical := canonical t rfl
    have read : Json.optional ValueType.decode (some (f t.encode)) = some (some t) := by
      rw [ValueType.encodeThrough faithful canonical, Json.optionalPresent (by cases t <;> rfl),
        ValueType.decodeEncode canonical]
      rfl
    simp [decode, encode, faithful.object, Json.given, Json.record, Json.unique?, Json.required,
      Socket.decodeThrough faithful, read]

theorem Uniform.decodeThrough {u : Uniform} {j : Json} (canonical : u.type.isCanonical = true)
    (wrote : u.encode = some j) : decode (f j) = u.through (passage f) := by
  obtain ⟨id, type, default⟩ := u
  obtain ⟨value, wroteValue, rfl⟩ := Option.map_eq_some_iff.mp wrote
  have read : ValueType.decode (f type.encode) = some type := by
    rw [ValueType.encodeThrough faithful canonical, ValueType.decodeEncode canonical]
  cases default with
  | none =>
    cases wroteValue
    simp [decode, faithful.object, faithful.string, Json.given, Json.record, Json.unique?,
      Json.required, Json.optional, Json.string?, through, read]
  | some q =>
    obtain ⟨i, wroteDefault, rfl⟩ := Option.map_eq_some_iff.mp wroteValue
    have object : (f i).isNull = false := by
      obtain ⟨_, _, rfl⟩ := Option.map_eq_some_iff.mp wroteDefault
      rw [faithful.object]
      rfl
    have value : Json.optional Parameter.decode (some (f i)) = (q.through (passage f)).map some := by
      rw [Json.optionalPresent object, Parameter.decodeThrough faithful wroteDefault]
    simp [decode, faithful.object, faithful.string, Json.given, Json.record, Json.unique?,
      Json.required, Json.string?, through, read, value]

def Document.isCanonical (d : Document) : Bool :=
  d.connections.all (fun c => c.type.all ValueType.isCanonical) &&
    d.uniforms.values.all fun u => u.type.isCanonical

/- Only numbers may change, and they change one by one. -/
theorem Document.decodeThrough {d : Document} {j : Json} (version : d.version < 4294967296)
    (canonical : d.isCanonical = true) (wrote : d.encode = some j) :
    decode (f j) = d.through (passage f) := by
  simp only [isCanonical, Bool.and_eq_true, List.all_eq_true, Option.all_eq_true] at canonical
  obtain ⟨list, wroteNodes, rest⟩ := Option.bind_eq_some_iff.mp wrote
  obtain ⟨table, wroteUniforms, same⟩ := Option.bind_eq_some_iff.mp rest
  cases same
  have number : Json.natural? 4294967296 (f (.natural d.version)) = some d.version := by
    rw [faithful.natural _ version]
    simp [Json.natural?, Json.natural]
    omega
  have includes : Json.listOf Json.string? (f (.strings d.includes)) = some d.includes := by
    refine (Json.listOfThrough faithful fun s _ => ?_).trans (mapMSame.mpr fun _ _ => rfl)
    rw [faithful.string]
    rfl
  have nodes : Json.listOf Node.decode (f list) = d.nodes.mapM (Node.through (passage f)) :=
    Json.tryListThrough faithful wroteNodes fun _ _ _ wrote => Node.decodeThrough faithful wrote
  have connections : Json.listOf Connection.decode (f (.ofList Connection.encode d.connections)) =
      some d.connections := by
    refine (Json.listOfThrough faithful fun c member => ?_).trans (mapMSame.mpr fun _ _ => rfl)
    exact Connection.decodeThrough faithful (canonical.1 c member)
  have uniforms : Json.tableOf Uniform.decode (f table) =
      Table.through (Uniform.through (passage f)) d.uniforms :=
    Json.tryTableThrough faithful wroteUniforms fun u member _ wrote =>
      Uniform.decodeThrough faithful (canonical.2 u member) wrote
  simp [decode, faithful.object, Json.record, Json.unique?, Json.required, Json.defaulted,
    through, number, includes, nodes, connections, uniforms]

end Through

/-! Documents that cannot be written -/

def Parameter.paths (q : Parameter) : List Path := q.path?.toList

theorem Parameter.encodeFails {q : Parameter} :
    q.encode = none ↔ ∃ p ∈ q.paths, p.text? = none := by
  rw [encode, Option.map_eq_none_iff]
  cases q <;> simp [encodeValue, paths, path?]

def Node.paths (n : Node) : List Path := n.parameters.values.flatMap Parameter.paths

theorem Node.encodeFails {n : Node} : n.encode = none ↔ ∃ p ∈ n.paths, p.text? = none := by
  rw [encode, Option.map_eq_none_iff, Json.tryTableFails]
  simp only [Parameter.encodeFails, paths, List.mem_flatMap]
  grind

def Uniform.paths (u : Uniform) : List Path := u.default.toList.flatMap Parameter.paths

theorem Uniform.encodeFails {u : Uniform} : u.encode = none ↔ ∃ p ∈ u.paths, p.text? = none := by
  rw [encode, Option.map_eq_none_iff, paths]
  cases u.default <;> simp [Parameter.encodeFails]

def Document.paths (d : Document) : List Path :=
  d.nodes.flatMap Node.paths ++ d.uniforms.values.flatMap Uniform.paths

theorem Document.encodeFails {d : Document} : d.encode = none ↔ ∃ p ∈ d.paths, p.text? = none := by
  have parts : d.encode = none ↔
      Json.tryList Node.encode d.nodes = none ∨ Json.tryTable Uniform.encode d.uniforms = none := by
    unfold encode
    cases Json.tryList Node.encode d.nodes <;>
      cases Json.tryTable Uniform.encode d.uniforms <;> simp
  rw [parts, Json.tryListFails, Json.tryTableFails]
  simp only [Node.encodeFails, Uniform.encodeFails, paths, List.mem_append, List.mem_flatMap]
  grind

theorem Document.encodeTexts {d : Document} (texts : ∀ p ∈ d.paths, p.text? ≠ none) :
    ∃ j, d.encode = some j := by
  refine Option.ne_none_iff_exists'.mp fun fails => ?_
  obtain ⟨p, member, bytes⟩ := encodeFails.mp fails
  exact texts p member bytes

/-! Numbers that pass as they are -/

structure Passage.Keeps (p : Passage) (doubles : List Double) (singles : List Single) : Prop where
  doubles : ∀ x ∈ doubles, p.double x = some x
  singles : ∀ x ∈ singles, p.single x = some x

namespace Passage

variable {p : Passage}

theorem keepsNil : p.Keeps [] [] := ⟨List.forall_mem_nil _, List.forall_mem_nil _⟩

theorem keepsAppend {xs ys : List Double} {us vs : List Single} :
    p.Keeps (xs ++ ys) (us ++ vs) ↔ p.Keeps xs us ∧ p.Keeps ys vs := by
  constructor
  · rintro ⟨doubles, singles⟩
    rw [List.forall_mem_append] at doubles singles
    exact ⟨⟨doubles.1, singles.1⟩, ⟨doubles.2, singles.2⟩⟩
  · rintro ⟨first, second⟩
    exact ⟨List.forall_mem_append.mpr ⟨first.doubles, second.doubles⟩,
      List.forall_mem_append.mpr ⟨first.singles, second.singles⟩⟩

theorem keepsEach {α : Type} {l : List α} {doubles : α → List Double} {singles : α → List Single} :
    p.Keeps (l.flatMap doubles) (l.flatMap singles) ↔ ∀ a ∈ l, p.Keeps (doubles a) (singles a) := by
  induction l with
  | nil => simp [keepsNil]
  | cons a rest ih => simp only [List.flatMap_cons, keepsAppend, ih, List.forall_mem_cons]

end Passage

namespace Parameter

def doubles : Parameter → List Double
  | number x => [x]
  | _ => []

def singles : Parameter → List Single
  | color c => c.channels
  | floatVector xs => xs
  | _ => []

theorem throughSame {p : Passage} {q : Parameter} :
    q.through p = some q ↔ p.Keeps q.doubles q.singles := by
  cases q with
  | number x =>
    simp only [through, Option.map_eq_some_iff, number.injEq, exists_eq_right]
    exact ⟨fun same => ⟨by simpa [doubles] using same, List.forall_mem_nil _⟩,
      fun keeps => keeps.doubles x (List.mem_singleton.mpr rfl)⟩
  | color c =>
    have channels : c.through p = some c ↔ ∀ x ∈ c.channels, p.single x = some x := by
      cases c
      simp [Color.through, Color.channels, Option.bind_eq_some_iff]
    simp only [through, Option.map_eq_some_iff, color.injEq, exists_eq_right, channels]
    exact ⟨fun same => ⟨List.forall_mem_nil _, same⟩, Passage.Keeps.singles⟩
  | floatVector xs =>
    simp only [through, Option.map_eq_some_iff, floatVector.injEq, exists_eq_right, mapMSame]
    exact ⟨fun same => ⟨List.forall_mem_nil _, same⟩, Passage.Keeps.singles⟩
  | _ => exact ⟨fun _ => Passage.keepsNil, fun _ => rfl⟩

end Parameter

namespace Table

variable {α : Type}

theorem ofListEntries {l : List (String × α)} (ascending : l.Pairwise fun e e' => e.1 < e'.1) :
    ofList l = ⟨l, ascending⟩ := by
  refine ext fun k => Option.ext fun v => ?_
  constructor
  · intro found
    exact getIff.mpr (getOfListMember found)
  · intro found
    have member : (k, v) ∈ l := getIff.mp found
    exact (getOfList fun w other => entriesSingle ascending other member).mpr member

theorem throughKeys {f : α → Option α} {l m : List (String × α)}
    (read : l.mapM (fun e => (f e.2).map fun v => (e.1, v)) = some m) :
    m.map Prod.fst = l.map Prod.fst := by
  have paired := ValueType.mapMPaired read
  clear read
  induction paired with
  | nil => rfl
  | cons here _ ih =>
    obtain ⟨v, _, rfl⟩ := Option.map_eq_some_iff.mp here
    rw [List.map_cons, List.map_cons, ih]

/- The keys stay in order, so that the entries of the new table are those that were read. -/
theorem throughSame {f : α → Option α} {t : Table String α} :
    through f t = some t ↔ ∀ v ∈ t.values, f v = some v := by
  have entries : through f t = some t ↔
      (t.entries.mapM fun e => (f e.2).map fun v => (e.1, v)) = some t.entries := by
    rw [through, Option.map_eq_some_iff]
    constructor
    · rintro ⟨l, read, same⟩
      have ascending : l.Pairwise fun e e' => e.1 < e'.1 := by
        have order := List.pairwise_map.mpr t.ascending
        rw [← throughKeys read] at order
        exact List.pairwise_map.mp order
      rw [read, ← same, ofListEntries ascending]
    · intro read
      exact ⟨t.entries, read, ofListEntries t.ascending⟩
  rw [entries, mapMSame, values, List.forall_mem_map]
  refine forall₂_congr fun e _ => ?_
  rw [Option.map_eq_some_iff]
  constructor
  · rintro ⟨v, same, pair⟩
    exact same.trans (congrArg some (congrArg Prod.snd pair))
  · intro same
    exact ⟨e.2, same, rfl⟩

end Table

theorem Point.throughSame {p : Passage} {q : Point} :
    q.through p = some q ↔ p.Keeps [q.x, q.y] [] := by
  obtain ⟨x, y⟩ := q
  have both : p.Keeps [x, y] [] ↔ p.double x = some x ∧ p.double y = some y :=
    ⟨fun keeps => by simpa using keeps.doubles, fun same => ⟨by simpa using same, by simp⟩⟩
  simp [through, both, Option.bind_eq_some_iff]

namespace Node

def doubles (n : Node) : List Double :=
  [n.position.x, n.position.y] ++ n.parameters.values.flatMap Parameter.doubles

def singles (n : Node) : List Single := n.parameters.values.flatMap Parameter.singles

theorem throughSame {p : Passage} {n : Node} :
    n.through p = some n ↔ p.Keeps n.doubles n.singles := by
  have parts : p.Keeps n.doubles ([] ++ n.singles) ↔ n.position.through p = some n.position ∧
      Table.through (Parameter.through p) n.parameters = some n.parameters := by
    rw [doubles, singles, Passage.keepsAppend, Passage.keepsEach, Point.throughSame, Table.throughSame]
    simp only [Parameter.throughSame]
  rw [← List.nil_append n.singles, parts]
  cases n
  simp [through, Option.bind_eq_some_iff]

end Node

namespace Uniform

def doubles (u : Uniform) : List Double := u.default.toList.flatMap Parameter.doubles
def singles (u : Uniform) : List Single := u.default.toList.flatMap Parameter.singles

theorem throughSame {p : Passage} {u : Uniform} :
    u.through p = some u ↔ p.Keeps u.doubles u.singles := by
  rw [doubles, singles, Passage.keepsEach]
  obtain ⟨id, type, default⟩ := u
  cases default <;> simp [through, Option.bind_eq_some_iff, Parameter.throughSame]

end Uniform

namespace Document

def doubles (d : Document) : List Double :=
  d.nodes.flatMap Node.doubles ++ d.uniforms.values.flatMap Uniform.doubles

def singles (d : Document) : List Single :=
  d.nodes.flatMap Node.singles ++ d.uniforms.values.flatMap Uniform.singles

theorem throughSame {p : Passage} {d : Document} :
    d.through p = some d ↔ p.Keeps d.doubles d.singles := by
  rw [doubles, singles, Passage.keepsAppend, Passage.keepsEach, Passage.keepsEach]
  simp only [← Node.throughSame, ← Uniform.throughSame, ← Table.throughSame, ← mapMSame]
  cases d
  simp [through, Option.bind_eq_some_iff]

def isFinite (d : Document) : Bool := d.doubles.all Binary.isFinite && d.singles.all Binary.isFinite

def studyDocument : Document where
  version := 1
  includes := ["lib/noise.glsl"]
  nodes := [
    ⟨"f", "float", ⟨.ofInt 10, .ofInt (-20)⟩, Table.ofList [("value", .number (.ofRatio true 1 3)),
      ("on", .boolean true), ("member", .text "x\n"), ("file", .path (.ofText "a/ß"))]⟩,
    ⟨"c", "color", .origin, Table.ofList [
      ("color", .color ⟨.ofInt 1, .ofRatio false 1 10, .zero, .ofInt 1⟩),
      ("weights", .floatVector [.ofRatio true 1 7, .zero])]⟩]
  connections := [.between ⟨"f", "out"⟩ ⟨"c", "x"⟩,
    ⟨⟨"f", "out"⟩, ⟨"c", "y"⟩, some (.variant [.float, .vec 3, .matrix .double 2 4])⟩]
  uniforms := Table.ofList [("tint", ⟨"tint", .vec 3, some (.floatVector [.ofInt 1, .ofInt 1])⟩),
    ("map", ⟨"map", .sampler, none⟩)]

/- No character is written with this byte. -/
example : (Uniform.encode ⟨"map", .sampler, some (.path ⟨[255]⟩)⟩).isNone = true := by decide +kernel

end Document
end ShaderNet
