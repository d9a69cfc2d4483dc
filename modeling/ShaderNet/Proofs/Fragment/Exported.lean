import ShaderNet.Proofs.Fragment.Declarations
import ShaderNet.ValueType.Name

/-! What a fragment exports: the definitions right after a directive whose list asks for it, with the
names and types in their headers, in the order of the source. -/
namespace ShaderNet.Fragment

/-! Directives -/

theorem pragmasRead (d : Directive) : (pragmas? d.text).getD [] = d.entries := by
  cases d with
  | plain text within unlisted =>
    rw [Directive.text, pragmas?, Text.afterFirstNone unlisted]
    rfl
  | editor front first others within unlisted single =>
    have lead : "editor:".toList = 'e' :: "ditor:".toList := rfl
    have distinct : 'e' ∉ "ditor:".toList := by decide
    have list := Text.afterFirst distinct unlisted (first ++ others.flatMap fun piece => ',' :: piece)
    rw [pragmas?, Directive.text, lead, list, Option.map_some, Text.splitOnPieces single]
    rfl

/-! Definitions that are exported -/

def Declaration.entries : Declaration → List String
  | directive d => d.entries
  | _ => []

def exportedPair : Declaration × Declaration → Option (List String × Header)
  | (before, .definition h _) => if "export" ∈ before.entries then some (before.entries, h) else none
  | _ => none

def exportedAmong (ds : List Declaration) : List (List String × Header) :=
  (ds.zip ds.tail).filterMap exportedPair

def exportTypes : List String := ["float", "vec2", "vec3", "vec4"]

namespace Header

structure Exportable (h : Header) : Prop where
  qualifiers : ∀ p ∈ h.parameters.all, ∀ q ∈ p.qualifiers, q.text = "in" ∨ q.text = "const"
  parameters : ∀ p ∈ h.parameters.all, p.type.text ∈ exportTypes
  result : h.result.text = "void" ∨ h.result.text ∈ exportTypes

def typeNamed (name : Name) : ValueType := (ValueType.ofName? name.text).getD .broken

def exported (h : Header) (path : String) (entries : List String) : ExportedFunction where
  name := h.name.text
  parameters := h.parameters.all.map fun p => (p.name.text, typeNamed p.type)
  output := if h.result.text = "void" then none else some (typeNamed h.result)
  pragmas := entries
  path := path

end Header

theorem supportedRead {name : Name} {w : Word} (o : Origin) (text : w.text = name.text)
    (supported : name.text ∈ exportTypes) : supportedType o w = .ok (Header.typeNamed name) := by
  rw [Header.typeNamed, ← text]
  rw [← text] at supported
  simp only [exportTypes, List.mem_cons, List.not_mem_nil, or_false] at supported
  rcases supported with type | type | type | type
  · rw [supportedType, type]; rfl
  · rw [supportedType, type]; rfl
  · rw [supportedType, type]; rfl
  · rw [supportedType, type]; rfl

theorem qualifiersAccepted {ws : List Word} {qs : List Name} (o : Origin)
    (texts : ws.map Word.text = qs.map Name.text)
    (accepted : ∀ q ∈ qs, q.text = "in" ∨ q.text = "const") : checkQualifiers o ws = .ok () := by
  induction ws generalizing qs with
  | nil => rfl
  | cons w ws ih =>
    cases qs with
    | nil => simp at texts
    | cons q qs =>
      simp only [List.map_cons, List.cons.injEq] at texts
      simp only [List.mem_cons, forall_eq_or_imp] at accepted
      rw [checkQualifiers, if_pos (texts.1 ▸ accepted.1), ih texts.2 accepted.2]

theorem parameterRead {p : ParameterForm} {d : DeclaredParameter} (o : Origin) (reads : p.Reads d)
    (accepted : ∀ q ∈ d.qualifiers, q.text = "in" ∨ q.text = "const")
    (supported : d.type.text ∈ exportTypes) :
    exportParameter o p = .ok (d.name.text, Header.typeNamed d.type) := by
  rw [exportParameter, qualifiersAccepted o reads.qualifiers accepted,
    supportedRead o reads.type supported, reads.suffix, reads.name]
  rfl

theorem parametersRead {ps : List ParameterForm} {ds : List DeclaredParameter} (o : Origin)
    (reads : List.Forall₂ ParameterForm.Reads ps ds)
    (accepted : ∀ d ∈ ds, ∀ q ∈ d.qualifiers, q.text = "in" ∨ q.text = "const")
    (supported : ∀ d ∈ ds, d.type.text ∈ exportTypes) :
    ps.mapM (exportParameter o) = .ok (ds.map fun d => (d.name.text, Header.typeNamed d.type)) := by
  induction reads with
  | nil => rfl
  | cons read reads ih =>
    simp only [List.mem_cons, forall_eq_or_imp] at accepted supported
    rw [List.mapM_cons, parameterRead o read accepted.1 supported.1, ih accepted.2 supported.2]
    rfl

theorem outputRead {name : Name} {w : Word} (o : Origin) (text : w.text = name.text)
    (supported : name.text = "void" ∨ name.text ∈ exportTypes) :
    exportOutput o w = .ok (if name.text = "void" then none else some (Header.typeNamed name)) := by
  rw [exportOutput, text]
  split
  · rfl
  · rename_i other
    rw [supportedRead o text (supported.resolve_left other)]
    rfl

theorem functionRead {f : FunctionForm} {h : Header} (o : Origin) (entries : List String)
    (reads : f.Reads h) (exportable : h.Exportable) :
    exportFunction o entries f = .ok (h.exported o.path entries) := by
  rw [exportFunction, outputRead o reads.result exportable.result,
    parametersRead o reads.parameters exportable.qualifiers exportable.parameters, reads.name]
  rfl

/-! The whole fragment -/

theorem passAnnounced {o : Origin} {pending : Option (List String)} {done : List ExportedFunction}
    {f : FunctionForm} {items : List Item} (announced : f.isDefined = false) :
    exportItems o pending done (.function f :: items) = exportItems o none done items := by
  cases pending <;> simp [exportItems, announced]

theorem passUnasked {o : Origin} {pending : Option (List String)} {done : List ExportedFunction}
    {f : FunctionForm} {items : List Item} (unasked : "export" ∉ pending.getD []) :
    exportItems o pending done (.function f :: items) = exportItems o none done items := by
  cases pending with
  | none => rfl
  | some pragmas =>
    rw [Option.getD_some] at unasked
    simp [exportItems, unasked]

theorem takeAsked {o : Origin} {pending : Option (List String)} {done : List ExportedFunction}
    {f : FunctionForm} {h : Header} {items : List Item} (asked : "export" ∈ pending.getD [])
    (defined : f.isDefined = true) (reads : f.Reads h) (exportable : h.Exportable)
    (fresh : ∀ g ∈ done, g.name ≠ h.name.text) :
    exportItems o pending done (.function f :: items) =
      exportItems o none (done ++ [h.exported o.path (pending.getD [])]) items := by
  cases pending with
  | none => simp at asked
  | some pragmas =>
    have read := functionRead o pragmas reads exportable
    rw [Option.getD_some] at asked
    have unnamed : (done.any fun g => g.name = (h.exported o.path pragmas).name) = false := by
      simp only [List.any_eq_false, decide_eq_true_eq]
      exact fresh
    simp [exportItems, asked, defined, read, bind, Except.bind, unnamed]

theorem exportedCons (before d : Declaration) (ds : List Declaration) :
    exportedAmong (before :: d :: ds) =
      (exportedPair (before, d)).toList ++ exportedAmong (d :: ds) := by
  cases pair : exportedPair (before, d) <;> simp [exportedAmong, pair]

/- Reading from after a declaration: what is pending are its entries. -/
theorem itemsRead {o : Origin} {pending : Option (List String)} {done : List ExportedFunction}
    {items : List Item} {before : Declaration} {ds : List Declaration}
    (reads : List.Forall₂ Item.Reads items ds) (entries : pending.getD [] = before.entries)
    (exportable : ∀ e ∈ exportedAmong (before :: ds), e.2.Exportable)
    (distinct : (done.map ExportedFunction.name ++
      (exportedAmong (before :: ds)).map fun e => e.2.name.text).Nodup) :
    exportItems o pending done items =
      .ok (done ++ (exportedAmong (before :: ds)).map fun e => e.2.exported o.path e.1) := by
  induction reads generalizing pending done before with
  | nil => simp [exportItems, exportedAmong]
  | @cons item d items ds read reads ih =>
    rw [exportedCons] at exportable distinct ⊢
    cases item with
    | statement => cases d <;> cases read
    | directive text =>
      cases d with
      | directive d =>
        cases read
        exact ih (pragmasRead d) exportable distinct
      | definition h body => cases read
      | announcement h => cases read
    | function f =>
      cases d with
      | directive d => cases read
      | announcement h =>
        rw [passAnnounced read.1]
        exact ih rfl exportable distinct
      | definition h body =>
        obtain ⟨defined, reads⟩ := read
        by_cases asked : "export" ∈ before.entries
        · have pair : exportedPair (before, .definition h body) = some (before.entries, h) := if_pos asked
          simp only [pair, Option.toList_some, List.singleton_append, List.mem_cons, forall_eq_or_imp,
            List.map_cons] at exportable distinct ⊢
          have fresh : ∀ g ∈ done, g.name ≠ h.name.text := fun g member =>
            (List.nodup_append.mp distinct).2.2 _ (List.mem_map_of_mem member) _ (by simp)
          rw [takeAsked (entries ▸ asked) defined reads exportable.1 fresh, entries]
          have further := @ih none (done ++ [h.exported o.path before.entries]) (.definition h body) rfl
            exportable.2 (by simpa [Header.exported] using distinct)
          simpa using further
        · have pair : exportedPair (before, .definition h body) = none := if_neg asked
          rw [pair] at exportable distinct ⊢
          rw [passUnasked (entries ▸ asked)]
          exact ih rfl exportable distinct

theorem exportedSilent {d : Declaration} (silent : d.entries = []) (ds : List Declaration) :
    exportedAmong (d :: ds) = exportedAmong ds := by
  cases ds with
  | nil => rfl
  | cons next ds =>
    have nothing : exportedPair (d, next) = none := by
      cases next <;> simp [exportedPair, silent]
    rw [exportedCons, nothing]
    rfl

/- A fragment begins as if after a directive without a list. -/
def Directive.blank : Directive := .plain [] (by simp) (by decide)

theorem exportedBlank (ds : List Declaration) :
    exportedAmong (.directive .blank :: ds) = exportedAmong ds :=
  exportedSilent rfl ds

theorem exportsDeclared {ds : List Declaration} {path source : String}
    (laid : Laid (ds.flatMap Declaration.tokens) source.toList)
    (exportable : ∀ e ∈ exportedAmong ds, e.2.Exportable)
    (distinct : ((exportedAmong ds).map fun e => e.2.name.text).Nodup) :
    exports path source = .ok ((exportedAmong ds).map fun e => e.2.exported path e.1) := by
  obtain ⟨items, read, reads⟩ := itemsLaid laid
  rw [← exportedBlank] at exportable distinct ⊢
  rw [exports, read]
  exact itemsRead reads rfl exportable distinct

def mixed : List Declaration := [
  .directive (.editor "pragma ".toList " pure".toList [" export ".toList]
    (withinLine (by decide +kernel)) (by decide +kernel) (by decide +kernel)),
  .definition ⟨⟨"vec3", rfl⟩, ⟨"mix", rfl⟩, .list [⟨[⟨"const", rfl⟩, ⟨"in", rfl⟩], ⟨"float", rfl⟩,
    ⟨"a", rfl⟩, by decide +kernel, rfl⟩]⟩ ⟨[⟨'\x7b', rfl⟩, ⟨'a', rfl⟩, ⟨'\x7d', rfl⟩], rfl⟩]

def mixedSource : String :=
  "#pragma editor: pure, export \nvec3 mix/* \x7d */(const in float a)\x7b \x7ba\x7d // \x7b\n\x7d"

theorem exportsDeclaredMixed :
    (Laid (mixed.flatMap Declaration.tokens) mixedSource.toList ∧
      (∀ e ∈ exportedAmong mixed, e.2.Exportable) ∧
      ((exportedAmong mixed).map fun e => e.2.name.text) = ["mix"]) ∧
    exports "mix.glsl" mixedSource =
      .ok [⟨"mix", [("a", .float)], some (.vec 3), ["pure", "export"], "mix.glsl"⟩] := by
  have mark {m : Mark} {cs : List Char} (other : m.char ≠ '/') : (Token.mark m).Ends cs :=
    fun slash => absurd slash other
  have word {name : Name} {c : Char} {cs : List Char} (stop : continuesWord c = false) :
      (Token.word name).Ends (c :: cs) := by
    intro d next
    rwa [← Option.some.inj next]
  have body := Laid.next [.blank ' ' rfl] (.mark ⟨'\x7b', rfl⟩) (mark (by decide)) <|
    .next [] (.mark ⟨'a', rfl⟩) (mark (by decide)) <|
    .next [] (.mark ⟨'\x7d', rfl⟩) (mark (by decide)) <|
    .next [.blank ' ' rfl, .line " \x7b".toList '\n' (withinLine (by decide)) rfl] .closeBrace
      (mark (by decide)) <|
    .last []
  have parameters := Laid.next [.block " \x7d ".toList (by decide)] .opening (mark (by decide)) <|
    .next [] (.word ⟨"const", rfl⟩) (word rfl) <|
    .next [.blank ' ' rfl] (.word ⟨"in", rfl⟩) (word rfl) <|
    .next [.blank ' ' rfl] (.word ⟨"float", rfl⟩) (word rfl) <|
    .next [.blank ' ' rfl] (.word ⟨"a", rfl⟩) (word rfl) <|
    .next [] .closing (mark (by decide)) <| .next [] .openBrace (mark (by decide)) body
  have laid : Laid (mixed.flatMap Declaration.tokens) mixedSource.toList :=
    .next [] _ ⟨'\n', rfl, rfl⟩ <| .next [.blank '\n' rfl] (.word ⟨"vec3", rfl⟩) (word rfl) <|
    .next [.blank ' ' rfl] (.word ⟨"mix", rfl⟩) (word rfl) parameters
  have exportable : ∀ e ∈ exportedAmong mixed, e.2.Exportable := by
    intro e member
    obtain rfl : e = (["pure", "export"], _) := List.mem_singleton.mp member
    exact ⟨by decide, by decide, by decide⟩
  exact ⟨⟨laid, exportable, rfl⟩, exportsDeclared laid exportable (by decide)⟩

end ShaderNet.Fragment
