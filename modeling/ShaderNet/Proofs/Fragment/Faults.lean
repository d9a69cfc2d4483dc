import ShaderNet.Proofs.Fragment.Exported

/-! Fragments at fault. A fragment exports nothing at all if one of the definitions that it asks to export
cannot be exported. Which fault is told does not depend on the layout, but where it is does. -/
namespace ShaderNet

def FragmentError.cause : FragmentError → Option ExportFault
  | malformed _ => none
  | faulty _ _ _ fault => some fault

namespace Fragment

theorem bindOk {ε α β : Type} {r : Except ε α} {f : α → Except ε β} {b : β} :
    (r >>= f) = .ok b ↔ ∃ a, r = .ok a ∧ f a = .ok b := by
  cases r <;> simp [bind, Except.bind]

/-! Faults in headers -/

theorem supportedOnly {o : Origin} {w : Word} {type : ValueType} (ok : supportedType o w = .ok type) :
    w.text ∈ exportTypes := by
  unfold supportedType at ok
  split at ok
  · rename_i text; rw [text]; decide
  · rename_i text; rw [text]; decide
  · rename_i text; rw [text]; decide
  · rename_i text; rw [text]; decide
  · cases ok

theorem qualifiersOnly {o : Origin} {ws : List Word} {qs : List Name}
    (texts : ws.map Word.text = qs.map Name.text) (ok : checkQualifiers o ws = .ok ()) :
    ∀ q ∈ qs, q.text = "in" ∨ q.text = "const" := by
  induction ws generalizing qs with
  | nil =>
    rw [List.map_eq_nil_iff.mp texts.symm]
    exact List.forall_mem_nil _
  | cons w ws ih =>
    cases qs with
    | nil => simp at texts
    | cons q qs =>
      simp only [List.map_cons, List.cons.injEq] at texts
      rw [checkQualifiers] at ok
      split at ok
      · rename_i accepted
        exact List.forall_mem_cons.mpr ⟨texts.1 ▸ accepted, ih texts.2 ok⟩
      · cases ok

theorem parameterOnly {o : Origin} {p : ParameterForm} {d : DeclaredParameter} (reads : p.Reads d)
    {exported : String × ValueType} (ok : exportParameter o p = .ok exported) :
    (∀ q ∈ d.qualifiers, q.text = "in" ∨ q.text = "const") ∧ d.type.text ∈ exportTypes := by
  rw [exportParameter, bindOk] at ok
  obtain ⟨_, qualified, ok⟩ := ok
  obtain ⟨type, supported, _⟩ := bindOk.mp ok
  exact ⟨qualifiersOnly reads.qualifiers qualified, reads.type ▸ supportedOnly supported⟩

theorem parametersOnly {o : Origin} {ps : List ParameterForm} {ds : List DeclaredParameter}
    (reads : List.Forall₂ ParameterForm.Reads ps ds) {exported : List (String × ValueType)}
    (ok : ps.mapM (exportParameter o) = .ok exported) :
    ∀ d ∈ ds, (∀ q ∈ d.qualifiers, q.text = "in" ∨ q.text = "const") ∧ d.type.text ∈ exportTypes := by
  induction reads generalizing exported with
  | nil => exact List.forall_mem_nil _
  | cons read reads ih =>
    rw [List.mapM_cons, bindOk] at ok
    obtain ⟨_, first, ok⟩ := ok
    obtain ⟨_, others, _⟩ := bindOk.mp ok
    exact List.forall_mem_cons.mpr ⟨parameterOnly read first, ih others⟩

theorem functionOnly {o : Origin} {entries : List String} {f : FunctionForm} {h : Header}
    (reads : f.Reads h) {function : ExportedFunction} (ok : exportFunction o entries f = .ok function) :
    h.Exportable := by
  rw [exportFunction, bindOk] at ok
  obtain ⟨type, output, ok⟩ := ok
  obtain ⟨_, parameters, _⟩ := bindOk.mp ok
  have each := parametersOnly reads.parameters parameters
  refine ⟨fun d member => (each d member).1, fun d member => (each d member).2, ?_⟩
  rw [← reads.result]
  unfold exportOutput at output
  split at output
  · rename_i void
    exact .inl void
  · cases supported : supportedType o f.result with
    | error e =>
      rw [supported] at output
      cases output
    | ok type => exact .inr (supportedOnly supported)

/-! Faults in fragments -/

/- All that can be read from declarations. -/
theorem readsCases {item : Item} {d : Declaration} (read : item.Reads d) :
    (∃ e, item = .directive e.text ∧ d = .directive e) ∨
    (∃ f h body, item = .function f ∧ d = .definition h body ∧ f.isDefined = true ∧ f.Reads h) ∨
    ∃ f h, item = .function f ∧ d = .announcement h ∧ f.isDefined = false ∧ f.Reads h := by
  cases item with
  | directive text =>
    cases d with
    | directive e => exact .inl ⟨e, congrArg Item.directive read, rfl⟩
    | definition h body => exact read.elim
    | announcement h => exact read.elim
  | function f =>
    cases d with
    | directive e => exact read.elim
    | definition h body => exact .inr (.inl ⟨f, h, body, rfl, rfl, read⟩)
    | announcement h => exact .inr (.inr ⟨f, h, rfl, rfl, read⟩)
  | statement => cases d <;> exact read.elim

theorem takenOnly {o : Origin} {pending : Option (List String)} {done functions : List ExportedFunction}
    {f : FunctionForm} {h : Header} {items : List Item} (asked : "export" ∈ pending.getD [])
    (defined : f.isDefined = true) (reads : f.Reads h)
    (ok : exportItems o pending done (.function f :: items) = .ok functions) :
    h.Exportable ∧ ∀ g ∈ done, g.name ≠ h.name.text := by
  cases pending with
  | none => simp at asked
  | some pragmas =>
    rw [Option.getD_some] at asked
    simp only [exportItems, asked, defined, and_self, if_true, bindOk] at ok
    obtain ⟨function, exported, ok⟩ := ok
    have exportable := functionOnly reads exported
    rw [functionRead o pragmas reads exportable] at exported
    cases exported
    refine ⟨exportable, fun g member same => ?_⟩
    have taken : (done.any fun g => g.name = (h.exported o.path pragmas).name) = true :=
      List.any_eq_true.mpr ⟨g, member, decide_eq_true same⟩
    rw [if_pos taken] at ok
    cases ok

theorem itemsOnly {o : Origin} {pending : Option (List String)} {done functions : List ExportedFunction}
    {items : List Item} {before : Declaration} {ds : List Declaration}
    (reads : List.Forall₂ Item.Reads items ds) (entries : pending.getD [] = before.entries)
    (unique : (done.map ExportedFunction.name).Nodup)
    (ok : exportItems o pending done items = .ok functions) :
    (∀ e ∈ exportedAmong (before :: ds), e.2.Exportable) ∧
      (done.map ExportedFunction.name ++
        (exportedAmong (before :: ds)).map fun e => e.2.name.text).Nodup := by
  induction reads generalizing pending done before with
  | nil => exact ⟨List.forall_mem_nil _, by simpa [exportedAmong] using unique⟩
  | cons read reads ih =>
    rw [exportedCons]
    rcases readsCases read with ⟨d, rfl, rfl⟩ | ⟨f, h, body, rfl, rfl, defined, form⟩ |
      ⟨f, h, rfl, rfl, announced, _⟩
    · exact ih (pragmasRead d) unique ok
    · by_cases asked : "export" ∈ before.entries
      · have pair : exportedPair (before, .definition h body) = some (before.entries, h) := if_pos asked
        obtain ⟨exportable, fresh⟩ := takenOnly (entries ▸ asked) defined form ok
        rw [takeAsked (entries ▸ asked) defined form exportable fresh, entries] at ok
        have more : ((done ++ [h.exported o.path before.entries]).map ExportedFunction.name).Nodup := by
          rw [List.map_append]
          refine List.nodup_append.mpr ⟨unique, by simp, fun a member b here => ?_⟩
          obtain ⟨g, listed, rfl⟩ := List.mem_map.mp member
          rw [List.mem_singleton.mp here]
          exact fresh g listed
        obtain ⟨others, distinct⟩ := @ih none _ (.definition h body) rfl more ok
        rw [pair]
        exact ⟨List.forall_mem_cons.mpr ⟨exportable, others⟩, by simpa [Header.exported] using distinct⟩
      · have pair : exportedPair (before, .definition h body) = none := if_neg asked
        rw [passUnasked (entries ▸ asked)] at ok
        rw [pair]
        exact ih rfl unique ok
    · rw [passAnnounced announced] at ok
      exact ih rfl unique ok

def exportedAs (path : String) (e : List String × Header) : ExportedFunction := e.2.exported path e.1

structure Faultless (es : List (List String × Header)) : Prop where
  exportable : ∀ e ∈ es, e.2.Exportable
  distinct : (es.map fun e => e.2.name.text).Nodup

theorem itemsExport {o : Origin} {items : List Item} {ds : List Declaration}
    (reads : List.Forall₂ Item.Reads items ds) {functions : List ExportedFunction} :
    exportItems o none [] items = .ok functions ↔
      Faultless (exportedAmong ds) ∧ functions = (exportedAmong ds).map (exportedAs o.path) := by
  rw [← exportedBlank]
  constructor
  · intro ok
    obtain ⟨exportable, distinct⟩ := @itemsOnly o none [] functions items (.directive .blank) ds reads
      rfl List.nodup_nil ok
    refine ⟨⟨exportable, distinct⟩, ?_⟩
    exact Except.ok.inj (ok.symm.trans (itemsRead reads rfl exportable distinct))
  · rintro ⟨faultless, rfl⟩
    exact itemsRead reads rfl faultless.exportable faultless.distinct

/-! The same fault in every layout -/

def Alike {α : Type} (r s : Except FragmentError α) : Prop :=
  r.mapError FragmentError.cause = s.mapError FragmentError.cause

theorem Alike.bind {α β : Type} {r s : Except FragmentError α} {f g : α → Except FragmentError β}
    (alike : Alike r s) (later : ∀ a, Alike (f a) (g a)) : Alike (r >>= f) (s >>= g) := by
  cases r with
  | error e =>
    cases s with
    | error e' => simpa [Alike, Except.mapError, Bind.bind, Except.bind] using alike
    | ok a => cases alike
  | ok a =>
    cases s with
    | error e => cases alike
    | ok b =>
      cases alike
      exact later a

theorem supportedAlike (o o' : Origin) {w w' : Word} (text : w.text = w'.text) :
    Alike (supportedType o w) (supportedType o' w') := by
  unfold supportedType
  rw [text]
  split <;> rfl

theorem qualifiersAlike (o o' : Origin) {ws ws' : List Word}
    (texts : ws.map Word.text = ws'.map Word.text) :
    Alike (checkQualifiers o ws) (checkQualifiers o' ws') := by
  induction ws generalizing ws' with
  | nil =>
    rw [List.map_eq_nil_iff.mp texts.symm]
    rfl
  | cons w ws ih =>
    cases ws' with
    | nil => simp at texts
    | cons w' ws' =>
      simp only [List.map_cons, List.cons.injEq] at texts
      rw [checkQualifiers, checkQualifiers, texts.1]
      split
      · exact ih texts.2
      · rfl

theorem parameterAlike (o o' : Origin) {p p' : ParameterForm} {d : DeclaredParameter}
    (reads : p.Reads d) (reads' : p'.Reads d) :
    Alike (exportParameter o p) (exportParameter o' p') := by
  refine (qualifiersAlike o o' (reads.qualifiers.trans reads'.qualifiers.symm)).bind fun _ => ?_
  refine (supportedAlike o o' (reads.type.trans reads'.type.symm)).bind fun type => ?_
  rw [reads.suffix, reads'.suffix, reads.name, reads'.name]
  rfl

theorem parametersAlike (o o' : Origin) {ps ps' : List ParameterForm} {ds : List DeclaredParameter}
    (reads : List.Forall₂ ParameterForm.Reads ps ds) (reads' : List.Forall₂ ParameterForm.Reads ps' ds) :
    Alike (ps.mapM (exportParameter o)) (ps'.mapM (exportParameter o')) := by
  induction reads generalizing ps' with
  | nil =>
    cases reads'
    rfl
  | cons read reads ih =>
    cases reads' with
    | cons read' reads' =>
      rw [List.mapM_cons, List.mapM_cons]
      exact (parameterAlike o o' read read').bind fun _ => (ih reads').bind fun _ => rfl

theorem functionAlike (path : String) (source source' : List Char) (entries : List String)
    {f f' : FunctionForm} {h : Header} (reads : f.Reads h) (reads' : f'.Reads h) :
    Alike (exportFunction ⟨path, source⟩ entries f) (exportFunction ⟨path, source'⟩ entries f') := by
  have output : Alike (exportOutput ⟨path, source⟩ f.result) (exportOutput ⟨path, source'⟩ f'.result) := by
    have text := reads.result.trans reads'.result.symm
    rw [exportOutput, exportOutput, text]
    split
    · rfl
    · exact (supportedAlike _ _ text).bind fun _ => rfl
  refine output.bind fun _ => (parametersAlike _ _ reads.parameters reads'.parameters).bind fun _ => ?_
  rw [reads.name, reads'.name]
  rfl

theorem itemsAlike (path : String) (source source' : List Char) {items items' : List Item}
    {ds : List Declaration} (reads : List.Forall₂ Item.Reads items ds)
    (reads' : List.Forall₂ Item.Reads items' ds) (pending : Option (List String))
    (done : List ExportedFunction) :
    Alike (exportItems ⟨path, source⟩ pending done items)
      (exportItems ⟨path, source'⟩ pending done items') := by
  induction reads generalizing items' pending done with
  | nil =>
    cases reads'
    rfl
  | cons read reads ih =>
    cases reads' with
    | cons read' reads' =>
      rcases readsCases read with ⟨d, rfl, rfl⟩ | ⟨f, h, body, rfl, rfl, defined, form⟩ |
        ⟨f, h, rfl, rfl, announced, _⟩
      · rcases readsCases read' with ⟨_, rfl, same⟩ | ⟨_, _, _, _, other, _⟩ | ⟨_, _, _, other, _⟩
        · cases same
          exact ih reads' _ _
        · cases other
        · cases other
      · rcases readsCases read' with ⟨_, _, other⟩ | ⟨f', _, _, rfl, same, defined', form'⟩ |
          ⟨_, _, _, other, _⟩
        · cases other
        · cases same
          cases pending with
          | none => exact ih reads' _ _
          | some pragmas =>
            simp only [exportItems, defined, defined']
            split
            · refine (functionAlike path source source' pragmas form form').bind fun function => ?_
              split
              · rfl
              · exact ih reads' _ _
            · exact ih reads' _ _
        · cases other
      · rcases readsCases read' with ⟨_, _, other⟩ | ⟨_, _, _, _, other, _⟩ |
          ⟨f', _, rfl, _, announced', _⟩
        · cases other
        · cases other
        · rw [passAnnounced announced, passAnnounced announced']
          exact ih reads' _ _

end Fragment
end ShaderNet
