import ShaderNet.Proofs.Fragment.Primary
import ShaderNet.Proofs.NodeKind.Offered
import ShaderNet.Proofs.NodeKind.Yields

/-! Simple expressions are written so that members of a vector can be selected from them as they stand:
without open brackets, and a vector as a primary. -/
namespace ShaderNet
open Fragment (Balanced Primary Wordy isName balancedAppend balancedPlain balancedWithin nameWord
  continuesWord startsWord wordyAppend)

namespace Fragment

theorem nameOf {text : String} (wordy : Wordy text)
    (start : (text.toList.head?.any startsWord) = true) : isName text.toList = true := by
  unfold Wordy at wordy
  generalize text.toList = l at wordy start
  cases l with
  | nil => cases start
  | cons c rest =>
    exact Bool.and_eq_true_iff.mpr
      ⟨start, List.all_eq_true.mpr fun d member => wordy d (List.mem_cons_of_mem _ member)⟩

theorem balancedWord {word : List Char} (wordy : ∀ c ∈ word, continuesWord c = true) :
    Balanced word := by
  refine balancedPlain fun c member => ⟨?_, ?_⟩ <;> rintro rfl <;> cases wordy _ member

theorem balancedList {texts : List String} (each : ∀ text ∈ texts, Balanced text.toList) :
    Balanced (", ".intercalate texts).toList := by
  refine Text.intercalateInduct (motive := fun text => Balanced text.toList) rfl ?_ each
  intro a b left right
  rw [String.toList_append, String.toList_append]
  exact balancedAppend (balancedAppend left rfl) right

namespace Primary

theorem textBalanced (p : Primary) : Balanced p.text := by
  have called : Balanced (callText p.arguments) := by
    cases written : p.arguments with
    | none => exact rfl
    | some arguments => exact balancedWithin (p.balanced _ written)
  have members : ∀ l : List (List Char), (∀ member ∈ l, isName member = true) →
      Balanced (memberText l) := by
    intro l
    induction l with
    | nil => exact fun _ => rfl
    | cons member rest ih =>
      intro each
      obtain ⟨here, others⟩ := List.forall_mem_cons.mp each
      have dotted : Balanced ('.' :: member) :=
        balancedAppend (a := ['.']) rfl (balancedWord (nameWord here))
      exact balancedAppend dotted (ih others)
  exact balancedAppend (balancedWord (nameWord p.named))
    (balancedAppend called (members _ p.selected))

def ofName (name : List Char) (named : isName name = true) : Primary :=
  ⟨name, none, [], named, fun _ impossible => (by cases impossible), List.forall_mem_nil _⟩

theorem ofNameText {name : List Char} (named : isName name = true) : (ofName name named).text = name := by
  simp [ofName, text, callText, memberText]

def ofCall (name arguments : List Char) (named : isName name = true) (inside : Balanced arguments) :
    Primary :=
  ⟨name, some arguments, [], named, fun _ same => Option.some.inj same ▸ inside, List.forall_mem_nil _⟩

theorem ofCallText {name : String} {texts : List String} (named : isName name.toList = true)
    (each : ∀ text ∈ texts, Balanced text.toList) :
    (ofCall name.toList _ named (balancedList each)).text = (NodeKind.call name texts).toList := by
  simp [ofCall, text, callText, memberText, NodeKind.call, String.toList_append]

end Primary
end Fragment

namespace Expression

structure Selectable (e : Expression) : Prop where
  balanced : e.trivial = true → Balanced e.text.toList
  primary : e.trivial = true → e.type.isVector = true → ∃ p : Primary, p.text = e.text.toList

theorem compoundSelectable (type : ValueType) (text : String) : (compound type text).Selectable :=
  ⟨fun impossible => (by cases impossible), fun impossible => by cases impossible⟩

theorem primarySelectable {type : ValueType} {text : String} {trivial : Bool} (p : Primary)
    (written : p.text = text.toList) : Selectable ⟨type, text, trivial⟩ :=
  ⟨fun _ => written ▸ p.textBalanced, fun _ _ => ⟨p, written⟩⟩

theorem nameSelectable {type : ValueType} {text : String} (named : isName text.toList = true) :
    (simple type text).Selectable := primarySelectable _ (Primary.ofNameText named)

theorem callSelectable {type : ValueType} {name : String} {texts : List String}
    (named : isName name.toList = true) (each : ∀ text ∈ texts, Balanced text.toList) :
    (simple type (NodeKind.call name texts)).Selectable :=
  primarySelectable _ (Primary.ofCallText named each)

theorem scalarSelectable {type : ValueType} {text : String} (scalar : type.isVector = false)
    (balanced : Balanced text.toList) : (simple type text).Selectable :=
  ⟨fun _ => balanced, fun _ vector => by
    rw [show (simple type text).type = type from rfl, scalar] at vector
    cases vector⟩

theorem displayedSelectable {e d : Expression} (selectable : e.Selectable) (ok : e.displayed = .ok d) :
    d.Selectable := by
  unfold displayed at ok
  split at ok
  · split at ok <;> cases ok
    · exact compoundSelectable _ _
    · exact compoundSelectable _ _
    · exact compoundSelectable _ _
    · split
      · exact selectable
      · exact compoundSelectable _ _
  · cases ok

end Expression

namespace ValueType

theorem vectorName (base : Scalar) (size : Nat) : isName (name (.vector base size)).toList = true := by
  refine Fragment.nameOf (vectorWordy base size) ?_
  rw [name, String.toList_append]
  cases base <;> rfl

theorem vectorOnly {t : ValueType} (vector : t.isVector = true) : t.isScalar = false := by
  cases t with
  | vector base size => rfl
  | _ => cases vector

theorem zeroSelectable {t : ValueType} {text : String} (shape : t.isScalar = true ∨ t.isVector = true)
    (zero : t.zero = .ok text) : (Expression.simple t text).Selectable := by
  cases t with
  | scalar base =>
    cases zero
    exact Expression.scalarSelectable rfl (by cases base <;> decide)
  | vector base size =>
    cases zero
    refine Expression.callSelectable (vectorName base size) fun text member => ?_
    rw [(List.mem_replicate.mp member).2]
    cases base <;> decide
  | _ => simp [isScalar, isVector] at shape

end ValueType

namespace NodeKind
open Expression
open Number (Double Figures)

theorem figuresBalanced {text : List Char} (figures : Figures text) : Balanced text :=
  balancedPlain fun c member =>
    ⟨fun same => figures.absent (c := '(') rfl (by decide) (same ▸ member),
      fun same => figures.absent (c := ')') rfl (by decide) (same ▸ member)⟩

theorem uniformName (id : String) : isName (Identifier.uniform id).toList = true := by
  refine Fragment.nameOf (wordyAppend (by decide) fun _ => Identifier.encodeWord id) ?_
  rw [Identifier.uniform, String.toList_append]
  rfl

theorem bindingName (node socket : String) : isName (Identifier.binding node socket).toList = true := by
  refine Fragment.nameOf (fun _ => Identifier.bindingWord) ?_
  rw [Identifier.bindingText]
  rfl

theorem castSelectable {type : ValueType} {e d : Expression} (selectable : e.Selectable)
    (ok : castFrom type e = .ok d) : d.Selectable := by
  unfold castFrom at ok
  split at ok
  · split at ok
    · cases ok
    · split at ok <;> cases ok
      · exact selectable
      · exact compoundSelectable _ _
  · cases ok

theorem composeSelectable {size : Nat} {parts : List (String × Bool)}
    (each : ∀ p ∈ parts, Component Selectable p) : Selectable ⟨.vec size,
      call (ValueType.vec size).name (parts.map Prod.fst), parts.all Prod.snd⟩ := by
  have balanced : parts.all Prod.snd = true → ∀ text ∈ parts.map Prod.fst, Balanced text.toList := by
    intro simple text member
    obtain ⟨p, listed, rfl⟩ := List.mem_map.mp member
    have here := List.all_eq_true.mp simple p listed
    rcases each p listed with ⟨e, selectable, rfl⟩ | ⟨x, rfl⟩
    · exact selectable.balanced here
    · exact figuresBalanced (floatTextFigures x)
  have named := ValueType.vectorName .float size
  refine ⟨fun simple => ?_, fun simple _ => ?_⟩
  · rw [← Primary.ofCallText named (balanced simple)]
    exact Primary.textBalanced _
  · exact ⟨_, Primary.ofCallText named (balanced simple)⟩

/- What a vector is called where it is taken apart is a primary, whether it is repeated or bound. -/
theorem wholeSelectable (node : Node) {e : Expression} (selectable : e.Selectable) :
    (wholeOf node e).Selectable ∧ (e.type.isVector = true → ∃ p : Primary,
      p.text = (wholeOf node e).text.toList) := by
  unfold wholeOf Compiled.hoist
  split
  · rename_i simple
    exact ⟨selectable, selectable.primary simple⟩
  · have named := bindingName node.id "vector"
    exact ⟨nameSelectable named, fun _ => ⟨_, Primary.ofNameText named⟩⟩

theorem sizedVector {t : ValueType} {size : Nat} (sized : t.size? = some size)
    (scalar : t.isScalar = false) : t.isVector = true := by
  cases t with
  | vector base size => rfl
  | scalar base => cases scalar
  | _ => cases sized

theorem componentsNamed : ∀ name ∈ components, isName name.toList = true := by decide

theorem selectedText {p : Primary} {whole member : String} (written : p.text = whole.toList)
    (named : isName member.toList = true) :
    (p.select member.toList named).text = (whole ++ "." ++ member).toList := by
  rw [p.selectText, written]
  simp [String.toList_append]

theorem positionsNamed {member : String} {l : List Nat} (ok : positions member = .ok l) :
    isName member.toList = true := by
  obtain ⟨some, set, listed, spelled⟩ := positionsLetters ok
  have letters : (memberSets.all fun set => set.all startsWord) = true := by decide
  simp only [List.all_eq_true] at letters
  cases text : member.toList with
  | nil => exact absurd text some
  | cons c rest =>
    rw [text] at spelled
    have each := fun c inside => letters set listed c (spelled c inside)
    refine Bool.and_eq_true_iff.mpr ⟨each c List.mem_cons_self, List.all_eq_true.mpr ?_⟩
    exact fun d inside => Fragment.startContinues (each d (List.mem_cons_of_mem _ inside))

/- Members are only selected from vectors, and by their names. -/
theorem selectedParts {member : String} {t type : ValueType} (ok : selectedType member t = .ok type)
    (scalar : t.isScalar = false) : t.isVector = true ∧ isName member.toList = true := by
  unfold selectedType at ok
  cases placed : positions member with
  | error cause =>
    rw [placed] at ok
    cases ok
  | ok l =>
    refine ⟨?_, positionsNamed placed⟩
    simp only [placed, Recipe.okBind, scalar, Bool.false_eq_true, if_false] at ok
    split at ok
    · cases ok
    · rename_i none
      cases sized : t.size? with
      | some size => exact sizedVector sized scalar
      | none =>
        have some := (positionsRange placed).1
        rw [sized] at none
        have first := List.find?_eq_none.mp none (l.get ⟨0, some⟩) (List.get_mem _ _)
        exact absurd (decide_eq_true (Nat.zero_le _)) first

/- Every form of expression that a node yields is selectable if what feeds the node is. -/
theorem yieldsSelectable {s : Surroundings} {node : Node} {kind : NodeKind} {e : Expression}
    (yields : Yields s node Selectable kind e) : e.Selectable := by
  cases yields with
  | truth b => exact scalarSelectable rfl (by cases b <;> decide)
  | number base finite => exact scalarSelectable rfl (figuresBalanced (numberTextFigures base _))
  | color c =>
    refine callSelectable (by decide) fun text member => ?_
    obtain ⟨x, _, rfl⟩ := List.mem_map.mp member
    exact figuresBalanced (floatTextFigures _)
  | ambient value => exact nameSelectable (by cases value <;> decide)
  | uniform found => exact nameSelectable (uniformName _)
  | operator left right => exact compoundSelectable _ _
  | negate operand => exact compoundSelectable _ _
  | zero target zero => exact ValueType.zeroSelectable target.2 zero
  | cast target fed ok => exact castSelectable fed ok
  | compose each => exact composeSelectable each
  | nothing => exact scalarSelectable rfl rfl
  | scalar fed scalar => exact (wholeSelectable node fed).1
  | component fed scalar sized parted listed =>
    obtain ⟨p, written⟩ := (wholeSelectable node fed).2 (sizedVector sized scalar)
    have named := componentsNamed _ (List.mem_of_mem_take listed)
    exact primarySelectable _ (selectedText written named)
  | unselected ok zero =>
    obtain ⟨size, _, rfl⟩ := openSelectionShaped ok
    exact ValueType.zeroSelectable (ValueType.shapedShape .float size) zero
  | unchanged fed ok scalar => exact fed
  | @selected member type e fed ok scalar =>
    obtain ⟨vector, named⟩ := selectedParts ok scalar
    cases simple : e.trivial with
    | false => exact compoundSelectable _ _
    | true =>
      obtain ⟨p, written⟩ := fed.primary simple vector
      exact primarySelectable _ (selectedText written named)
  | builtin reached ok each => exact compoundSelectable _ _
  | function found output each => exact compoundSelectable _ _
  | texture fed placed => exact compoundSelectable _ _
  | black label =>
    exact @callSelectable (.vec 4) "vec4" ["0.0", "0.0", "0.0", "1.0"] (by decide) (by decide)
  | displayed fed ok => exact displayedSelectable fed ok

/-! Selections -/

variable {node : Node} {e : Expression} {c : Compiled}

/- A vector is taken apart into selections from what it is called. -/
theorem splitSelects (vector : e.type.isVector = true) (splits : Splits node e c) {name : String}
    {d : Expression} (found : c.outputs.get? name = some d) :
    name ∈ components ∧ d.text = (wholeOf node e).text ++ "." ++ name := by
  have scalar := ValueType.vectorOnly vector
  cases splits with
  | scalar _ _ whole => cases scalar.symm.trans whole
  | vector =>
    rcases Compiled.eachOutput found with ⟨listed, rfl⟩ | before
    · exact ⟨List.mem_of_mem_take listed, rfl⟩
    · rw [(hoistTypes _ e).1] at before
      cases before

theorem swizzleSelects (vector : e.type.isVector = true) (simple : e.trivial = true)
    (ok : (compileSwizzle node).follow (fun _ => .ok (some e)) = .ok c) :
    ∃ member type, isName member.toList = true ∧
      c = .single "out" (.simple type (e.text ++ "." ++ member)) := by
  obtain ⟨member, _, ok⟩ := Recipe.followBindOk ok
  obtain ⟨answer, told, ok⟩ := Recipe.inputOk ok
  cases told
  obtain ⟨type, selected, ok⟩ := Recipe.followBindOk ok
  have scalar := ValueType.vectorOnly vector
  have named := (selectedParts (Recipe.ofExceptOk.mp selected) scalar).2
  simp only [scalar, simple, Bool.false_eq_true, if_false, if_true] at ok
  cases ok
  exact ⟨member, type, named, rfl⟩

end NodeKind
end ShaderNet
