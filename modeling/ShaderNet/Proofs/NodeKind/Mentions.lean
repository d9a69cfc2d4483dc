import ShaderNet.Proofs.Fragment.Words
import ShaderNet.Proofs.NodeKind.Ensures
import ShaderNet.Proofs.NodeKind.Figures

/-! What recipes write refers to nothing but what their inputs refer to and what they bind. -/
namespace ShaderNet
open Fragment (Clear Wordy clearPlain clearBefore clearAfter clearBetween clearCall clearWord
  clearBinding endsAppend wordyAppend wordyNat)

/-! Numbers and types are written without underscores. -/

namespace NodeKind
open Number (Double)

theorem floatTextPlain (x : Double) : '_' ∉ (floatText x).toList :=
  (floatTextFigures x).absent rfl (by decide)

theorem numberTextPlain (base : Scalar) (x : Double) : '_' ∉ (numberText base x).toList :=
  (numberTextFigures base x).absent rfl (by decide)

end NodeKind

namespace ValueType

theorem scalarWordy (base : Scalar) : Wordy (name (.scalar base)) := by
  unfold name
  cases base <;> decide

theorem vectorWordy (base : Scalar) (size : Nat) : Wordy (name (.vector base size)) := by
  have mark : Wordy base.vectorMark := by cases base <;> decide
  unfold name
  exact wordyAppend (wordyAppend mark (by decide)) (wordyNat size)

theorem matrixWordy (base : Scalar) (rows cols : Nat) : Wordy (name (.matrix base rows cols)) := by
  have mark : Wordy base.matrixMark := by cases base <;> decide
  unfold name
  refine wordyAppend (wordyAppend (wordyAppend mark (by decide)) (wordyNat cols)) ?_
  split
  · decide
  · exact wordyAppend (by decide) (wordyNat rows)

mutual

/- Zeros are the zeros of scalars, or calls of constructors with them. -/
theorem zeroInduct {motive : String → Prop} (scalar : ∀ base : Scalar, motive base.zero)
    (filled : ∀ t count (base : Scalar), Wordy (name t) → motive (t.filled count base.zero))
    {text : String} : (t : ValueType) → t.zero = .ok text → motive text
  | .scalar base, ok => by
    cases ok
    exact scalar base
  | .vector base size, ok => by
    cases ok
    exact filled _ _ _ (vectorWordy base size)
  | .matrix base rows cols, ok => by
    cases ok
    exact filled _ _ _ (matrixWordy base rows cols)
  | .variant ts, ok => zeroOfFirstInduct scalar filled ts ok
  | .sampler, ok => by cases ok
  | .broken, ok => by cases ok

theorem zeroOfFirstInduct {motive : String → Prop} (scalar : ∀ base : Scalar, motive base.zero)
    (filled : ∀ t count (base : Scalar), Wordy (name t) → motive (t.filled count base.zero))
    {text : String} : (ts : List ValueType) → zeroOfFirst ts = .ok text → motive text
  | [], ok => by cases ok
  | t :: _, ok => zeroInduct scalar filled t ok

end

theorem zeroClear (known : String → Prop) {t : ValueType} {text : String} (ok : t.zero = .ok text) :
    Clear known text := by
  have scalar : ∀ base : Scalar, Clear known base.zero :=
    fun base => clearPlain (by cases base <;> decide)
  refine zeroInduct scalar (fun t count base wordy => clearCall wordy fun text member => ?_) t ok
  rw [(List.mem_replicate.mp member).2]
  exact scalar base

end ValueType

/-! Results -/

/-- A result binds at most one variable, the one for the vector of its node, and refers to known
variables only. -/
structure Compiled.Refers (known : String → Prop) (id : String) (c : Compiled) : Prop where
  bindings : c.bindings = [] ∨ ∃ type text, Clear known text ∧
    c.bindings = [⟨Identifier.binding id "vector", type, text⟩]
  outputs : ∀ socket e, c.outputs.get? socket = some e →
    Clear (fun name => known name ∨ name ∈ c.bindings.map Binding.name) e.text

variable {known : String → Prop} {id : String}

theorem Compiled.Refers.mono {also : String → Prop} {c : Compiled} (refers : c.Refers known id)
    (more : ∀ name, known name → also name) : c.Refers also id := by
  refine ⟨refers.bindings.imp_right ?_, fun socket e found => ?_⟩
  · rintro ⟨type, text, clear, same⟩
    exact ⟨type, text, clear.mono more, same⟩
  · exact (refers.outputs socket e found).mono fun name => .imp_left (more name)

theorem Compiled.emptyRefers : empty.Refers known id :=
  ⟨.inl rfl, fun _ _ found => nomatch found⟩

theorem Compiled.withOutputRefers {c : Compiled} (refers : c.Refers known id) (socket : String)
    {e : Expression}
    (clear : Clear (fun name => known name ∨ name ∈ c.bindings.map Binding.name) e.text) :
    (c.withOutput socket e).Refers known id := by
  refine ⟨refers.bindings, fun name e' found => ?_⟩
  rw [withOutput, Table.getInsert] at found
  split at found
  · cases found
    exact clear
  · exact refers.outputs name e' found

theorem Compiled.singleRefers (socket : String) {e : Expression} (clear : Clear known e.text) :
    (single socket e).Refers known id :=
  withOutputRefers emptyRefers socket (clear.mono fun _ => .inl)

theorem Compiled.eachRefers {names : List String} {f : String → Expression} {c : Compiled}
    (refers : c.Refers known id)
    (each : ∀ name ∈ names, Clear (fun name => known name ∨ name ∈ c.bindings.map Binding.name)
      (f name).text) :
    (names.foldl (fun c name => c.withOutput name (f name)) c).Refers known id := by
  induction names generalizing c with
  | nil => exact refers
  | cons name rest ih =>
    refine ih (withOutputRefers refers name (each name List.mem_cons_self)) fun other member => ?_
    exact each other (List.mem_cons_of_mem _ member)

theorem Expression.displayedClear {e d : Expression} (ok : e.displayed = .ok d)
    (clear : Clear known e.text) : Clear known d.text := by
  unfold displayed at ok
  split at ok
  · split at ok <;> cases ok
    · exact clearBetween (by decide) clear
    · exact clearBetween (by decide) clear
    · exact clearBetween (by decide) clear
    · split
      · exact clear
      · exact clearBetween (by decide) clear
  · cases ok

namespace NodeKind
open Recipe

theorem operandEnsures (node : Node) (name : String) :
    (operand node name).Ensures (fun e => Clear known e.text) fun e => Clear known e.text :=
  ensuresInput trivial fun _ clear => clear

theorem operatorEnsures (op : Operator) (node : Node) :
    (compileOperator op node).Ensures (fun e => Clear known e.text) (Compiled.Refers known id) := by
  refine ensuresBind (operandEnsures node "a") fun a left => ?_
  refine ensuresBind (operandEnsures node "b") fun b right => Compiled.singleRefers "out" ?_
  have symbol : Clear known op.symbol := clearPlain (by cases op <;> decide)
  refine clearBefore (by decide) (clearAfter (endsAppend (by decide)) ?_ right) (clearPlain (by decide))
  refine clearBefore (by decide) (clearAfter (endsAppend (by decide)) ?_ symbol)
    (clearPlain (by decide))
  exact clearBetween (by decide) left

theorem sizedWordy {t : ValueType} {size : Nat} (sized : t.size? = some size) : Wordy t.name := by
  cases t with
  | scalar base => exact ValueType.scalarWordy base
  | vector base size => exact ValueType.vectorWordy base size
  | _ => cases sized

theorem castFromClear {target : ValueType} {e d : Expression} (ok : castFrom target e = .ok d)
    (clear : Clear known e.text) : Clear known d.text := by
  unfold castFrom at ok
  split at ok
  · rename_i sized
    split at ok
    · cases ok
    · split at ok <;> cases ok
      · exact clear
      · exact clearCall (sizedWordy sized) (List.forall_mem_singleton.mpr clear)
  · cases ok

theorem zeroEnsures (type : ValueType) :
    (Recipe.ofExcept type.zero).Ensures (fun e => Clear known e.text) (Clear known) :=
  ensuresOfExcept fun _ => ValueType.zeroClear known

theorem castEnsures (node : Node) :
    (compileCast node).Ensures (fun e => Clear known e.text) (Compiled.Refers known id) := by
  refine ensuresBind (ensuresNothing _ (castTarget node)) fun target _ => ?_
  refine ensuresInput ?_ fun e clear => ?_
  · exact ensuresBind (zeroEnsures target) fun _ clear => Compiled.singleRefers "out" clear
  · refine ensuresBind (ensuresOfExcept fun d ok => castFromClear ok clear) fun d clear => ?_
    exact Compiled.singleRefers "out" clear

theorem componentEnsures (size : Nat) (node : Node) (name : String) :
    (componentOf size node name).Ensures (fun e => Clear known e.text) fun p => Clear known p.1 := by
  refine ensuresInput ?_ fun e clear => ?_
  · refine ensuresBind (ensuresNothing _ _) fun x _ => ?_
    exact clearPlain (floatTextPlain x)
  · dsimp only
    split
    · exact clear
    · trivial

theorem composeEnsures (size : Nat) (node : Node) :
    (compileCompose size node).Ensures (fun e => Clear known e.text) (Compiled.Refers known id) := by
  refine ensuresBind (ensuresMapM fun name _ => componentEnsures size node name) fun parts clear => ?_
  have wordy := ValueType.vectorWordy .float size
  refine Compiled.singleRefers "out" (clearCall wordy fun text member => ?_)
  obtain ⟨p, inside, rfl⟩ := List.mem_map.mp member
  exact clear p inside

theorem selectClear {e : Expression} {member : String} (plain : '_' ∉ member.toList)
    (clear : Clear known e.text) : Clear known (selectFrom e member) :=
  clearAfter (endsAppend (by decide)) (clearBefore (by decide) clear (clearPlain (by decide)))
    (clearPlain plain)

theorem componentsPlain : ∀ name ∈ components, '_' ∉ name.toList := by decide

theorem splitRefers {node : Node} {e : Expression} {c : Compiled} (splits : Splits node e c)
    (clear : Clear known e.text) : c.Refers known node.id := by
  have bound : (Compiled.empty.hoist (Identifier.binding node.id "vector") e).1.Refers known node.id ∧
      Clear (fun name => known name ∨ name ∈
        (Compiled.empty.hoist (Identifier.binding node.id "vector") e).1.bindings.map Binding.name)
        (Compiled.empty.hoist (Identifier.binding node.id "vector") e).2.text := by
    unfold Compiled.hoist
    split
    · exact ⟨Compiled.emptyRefers, clear.mono fun _ => .inl⟩
    · refine ⟨⟨.inr ⟨e.type, e.text, clear, rfl⟩, fun _ _ found => nomatch found⟩, ?_⟩
      exact clearBinding (.inr (by simp [Compiled.empty]))
  cases splits with
  | scalar => exact Compiled.withOutputRefers bound.1 "x" bound.2
  | vector =>
    refine Compiled.eachRefers bound.1 fun name member => ?_
    exact selectClear (componentsPlain name (List.mem_of_mem_take member)) bound.2

theorem splitEnsures (node : Node) :
    (compileSplit node).Ensures (fun e => Clear known e.text) (Compiled.Refers known node.id) := by
  refine ensuresInput ?_ fun e clear => ensuresSplitParts fun c splits => splitRefers splits clear
  exact Compiled.eachRefers Compiled.emptyRefers fun _ _ => clearPlain (by decide)

theorem positionsMember {members set : List Char} {l : List Nat}
    (found : positionsIn members set = some l) : ∀ c ∈ members, c ∈ set := by
  induction members generalizing l with
  | nil => exact fun _ member => nomatch member
  | cons d rest ih =>
    simp only [positionsIn, List.mapM_cons, Option.bind_eq_bind, Option.bind_eq_some_iff] at found
    obtain ⟨i, here, others, later, _⟩ := found
    intro c member
    rcases List.mem_cons.mp member with rfl | member
    · have some := congrArg Option.isSome here
      rw [List.findIdx?_isSome] at some
      simpa using some
    · exact ih later c member

/- Members are spelled with the letters of one set. -/
theorem positionsLetters {member : String} {l : List Nat} (ok : positions member = .ok l) :
    member.toList ≠ [] ∧ ∃ set ∈ memberSets, ∀ c ∈ member.toList, c ∈ set := by
  unfold positions at ok
  dsimp only at ok
  split at ok
  · cases ok
  · rename_i several
    split at ok
    · rename_i found
      obtain ⟨set, listed, found⟩ := List.exists_of_findSome?_eq_some found
      refine ⟨fun none => several ?_, set, listed, positionsMember found⟩
      rw [none]
      rfl
    · cases ok

theorem selectedPositions {member : String} {t type : ValueType}
    (ok : selectedType member t = .ok type) : ∃ l, positions member = .ok l := by
  unfold selectedType at ok
  cases found : positions member with
  | error e => rw [found] at ok; cases ok
  | ok l => exact ⟨l, rfl⟩

theorem selectedFree {c : Char} (free : ∀ set ∈ memberSets, c ∉ set) {member : String}
    {t type : ValueType} (ok : selectedType member t = .ok type) : c ∉ member.toList := by
  obtain ⟨l, placed⟩ := selectedPositions ok
  obtain ⟨_, set, listed, letters⟩ := positionsLetters placed
  exact fun inside => free set listed (letters c inside)

theorem swizzleEnsures (node : Node) :
    (compileSwizzle node).Ensures (fun e => Clear known e.text) (Compiled.Refers known id) := by
  refine ensuresBind (ensuresNothing _ _) fun member _ => ensuresInput ?_ fun e clear => ?_
  · refine ensuresBind (ensuresNothing _ _) fun type _ => ?_
    exact ensuresBind (zeroEnsures type) fun _ clear => Compiled.singleRefers "out" clear
  · refine ensuresBind (ensuresOfExcept fun _ ok => selectedFree (c := '_') (by decide) ok)
      fun type plain => ?_
    dsimp only
    split
    · exact Compiled.singleRefers "out" clear
    · refine Compiled.singleRefers "out" ?_
      refine clearAfter (endsAppend (by decide)) (clearBefore (by decide) ?_ (clearPlain (by decide)))
        (clearPlain plain)
      split
      · exact clear
      · exact clearBetween (by decide) clear

theorem argumentEnsures (function name : String) (type : ValueType) :
    (argument function name type).Ensures (fun e => Clear known e.text) (Clear known) := by
  refine ensuresInput (zeroEnsures type) fun e clear => ?_
  dsimp only
  split
  · exact clear
  · trivial

theorem builtinEnsures {s : Signature} (wordy : Wordy s.name) :
    (compileBuiltin s).Ensures (fun e => Clear known e.text) (Compiled.Refers known id) := by
  refine ensuresBind (ensuresNothing _ _) fun n _ => ?_
  have each : ∀ p ∈ s.parameters, Recipe.Ensures (fun e => Clear known e.text) (Clear known)
      (do argument s.name p.1 (← Recipe.ofExcept (n.collapse.resolve p.2))) :=
    fun p _ => ensuresBind (ensuresNothing _ _) fun type _ => argumentEnsures _ _ type
  refine ensuresBind (ensuresMapM each) fun texts clear => ?_
  refine ensuresBind (ensuresNothing _ _) fun type _ => ?_
  exact Compiled.singleRefers "out" (clearCall wordy clear)

theorem functionEnsures {s : Surroundings} (named : s.exports.Named) (node : Node) :
    (compileFunction s node).Ensures (fun e => Clear known e.text) (Compiled.Refers known id) := by
  have found : (functionOf s node).Ensures (fun e => Clear known e.text) fun f => Wordy f.name := by
    refine ensuresBind (ensuresNothing _ _) fun name _ => ?_
    split
    · rename_i f here
      exact named name f here
    · trivial
  refine ensuresBind found fun f wordy => ?_
  refine ensuresBind (ensuresMapM fun p _ => argumentEnsures f.name p.1 p.2) fun texts clear => ?_
  split
  · exact Compiled.emptyRefers
  · exact Compiled.singleRefers "out" (clearCall wordy clear)

theorem textureClear {sampler coordinates : String} (left : Clear known sampler)
    (right : Clear known coordinates) : Compiled.Refers known id
      (.single "color" (.compound (.vec 4) (call "texture" [sampler, coordinates]))) := by
  refine Compiled.singleRefers "color" (clearCall (by decide) fun text member => ?_)
  simp only [List.mem_cons, List.not_mem_nil, or_false] at member
  rcases member with rfl | rfl
  · exact left
  · exact right

theorem textureEnsures :
    compileTexture.Ensures (fun e => Clear known e.text) (Compiled.Refers known id) := by
  refine ensuresInput trivial fun e left => ?_
  dsimp only
  split
  · refine ensuresInput (textureClear left (clearWord (by decide) (by decide))) fun e' right => ?_
    dsimp only
    split
    · exact textureClear left right
    · trivial
  · trivial

theorem sinkEnsures :
    compileSink.Ensures (fun e => Clear known e.text) (Compiled.Refers known id) := by
  refine ensuresInput ?_ fun e clear => ?_
  · exact Compiled.singleRefers "color" (clearPlain (by decide))
  · have shown := fun d ok => Expression.displayedClear (d := d) ok clear
    refine ensuresBind (ensuresOfExcept shown) fun d clear => ?_
    exact Compiled.singleRefers "color" clear

theorem literalEnsures (base : Scalar) (node : Node) :
    (literalText base node).Ensures (fun e => Clear known e.text) (Clear known) := by
  unfold literalText
  split
  · refine ensuresBind (ensuresNothing _ _) fun b _ => clearPlain ?_
    cases b <;> decide
  · refine ensuresBind (ensuresNothing _ _) fun x _ => ?_
    split
    · exact clearPlain (numberTextPlain base x)
    · trivial

theorem colorClear (c : Color) : Clear known (colorText c) := by
  refine clearCall (by decide) fun text member => ?_
  obtain ⟨x, _, rfl⟩ := List.mem_map.mp member
  exact clearPlain (floatTextPlain _)

theorem uniformClear (id : String) : Clear known (Identifier.uniform id) := by
  refine clearWord (wordyAppend (by decide) fun _ => Identifier.encodeWord id) ?_
  simp [Identifier.uniform, String.toList_append]

def Named : NodeKind → Prop
  | builtin signature => Wordy signature.name
  | _ => True

instance (kind : NodeKind) : Decidable kind.Named :=
  match kind with
  | builtin signature => inferInstanceAs (Decidable (Wordy signature.name))
  | literal _ | color | ambient _ | uniform | operator _ | negate | cast | compose _ | split |
    swizzle | function | texture | sink _ => .isTrue trivial

theorem compileEnsures {kind : NodeKind} (named : kind.Named) {s : Surroundings}
    (exports : s.exports.Named) (node : Node) :
    (kind.compile s node).Ensures (fun e => Clear known e.text) (Compiled.Refers known node.id) := by
  cases kind with
  | literal base =>
    refine ensuresBind (literalEnsures base node) fun text clear => ?_
    exact Compiled.singleRefers "out" clear
  | color =>
    refine ensuresBind (ensuresNothing _ _) fun c _ => ?_
    exact Compiled.singleRefers "out" (colorClear c)
  | ambient value =>
    refine Compiled.singleRefers "out" (clearWord ?_ ?_) <;> cases value <;> decide
  | uniform =>
    refine ensuresBind (ensuresNothing _ (uniformOf s node)) fun p _ => ?_
    exact Compiled.singleRefers "out" (uniformClear p.1)
  | operator op => exact operatorEnsures op node
  | negate =>
    refine ensuresBind (operandEnsures node "a") fun a clear => Compiled.singleRefers "out" ?_
    exact clearBetween (by decide) clear
  | cast => exact castEnsures node
  | compose size => exact composeEnsures size node
  | split => exact splitEnsures node
  | swizzle => exact swizzleEnsures node
  | builtin signature => exact builtinEnsures named
  | function => exact functionEnsures exports node
  | texture => exact textureEnsures
  | sink label => exact sinkEnsures

end NodeKind

namespace Registry

def Named (p : Registry) : Prop := ∀ type kind, p.kind type = .ok kind → kind.Named

theorem kindFound {p : Registry} {type : String} {kind : NodeKind} :
    p.kind type = .ok kind ↔ p.get? type = some kind := by
  unfold Registry.kind
  cases p.get? type <;> simp

theorem standardNamed : standard.Named := by
  have each : ∀ entry ∈ standard.entries, entry.2.Named := by decide +kernel
  exact fun type kind known => each (type, kind) (Table.getMember (kindFound.mp known))

theorem withTypesNamed {p registry : Registry} {types : List (String × String)} (named : p.Named)
    (built : p.withTypes types = .ok registry) : registry.Named := by
  induction types generalizing p with
  | nil =>
    cases built
    exact named
  | cons entry rest ih =>
    rw [withTypes] at built
    cases known : standard.kind entry.2 with
    | error e =>
      rw [known] at built
      cases built
    | ok kind =>
      rw [known] at built
      refine ih (fun type other found => ?_) built
      rw [kindFound, Table.getInsert] at found
      split at found
      · cases found
        exact standardNamed _ _ known
      · exact named type other (kindFound.mpr found)

end Registry
end ShaderNet
