import Mathlib.Data.List.Nodup
import ShaderNet.NodeKind.Recipes
import ShaderNet.Proofs.Evaluate.Follow
import ShaderNet.Proofs.Template.Exact

/-! Calls of functions with templates. A call is written with the first instance left by all that is
connected, and whatever is connected fits that one too; so a call can be written as soon as narrowing
succeeds. The sockets of a call offer the types of all instances that are left. -/
namespace ShaderNet

theorem ValueType.zeroSome {t : ValueType} (some : t.alternatives ≠ [])
    (each : ∀ u ∈ t.alternatives, u.isScalar = true ∨ u.isVector = true) :
    ∃ text, t.zero = .ok text := by
  have plain : ∀ u : ValueType, u.isScalar = true ∨ u.isVector = true → ∃ text, u.zero = .ok text := by
    intro u shape
    cases u with
    | scalar base => exact ⟨_, by rw [zero]⟩
    | vector base size => exact ⟨_, by rw [zero]⟩
    | _ => simp [isScalar, isVector] at shape
  cases t with
  | variant ts =>
    cases ts with
    | nil => exact absurd rfl some
    | cons u rest =>
      obtain ⟨text, ok⟩ := plain u (each u List.mem_cons_self)
      exact ⟨text, by rw [zero, zeroOfFirst, ok]⟩
  | _ => exact plain _ (each _ (List.mem_singleton.mpr rfl))

theorem ValueType.shapedShape (base : Scalar) (size : Nat) :
    (shaped base size).isScalar = true ∨ (shaped base size).isVector = true := by
  unfold shaped
  split
  · exact .inl rfl
  · exact .inr rfl

theorem Role.takesShape {role : Role} {shape : Shape} {type : ValueType}
    (takes : role.Takes shape type) : type.isScalar = true ∨ type.isVector = true := by
  cases role with
  | whole => exact takes ▸ ValueType.shapedShape _ _
  | component => exact takes ▸ .inl rfl
  | wholeOrComponent =>
    rcases takes with whole | component
    · exact whole ▸ ValueType.shapedShape _ _
    · exact component ▸ .inl rfl
  | boolShaped => exact takes ▸ ValueType.shapedShape _ _

namespace Signature

theorem parameterSlot {s : Signature} {p : String × Slot} (member : p ∈ s.parameters) : p.2 ∈ s.slots :=
  List.mem_cons_of_mem _ (List.mem_map_of_mem member)

structure Callable (s : Signature) : Prop where
  grounded : s.Grounded
  templates : ∀ p ∈ s.parameters, p.2.isTemplate = true
  names : (s.parameters.map Prod.fst).Nodup

theorem Callable.template {s : Signature} (callable : s.Callable) {p : String × Slot}
    (member : p ∈ s.parameters) : ∃ name role, p.2 = .template name role := by
  have template := callable.templates p member
  cases slot : p.2 with
  | fixed type =>
    rw [slot] at template
    cases template
  | template name role => exact ⟨name, role, rfl⟩

def isGroundedAt (s : Signature) : Slot → Bool
  | .fixed _ => true
  | .template name _ =>
    (s.templates.get? name).any fun c => !c.isEmpty && c.sizes.all fun n => 1 ≤ n && n ≤ 4

theorem groundedEach {s : Signature} (each : s.slots.all s.isGroundedAt = true) : s.Grounded := by
  intro name role member
  have here := List.all_eq_true.mp each _ member
  simp only [isGroundedAt, Option.any_eq_true, Bool.and_eq_true, Bool.not_eq_true',
    List.all_eq_true, decide_eq_true_eq] at here
  obtain ⟨c, found, left, range⟩ := here
  exact ⟨c, found, Constraint.saneIff.mpr ⟨left, range⟩⟩

theorem builtinsCallable : ∀ s ∈ builtins, s.Callable := by
  have each : ∀ s ∈ builtins, s.slots.all s.isGroundedAt = true ∧
      (∀ p ∈ s.parameters, p.2.isTemplate = true) ∧ (s.parameters.map Prod.fst).Nodup := by
    decide +kernel
  intro s member
  obtain ⟨grounded, templates, names⟩ := each s member
  exact ⟨groundedEach grounded, templates, names⟩

end Signature

def Instance.Suits (i : Instance) (s : Signature) (connected : String → Option ValueType) : Prop :=
  ∀ p ∈ s.parameters, ∀ type, connected p.1 = some type → p.2.Takes i type

namespace Narrowing

theorem collapseGrounded {n : Narrowing} (grounded : n.Grounded) : n.collapse.Grounded := by
  intro name role member
  obtain ⟨c, found, sane⟩ := grounded name role member
  refine ⟨c.collapse, by rw [collapse, Table.getMapValues, found]; rfl, ?_, ?_, fun size listed => ?_⟩
  · exact fun none => sane.bases (by simpa [Constraint.collapse] using none)
  · exact fun none => sane.sizes (by simpa [Constraint.collapse] using none)
  · exact sane.range size (List.mem_of_mem_take listed)

theorem collapseAllows {n : Narrowing} {i : Instance} (inside : n.collapse.Allows i) : n.Allows i := by
  intro name role member
  obtain ⟨d, found, base, size⟩ := inside name role member
  rw [collapse, Table.getMapValues] at found
  obtain ⟨c, before, rfl⟩ := Option.map_eq_some_iff.mp found
  exact ⟨c, before, List.mem_of_mem_take base, List.mem_of_mem_take size⟩

def Accepts (n : Narrowing) (slot : Slot) (type : ValueType) : Prop :=
  ∃ t, n.collapse.resolve slot = .ok t ∧ type.toStrictly t = true

theorem resolveShapes {n : Narrowing} (grounded : n.Grounded) {slot : Slot}
    (template : slot.isTemplate = true) (listed : slot ∈ n.signature.slots) :
    ∃ type, n.resolve slot = .ok type ∧ type.alternatives ≠ [] ∧
      (∀ u ∈ type.alternatives, (u.isScalar = true ∨ u.isVector = true) ∧ u.isVariant = false) ∧
      ∀ t, t ∈ type.alternatives ↔ ∃ i, n.Allows i ∧ slot.Takes i t := by
  cases slot with
  | fixed t => cases template
  | template name role =>
    obtain ⟨type, resolved, types⟩ := resolveIff grounded listed
    refine ⟨type, resolved, ?_, fun u among => ?_, types⟩
    · obtain ⟨i, inside⟩ := grounded.allows
      obtain ⟨u, takes⟩ := role.takesSome (i name)
      exact List.ne_nil_of_mem ((types u).mpr ⟨i, inside, takes⟩)
    · obtain ⟨j, _, takes⟩ := (types u).mp among
      exact ⟨Role.takesShape takes, (Role.takesPlain takes).1⟩

/- A type that is no variant is accepted exactly if the instance left by collapsing takes it. -/
theorem acceptsIff {n : Narrowing} (grounded : n.Grounded) {slot : Slot}
    (template : slot.isTemplate = true) (listed : slot ∈ n.signature.slots) {type : ValueType}
    (plain : type.isVariant = false) :
    n.Accepts slot type ↔ ∃ i, n.collapse.Allows i ∧ slot.Takes i type := by
  obtain ⟨t, resolved, _, shapes, types⟩ := resolveShapes (collapseGrounded grounded) template listed
  rw [← types, ← ValueType.toStrictlyIff plain fun u among => (shapes u among).2]
  constructor
  · rintro ⟨_, told, converts⟩
    cases resolved.symm.trans told
    exact converts
  · exact fun converts => ⟨t, resolved, converts⟩

end Narrowing

namespace NodeKind
open Recipe

def assigned (parameters : List (String × Slot)) (a : String → Option Expression) :
    List (Slot × ValueType) :=
  parameters.filterMap fun p => (a p.1).map fun e => (p.2, e.type)

def typeAt (a : String → Option Expression) (name : String) : Option ValueType :=
  (a name).map Expression.type

variable {s : Signature} {g : String → Except Failure (Option Expression)}
  {a : String → Option Expression}

theorem assignedEach (related : Slot → ValueType → Prop) :
    (∀ q ∈ assigned s.parameters a, related q.1 q.2) ↔
      ∀ p ∈ s.parameters, ∀ type, typeAt a p.1 = some type → related p.2 type := by
  constructor
  · intro each p member type found
    obtain ⟨e, given, rfl⟩ := Option.map_eq_some_iff.mp found
    exact each (p.2, e.type) (List.mem_filterMap.mpr ⟨p, member, by rw [given]; rfl⟩)
  · intro each q member
    obtain ⟨p, listed, found⟩ := List.mem_filterMap.mp member
    obtain ⟨e, given, rfl⟩ := Option.map_eq_some_iff.mp found
    exact each p listed e.type (by rw [typeAt, given]; rfl)

theorem fitsSuits (templates : ∀ p ∈ s.parameters, p.2.isTemplate = true) (i : Instance) :
    i.Fits (assigned s.parameters a) ↔ i.Suits s (typeAt a) :=
  (assignedEach fun slot type => slot.isTemplate = true → slot.Takes i type).trans
    (forall₂_congr fun p member => by simp only [templates p member, forall_const])

/- One more type connected is one more that has to be related to its slot. -/
theorem connectedMore (names : (s.parameters.map Prod.fst).Nodup) {x : String} {slot : Slot}
    (declared : (x, slot) ∈ s.parameters) {b : String → Option Expression} {e : Expression}
    (free : a x = none) (here : b x = some e) (others : ∀ name, name ≠ x → b name = a name)
    (related : Slot → ValueType → Prop) :
    (∀ p ∈ s.parameters, ∀ type, typeAt b p.1 = some type → related p.2 type) ↔
      (∀ p ∈ s.parameters, ∀ type, typeAt a p.1 = some type → related p.2 type) ∧
        related slot e.type := by
  have single : ∀ p ∈ s.parameters, p.1 = x → p.2 = slot := by
    intro p member same
    have both := List.inj_on_of_nodup_map names member declared same
    rw [both]
  constructor
  · intro each
    refine ⟨fun p member type given => each p member type ?_, each _ declared _ ?_⟩
    · by_cases same : p.1 = x
      · rw [typeAt, same, free] at given
        cases given
      · rw [typeAt, others p.1 same]
        exact given
    · rw [typeAt, here]
      rfl
  · rintro ⟨each, now⟩ p member type given
    by_cases same : p.1 = x
    · rw [typeAt, same, here] at given
      cases given
      rw [single p member same]
      exact now
    · refine each p member type ?_
      rw [typeAt, others p.1 same] at given
      exact given

def narrowedBy (n : Narrowing) (p : String × Slot) : Recipe Narrowing := do
  match ← inputType p.1 with
  | some type => ofExcept (n.narrow p.2 type)
  | none => return n

theorem narrowedFold (s : Signature) : narrowed s = s.parameters.foldlM narrowedBy (.start s) := rfl

theorem narrowedByFollow (n : Narrowing) {p : String × Slot} {e : Option Expression}
    (answered : g p.1 = .ok e) : (narrowedBy n p).follow g =
      (e.elim (.ok n) fun e => n.narrow p.2 e.type).mapError .unsupported := by
  rw [narrowedBy, followBind, followInputType, answered]
  cases e with
  | none => rfl
  | some e => exact followOfExcept g _

theorem narrowedFollow (answers : ∀ p ∈ s.parameters, g p.1 = .ok (a p.1)) :
    (narrowed s).follow g =
      ((Narrowing.start s).narrowAll (assigned s.parameters a)).mapError .unsupported := by
  have general : ∀ (rest : List (String × Slot)) (n : Narrowing),
      (∀ p ∈ rest, g p.1 = .ok (a p.1)) → (rest.foldlM narrowedBy n).follow g =
        (n.narrowAll (assigned rest a)).mapError .unsupported := by
    intro rest
    induction rest with
    | nil => exact fun _ _ => rfl
    | cons p rest ih =>
      intro n answers
      have others := fun m => ih m fun q member => answers q (List.mem_cons_of_mem _ member)
      rw [List.foldlM_cons, followBind, narrowedByFollow n (answers p List.mem_cons_self)]
      cases given : a p.1 with
      | none =>
        simp only [assigned, List.filterMap_cons, given, Option.map_none]
        exact others n
      | some e =>
        simp only [assigned, List.filterMap_cons, given, Option.map_some, Narrowing.narrowAll,
          List.foldlM_cons, Option.elim_some]
        cases narrowed : n.narrow p.2 e.type with
        | error cause => rfl
        | ok m => exact others m
  rw [narrowedFold]
  exact general s.parameters (.start s) answers

/- The first result under the name of an item is that of the item. -/
theorem findResult {l : List (String × Slot)} {results : List (String × ValueType)}
    {f : String × Slot → Except Failure (String × ValueType)}
    (each : List.Forall₂ (fun p q => f p = .ok q) l results) (named : ∀ p q, f p = .ok q → q.1 = p.1)
    (names : (l.map Prod.fst).Nodup) {p : String × Slot} (member : p ∈ l) {q : String × ValueType}
    (here : f p = .ok q) : results.find? (fun r => r.1 = p.1) = some q := by
  induction each with
  | nil => cases member
  | @cons head result rest results first _ ih =>
    obtain ⟨apart, names⟩ := List.nodup_cons.mp names
    rcases List.mem_cons.mp member with rfl | member
    · cases first.symm.trans here
      simp [named p q here]
    · have other : head.1 ≠ p.1 := fun same => apart (same ▸ List.mem_map_of_mem member)
      rw [List.find?_cons_of_neg (by simp [named head result first, other])]
      exact ih names member

section Calls

theorem assignedSlots (s : Signature) (a : String → Option Expression) :
    ∀ q ∈ assigned s.parameters a, q.1 ∈ (Narrowing.start s).signature.slots := by
  intro q member
  obtain ⟨p, listed, found⟩ := List.mem_filterMap.mp member
  obtain ⟨e, given, rfl⟩ := Option.map_eq_some_iff.mp found
  exact Signature.parameterSlot listed

theorem assignedWithin
    (concrete : ∀ p ∈ s.parameters, ∀ e, a p.1 = some e → e.type.isShape = true) :
    ∀ q ∈ assigned s.parameters a, q.1 ∈ (Narrowing.start s).signature.slots ∧ q.2.isShape = true := by
  intro q member
  refine ⟨assignedSlots s a q member, ?_⟩
  obtain ⟨p, listed, found⟩ := List.mem_filterMap.mp member
  obtain ⟨e, given, rfl⟩ := Option.map_eq_some_iff.mp found
  exact concrete p listed e given

variable (callable : s.Callable) (answers : ∀ p ∈ s.parameters, g p.1 = .ok (a p.1))
include callable

theorem argumentIff {n : Narrowing} (left : n.Grounded) (same : n.signature = s) {p : String × Slot}
    (member : p ∈ s.parameters) (answered : g p.1 = .ok (a p.1)) :
    (∃ text, (do argument s.name p.1 (← ofExcept (n.collapse.resolve p.2)) : Recipe String).follow g =
      .ok text) ↔ ∀ e, a p.1 = some e → n.Accepts p.2 e.type := by
  have listed : p.2 ∈ n.collapse.signature.slots := by
    rw [Narrowing.collapse, same]
    exact Signature.parameterSlot member
  obtain ⟨type, resolved, some, shapes, _⟩ := Narrowing.resolveShapes (Narrowing.collapseGrounded left)
    (callable.templates p member) listed
  simp only [followBind, followOfExcept, resolved, Except.mapError, argument, followInput, answered,
    okBind]
  cases given : a p.1 with
  | none =>
    refine ⟨fun _ e impossible => (by cases impossible), fun _ => ?_⟩
    obtain ⟨text, zero⟩ := ValueType.zeroSome some fun u among => (shapes u among).1
    exact ⟨text, by simp only [followOfExcept, zero]; rfl⟩
  | some e =>
    constructor
    · rintro ⟨text, ok⟩ _ same
      cases same
      refine ⟨type, resolved, ?_⟩
      by_contra refused
      simp only [refused, if_false] at ok
      cases ok
    · intro accepts
      obtain ⟨t, told, converts⟩ := accepts e rfl
      cases resolved.symm.trans told
      exact ⟨e.text, by simp only [converts, if_true]; rfl⟩

theorem heedsSuits (concrete : ∀ p ∈ s.parameters, ∀ e, a p.1 = some e → e.type.isShape = true)
    {i : Instance} (allows : s.Allows i) :
    i.Heeds (assigned s.parameters a) ↔ i.Suits s (typeAt a) := by
  have begun : (Narrowing.start s).Grounded := callable.grounded
  exact (Narrowing.heedsFits begun (assignedWithin concrete) allows).trans
    (fitsSuits callable.templates i)

include answers

/- What is left are the instances among the choices that all connected types leave. -/
theorem narrowedHeeds {n : Narrowing} (ok : (narrowed s).follow g = .ok n) :
    n.signature = s ∧ n.Grounded ∧
      ∀ i, n.Allows i ↔ s.Allows i ∧ i.Heeds (assigned s.parameters a) := by
  have begun : (Narrowing.start s).Grounded := callable.grounded
  rw [narrowedFollow answers] at ok
  cases narrowed : (Narrowing.start s).narrowAll (assigned s.parameters a) with
  | error cause =>
    rw [narrowed] at ok
    cases ok
  | ok m =>
    rw [narrowed] at ok
    cases ok
    exact Narrowing.narrowAllTells begun (assignedSlots s a) narrowed

theorem narrowedHeeded {i : Instance} (allows : s.Allows i)
    (heeds : i.Heeds (assigned s.parameters a)) : ∃ n, (narrowed s).follow g = .ok n := by
  have begun : (Narrowing.start s).Grounded := callable.grounded
  obtain ⟨n, ok⟩ := Narrowing.narrowAllHeeded begun (assignedSlots s a) allows heeds
  exact ⟨n, by rw [narrowedFollow answers, ok]; rfl⟩

/- A call is written as soon as what is connected narrows the templates to what accepts all of it. -/
theorem compileBuiltinAccepts : (∃ c, (compileBuiltin s).follow g = .ok c) ↔
    ∃ n, (narrowed s).follow g = .ok n ∧
      ∀ p ∈ s.parameters, ∀ e, a p.1 = some e → n.Accepts p.2 e.type := by
  constructor
  · rintro ⟨c, ok⟩
    obtain ⟨n, narrowing, ok⟩ := followBindOk ok
    obtain ⟨arguments, written, _⟩ := followBindOk ok
    obtain ⟨same, left, _⟩ := narrowedHeeds callable answers narrowing
    rw [followMapM] at written
    exact ⟨n, narrowing, fun p member =>
      (argumentIff callable left same member (answers p member)).mp (mapMEach written p member)⟩
  · rintro ⟨n, narrowing, accepts⟩
    obtain ⟨same, left, _⟩ := narrowedHeeds callable answers narrowing
    obtain ⟨arguments, written⟩ := mapMSucceeds fun p member =>
      (argumentIff callable left same member (answers p member)).mpr (accepts p member)
    have listed : s.output ∈ n.collapse.signature.slots := by
      rw [Narrowing.collapse, same]
      exact List.mem_cons_self
    obtain ⟨type, resolved, _⟩ := Narrowing.resolveIff (Narrowing.collapseGrounded left) listed
    rw [← followMapM] at written
    rw [compileBuiltin, followOn narrowing, followOn written, followOn (ofExceptOk.mpr resolved)]
    exact ⟨_, rfl⟩

/- The type of a parameter is what the narrowed templates leave to it. -/
theorem builtinSocketsResolve {sockets : Sockets} (ok : (builtinSockets s).follow g = .ok sockets) :
    ∃ n, (narrowed s).follow g = .ok n ∧ ∀ p ∈ s.parameters, ∃ type, n.resolve p.2 = .ok type ∧
      sockets.inputs.find? (fun q => q.1 = p.1) = some (p.1, type) := by
  obtain ⟨n, narrowing, ok⟩ := followBindOk ok
  obtain ⟨inputs, listing, ok⟩ := followBindOk ok
  obtain ⟨output, _, ok⟩ := followBindOk ok
  cases ok
  obtain ⟨same, left, _⟩ := narrowedHeeds callable answers narrowing
  rw [followMapM] at listing
  refine ⟨n, narrowing, fun p member => ?_⟩
  obtain ⟨type, resolved, _⟩ := Narrowing.resolveIff left
    (same ▸ Signature.parameterSlot member)
  refine ⟨type, resolved, findResult (mapMResults listing) (fun p q given => ?_) callable.names member ?_⟩
  · obtain ⟨_, _, given⟩ := followBindOk given
    cases given
    rfl
  · exact followOn (ofExceptOk.mpr resolved) _

/-! Types without variants -/

variable (concrete : ∀ p ∈ s.parameters, ∀ e, a p.1 = some e → e.type.isShape = true)
include concrete

theorem narrowedAllows {n : Narrowing} (ok : (narrowed s).follow g = .ok n) :
    n.signature = s ∧ n.Grounded ∧ ∀ i, n.Allows i ↔ s.Allows i ∧ i.Suits s (typeAt a) := by
  obtain ⟨same, left, allowed⟩ := narrowedHeeds callable answers ok
  exact ⟨same, left, fun i => (allowed i).trans (and_congr_right (heedsSuits callable concrete))⟩

theorem narrowedSome : (∃ n, (narrowed s).follow g = .ok n) ↔
    ∃ i, s.Allows i ∧ i.Suits s (typeAt a) := by
  constructor
  · rintro ⟨n, ok⟩
    obtain ⟨_, left, allowed⟩ := narrowedAllows callable answers concrete ok
    obtain ⟨i, inside⟩ := left.allows
    exact ⟨i, (allowed i).mp inside⟩
  · rintro ⟨i, allows, suits⟩
    exact narrowedHeeded callable answers allows ((heedsSuits callable concrete allows).mpr suits)

/- Any instance that is left gives every argument its type, so the first one does. -/
theorem narrowedAccepts {n : Narrowing} (ok : (narrowed s).follow g = .ok n) {p : String × Slot}
    (member : p ∈ s.parameters) {e : Expression} (given : a p.1 = some e) : n.Accepts p.2 e.type := by
  obtain ⟨same, left, allowed⟩ := narrowedAllows callable answers concrete ok
  obtain ⟨i, inside⟩ := (Narrowing.collapseGrounded left).allows
  refine (Narrowing.acceptsIff left (callable.templates p member) ?_
    (ValueType.shapePlain (concrete p member e given))).mpr ⟨i, inside, ?_⟩
  · rw [same]
    exact Signature.parameterSlot member
  · exact ((allowed i).mp (Narrowing.collapseAllows inside)).2 p member e.type (by rw [typeAt, given]; rfl)

theorem compileBuiltinIff : (∃ c, (compileBuiltin s).follow g = .ok c) ↔
    ∃ i, s.Allows i ∧ i.Suits s (typeAt a) := by
  rw [← narrowedSome callable answers concrete, compileBuiltinAccepts callable answers]
  exact exists_congr fun n => and_iff_left_of_imp fun ok p member e given =>
    narrowedAccepts callable answers concrete ok member given

theorem builtinSocketsSome : (∃ sockets, (builtinSockets s).follow g = .ok sockets) ↔
    ∃ i, s.Allows i ∧ i.Suits s (typeAt a) := by
  rw [← narrowedSome callable answers concrete]
  simp only [builtinSockets, followBind, followMapM]
  constructor
  · rintro ⟨sockets, ok⟩
    cases narrowed : (narrowed s).follow g with
    | error e =>
      rw [narrowed] at ok
      cases ok
    | ok n => exact ⟨n, rfl⟩
  · rintro ⟨n, ok⟩
    obtain ⟨same, left, _⟩ := narrowedAllows callable answers concrete ok
    have resolves : ∀ slot ∈ s.slots, ∃ type, n.resolve slot = .ok type := fun slot member =>
      have ⟨type, resolved, _⟩ := Narrowing.resolveIff left (same ▸ member)
      ⟨type, resolved⟩
    obtain ⟨inputs, listed⟩ := mapMSucceeds (f := fun p : String × Slot =>
        (ofExcept (n.resolve p.2)).follow g >>= fun type => (pure (p.1, type) : Recipe _).follow g)
      fun p member => by
        obtain ⟨type, resolved⟩ := resolves p.2 (Signature.parameterSlot member)
        exact ⟨(p.1, type), by rw [followOfExcept, resolved]; rfl⟩
    obtain ⟨type, resolved⟩ := resolves s.output List.mem_cons_self
    rw [ok, okBind, listed, okBind, followOfExcept, resolved]
    exact ⟨_, rfl⟩

theorem builtinSocketsTypes {sockets : Sockets} (ok : (builtinSockets s).follow g = .ok sockets)
    {p : String × Slot} (member : p ∈ s.parameters) :
    ∃ type, sockets.inputs.find? (fun q => q.1 = p.1) = some (p.1, type) ∧
      ∀ t, t ∈ type.alternatives ↔ ∃ i, s.Allows i ∧ i.Suits s (typeAt a) ∧ p.2.Takes i t := by
  obtain ⟨n, narrowing, inputs⟩ := builtinSocketsResolve callable answers ok
  obtain ⟨same, left, allowed⟩ := narrowedAllows callable answers concrete narrowing
  obtain ⟨type, resolved, listed⟩ := inputs p member
  obtain ⟨_, resolved', types⟩ := Narrowing.resolveIff left
    (same ▸ Signature.parameterSlot member)
  cases resolved.symm.trans resolved'
  refine ⟨type, listed, fun t => (types t).trans (exists_congr fun i => ?_)⟩
  rw [allowed, and_assoc]

end Calls
end NodeKind
end ShaderNet
