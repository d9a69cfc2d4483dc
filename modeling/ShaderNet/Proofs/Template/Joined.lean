import ShaderNet.Proofs.Template.Calls
import ShaderNet.Proofs.Template.Collapsed

/-! One more argument. A call that is written stays so when a type that one of its open parameters takes is
connected to it. Connected variants are the exception to the rule that any instance left would do: such a
variant is a vector or its components, and then some other argument has left that vector only. -/
namespace ShaderNet

namespace Constraint

theorem memUnion {α : Type} [DecidableEq α] {x : α} (l m : List α) :
    x ∈ m.foldl (fun l b => if b ∈ l then l else l ++ [b]) l ↔ x ∈ l ∨ x ∈ m := by
  induction m generalizing l with
  | nil => simp
  | cons b rest ih =>
    rw [List.foldl_cons, ih]
    split
    · rename_i known
      simp only [List.mem_cons]
      constructor
      · exact fun member => member.imp_right .inr
      · rintro (member | rfl | member)
        exacts [.inl member, .inl known, .inr member]
    · simp [or_assoc]

theorem unionAllows {c d : Constraint} {shape : Shape} (allows : d.Allows shape) :
    (c.union d).Allows shape :=
  ⟨(memUnion _ _).mpr (.inr allows.1), (memUnion _ _).mpr (.inr allows.2)⟩

end Constraint

namespace Role

theorem takesIsShape {role : Role} {shape : Shape} (range : 1 ≤ shape.size ∧ shape.size ≤ 4)
    {type : ValueType} (takes : role.Takes shape type) : type.isShape = true := by
  have shaped : ∀ base, (ValueType.shaped base shape.size).isShape = true := by
    intro base
    unfold ValueType.shaped
    split
    · rfl
    · simp only [ValueType.isShape, Bool.and_eq_true, decide_eq_true_eq]
      omega
  cases role with
  | whole => exact takes ▸ shaped _
  | component => exact takes ▸ rfl
  | wholeOrComponent => exact takes.elim (fun whole => whole ▸ shaped _) fun component => component ▸ rfl
  | boolShaped => exact takes ▸ shaped _

/- A variant is only taken where it is the vector of the collapsed template or its components. -/
theorem variantTaken {role : Role} {shape : Shape} {t : ValueType} (variant : t.isVariant = true)
    (converts : t.toStrictly (role.types ⟨[shape.base], [shape.size]⟩) = true) :
    role = .wholeOrComponent ∧ shape.size ≠ 1 ∧
      t = .variant [.vector shape.base shape.size, .scalar shape.base] := by
  have same : ∀ u : ValueType, u.isVariant = false → t.toStrictly u = true → False := by
    intro u plain converts
    rw [ValueType.toStrictlyPlain plain] at converts
    rw [converts, plain] at variant
    cases variant
  have single : ∀ u : ValueType, u.isVariant = false → t.toStrictly (.oneOf [u]) = true → False := by
    intro u plain converts
    rw [ValueType.oneOfSingle plain] at converts
    exact same u plain converts
  obtain ⟨base, size⟩ := shape
  cases role with
  | whole => exact (single _ (ValueType.shapedPlain base size) converts).elim
  | component => exact (single (.scalar base) rfl converts).elim
  | boolShaped => exact (single _ (ValueType.shapedPlain .bool size) converts).elim
  | wholeOrComponent =>
    have listed : wholeOrComponent.types ⟨[base], [size]⟩ =
        .oneOf [.shaped base size, .scalar base] := rfl
    rw [listed] at converts
    by_cases one : size = 1
    · have scalar : ValueType.oneOf [.shaped base size, .scalar base] = .scalar base := by
        simp [ValueType.oneOf, ValueType.shaped, one, ValueType.alternatives, ValueType.append]
      rw [scalar] at converts
      exact (same _ rfl converts).elim
    · have either : ValueType.oneOf [.shaped base size, .scalar base] =
          .variant [.vector base size, .scalar base] := by
        simp [ValueType.oneOf, ValueType.shaped, one, ValueType.alternatives, ValueType.append]
      rw [either] at converts
      simp only [ValueType.toStrictly, ValueType.convertsStrictly, ValueType.anyConvertsStrictly,
        Bool.or_eq_true, decide_eq_true_eq, Bool.false_eq_true, or_false] at converts
      rcases converts with same | rfl | rfl
      · exact ⟨rfl, one, same⟩
      · cases variant
      · cases variant

theorem variantTells (base : Scalar) (size : Nat) :
    (wholeOrComponent.admitsAny (.variant [.vector base size, .scalar base])).Allows ⟨base, 1⟩ :=
  Constraint.unionAllows ⟨List.mem_singleton.mpr rfl, List.mem_cons_self⟩

/- Another argument that excludes scalars leaves the shape it was taken for. -/
theorem vectorTells {role : Role} {shape other : Shape} {t : ValueType} (several : shape.size ≠ 1)
    (shaped : role ≠ .boolShaped) (takes : role.Takes shape t)
    (fixes : ¬ (role.admitsAny t).Allows ⟨shape.base, 1⟩) (tells : (role.admitsAny t).Allows other) :
    other = shape := by
  obtain ⟨base, size⟩ := shape
  obtain ⟨base', size'⟩ := other
  have vector : ValueType.shaped base size = .vector base size := if_neg several
  cases role with
  | whole =>
    rw [show t = .vector base size from takes.trans vector] at tells
    simpa [admitsAny, admits, ValueType.alternatives, ValueType.base?, ValueType.size?,
      Constraint.Allows] using tells
  | component =>
    rw [show t = .scalar base from takes] at fixes
    exact absurd ⟨List.mem_singleton.mpr rfl, List.mem_cons_self⟩ fixes
  | wholeOrComponent =>
    rcases takes with whole | component
    · rw [whole.trans vector] at tells
      have several : size ≠ 1 := several
      simpa [admitsAny, admits, ValueType.alternatives, ValueType.base?, ValueType.size?,
        Constraint.Allows, several] using tells
    · rw [component] at fixes
      exact absurd ⟨List.mem_singleton.mpr rfl, List.mem_cons_self⟩ fixes
  | boolShaped => exact absurd rfl shaped

end Role

def Instance.flattened (i : Instance) (name : String) : Instance :=
  fun k => if k = name then ⟨(i name).base, 1⟩ else i k

namespace Signature

/-- Sizes are listed from the smallest. A template that a parameter follows as a whole or by component may
be a scalar, and no parameter follows it by shape only. -/
structure Ordered (s : Signature) : Prop where
  ascending : ∀ name c, s.templates.get? name = some c → c.sizes.Pairwise (· < ·)
  scalar : ∀ name, .template name .wholeOrComponent ∈ s.slots →
    ∃ c, s.templates.get? name = some c ∧ 1 ∈ c.sizes
  shaped : ∀ name, .template name .wholeOrComponent ∈ s.slots → .template name .boolShaped ∉ s.slots

def isOrderedAt (s : Signature) : Slot → Bool
  | .template name .wholeOrComponent =>
    ((s.templates.get? name).any fun c => 1 ∈ c.sizes) && .template name .boolShaped ∉ s.slots
  | _ => true

theorem builtinsOrdered : ∀ s ∈ builtins, s.Ordered := by
  have each : ∀ s ∈ builtins, (∀ p ∈ s.templates.entries, p.2.sizes.Pairwise (· < ·)) ∧
      s.slots.all s.isOrderedAt = true := by
    decide +kernel
  intro s member
  obtain ⟨ascending, ordered⟩ := each s member
  have at' : ∀ name, .template name .wholeOrComponent ∈ s.slots →
      (∃ c, s.templates.get? name = some c ∧ 1 ∈ c.sizes) ∧ .template name .boolShaped ∉ s.slots := by
    intro name listed
    simpa [isOrderedAt, Option.any_eq_true] using List.all_eq_true.mp ordered _ listed
  exact ⟨fun name c found => ascending _ (Table.getMember found), fun name listed => (at' name listed).1,
    fun name listed => (at' name listed).2⟩

theorem Ordered.flattened {s : Signature} (ordered : s.Ordered) {name : String}
    (listed : .template name .wholeOrComponent ∈ s.slots) {i : Instance} (begun : s.Allows i) :
    s.Allows (i.flattened name) := by
  intro k role listed'
  obtain ⟨c, found, chosen⟩ := begun k role listed'
  refine ⟨c, found, ?_⟩
  by_cases here : k = name
  · subst here
    obtain ⟨_, found', one⟩ := ordered.scalar k listed
    cases found.symm.trans found'
    rw [Instance.flattened, if_pos rfl]
    exact ⟨chosen.1, one⟩
  · rw [Instance.flattened, if_neg here]
    exact chosen

end Signature

namespace Narrowing

theorem narrowAllEach {P : Constraint → Prop} (fewer : ∀ c d, P c → P (c.intersect d))
    {assigned : List (Slot × ValueType)} {n m : Narrowing}
    (each : ∀ name c, n.constraints.get? name = some c → P c) (ok : n.narrowAll assigned = .ok m) :
    ∀ name c, m.constraints.get? name = some c → P c := by
  induction assigned generalizing n with
  | nil =>
    cases ok
    exact each
  | cons p rest ih =>
    simp only [narrowAll, List.foldlM_cons, bind, Except.bind] at ok
    split at ok
    · cases ok
    · rename_i next narrowed
      exact ih (narrowEach fewer each narrowed) ok

section Slots

variable {n : Narrowing} (grounded : n.Grounded) {i : Instance} (inside : n.Allows i) {slot : Slot}
  (template : slot.isTemplate = true) (listed : slot ∈ n.signature.slots) {t : ValueType}
include grounded inside template listed

theorem takesShape (takes : slot.Takes i t) : t.isShape = true := by
  cases slot with
  | fixed type => cases template
  | template name role => exact Role.takesIsShape (grounded.range inside listed) takes

theorem tellsTakes (shape : t.isShape = true) : slot.Tells i t ↔ slot.Takes i t := by
  refine (Slot.tellsIff shape fun _ _ known => grounded.range inside (known ▸ listed)).trans ?_
  exact ⟨fun takes => takes template, fun takes _ => takes⟩

end Slots

variable {n : Narrowing} {i i' : Instance} {name : String} {role : Role}

/- What a template is collapsed to is the shape that the instance gives it. -/
theorem collapsedShape (listed : .template name role ∈ n.signature.slots)
    (inside : n.collapse.Allows i) :
    ∃ c, n.constraints.get? name = some c ∧ c.collapse = ⟨[(i name).base], [(i name).size]⟩ := by
  obtain ⟨d, found, base, size⟩ := inside name role listed
  rw [collapse, Table.getMapValues] at found
  obtain ⟨c, before, rfl⟩ := Option.map_eq_some_iff.mp found
  refine ⟨c, before, ?_⟩
  obtain ⟨bases, sizes⟩ := c
  cases bases with
  | nil => cases base
  | cons b bases =>
    cases sizes with
    | nil => cases size
    | cons k sizes =>
      rw [List.mem_singleton.mp base, List.mem_singleton.mp size]
      rfl

theorem collapsedSame (listed : .template name role ∈ n.signature.slots) (inside : n.collapse.Allows i)
    (inside' : n.collapse.Allows i') : i' name = i name := by
  obtain ⟨c, found, collapsed⟩ := collapsedShape listed inside
  obtain ⟨c', found', collapsed'⟩ := collapsedShape listed inside'
  cases found.symm.trans found'
  have both := collapsed'.symm.trans collapsed
  simp only [Constraint.mk.injEq, List.cons.injEq, and_true] at both
  calc i' name = ⟨(i' name).base, (i' name).size⟩ := rfl
    _ = i name := by rw [both.1, both.2]

theorem acceptsCollapsed (grounded : n.Grounded) (listed : .template name role ∈ n.signature.slots)
    (inside : n.collapse.Allows i) {t : ValueType} :
    n.Accepts (.template name role) t ↔
      t.toStrictly (role.types ⟨[(i name).base], [(i name).size]⟩) = true := by
  obtain ⟨c, found, collapsed⟩ := collapsedShape listed inside
  obtain ⟨type, resolved, _⟩ := resolveIff (collapseGrounded grounded) listed
  obtain ⟨d, now, rfl, _⟩ := resolveOk.mp resolved
  rw [collapse, Table.getMapValues, found] at now
  cases now
  rw [← collapsed]
  constructor
  · rintro ⟨_, told, converts⟩
    cases resolved.symm.trans told
    exact converts
  · exact fun converts => ⟨_, resolved, converts⟩

/- The first size is the smallest one. -/
theorem collapsedLeast
    (ascending : ∀ name c, n.constraints.get? name = some c → c.sizes.Pairwise (· < ·))
    (listed : .template name role ∈ n.signature.slots) (inside : n.collapse.Allows i)
    (other : n.Allows i') : (i name).size ≤ (i' name).size := by
  obtain ⟨c, found, collapsed⟩ := collapsedShape listed inside
  obtain ⟨d, before, _, size⟩ := other name role listed
  cases found.symm.trans before
  have sorted := ascending name c found
  have first : c.sizes.take 1 = [(i name).size] := congrArg Constraint.sizes collapsed
  cases sizes : c.sizes with
  | nil =>
    rw [sizes] at size
    cases size
  | cons k rest =>
    rw [sizes] at sorted first size
    cases first
    rcases List.mem_cons.mp size with same | later
    · exact Nat.le_of_eq same.symm
    · exact Nat.le_of_lt (List.rel_of_pairwise_cons sorted later)

end Narrowing

namespace NodeKind
open Recipe

variable {s : Signature} {g g' : String → Except Failure (Option Expression)}
  {a b : String → Option Expression} {n : Narrowing}

theorem narrowedAscending (ordered : s.Ordered) (answers : ∀ p ∈ s.parameters, g p.1 = .ok (a p.1))
    (narrowing : (narrowed s).follow g = .ok n) :
    ∀ name c, n.constraints.get? name = some c → c.sizes.Pairwise (· < ·) := by
  rw [narrowedFollow answers] at narrowing
  cases narrowed : (Narrowing.start s).narrowAll (assigned s.parameters a) with
  | error cause =>
    rw [narrowed] at narrowing
    cases narrowing
  | ok m =>
    rw [narrowed] at narrowing
    cases narrowing
    exact @Narrowing.narrowAllEach (fun c => c.sizes.Pairwise (· < ·))
      (fun _ _ sorted => sorted.filter _) _ _ _ ordered.ascending narrowed

section Joined

variable (callable : s.Callable) (ordered : s.Ordered)
  (answers : ∀ p ∈ s.parameters, g p.1 = .ok (a p.1)) (narrowing : (narrowed s).follow g = .ok n)
include callable answers narrowing

section Pinned

include ordered

/- Had no argument excluded the scalars, the template would have been collapsed to one. -/
theorem flattenedRefused {name : String} (listed : .template name .wholeOrComponent ∈ s.slots)
    {i : Instance} (inside : n.collapse.Allows i) (several : (i name).size ≠ 1) :
    ∃ q ∈ s.parameters, ∃ type, typeAt a q.1 = some type ∧ ¬ q.2.Tells (i.flattened name) type := by
  obtain ⟨same, left, allowed⟩ := narrowedHeeds callable answers narrowing
  by_contra none
  simp only [not_exists, not_and, not_not] at none
  have begun := ((allowed i).mp (Narrowing.collapseAllows inside)).1
  have allows : n.Allows (i.flattened name) :=
    (allowed _).mpr ⟨ordered.flattened listed begun, (assignedEach (Slot.Tells _)).mpr none⟩
  have least := Narrowing.collapsedLeast (narrowedAscending ordered answers narrowing) (same ▸ listed)
    inside allows
  have range := left.range (Narrowing.collapseAllows inside) (same ▸ listed)
  rw [Instance.flattened, if_pos rfl] at least
  dsimp only at least
  omega

/- Where a variant is accepted, no choice is left to its template. -/
theorem variantPins
    (accepts : ∀ p ∈ s.parameters, ∀ e, a p.1 = some e → n.Accepts p.2 e.type) {p : String × Slot}
    (member : p ∈ s.parameters) {e : Expression} (given : a p.1 = some e)
    (variant : e.type.isVariant = true) {name : String} {role : Role} (slot : p.2 = .template name role)
    {i j : Instance} (inside : n.collapse.Allows i) (other : n.Allows j) : j name = i name := by
  obtain ⟨same, left, allowed⟩ := narrowedHeeds callable answers narrowing
  have listed : .template name role ∈ s.slots := slot ▸ Signature.parameterSlot member
  have taken := (Narrowing.acceptsCollapsed left (same ▸ listed) inside).mp
    (slot ▸ accepts p member e given)
  obtain ⟨rfl, several, _⟩ := Role.variantTaken variant taken
  obtain ⟨q, memberQ, type, told, refuses⟩ :=
    flattenedRefused callable ordered answers narrowing listed inside several
  have tells : ∀ k, n.Allows k → q.2.Tells k type := fun k allows =>
    (assignedEach (Slot.Tells k)).mp ((allowed k).mp allows).2 q memberQ type told
  have tellsI := tells i (Narrowing.collapseAllows inside)
  have tellsJ := tells j other
  obtain ⟨e', given', rfl⟩ := Option.map_eq_some_iff.mp told
  have accepted := accepts q memberQ e' given'
  have template := callable.templates q memberQ
  have listedQ := Signature.parameterSlot memberQ
  obtain ⟨k, r, slotQ⟩ := callable.template memberQ
  rw [slotQ] at refuses tellsI tellsJ accepted listedQ template
  have named : k = name := by
    by_contra other
    rw [Slot.Tells, Instance.flattened, if_neg other] at refuses
    exact refuses tellsI
  subst named
  rw [Slot.Tells, Instance.flattened, if_pos rfl] at refuses
  cases variant' : e'.type.isVariant with
  | true =>
    have taken := (Narrowing.acceptsCollapsed left (same ▸ listedQ) inside).mp accepted
    obtain ⟨rfl, _, type⟩ := Role.variantTaken variant' taken
    rw [type] at refuses
    exact absurd (Role.variantTells _ _) refuses
  | false =>
    obtain ⟨i', inside', takes⟩ :=
      (Narrowing.acceptsIff left template (same ▸ listedQ) variant').mp accepted
    rw [Slot.Takes, Narrowing.collapsedSame (same ▸ listedQ) inside inside'] at takes
    refine Role.vectorTells several (fun shaped => ?_) takes refuses tellsJ
    exact ordered.shaped k listed (shaped ▸ listedQ)

end Pinned

section Added

variable {x : String} {slot : Slot} (declared : (x, slot) ∈ s.parameters)
  (answers' : ∀ p ∈ s.parameters, g' p.1 = .ok (b p.1)) {e : Expression} (free : a x = none)
  (here : b x = some e) (others : ∀ name, name ≠ x → b name = a name)
include declared answers' free here others

/- One more argument leaves fewer instances. -/
theorem narrowedFewer {m : Narrowing} (more : (narrowed s).follow g' = .ok m) {i : Instance} :
    m.Allows i ↔ n.Allows i ∧ slot.Tells i e.type := by
  obtain ⟨_, _, allowed⟩ := narrowedHeeds callable answers narrowing
  obtain ⟨_, _, allowed'⟩ := narrowedHeeds callable answers' more
  rw [allowed, allowed', Instance.Heeds, Instance.Heeds, assignedEach (Slot.Tells i),
    assignedEach (Slot.Tells i), and_assoc]
  exact and_congr_right fun _ => connectedMore callable.names declared free here others (Slot.Tells i)

/- Narrowing goes on as long as one of the instances that are left takes the type. -/
theorem narrowedAdded {i : Instance} (inside : n.Allows i) (tells : slot.Tells i e.type) :
    ∃ m, (narrowed s).follow g' = .ok m := by
  obtain ⟨_, _, allowed⟩ := narrowedHeeds callable answers narrowing
  obtain ⟨begun, heeds⟩ := (allowed i).mp inside
  refine narrowedHeeded callable answers' begun ((assignedEach (Slot.Tells i)).mpr ?_)
  exact (connectedMore callable.names declared free here others (Slot.Tells i)).mpr
    ⟨(assignedEach (Slot.Tells i)).mp heeds, tells⟩

include ordered

theorem callJoined (plain : e.type.isVariant = false) {type : ValueType}
    (resolved : n.resolve slot = .ok type) (fits : e.type.toStrictly type = true)
    (called : ∃ c, (compileBuiltin s).follow g = .ok c) :
    ∃ c, (compileBuiltin s).follow g' = .ok c := by
  obtain ⟨_, narrowing', accepts⟩ := (compileBuiltinAccepts callable answers).mp called
  cases narrowing.symm.trans narrowing'
  obtain ⟨same, left, _⟩ := narrowedHeeds callable answers narrowing
  have slots : ∀ q ∈ s.parameters, q.2 ∈ n.signature.slots := fun q listed =>
    same ▸ Signature.parameterSlot listed
  have template := callable.templates _ declared
  -- some instance left so far takes the new type
  obtain ⟨_, resolved', _, shapes, types⟩ := Narrowing.resolveShapes left template (slots _ declared)
  cases resolved.symm.trans resolved'
  obtain ⟨i, inside, takes⟩ := (types e.type).mp
    ((ValueType.toStrictlyIff plain fun u among => (shapes u among).2).mp fits)
  have shape := Narrowing.takesShape left inside template (slots _ declared) takes
  have tells := (Narrowing.tellsTakes left inside template (slots _ declared) shape).mpr takes
  obtain ⟨m, narrowingB⟩ :=
    narrowedAdded callable answers narrowing declared answers' free here others inside tells
  obtain ⟨sameB, leftB, allowedB⟩ := narrowedHeeds callable answers' narrowingB
  -- the instance that is left by collapsing now was left before
  obtain ⟨j, collapsed⟩ := (Narrowing.collapseGrounded leftB).allows
  have insideB := Narrowing.collapseAllows collapsed
  have insideJ : n.Allows j := ((narrowedFewer callable answers narrowing declared answers' free here
    others narrowingB).mp insideB).1
  have tellsJ := (assignedEach (Slot.Tells j)).mp ((allowedB j).mp insideB).2
  have taken : ∀ q ∈ s.parameters, ∀ d, b q.1 = some d → d.type.isShape = true →
      m.Accepts q.2 d.type := by
    intro q member d given shape
    have template := callable.templates q member
    refine (Narrowing.acceptsIff leftB template (sameB.trans same.symm ▸ slots q member)
      (ValueType.shapePlain shape)).mpr ⟨j, collapsed, ?_⟩
    exact (Narrowing.tellsTakes left insideJ template (slots q member) shape).mp
      (tellsJ q member d.type (by rw [typeAt, given]; rfl))
  refine (compileBuiltinAccepts callable answers').mpr ⟨m, narrowingB, fun q member d given => ?_⟩
  by_cases new : q.1 = x
  · rw [new, here] at given
    cases given
    exact taken q member e (new ▸ here) shape
  · have before : a q.1 = some d := (others q.1 new) ▸ given
    have accepted := accepts q member d before
    have template := callable.templates q member
    have listed := slots q member
    cases variant : d.type.isVariant with
    | false =>
      obtain ⟨k, collapsedK, takes⟩ := (Narrowing.acceptsIff left template listed variant).mp accepted
      exact taken q member d given
        (Narrowing.takesShape left (Narrowing.collapseAllows collapsedK) template listed takes)
    | true =>
      -- a variant has pinned its template, so that nothing has changed for it
      obtain ⟨k, collapsedK⟩ := (Narrowing.collapseGrounded left).allows
      obtain ⟨name, role, known⟩ := callable.template member
      have pinned := variantPins callable ordered answers narrowing accepts member before variant
        known collapsedK insideJ
      rw [known] at accepted listed ⊢
      rw [Narrowing.acceptsCollapsed left listed collapsedK] at accepted
      rw [Narrowing.acceptsCollapsed leftB (sameB.trans same.symm ▸ listed) collapsed, pinned]
      exact accepted

end Added
end Joined
end NodeKind
end ShaderNet
