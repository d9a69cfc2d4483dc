import ShaderNet.Proofs.Evaluate.Owned
import ShaderNet.Proofs.Workspace.Shader

/-! The declarations of a shader. Each variable is declared once, all that is mentioned is declared,
and what a node declares comes after all that it is computed from, unless it is computed from itself. -/
namespace ShaderNet.Workspace
open Fragment (Mentions Clear)
open Relation
open Scene (SelfContained Upstream Declares Owned containedOwned)

/-- Variables of nodes, each declared after what it is made from unless a cycle leads through its
node. -/
structure Ordered (n : Net) (declared : List Binding) : Prop where
  names : ∀ b ∈ declared, ∃ node, b.name = Identifier.binding node "vector"
  feeding : ∀ front b back, declared = front ++ b :: back → ∀ u s v t,
    Identifier.binding u s ∈ declared.map Binding.name → b.name = Identifier.binding v t →
    TransGen n.Feeds u v → ¬ TransGen n.Feeds v v →
    Identifier.binding u s ∈ front.map Binding.name
  mentions : ∀ front b back, declared = front ++ b :: back → ∀ u s,
    Mentions b.text (Identifier.binding u s) →
    Identifier.binding u s ∈ declared.map Binding.name ∧ ∀ v t, b.name = Identifier.binding v t →
      ¬ TransGen n.Feeds v v → Identifier.binding u s ∈ front.map Binding.name

variable {n : Net} {results : Table String Compiled} {order : List String}

theorem declaresIff {k name : String} :
    Declares results k name ↔ name ∈ (declaredBy results k).map Binding.name := by
  unfold Declares declaredBy
  cases results.get? k <;> simp

theorem declaredNames {name : String} :
    name ∈ (declaredIn results order).map Binding.name ↔ ∃ k ∈ order, Declares results k name := by
  simp only [declaredEach, declaresIff, List.map_flatMap, List.mem_flatMap]

theorem declaredCons (results : Table String Compiled) (k : String) (rest : List String) :
    declaredIn results (k :: rest) = declaredBy results k ++ declaredIn results rest := by
  simp only [declaredEach, List.flatMap_cons]

/- Whatever is kept upstream of a listed node is listed too. -/
theorem upstreamDeclared (indexed : n.Indexed) {id k name : String} (member : k ∈ n.upstreamOrder id)
    (known : Upstream n results k name) :
    name ∈ (declaredIn results (n.upstreamOrder id)).map Binding.name := by
  obtain ⟨u, path, declares⟩ := known
  refine declaredNames.mpr ⟨u, (Net.memUpstreamOrder indexed).mpr ?_, declares⟩
  exact path.to_reflTransGen.trans ((Net.memUpstreamOrder indexed).mp member)

section Owned

variable (owned : Owned results)
include owned

theorem ownedCases (k : String) : declaredBy results k = [] ∨ ∃ type text,
    declaredBy results k = [⟨Identifier.binding k "vector", type, text⟩] := by
  unfold declaredBy
  cases found : results.get? k with
  | none => exact .inl rfl
  | some c => exact owned k c found

theorem declaresVector {k name : String} (declares : Declares results k name) :
    name = Identifier.binding k "vector" := by
  rw [declaresIff] at declares
  rcases ownedCases owned k with none | ⟨type, text, one⟩
  · rw [none] at declares
    cases declares
  · rw [one] at declares
    exact List.mem_singleton.mp declares

theorem ownedNodup (nodup : order.Nodup) : ((declaredIn results order).map Binding.name).Nodup := by
  induction order with
  | nil => exact List.nodup_nil
  | cons k rest ih =>
    obtain ⟨fresh, nodup⟩ := List.nodup_cons.mp nodup
    rw [declaredCons, List.map_append]
    refine List.nodup_append.mpr ⟨?_, ih nodup, fun name here other later same => fresh ?_⟩
    · rcases ownedCases owned k with none | ⟨type, text, one⟩
      · simp [none]
      · simp [one]
    · -- a variable tells the node that it is declared for
      obtain ⟨k', member, declares⟩ := declaredNames.mp later
      have left := declaresVector owned (declaresIff.mpr here)
      have right := declaresVector owned declares
      have nodes := (Identifier.bindingInjective (left.symm.trans (same.trans right))).1
      exact nodes ▸ member

end Owned

section SelfContained

variable (contained : SelfContained n results)
include contained

theorem declaredByCases (k : String) : declaredBy results k = [] ∨ ∃ type text,
    Clear (Upstream n results k) text ∧
      declaredBy results k = [⟨Identifier.binding k "vector", type, text⟩] := by
  unfold declaredBy
  cases found : results.get? k with
  | none => exact .inl rfl
  | some c => exact (contained k c found).bindings

theorem declaredNodup (nodup : order.Nodup) : ((declaredIn results order).map Binding.name).Nodup :=
  ownedNodup (containedOwned contained) nodup

/- Where a declaration stands is where its node stands. -/
theorem declaredSplit {front back : List Binding} {b : Binding}
    (split : declaredIn results order = front ++ b :: back) :
    ∃ before k after, order = before ++ k :: after ∧ front = declaredIn results before ∧
      b.name = Identifier.binding k "vector" ∧ Clear (Upstream n results k) b.text := by
  induction order generalizing front with
  | nil => simp [declaredIn] at split
  | cons k rest ih =>
    rw [declaredCons] at split
    rcases declaredByCases contained k with none | ⟨type, text, clear, one⟩
    · rw [none, List.nil_append] at split
      obtain ⟨before, k', after, rfl, rfl, found⟩ := ih split
      exact ⟨k :: before, k', after, rfl, by rw [declaredCons, none, List.nil_append], found⟩
    · rw [one, List.singleton_append] at split
      cases front with
      | nil =>
        cases (List.cons.inj split).1
        exact ⟨[], k, rest, rfl, rfl, rfl, clear⟩
      | cons d front =>
        obtain ⟨rfl, later⟩ := List.cons.inj split
        obtain ⟨before, k', after, rfl, rfl, found⟩ := ih later
        exact ⟨k :: before, k', after, rfl, by rw [declaredCons, one, List.singleton_append], found⟩

variable (indexed : n.Indexed) (id : String)
include indexed

theorem upstreamOrdered : Ordered n (declaredIn results (n.upstreamOrder id)) := by
  refine ⟨fun b member => ?_, fun front b back split u s v t declared own path free => ?_,
    fun front b back split u s mentions => ?_⟩
  · obtain ⟨k, _, declares⟩ := declaredNames.mp (List.mem_map_of_mem member)
    exact ⟨k, declaresVector (containedOwned contained) declares⟩
  · obtain ⟨before, k, after, order, rfl, name, _⟩ := declaredSplit contained split
    obtain ⟨rfl, _⟩ := Identifier.bindingInjective (own.symm.trans name)
    obtain ⟨u', _, declares⟩ := declaredNames.mp declared
    obtain ⟨rfl, _⟩ := Identifier.bindingInjective (declaresVector (containedOwned contained) declares)
    exact declaredNames.mpr ⟨u, Net.upstreamOrderBefore indexed order path free, declares⟩
  · obtain ⟨before, k, after, order, rfl, name, clear⟩ := declaredSplit contained split
    have known := clear u s mentions
    refine ⟨upstreamDeclared indexed (by simp [order]) known, fun v t own free => ?_⟩
    obtain ⟨rfl, _⟩ := Identifier.bindingInjective (own.symm.trans name)
    obtain ⟨u', path, declares⟩ := known
    exact declaredNames.mpr ⟨u', Net.upstreamOrderBefore indexed order path free, declares⟩

theorem colorDeclared {result : Compiled} (kept : results.get? id = some result) {color : Expression}
    (shown : firstColor id result = .ok color) {u s : String}
    (mentions : Mentions color.text (Identifier.binding u s)) :
    Identifier.binding u s ∈ (declaredIn results (n.upstreamOrder id)).map Binding.name := by
  have top : id ∈ n.upstreamOrder id := (Net.memUpstreamOrder indexed).mpr .refl
  unfold firstColor at shown
  split at shown
  · cases shown
  · rename_i e first
    obtain ⟨socket, found⟩ := Table.memValues.mp (List.mem_of_head? first)
    cases displayed : e.displayed with
    | error cause =>
      rw [displayed] at shown
      cases shown
    | ok d =>
      rw [displayed] at shown
      cases shown
      have clear := Expression.displayedClear displayed ((contained id result kept).outputs socket e found)
      rcases clear u s mentions with known | own
      · exact upstreamDeclared indexed top known
      · exact declaredNames.mpr ⟨id, top, result, kept, own⟩

end SelfContained
end ShaderNet.Workspace
