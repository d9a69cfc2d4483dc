import ShaderNet.Proofs.Net.Edits
import ShaderNet.Proofs.Net.Plan

/-! Nets that need no plan. A plan without steps says that net and document hold the same, up to all that
it does not look at: the order of nodes, types noted on connections, the version and repeated includes. -/
namespace ShaderNet

/-- Nodes and uniforms are compared as values, connections by their names, includes by their paths. -/
structure Net.Matches (n : Net) (d : Document) : Prop where
  nodeIds : ∀ id, n.contains id = true ↔ id ∈ d.nodes.map Node.id
  nodes : ∀ node ∈ d.nodes, ∃ held, n.nodes.get? node.id = some held ∧ held.same node = true
  connections : ∀ id, id ∈ n.connectionList.map Connection.id ↔ id ∈ d.connections.map Connection.id
  uniforms : Table.agrees Uniform.same n.uniforms d.uniforms = true
  includes : ∀ path, path ∈ n.includes.map Include.path ↔ path ∈ d.includes

namespace Plan
open Net

variable {n : Net} {d : Document}

theorem nodesMatch (sound : Sound n) :
    ((n.reconcile d).removedNodes = [] ∧ (n.reconcile d).addedNodes = [] ∧
      (n.reconcile d).modifiedNodes = []) ↔
    (∀ id, n.contains id = true ↔ id ∈ d.nodes.map Node.id) ∧
      ∀ node ∈ d.nodes, ∃ held, n.nodes.get? node.id = some held ∧ held.same node = true := by
  simp only [List.eq_nil_iff_forall_not_mem]
  constructor
  · rintro ⟨removed, added, modified⟩
    have there : ∀ node ∈ d.nodes, ∃ held, n.nodes.get? node.id = some held ∧
        held.same node = true := by
      intro node member
      cases found : n.nodes.get? node.id with
      | none => exact absurd (memAdded.mpr ⟨member, found⟩) (added node)
      | some held =>
        cases same : held.same node with
        | false => exact absurd (memModified.mpr ⟨member, held, found, same⟩) (modified node)
        | true => exact ⟨held, rfl, same⟩
    refine ⟨fun id => ⟨fun present => ?_, fun listed => ?_⟩, there⟩
    · exact Classical.byContradiction fun gone =>
        removed id ((memRemovedNodes sound).mpr ⟨present, gone⟩)
    · obtain ⟨node, member, same⟩ := List.mem_map.mp listed
      obtain ⟨held, found, _⟩ := there node member
      exact Table.containsIff.mpr ⟨held, same ▸ found⟩
  · rintro ⟨ids, nodes⟩
    refine ⟨fun id gone => ?_, fun node new => ?_, fun node changed => ?_⟩
    · obtain ⟨present, unlisted⟩ := (memRemovedNodes sound).mp gone
      exact unlisted ((ids id).mp present)
    · obtain ⟨member, absent⟩ := memAdded.mp new
      obtain ⟨held, found, _⟩ := nodes node member
      cases absent.symm.trans found
    · obtain ⟨member, old, found, other⟩ := memModified.mp changed
      obtain ⟨held, found', same⟩ := nodes node member
      cases found.symm.trans found'
      cases other.symm.trans same

theorem connectionsMatch (sound : Sound n) :
    ((n.reconcile d).removedConnections = [] ∧ (n.reconcile d).addedConnections = []) ↔
    ∀ id, id ∈ n.connectionList.map Connection.id ↔ id ∈ d.connections.map Connection.id := by
  have present : ∀ {id}, id ∈ n.connectionList.map Connection.id ↔ n.connections.contains id = true := by
    intro id
    rw [connectionIds sound.toIndexed, Table.memKeysContains]
  simp only [List.eq_nil_iff_forall_not_mem]
  constructor
  · rintro ⟨removed, added⟩ id
    constructor
    · intro listed
      obtain ⟨c, member, same⟩ := List.mem_map.mp listed
      rw [← same]
      exact Classical.byContradiction fun gone => removed c.id ((memRemovedConnections member).mpr gone)
    · intro listed
      obtain ⟨c, member, same⟩ := List.mem_map.mp listed
      rw [← same, present, ← Bool.not_eq_false, Table.containsFalse]
      exact fun absent => added _ (memIncoming.mpr ⟨c, member, absent, rfl⟩)
  · intro same
    constructor
    · intro id gone
      obtain ⟨c, member, named⟩ := List.mem_map.mp (List.mem_filter.mp gone).1
      rw [← named] at gone
      exact (memRemovedConnections member).mp gone
        ((same c.id).mp (List.mem_map.mpr ⟨c, member, rfl⟩))
    · intro c new
      obtain ⟨c', member, absent, _⟩ := memIncoming.mp new
      have known := present.mp ((same c'.id).mpr (List.mem_map.mpr ⟨c', member, rfl⟩))
      rw [Table.containsFalse.mpr absent] at known
      cases known

theorem uniformsMatch (keyed : ∀ p ∈ d.uniforms.entries, p.2.id = p.1) :
    ((n.reconcile d).removedUniforms = [] ∧ (n.reconcile d).updatedUniforms = []) ↔
    Table.agrees Uniform.same n.uniforms d.uniforms = true := by
  have key : ∀ {id u}, d.uniforms.get? id = some u → u.id = id :=
    fun found => keyed _ (Table.getMember found)
  rw [removedUniformsNil, updatedUniformsNil, Table.agreesIff]
  constructor
  · rintro ⟨within, held⟩ id
    cases found : d.uniforms.get? id with
    | none =>
      cases old : n.uniforms.get? id with
      | none => exact .none
      | some v =>
        have present := within id (Table.containsIff.mpr ⟨v, old⟩)
        rw [Table.containsFalse.mpr found] at present
        cases present
    | some u =>
      obtain ⟨v, old, same⟩ := (Option.any_eq_true _ _).mp (held u (Table.memValues.mpr ⟨id, found⟩))
      rw [key found] at old
      rw [old]
      exact .some same
  · intro related
    constructor
    · intro id present
      rw [Table.contains, ← Table.relatedSome (related id)]
      exact present
    · intro u member
      obtain ⟨id, found⟩ := Table.memValues.mp member
      have pair := related id
      rw [found] at pair
      rw [key found]
      generalize n.uniforms.get? id = old at pair ⊢
      cases pair with
      | some same => exact same

theorem includesMatch :
    ((n.reconcile d).removedIncludes = [] ∧ (n.reconcile d).addedIncludes = []) ↔
    ∀ path, path ∈ n.includes.map Include.path ↔ path ∈ d.includes := by
  simp only [reconcile, List.filter_eq_nil_iff, decide_eq_true_eq, not_not, Bool.not_eq_true',
    Bool.not_eq_false, includesIff]
  constructor
  · exact fun both path => ⟨both.1 path, both.2 path⟩
  · exact fun same => ⟨fun path => (same path).mp, fun path => (same path).mpr⟩

theorem emptyMatches (sound : Sound n) (keyed : ∀ p ∈ d.uniforms.entries, p.2.id = p.1) :
    (n.reconcile d).isEmpty = true ↔ n.Matches d := by
  have nodes := nodesMatch (d := d) sound
  have connections := connectionsMatch (d := d) sound
  have uniforms := uniformsMatch (n := n) keyed
  have includes := includesMatch (n := n) (d := d)
  simp only [isEmpty, Bool.and_eq_true, List.isEmpty_iff]
  constructor
  · rintro ⟨⟨⟨⟨⟨⟨⟨⟨links, gone⟩, fewer⟩, less⟩, more⟩, set⟩, added⟩, linked⟩, patched⟩
    obtain ⟨ids, same⟩ := nodes.mp ⟨gone, added, patched⟩
    exact ⟨ids, same, connections.mp ⟨links, linked⟩, uniforms.mp ⟨fewer, set⟩,
      includes.mp ⟨less, more⟩⟩
  · intro same
    obtain ⟨gone, added, patched⟩ := nodes.mpr ⟨same.nodeIds, same.nodes⟩
    obtain ⟨links, linked⟩ := connections.mpr same.connections
    obtain ⟨fewer, set⟩ := uniforms.mpr same.uniforms
    obtain ⟨less, more⟩ := includes.mpr same.includes
    exact ⟨⟨⟨⟨⟨⟨⟨⟨links, gone⟩, fewer⟩, less⟩, more⟩, set⟩, added⟩, linked⟩, patched⟩

end Plan

namespace Net

variable {n : Net}

/- Everything is the same as itself, unless it holds a number that is none. -/
theorem documentMatches (sound : Sound n) (nodes : ∀ node ∈ n.nodeList, node.hasNaN = false)
    (uniforms : ∀ u ∈ n.uniforms.values, u.hasNaN = false) : n.Matches n.document := by
  refine ⟨fun id => ?_, fun node listed => ?_, fun _ => Iff.rfl, Table.agreesIff.mpr fun id => ?_,
    fun _ => Iff.rfl⟩
  · rw [document, nodeListIds sound, sound.orderNodes]
  · exact ⟨node, (memNodeList sound).mp listed, Node.sameSelf (nodes node listed)⟩
  · cases found : n.uniforms.get? id with
    | none =>
      rw [document, found]
      exact .none
    | some u =>
      rw [document, found]
      exact .some (Uniform.sameSelf (uniforms u (Table.memValues.mpr ⟨id, found⟩)))

theorem planEmptyIff (edits : List Edit) (d : Document)
    (keyed : ∀ p ∈ d.uniforms.entries, p.2.id = p.1) :
    let n := empty.run edits
    ((n.reconcile d).isEmpty = true ↔ n.Matches d) ∧
    ((∀ node ∈ n.nodeList, node.hasNaN = false) → (∀ u ∈ n.uniforms.values, u.hasNaN = false) →
      (n.reconcile n.document).isEmpty = true) := by
  intro n
  have sound : Sound n := runSound emptySound edits
  refine ⟨Plan.emptyMatches sound keyed, fun nodes uniforms => ?_⟩
  have own : ∀ p ∈ n.document.uniforms.entries, p.2.id = p.1 :=
    fun p member => sound.uniformKeys p.1 p.2 (Table.getIff.mpr member)
  exact (Plan.emptyMatches sound own).mpr (documentMatches sound nodes uniforms)

def tinted : List Edit := [
  .insertNode (.named "a" "float"), .insertNode (.named "b" "sin"),
  .insertConnection (.between ⟨"a", "out"⟩ ⟨"b", "x"⟩),
  .setUniform ⟨"tint", .vec 3, some (.number .zero)⟩, .addInclude "lib" none]

/-- The same net with its nodes turned round, a negative zero, a type on the connection, an include
twice and another version. -/
def tintedAgain : Document where
  version := 7
  includes := ["lib", "lib"]
  nodes := [.named "b" "sin", { Node.named "a" "float" with position := ⟨.ofWord true 0, .zero⟩ }]
  connections := [⟨⟨"a", "out"⟩, ⟨"b", "x"⟩, some .float⟩]
  uniforms := Table.ofList [("tint", ⟨"tint", .vec 3, some (.number (.ofWord true 0))⟩)]

theorem planEmptyTinted :
    (∀ p ∈ tintedAgain.uniforms.entries, p.2.id = p.1) ∧
    let n := empty.run tinted
    (n.reconcile tintedAgain).isEmpty = true ∧ n.Matches tintedAgain ∧ tintedAgain ≠ n.document ∧
      (n.reconcile n.document).isEmpty = true := by
  have facts : (∀ p ∈ tintedAgain.uniforms.entries, p.2.id = p.1) ∧
      ((empty.run tinted).reconcile tintedAgain).isEmpty = true ∧
      tintedAgain ≠ (empty.run tinted).document ∧
      (∀ node ∈ (empty.run tinted).nodeList, node.hasNaN = false) ∧
      ∀ u ∈ (empty.run tinted).uniforms.values, u.hasNaN = false := by
    decide +kernel
  obtain ⟨keyed, none, other, nodes, uniforms⟩ := facts
  obtain ⟨same, own⟩ := planEmptyIff tinted tintedAgain keyed
  exact ⟨keyed, none, same.mp none, other, own nodes uniforms⟩

end Net
end ShaderNet
