import ShaderNet.Document.Basic
import ShaderNet.Proofs.Table

/-! Documents that can be brought about. A number that is none differs from itself, and so does all
that holds one; everything else is the same as itself. -/
namespace ShaderNet

namespace Number.Binary

variable {f : Format}

def isNaN : Binary f → Bool
  | .nan => true
  | _ => false

theorem sameSelf {x : Binary f} (number : x.isNaN = false) : x.same x = true := by
  cases x with
  | nan => cases number
  | infinite s => simp [Binary.same]
  | finite s w => simp [Binary.same]

end Number.Binary

namespace Parameter

def hasNaN : Parameter → Bool
  | number x => x.isNaN
  | color c => c.channels.any (·.isNaN)
  | floatVector xs => xs.any (·.isNaN)
  | _ => false

theorem sameNumbersSelf {xs : List Number.Single} (numbers : xs.any (·.isNaN) = false) :
    sameNumbers xs xs = true := by
  induction xs with
  | nil => rfl
  | cons x xs ih =>
    simp only [List.any_cons, Bool.or_eq_false_iff] at numbers
    rw [sameNumbers, Number.Binary.sameSelf numbers.1, ih numbers.2]
    rfl

theorem sameSelf {p : Parameter} (numbers : p.hasNaN = false) : p.same p = true := by
  cases p with
  | number x => exact Number.Binary.sameSelf numbers
  | boolean b => simp [Parameter.same]
  | text s => simp [Parameter.same]
  | color c => exact sameNumbersSelf numbers
  | floatVector xs => exact sameNumbersSelf numbers
  | path p => simp [Parameter.same, Path.same]

end Parameter

namespace Node

def hasNaN (node : Node) : Bool :=
  node.position.x.isNaN || node.position.y.isNaN || node.parameters.values.any Parameter.hasNaN

theorem sameSelf {node : Node} (numbers : node.hasNaN = false) : node.same node = true := by
  simp only [hasNaN, Bool.or_eq_false_iff] at numbers
  obtain ⟨⟨x, y⟩, parameters⟩ := numbers
  have content : node.parameters.same node.parameters = true := by
    refine Table.agreesIff.mpr fun name => ?_
    cases found : node.parameters.get? name with
    | none => exact .none
    | some p =>
      refine .some (Parameter.sameSelf ?_)
      exact Bool.not_eq_true _ ▸
        List.any_eq_false.mp parameters p (Table.memValues.mpr ⟨name, found⟩)
  simp [Node.same, Node.sameContent, Point.same, Number.Binary.sameSelf x,
    Number.Binary.sameSelf y, content]

end Node

namespace Uniform

def hasNaN (u : Uniform) : Bool := u.default.any Parameter.hasNaN

theorem sameSelf {u : Uniform} (numbers : u.hasNaN = false) : u.same u = true := by
  have default : Parameter.sameOption u.default u.default = true := by
    unfold hasNaN at numbers
    cases given : u.default with
    | none => rfl
    | some p =>
      rw [given] at numbers
      exact Parameter.sameSelf numbers
  simp [Uniform.same, default]

end Uniform

namespace Document

structure WellFormed (d : Document) : Prop where
  nodeIds : (d.nodes.map Node.id).Nodup
  ends : ∀ c ∈ d.connections,
    c.source.node ∈ d.nodes.map Node.id ∧ c.target.node ∈ d.nodes.map Node.id
  fanIn : (d.connections.map Connection.target).Nodup
  uniformKeys : ∀ p ∈ d.uniforms.entries, p.2.id = p.1
  nodeNumbers : ∀ node ∈ d.nodes, node.hasNaN = false
  uniformNumbers : ∀ u ∈ d.uniforms.values, u.hasNaN = false

structure Orderly (d : Document) : Prop where
  nodeIds : (d.nodes.map Node.id).Nodup
  ends : ∀ c ∈ d.connections,
    c.source.node ∈ d.nodes.map Node.id ∧ c.target.node ∈ d.nodes.map Node.id
  fanIn : (d.connections.map Connection.target).Nodup
  nodeNumbers : ∀ node ∈ d.nodes, node.hasNaN = false
  uniformNumbers : ∀ u ∈ d.uniforms.values, u.hasNaN = false

theorem WellFormed.orderly {d : Document} (formed : d.WellFormed) : d.Orderly :=
  ⟨formed.nodeIds, formed.ends, formed.fanIn, formed.nodeNumbers, formed.uniformNumbers⟩

theorem WellFormed.uniformIds {d : Document} (formed : d.WellFormed) :
    d.uniforms.values.map Uniform.id = d.uniforms.keys := by
  rw [Table.values, List.map_map, Table.keys]
  exact List.map_congr_left formed.uniformKeys

theorem WellFormed.findUniform {d : Document} (formed : d.WellFormed) (k : String) :
    (d.uniforms.values.find? fun u => u.id = k) = d.uniforms.get? k := by
  have general : ∀ l : List (String × Uniform), (∀ p ∈ l, p.2.id = p.1) →
      ((l.map Prod.snd).find? fun u => u.id = k) = Table.find k l := by
    intro l keyed
    induction l with
    | nil => rfl
    | cons p rest ih =>
      have first := keyed p List.mem_cons_self
      rw [List.map_cons, List.find?_cons, Table.find, first,
        ih fun q member => keyed q (List.mem_cons_of_mem _ member)]
      by_cases same : p.1 = k <;> simp [same]
  exact general d.uniforms.entries formed.uniformKeys

end Document
end ShaderNet
