import ShaderNet.Proofs.Net.Order
import ShaderNet.Proofs.Workspace.Declared

/-! The names that a shader declares. They come from four sources, and each source starts its names with
a letter of its own, except that some values of the surroundings are uniforms as well. -/
namespace ShaderNet

structure Declaration where
  before : String
  name : String
  after : String
  deriving DecidableEq

namespace Declaration

def line (d : Declaration) : String := d.before ++ d.name ++ d.after

def uniform (type : ValueType) (name : String) : Declaration :=
  ⟨"uniform " ++ type.name ++ " ", name, ";"⟩

def ofBinding (b : Binding) : Declaration :=
  ⟨"    " ++ b.type.name ++ " ", b.name, " = " ++ b.text ++ ";"⟩

theorem ofBindingLine (b : Binding) : (ofBinding b).line = Workspace.bindingLine b := by
  simp only [line, ofBinding, Workspace.bindingLine, String.append_assoc]

end Declaration

/- A value of the surroundings is declared as the uniform of its name would be. -/
theorem Ambient.identifierUniform {value : Ambient} (declared : value.isUniform = true) :
    value.identifier = Identifier.uniform value.name := by
  cases value <;> first | decide | cases declared

theorem Ambient.nameInjective {a b : Ambient} (same : a.name = b.name) : a = b := by
  cases a <;> cases b <;> first | rfl | exact absurd same (by decide)

namespace Workspace
open Scene (Owned)

def ambientIn (w : Workspace) (order : List String) : List Ambient :=
  Ambient.all.filter fun value =>
    value.isUniform && value.name ∈ (order.filterMap w.net.node?).map Node.type

def globals (w : Workspace) (order : List String) : List Declaration :=
  (w.ambientIn order).map (fun value => .uniform value.type value.identifier) ++
  w.net.uniforms.values.map (fun u => .uniform u.type (Identifier.uniform u.id)) ++
  [⟨"in vec2 ", "v_uv", ";"⟩, ⟨"out vec4 ", w.options.output, ";"⟩]

def declarations (w : Workspace) (id : String) : List Declaration :=
  w.globals (w.net.upstreamOrder id) ++ (w.declaredAfter w id).map .ofBinding

def standardLines (globals locals : List Declaration) (color : String) : List String :=
  ["#version 300 es", "precision highp float;", ""] ++ globals.map Declaration.line ++
  ["", "void main() \x7b"] ++ locals.map Declaration.line ++
  ["    fragColor = " ++ color ++ ";", "\x7d"]

variable {w : Workspace}

theorem standardText (standard : w.options = .standard) (plain : w.net.includes = [])
    (id color : String) (bindings : List Binding) :
    w.shaderText id color bindings =
      textOf (standardLines (w.globals (w.net.upstreamOrder id)) (bindings.map .ofBinding) color) := by
  have lines : bindings.map bindingLine = (bindings.map Declaration.ofBinding).map Declaration.line := by
    rw [List.map_map]
    exact List.map_congr_left fun b _ => (Declaration.ofBindingLine b).symm
  rw [shaderText, lines]
  simp [preamble, closing, standard, plain, standardLines, globals, ambientIn, Declaration.line,
    Declaration.uniform, uniformLine, Options.standard, Function.comp_def]

/-! Names -/

theorem ambientUniform {order : List String} {value : Ambient} (member : value ∈ w.ambientIn order) :
    value.isUniform = true := by
  have chosen := (List.mem_filter.mp member).2
  rw [Bool.and_eq_true] at chosen
  exact chosen.1

/- All uniforms are named alike, those of the surroundings and those of the net. -/
theorem uniformNames (sound : w.net.Sound) (standard : w.options = .standard) (id : String) :
    (w.declarations id).map Declaration.name =
      ((w.ambientIn (w.net.upstreamOrder id)).map Ambient.name ++ w.net.uniforms.keys).map Identifier.uniform ++
        "v_uv" :: "fragColor" :: (w.declaredAfter w id).map Binding.name := by
  have ambient : (w.ambientIn (w.net.upstreamOrder id)).map Ambient.identifier =
      (w.ambientIn (w.net.upstreamOrder id)).map fun value => Identifier.uniform value.name :=
    List.map_congr_left fun _ member => Ambient.identifierUniform (ambientUniform member)
  have own : w.net.uniforms.values.map (fun u => Identifier.uniform u.id) =
      w.net.uniforms.keys.map Identifier.uniform := by
    rw [Table.values, Table.keys, List.map_map, List.map_map]
    refine List.map_congr_left fun e member => congrArg Identifier.uniform ?_
    exact sound.uniformKeys e.1 e.2 (Table.getIff.mpr member)
  simpa [declarations, globals, Declaration.uniform, Declaration.ofBinding, Function.comp_def, standard,
    Options.standard, ambient] using own

theorem uniformsNodup (w : Workspace) (order : List String) :
    ((w.ambientIn order).map Ambient.name ++ w.net.uniforms.keys).Nodup ↔
      ∀ value ∈ w.ambientIn order, w.net.uniforms.contains value.name = false := by
  have ambient : ((w.ambientIn order).map Ambient.name).Nodup :=
    List.Nodup.map (fun _ _ => Ambient.nameInjective) (List.Nodup.filter _ (by decide))
  rw [List.nodup_append]
  constructor
  · rintro ⟨_, _, apart⟩ value member
    rw [Bool.eq_false_iff, ne_eq, ← Table.memKeysContains]
    exact fun key => apart _ (List.mem_map_of_mem member) _ key rfl
  · intro free
    refine ⟨ambient, Table.keysNodup _, fun name here other key same => ?_⟩
    obtain ⟨value, member, rfl⟩ := List.mem_map.mp here
    have absent := free value member
    rw [same, Table.memKeysContains.mp key] at absent
    cases absent

/- Variables of nodes start with another letter than all that is declared before them. -/
theorem othersNodup (indexed : w.net.Indexed) {id : String}
    (owned : Owned (w.scene.compile id w.cache).2.results) :
    ("v_uv" :: "fragColor" :: (w.declaredAfter w id).map Binding.name).Nodup ∧
      ∀ name ∈ "v_uv" :: "fragColor" :: (w.declaredAfter w id).map Binding.name,
        name.toList.head? ≠ some 'u' := by
  have letters : ∀ name ∈ (w.declaredAfter w id).map Binding.name, name.toList.head? = some 'n' := by
    intro name member
    obtain ⟨k, _, declares⟩ := declaredNames.mp member
    rw [declaresVector owned declares, Identifier.bindingLetter]
  have locals := ownedNodup owned (Net.upstreamOrderNodup indexed id)
  refine ⟨List.nodup_cons.mpr ⟨fun member => ?_, List.nodup_cons.mpr ⟨fun member => ?_, locals⟩⟩,
    fun name member => ?_⟩
  · rcases List.mem_cons.mp member with same | member
    · exact absurd same (by decide)
    · exact absurd (letters _ member) (by decide)
  · exact absurd (letters _ member) (by decide)
  · simp only [List.mem_cons] at member
    rcases member with rfl | rfl | member
    · decide
    · decide
    · rw [letters name member]
      decide

theorem namesNodup (sound : w.net.Sound) (standard : w.options = .standard) {id : String}
    (owned : Owned (w.scene.compile id w.cache).2.results) :
    ((w.declarations id).map Declaration.name).Nodup ↔
      ∀ value ∈ w.ambientIn (w.net.upstreamOrder id), w.net.uniforms.contains value.name = false := by
  obtain ⟨others, letters⟩ := othersNodup sound.toIndexed owned
  rw [uniformNames sound standard, ← uniformsNodup]
  constructor
  · intro nodup
    exact List.Nodup.of_map _ (List.nodup_append.mp nodup).1
  · intro nodup
    refine List.nodup_append.mpr ⟨List.Nodup.map (fun _ _ => Identifier.uniformInjective) nodup, others,
      fun name here other there same => letters other there ?_⟩
    obtain ⟨_, _, rfl⟩ := List.mem_map.mp here
    rw [← same, Identifier.uniformLetter]

end Workspace
end ShaderNet
