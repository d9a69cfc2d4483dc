import ShaderNet.Connection
import ShaderNet.Node
import ShaderNet.Uniform

/-! Records of what edits did to a net. Records of successive edits merge: lists one after the
other, sets united, later uniforms over earlier ones. -/
namespace ShaderNet

@[ext] structure Changes where
  addedNodes : List Node
  removedNodes : List String
  modifiedNodes : List String
  addedConnections : List Connection
  removedConnections : List Connection
  invalidated : KeySet String
  updatedUniforms : Table String Uniform
  removedUniforms : List String
  addedIncludes : List String
  removedIncludes : List String
  warnings : List String

namespace Changes

def empty : Changes := ⟨[], [], [], [], [], ∅, ∅, [], [], [], []⟩

def isEmpty (c : Changes) : Bool :=
  c.addedNodes.isEmpty && c.removedNodes.isEmpty && c.modifiedNodes.isEmpty &&
  c.addedConnections.isEmpty && c.removedConnections.isEmpty && c.invalidated.isEmpty &&
  c.updatedUniforms.isEmpty && c.removedUniforms.isEmpty && c.addedIncludes.isEmpty &&
  c.removedIncludes.isEmpty && c.warnings.isEmpty

def merge (c d : Changes) : Changes where
  addedNodes := c.addedNodes ++ d.addedNodes
  removedNodes := c.removedNodes ++ d.removedNodes
  modifiedNodes := c.modifiedNodes ++ d.modifiedNodes
  addedConnections := c.addedConnections ++ d.addedConnections
  removedConnections := c.removedConnections ++ d.removedConnections
  invalidated := c.invalidated.addAll d.invalidated.keys
  updatedUniforms := c.updatedUniforms.overlay d.updatedUniforms.entries
  removedUniforms := c.removedUniforms ++ d.removedUniforms
  addedIncludes := c.addedIncludes ++ d.addedIncludes
  removedIncludes := c.removedIncludes ++ d.removedIncludes
  warnings := c.warnings ++ d.warnings

instance : Append Changes := ⟨merge⟩
instance : Inhabited Changes := ⟨empty⟩

def sum (cs : List Changes) : Changes := cs.foldl merge empty

def warning (message : String) : Changes := { empty with warnings := [message] }

end Changes
end ShaderNet
