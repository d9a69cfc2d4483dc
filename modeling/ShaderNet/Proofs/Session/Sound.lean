import ShaderNet.Proofs.Net.UpstreamKept
import ShaderNet.Proofs.Session.Steps

/-! The net of a session is sound, whatever has been requested of it, and holds no connection that
nobody made. -/
namespace ShaderNet

namespace Net

theorem connectSound {n : Net} (sound : Sound n) (c : Connection) : Sound (n.connect c).2 := by
  rcases connectCases n c with
    ⟨e, refused⟩ | ⟨after, added, ok, accepted⟩ | ⟨old, _, _, _, replaced⟩
  · rw [refused]
    exact sound
  · rw [accepted]
    exact insertConnectionSound sound ok
  · have cleared := removeConnectionSound sound old.id
    rcases replaced with ⟨after, added, ok, accepted⟩ | ⟨e, _, refused⟩
    · rw [accepted]
      exact insertConnectionSound cleared ok
    · rw [refused]
      exact cleared

theorem memRemoved {n : Net} (sound : n.Sound) (id : String) {c : Connection}
    (member : c ∈ (n.removeConnection id).1.connectionList) : c ∈ n.connectionList := by
  cases found : n.connections.get? id with
  | none =>
    rw [removeConnectionAbsent found] at member
    exact member
  | some d =>
    rw [removeConnectionFound sound.toIndexed found] at member
    exact ((memUnlinked sound.toIndexed (Table.memValues.mpr ⟨id, found⟩)).mp member).1

theorem memInserted {n after : Net} {c d : Connection} {changes : Changes}
    (ok : n.insertConnection d = .ok (after, changes)) (member : c ∈ after.connectionList) :
    c ∈ n.connectionList ∨ c = d := by
  obtain ⟨⟨_, _, absent, _⟩, same⟩ := insertConnectionIff.mp ok
  cases same
  exact (List.mem_cons.mp ((linkedPerm absent).mem_iff.mp member)).symm

end Net

namespace Workspace

variable {links : Connection → Prop} {w after : Workspace} {changes : Changes}

theorem partSound (part : Part links w after changes) (sound : w.net.Sound) : after.net.Sound := by
  cases part with
  | insertNode ok => exact Net.insertNodeSound sound ok
  | removeNode ok => exact Net.removeNodeSound sound ok
  | setParameter ok => exact Net.setParameterSound sound ok
  | moveNode ok => exact Net.moveNodeSound sound ok
  | patchNode ok => exact Net.patchNodeSound sound ok
  | insertConnection link ok => exact Net.insertConnectionSound sound ok
  | removeConnection id => exact Net.removeConnectionSound sound id
  | @refusedConnection c e net link refused message =>
    have connected := Net.connectSound sound c
    rw [refused] at connected
    exact connected
  | setUniform u => exact Net.setUniformSound sound u
  | removeUniform id => exact Net.removeUniformSound sound id
  | addInclude path => exact Net.addIncludeSound sound path (w.sources path)
  | removeInclude path => exact Net.removeIncludeSound sound path
  | collectExports => exact sound

theorem partsSound (parts : Parts links w after changes) (sound : w.net.Sound) :
    after.net.Sound := by
  induction parts with
  | nothing => exact sound
  | one part => exact partSound part sound
  | append _ _ first second => exact second (first sound)

theorem partEntries (part : Part links w after changes) (sound : w.net.Sound) {c : Connection}
    (member : c ∈ after.net.connectionList) : c ∈ w.net.connectionList ∨ links c := by
  cases part with
  | insertNode ok =>
    cases (Net.insertNodeIff.mp ok).2
    exact .inl member
  | removeNode ok =>
    cases (Net.removeNodeIff.mp ok).2
    exact .inl ((Net.memWithout sound).mp member).1
  | setParameter ok =>
    obtain ⟨node, _, ⟨rfl, _⟩ | ⟨rfl, _⟩⟩ := Net.setParameterCases ok <;> exact .inl member
  | moveNode ok =>
    obtain ⟨node, _, rfl, _⟩ := Net.moveNodeCases ok
    exact .inl member
  | patchNode ok =>
    obtain ⟨node, _, ⟨rfl, _⟩ | ⟨rfl, _⟩⟩ := Net.patchNodeCases ok <;> exact .inl member
  | insertConnection link ok =>
    rcases Net.memInserted ok member with member | rfl
    · exact .inl member
    · exact .inr link
  | removeConnection id => exact .inl (Net.memRemoved sound id member)
  | @refusedConnection d e net link refused message =>
    rcases Net.connectCases w.net d with
      ⟨e, same⟩ | ⟨_, _, _, accepted⟩ | ⟨old, _, _, _, ⟨_, _, _, accepted⟩ | ⟨e, _, same⟩⟩
    · cases same.symm.trans refused
      exact .inl member
    · cases accepted.symm.trans refused
    · cases accepted.symm.trans refused
    · cases same.symm.trans refused
      exact .inl (Net.memRemoved sound old.id member)
  | setUniform u => exact .inl ((w.net.setUniformQuiet u).1 ▸ member)
  | removeUniform id => exact .inl ((w.net.removeUniformQuiet id).1 ▸ member)
  | addInclude path => exact .inl ((w.net.addIncludeQuiet path _).1 ▸ member)
  | removeInclude path => exact .inl ((w.net.removeIncludeQuiet path).1 ▸ member)
  | collectExports => exact .inl member

theorem partsEntries (parts : Parts links w after changes) (sound : w.net.Sound) {c : Connection}
    (member : c ∈ after.net.connectionList) : c ∈ w.net.connectionList ∨ links c := by
  induction parts with
  | nothing => exact .inl member
  | one part => exact partEntries part sound member
  | append first _ before behind =>
    rcases behind (partsSound first sound) member with member | link
    · exact before sound member
    · exact .inr link

theorem committedSound (committed : Committed links w after) (sound : w.net.Sound) :
    after.net.Sound := by
  obtain ⟨mid, changes, parts, rfl⟩ := committed
  have kept := partsSound parts sound
  exact kept

theorem loadSound (sound : w.net.Sound) (d : Document) : (w.load d).1.net.Sound :=
  committedSound (loadCommitted w d) sound

section Questions

variable (sound : w.net.Sound)
include sound

theorem compileSound (id : String) : (w.compile id).2.net.Sound := by
  unfold compile
  split
  · exact Net.foldlSound (fun _ p sound => Net.setConnectionTypeSound sound p.1 p.2) sound _
  · exact sound

theorem shaderSound (id : String) : (w.shader id).2.net.Sound := by
  have compiled := compileSound sound id
  unfold shader
  split <;> rename_i answered <;> rw [answered] at compiled
  · exact compiled
  · split
    · exact compiled
    · split <;> exact compiled

theorem canConnectSound (source target : Socket) : (w.canConnect source target).2.net.Sound := by
  unfold canConnect
  split
  · exact sound
  · exact sound
  · split
    · exact sound
    · split
      · exact sound
      · split <;> exact sound

end Questions
end Workspace

namespace Session
open Workspace

theorem answerSound {s : Session} (sound : s.workspace.net.Sound) (request : Request) :
    (s.answer request).2.workspace.net.Sound := by
  rcases s.answerCases request with
    committed | question | ⟨options, sources, same⟩ | ⟨_, _, registry, _, _, same⟩
  · exact committedSound committed sound
  · cases request with
    | compile id =>
      rw [compileAnswered]
      exact compileSound sound id
    | shader id => exact shaderSound sound id
    | canConnect source target => exact canConnectSound sound source target
    | describe ids => exact sound
    | _ => cases question
  · rw [same]
    exact sound
  · rw [same]
    exact sound

theorem runSound {s : Session} (sound : s.workspace.net.Sound) (requests : List Request) :
    (s.run requests).workspace.net.Sound := by
  induction requests generalizing s with
  | nil => exact sound
  | cons request rest ih => exact ih (answerSound sound request)

end Session
end ShaderNet
