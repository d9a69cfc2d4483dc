import ShaderNet.Proofs.Session.Load
import ShaderNet.Proofs.Workspace.Reload

/-! Loading a document twice. The second load has nothing to do exactly if the document's uniforms agree
with its keys and no connection that was there before was taken for one of the document. -/
namespace ShaderNet.Session

theorem reloadSilentIff (requests : List Request) (d : Document) (orderly : d.Orderly)
    (own : Net.Apart d.connections) :
    let before := ((start .empty).run requests).workspace
    let once := (before.load d).1
    ((once.load d).2 = .empty ↔ d.UniformsAgree ∧ before.net.Admits d) ∧
    ((once.load d).2 = .empty → (once.load d).1 = once) ∧
    (Net.Apart (before.net.connectionList ++ d.connections) → before.net.Admits d) := by
  intro before once
  have sound : before.net.Sound := runSound Net.emptySound requests
  have sound' : once.net.Sound := Workspace.loadSound sound d
  refine ⟨Workspace.reloadUntold sound orderly own sound', fun untold => ?_,
    Plan.admitsApart sound orderly⟩
  rw [Workspace.loadSilent sound' untold]

def aliasedSum : Document :=
  { negatedSum with
    uniforms := Table.ofList [("bias", ⟨"bias", .float, some (.number .zero)⟩),
      ("offset", ⟨"bias", .float, some (.number (.ofWord true 0))⟩)] }

theorem reloadSilentAliased :
    (aliasedSum.Orderly ∧ Net.Apart aliasedSum.connections) ∧
    let before := ((start .empty).run sumRequests).workspace
    let once := (before.load aliasedSum).1
    (before.load aliasedSum).2.addedConnections ≠ [] ∧ (once.load aliasedSum).2 = .empty ∧
      (once.load aliasedSum).1 = once := by
  have orderly : aliasedSum.Orderly := by
    constructor <;> decide +kernel
  have own : Net.Apart aliasedSum.connections := by decide +kernel
  have agree : aliasedSum.UniformsAgree := ⟨by decide +kernel, by decide +kernel⟩
  obtain ⟨silent, kept, admits⟩ := reloadSilentIff sumRequests aliasedSum orderly own
  have untold := silent.mpr ⟨agree, admits (by decide +kernel)⟩
  exact ⟨⟨orderly, own⟩, by decide +kernel, untold, kept untold⟩

def misfiledTint : Document :=
  { Document.empty with uniforms := Table.ofList [("color", ⟨"tint", .vector .float 3, none⟩)] }

def namesakeSine : Document :=
  { Document.empty with
    nodes := [.named "a" "float", .named "b:i)->(c" "sin"]
    connections := [.between ⟨"a", "o"⟩ ⟨"b:i)->(c", "x"⟩] }

def namesakeRequests : List Request := [
  .insertNode (.named "a" "float"), .insertNode (.named "c" "sin"),
  .addConnection ⟨"a", "o)->(b:i"⟩ ⟨"c", "x"⟩]

/- The second load takes out the uniform that the first one put in, or makes the connection that the
first one took for an old one. -/
theorem reloadTells :
    ((misfiledTint.Orderly ∧ Net.Apart misfiledTint.connections) ∧
      let once := (Workspace.empty.load misfiledTint).1
      (once.load misfiledTint).2.removedUniforms = ["tint"] ∧
        (once.load misfiledTint).1.net.uniforms ≠ once.net.uniforms) ∧
    ((namesakeSine.Orderly ∧ Net.Apart namesakeSine.connections) ∧
      let once := (((start .empty).run namesakeRequests).workspace.load namesakeSine).1
      (once.load namesakeSine).2.addedConnections = namesakeSine.connections ∧
        (once.load namesakeSine).1.net.connections ≠ once.net.connections) := by
  refine ⟨⟨⟨?_, by decide +kernel⟩, by decide +kernel⟩, ⟨?_, by decide +kernel⟩, by decide +kernel⟩
  · constructor <;> decide +kernel
  · constructor <;> decide +kernel

end ShaderNet.Session
