import ShaderNet.Proofs.NodeKind.Selectable
import ShaderNet.Proofs.Session.Each

/-! Selection of members in sessions. Whatever has been requested, a simple vector is written as a primary,
and the members that are selected from it without brackets are those of the whole. -/
namespace ShaderNet
open Fragment (Primary isName)
open NodeKind (wholeOf)

theorem Scene.selectablePasses (scene : Scene) :
    scene.Passes (fun _ => Expression.Selectable) fun _ =>
      Compiled.All (fun _ => True) Expression.Selectable :=
  passesAll (fun _ _ _ _ => NodeKind.yieldsSelectable) fun _ _ _ => trivial

namespace Session

theorem compiledSelectable (requests : List Request) {id : String} {c : Compiled}
    (compiled : (((start .empty).run requests).workspace.compile id).1 = .ok c) :
    c.All (fun _ => True) Expression.Selectable :=
  Workspace.compileEach (Scene.selectablePasses _)
    (runEach (fun _ => Scene.emptyEach) requests (fun _ _ _ => Scene.selectablePasses _) rfl) compiled

theorem simpleVectorsPrimary (requests : List Request) {id socket : String} {c : Compiled}
    {e : Expression} (compiled : (((start .empty).run requests).workspace.compile id).1 = .ok c)
    (delivered : c.outputs.get? socket = some e) (vector : e.type.isVector = true) :
    (e.trivial = true → ∃ p : Primary, p.Reads e.text) ∧
    (∀ s node parts, (NodeKind.split.compile s node).follow (fun _ => .ok (some e)) = .ok parts →
      ∃ p : Primary, p.Reads (wholeOf node e).text ∧
        ∀ name d, parts.outputs.get? name = some d → ∃ named : isName name.toList = true,
          d.text = (wholeOf node e).text ++ "." ++ name ∧ (p.select name.toList named).Reads d.text) ∧
    ∀ s node result, e.trivial = true →
      (NodeKind.swizzle.compile s node).follow (fun _ => .ok (some e)) = .ok result →
      ∃ (p : Primary) (member : String) (named : isName member.toList = true) (type : ValueType),
        p.Reads e.text ∧ result = .single "out" (.simple type (e.text ++ "." ++ member)) ∧
        (p.select member.toList named).Reads (e.text ++ "." ++ member) := by
  have selectable := (compiledSelectable requests compiled).outputs socket e delivered
  refine ⟨fun simple => ?_, fun s node parts ok => ?_, fun s node result simple ok => ?_⟩
  · obtain ⟨p, written⟩ := selectable.primary simple vector
    exact ⟨p, Primary.reads written⟩
  · obtain ⟨p, written⟩ := (NodeKind.wholeSelectable node selectable).2 vector
    refine ⟨p, Primary.reads written, fun name d found => ?_⟩
    obtain ⟨answer, told, ok⟩ := Recipe.inputOk ok
    cases told
    obtain ⟨listed, text⟩ := NodeKind.splitSelects vector (NodeKind.splitPartsOk ok) found
    have named := NodeKind.componentsNamed name listed
    refine ⟨named, text, Primary.reads ?_⟩
    rw [text]
    exact NodeKind.selectedText written named
  · obtain ⟨p, written⟩ := selectable.primary simple vector
    obtain ⟨member, type, named, same⟩ := NodeKind.swizzleSelects vector simple ok
    exact ⟨p, member, named, type, Primary.reads written, same,
      Primary.reads (NodeKind.selectedText written named)⟩

def swapNode : Node := ⟨"s", "swizzle", .origin, Table.ofList [("member", .text "yx")]⟩

def swapRequests : List Request := [
  .insertNodes [⟨"f", "float", .origin, Table.ofList [("value", .number (.ofInt (-1)))]⟩,
    .named "v" "vec2", swapNode],
  .addConnection ⟨"f", "out"⟩ ⟨"v", "x"⟩, .addConnection ⟨"v", "out"⟩ ⟨"s", "vector"⟩]

theorem simpleVectorsPrimarySwap :
    let w := ((start .empty).run swapRequests).workspace
    let whole := Expression.simple (.vec 2) "vec2(-1.0, 0.0)"
    let swapped := Compiled.single "out" (.simple (.vec 2) "vec2(-1.0, 0.0).yx")
    (w.compile "v").1 = .ok (.single "out" whole) ∧ (w.compile "s").1 = .ok swapped ∧
    (∃ p : Primary, p.Reads whole.text) ∧
    ∃ (p : Primary) (member : String) (named : isName member.toList = true) (type : ValueType),
      p.Reads whole.text ∧ swapped = .single "out" (.simple type (whole.text ++ "." ++ member)) ∧
      (p.select member.toList named).Reads (whole.text ++ "." ++ member) := by
  have facts :
      let w := ((start .empty).run swapRequests).workspace
      (w.compile "v").1 = .ok (.single "out" (.simple (.vec 2) "vec2(-1.0, 0.0)")) ∧
      (w.compile "s").1 = .ok (.single "out" (.simple (.vec 2) "vec2(-1.0, 0.0).yx")) := by
    decide +kernel
  obtain ⟨whole, swapped⟩ := facts
  have delivered : (Compiled.single "out" (.simple (.vec 2) "vec2(-1.0, 0.0)")).outputs.get? "out" =
      some (.simple (.vec 2) "vec2(-1.0, 0.0)") := rfl
  obtain ⟨primary, _, selects⟩ := simpleVectorsPrimary swapRequests whole delivered rfl
  exact ⟨whole, swapped, primary rfl, selects ⟨∅, ∅⟩ swapNode _ rfl (by decide +kernel)⟩

end Session
end ShaderNet
