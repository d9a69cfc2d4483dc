import ShaderNet.Proofs.Session.Sound
import ShaderNet.Proofs.Workspace.Traced

/-! Edits of what nodes hold. Whatever is compiled otherwise after a parameter was set is told of. After
a load this holds but for two kinds of nodes, and all that is made from them: those that were moved
and differ otherwise in the sign of a zero only, and those that fall back on a uniform without a name. -/
namespace ShaderNet
open Relation (ReflTransGen)

/-- A node was patched because it was moved. Nothing else compares as different, though recipes tell the
two apart: one of them holds a negative zero. -/
def Net.Overlooks (n after : Net) (j : String) : Prop :=
  ∃ a b, n.nodes.get? j = some a ∧ after.nodes.get? j = some b ∧
    a.position.same b.position = false ∧ a.sameContent b = true ∧
    (a.hasNegativeZero || b.hasNegativeZero) = true ∧ ¬ a.Alike b

namespace Workspace

variable {w : Workspace}

theorem loadTraced (sound : w.net.Sound) (d : Document) :
    Traced (· ∈ (w.net.reconcile d).modifiedNodes) w (w.load d).1 (w.load d).2 := by
  unfold load
  dsimp only
  split
  · exact tracedUntold sound rfl
  · have traced := followingTraces (w.net.reconcile d) w sound
    exact ⟨traced.toTraced, traced.registry, traced.exports⟩

theorem patchOverlooks (sound : w.net.Sound) {after : Net} (sound' : after.Sound) {d : Document}
    {j : String} {a b : Node} (found : w.net.nodes.get? j = some a) (found' : after.nodes.get? j = some b)
    (becomes : a.Becomes (· ∈ (w.net.reconcile d).modifiedNodes) b) (unlike : ¬ a.Alike b) :
    w.net.Overlooks after j := by
  have id := sound.nodeKeys j a found
  have id' := sound'.nodeKeys j b found'
  rcases becomes with rfl | ⟨content, patched⟩
  · exact absurd ⟨rfl, rfl, fun _ => rfl⟩ unlike
  · have different := (List.mem_filter.mp patched).2
    rw [id', Net.node?, found, Option.any_some, Bool.not_eq_true', Node.same, id, id', content,
      decide_eq_true rfl, Bool.true_and, Bool.and_true] at different
    refine ⟨a, b, found, found', different, content, ?_, unlike⟩
    refine Bool.not_eq_false _ ▸ fun plain => unlike ?_
    obtain ⟨left, right⟩ := Bool.or_eq_false_iff.mp plain
    exact Node.contentAlike (id.trans id'.symm) content left right

end Workspace

namespace Session
open Workspace

theorem parameterTold {s : Session} (sound : s.workspace.net.Sound)
    (standard : s.workspace.registry = .standard) {id name : String} {value : Parameter}
    {changes : Changes} (ok : (s.handle (.setParameter id name value)).1 = .ok (.changes changes))
    {k : String} (differs : (s.workspace.scene.compile k .empty).1 ≠
      ((s.handle (.setParameter id name value)).2.workspace.scene.compile k .empty).1) :
    changes.invalidated.contains k = true := by
  obtain ⟨_, answered, same⟩ := replied ok
  cases same
  change (s.workspace.tryNet (·.setParameter id name value)).1 = _ at answered
  change _ ≠ ((s.workspace.tryNet (·.setParameter id name value)).2.scene.compile k .empty).1 at differs
  rw [tryNet] at answered differs
  cases edited : s.workspace.net.setParameter id name value with
  | error e =>
    rw [edited] at answered
    cases answered
  | ok r =>
    rw [edited] at answered differs
    cases answered
    refine Bool.not_eq_false _ ▸ fun untold => ?_
    have traced : Traced (fun _ => False) s.workspace { s.workspace with net := r.1 } r.2 :=
      tracedNet (Net.setParameterTraced sound edited)
    obtain ⟨j, _, falls | ⟨a, b, _, _, becomes, unlike⟩⟩ :=
      traced.overlooked sound standard untold differs
    · obtain ⟨_, _, ⟨kept, _⟩ | ⟨kept, _⟩⟩ := Net.setParameterCases edited
      · exact falls.1 (kept ▸ rfl)
      · exact falls.1 (kept ▸ rfl)
    · rcases becomes with rfl | ⟨_, impossible⟩
      · exact unlike ⟨rfl, rfl, fun _ => rfl⟩
      · exact impossible

theorem differenceTold (requests : List Request)
    (standard : ((start .empty).run requests).workspace.registry = .standard) (k : String) :
    let s := (start .empty).run requests
    (∀ id name value changes,
      let handled := s.handle (.setParameter id name value)
      handled.1 = .ok (.changes changes) →
        (s.workspace.scene.compile k .empty).1 ≠ (handled.2.workspace.scene.compile k .empty).1 →
        changes.invalidated.contains k = true) ∧
    ∀ d, ∃ changes,
      let handled := s.handle (.load d)
      let after := handled.2.workspace
      handled.1 = .ok (.changes changes) ∧
        ((s.workspace.scene.compile k .empty).1 ≠ (after.scene.compile k .empty).1 →
          changes.invalidated.contains k = true ∨ ∃ j, ReflTransGen after.net.Feeds j k ∧
            (s.workspace.net.Overlooks after.net j ∨ s.workspace.FallsBack after j)) := by
  have sound : ((start .empty).run requests).workspace.net.Sound := runSound Net.emptySound requests
  generalize (start .empty).run requests = s at standard sound
  refine ⟨fun id name value changes ok differs => parameterTold sound standard ok differs,
    fun d => ⟨_, rfl, fun differs => ?_⟩⟩
  cases told : (s.workspace.load d).2.invalidated.contains k with
  | true => exact .inl told
  | false =>
    have traced := loadTraced sound d
    obtain ⟨j, path, falls | ⟨a, b, found, found', becomes, unlike⟩⟩ :=
      traced.overlooked sound standard told differs
    · exact .inr ⟨j, path, .inr falls⟩
    · exact .inr ⟨j, path, .inl (patchOverlooks sound traced.sound found found' becomes unlike)⟩

def zeroRequests : List Request := [
  .insertNodes [⟨"f", "float", .origin, Table.ofList [("value", .number .zero)]⟩, .named "n" "negate"],
  .addConnection ⟨"f", "out"⟩ ⟨"n", "a"⟩,
  .compile "n"]

theorem differenceToldZero :
    let s := (start .empty).run zeroRequests
    let handled := s.handle (.setParameter "f" "value" (.number (.ofInt 2)))
    s.workspace.registry = .standard ∧
    (s.workspace.scene.compile "n" .empty).1 ≠ (handled.2.workspace.scene.compile "n" .empty).1 ∧
    ∃ changes, handled.1 = .ok (.changes changes) ∧ changes.invalidated.contains "n" = true := by
  have facts :
      let s := (start .empty).run zeroRequests
      s.workspace.registry = .standard ∧
      (s.workspace.scene.compile "n" .empty).1 ≠
        ((s.workspace.setParameter "f" "value" (.number (.ofInt 2))).2.scene.compile "n" .empty).1 ∧
      (s.workspace.setParameter "f" "value" (.number (.ofInt 2))).1.isOk = true := by
    decide +kernel
  obtain ⟨standard, differs, accepted⟩ := facts
  have told := differenceTold zeroRequests standard "n"
  -- from here on nothing has to be run
  generalize (start .empty).run zeroRequests = s at standard differs accepted told ⊢
  cases answered : (s.workspace.setParameter "f" "value" (.number (.ofInt 2))).1 with
  | error e =>
    rw [answered] at accepted
    cases accepted
  | ok changes =>
    have ok : (s.handle (.setParameter "f" "value" (.number (.ofInt 2)))).1 = .ok (.changes changes) :=
      congrArg (Except.map Reply.changes) answered
    exact ⟨standard, differs, changes, ok, told.1 _ _ _ _ ok differs⟩

def movedZero : Document :=
  ⟨1, [], [⟨"f", "float", ⟨.ofInt 1, .zero⟩,
      Table.ofList [("value", .number (.ofWord true 0))]⟩, .named "n" "negate"],
    [.between ⟨"f", "out"⟩ ⟨"n", "a"⟩], ∅⟩

theorem signOverlooked :
    let s := (start .empty).run zeroRequests
    let changes := (s.workspace.load movedZero).2
    let after := (s.handle (.load movedZero)).2.workspace
    (s.workspace.scene.compile "f" .empty).1 = .ok (.single "out" (.simple .float "0.0")) ∧
    (after.scene.compile "f" .empty).1 = .ok (.single "out" (.simple .float "-0.0")) ∧
    changes.modifiedNodes = ["f"] ∧ changes.invalidated = ∅ ∧
    (after.compile "f").1 = .ok (.single "out" (.simple .float "0.0")) := by
  decide +kernel

end Session
end ShaderNet
