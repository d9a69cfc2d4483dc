import ShaderNet.Proofs.Session.Sound
import ShaderNet.Proofs.Workspace.Duplicate

/-! Copying and pasting in a session. Whatever was done before, pasting a copy back duplicates what was
selected, and nothing else changes. -/
namespace ShaderNet
open Number (Double)

theorem Cache.dropKeeps (cache : Cache) {invalidated : KeySet String} {id : String}
    (other : invalidated.contains id = false) :
    (cache.drop invalidated).results.get? id = cache.results.get? id := by
  rw [drop, Table.getFilter]
  cases cache.results.get? id with
  | none => rfl
  | some result => simp [other]

namespace Session
open Workspace

theorem selectionDuplicated (requests : List Request) (ids : List String) (dx dy : Double)
    (present : ∀ id ∈ ids, ((start .empty).run requests).workspace.net.contains id = true)
    (apart : Net.Apart (((start .empty).run requests).workspace.net.connectionList ++
      (((start .empty).run requests).handle (.copy ids)).2.links (.pasteClipboard dx dy))) :
    let s := (start .empty).run requests
    let copied := s.handle (.copy ids)
    let pasted := copied.2.handle (.paste copied.2.clipboard dx dy)
    copied.1 = .ok (.document copied.2.clipboard) ∧
    ∃ name, s.workspace.net.NewNames ids name ∧
      pasted.1 = .ok (.changes (duplicateTold s.workspace.net ids name dx dy)) ∧
      s.workspace.net.Duplicated ids name dx dy pasted.2.workspace.net ∧
      ∀ id, s.workspace.net.contains id = true →
        pasted.2.workspace.cache.results.get? id = s.workspace.cache.results.get? id := by
  have sound : ((start .empty).run requests).workspace.net.Sound := runSound Net.emptySound requests
  generalize (start .empty).run requests = s at present apart sound ⊢
  obtain ⟨d, ok⟩ := copyPresent present
  have copied : s.handle (.copy ids) = (.ok (.document d), ({ s with clipboard := d }).forgetDropped) := by
    simp only [handle, answer, ok]
  dsimp only
  rw [copied] at apart ⊢
  refine ⟨rfl, ?_⟩
  obtain ⟨name, after, names, duplicated, pasted⟩ := pastingDuplicates sound present ok apart
  have performed : s.workspace.paste d dx dy =
      (commit { s.workspace with net := after } (duplicateTold s.workspace.net ids name dx dy),
        duplicateTold s.workspace.net ids name dx dy) := by
    rw [paste, perform, pasted]
  simp only [handle, answer, afterChange, forgetDropped, performed]
  refine ⟨name, names, rfl, duplicated, fun id old => Cache.dropKeeps _ ?_⟩
  refine Bool.eq_false_iff.mpr fun invalidated => ?_
  obtain ⟨a, chosen, rfl⟩ := List.mem_map.mp (KeySet.containsOfList.mp invalidated)
  rw [names.absent a chosen] at old
  cases old

def additionRequests : List Request := [
  .insertNode (.named "a" "float"), .insertNode (.named "float_1" "float"), .addNode "add" .origin,
  .addConnection ⟨"a", "out"⟩ ⟨"add_1", "a"⟩, .addConnection ⟨"float_1", "out"⟩ ⟨"add_1", "b"⟩,
  .compile "add_1"]

theorem selectionDuplicatedAddition :
    let s := (start .empty).run additionRequests
    let ids := ["add_1", "a", "add_1"]
    let copied := s.handle (.copy ids)
    let pasted := copied.2.handle (.paste copied.2.clipboard (.ofInt 1) (.ofInt 2))
    ((∀ id ∈ ids, s.workspace.net.contains id = true) ∧
      Net.Apart (s.workspace.net.connectionList ++
        copied.2.links (.pasteClipboard (.ofInt 1) (.ofInt 2)))) ∧
    pasted.2.workspace.net.order = ["a", "float_1", "add_1", "float_2", "add_2"] ∧
    copied.1 = .ok (.document copied.2.clipboard) ∧
    ∃ name, s.workspace.net.NewNames ids name ∧
      pasted.1 = .ok (.changes (duplicateTold s.workspace.net ids name (.ofInt 1) (.ofInt 2))) ∧
      s.workspace.net.Duplicated ids name (.ofInt 1) (.ofInt 2) pasted.2.workspace.net ∧
      ∀ id, s.workspace.net.contains id = true →
        pasted.2.workspace.cache.results.get? id = s.workspace.cache.results.get? id := by
  have present : ∀ id ∈ ["add_1", "a", "add_1"],
      ((start .empty).run additionRequests).workspace.net.contains id = true := by decide +kernel
  have apart : Net.Apart (((start .empty).run additionRequests).workspace.net.connectionList ++
      (((start .empty).run additionRequests).handle (.copy ["add_1", "a", "add_1"])).2.links
        (.pasteClipboard (.ofInt 1) (.ofInt 2))) := by decide +kernel
  exact ⟨⟨present, apart⟩, by decide +kernel, selectionDuplicated additionRequests _ _ _ present apart⟩

end Session
end ShaderNet
