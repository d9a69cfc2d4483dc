import ShaderNet.Proofs.Net.Converge
import ShaderNet.Proofs.Net.UniqueId
import ShaderNet.Workspace.Edit

/-! Pasting nodes. Each gets an identifier that no node has, those pasted before it among them, so that
none is refused and no two of them share a name. -/
namespace ShaderNet.Workspace
open Number (Double)

def pastedCopy (dx dy : Double) (net : Net) (node : Node) : Node :=
  { node with id := net.uniqueId node.type, position := node.position.shift dx dy }

def pastedCopies (dx dy : Double) : List Node → Net → List Node
  | [], _ => []
  | node :: rest, net =>
    pastedCopy dx dy net node :: pastedCopies dx dy rest (net.inserted (pastedCopy dx dy net node))

def pastedNames (dx dy : Double) (nodes : List Node) (net : Net) : List (String × String) :=
  (nodes.map Node.id).zip ((pastedCopies dx dy nodes net).map Node.id)

def copiesTold (copies : List Node) : Changes :=
  { Changes.empty with addedNodes := copies, invalidated := KeySet.ofList (copies.map Node.id) }

theorem copiesToldCons (copy : Node) (rest : List Node) :
    { Changes.empty with addedNodes := [copy], invalidated := KeySet.ofList [copy.id] } ++ copiesTold rest =
      copiesTold (copy :: rest) := by
  refine Changes.ext rfl rfl rfl rfl rfl ?_ rfl rfl rfl rfl rfl
  refine KeySet.ext fun k => Changes.invalidatedAppend.trans ?_
  simp only [copiesTold, KeySet.containsOfList, List.map_cons, List.mem_cons, List.not_mem_nil, or_false]

variable {dx dy : Double}

theorem pasteNodesResult (nodes : List Node) (net : Net) (names : Renaming) (changes : Changes) :
    pasteNodes dx dy nodes net names changes =
      ((pastedCopies dx dy nodes net).foldl Net.inserted net,
        names.overlay (pastedNames dx dy nodes net),
        changes ++ copiesTold (pastedCopies dx dy nodes net)) := by
  induction nodes generalizing net names changes with
  | nil => exact congrArg (Prod.mk _ <| Prod.mk _ ·) (Changes.appendEmpty changes).symm
  | cons node rest ih =>
    have fresh : net.contains (pastedCopy dx dy net node).id = false :=
      Net.uniqueIdAbsent net node.type
    have taken := Net.insertNodeIff.mpr ⟨fresh, rfl⟩
    rw [pasteNodes, pastedCopies, ← copiesToldCons, ← Changes.appendAssoc]
    dsimp only
    rw [← pastedCopy, taken]
    exact ih _ _ _

theorem copiesOf (nodes : List Node) (net : Net) :
    List.Forall₂ (fun node copy : Node =>
      copy = { node with id := copy.id, position := node.position.shift dx dy })
      nodes (pastedCopies dx dy nodes net) := by
  induction nodes generalizing net with
  | nil => exact .nil
  | cons node rest ih => exact .cons rfl (ih _)

theorem copiesFresh (nodes : List Node) (net : Net) :
    ((pastedCopies dx dy nodes net).map Node.id).Nodup ∧
      ∀ copy ∈ pastedCopies dx dy nodes net, net.contains copy.id = false := by
  induction nodes generalizing net with
  | nil => exact ⟨.nil, List.forall_mem_nil _⟩
  | cons node rest ih =>
    obtain ⟨nodup, fresh⟩ := ih (net.inserted (pastedCopy dx dy net node))
    have others : ∀ copy ∈ pastedCopies dx dy rest (net.inserted (pastedCopy dx dy net node)),
        net.uniqueId node.type ≠ copy.id ∧ net.contains copy.id = false := by
      intro copy member
      have absent := fresh copy member
      rw [← Bool.not_eq_true, Net.containsInserted, not_or, Bool.not_eq_true] at absent
      exact absent
    refine ⟨List.nodup_cons.mpr ⟨fun member => ?_, nodup⟩, fun copy member => ?_⟩
    · obtain ⟨copy, inside, same⟩ := List.mem_map.mp member
      exact (others copy inside).1 same.symm
    · rcases List.mem_cons.mp member with rfl | inside
      · exact Net.uniqueIdAbsent net node.type
      · exact (others copy inside).2

theorem copiesLength (nodes : List Node) (net : Net) :
    (pastedCopies dx dy nodes net).length = nodes.length := (copiesOf nodes net).length_eq.symm

theorem namesNew (nodes : List Node) (net : Net) :
    (pastedNames dx dy nodes net).map Prod.snd = (pastedCopies dx dy nodes net).map Node.id :=
  List.map_snd_zip (by simp [copiesLength])

theorem namesOld (nodes : List Node) (net : Net) :
    (pastedNames dx dy nodes net).map Prod.fst = nodes.map Node.id :=
  List.map_fst_zip (by simp [copiesLength])

/- Names that a renaming gives are new, and it gives no name twice. -/
theorem namesFresh {nodes : List Node} {net : Net} {a x : String}
    (named : (a, x) ∈ pastedNames dx dy nodes net) : net.contains x = false := by
  have new : x ∈ (pastedNames dx dy nodes net).map Prod.snd := List.mem_map.mpr ⟨_, named, rfl⟩
  rw [namesNew] at new
  obtain ⟨copy, member, rfl⟩ := List.mem_map.mp new
  exact (copiesFresh nodes net).2 copy member

theorem namesInjective {nodes : List Node} {net : Net} {a b x : String}
    (left : (a, x) ∈ pastedNames dx dy nodes net) (right : (b, x) ∈ pastedNames dx dy nodes net) :
    a = b := by
  have nodup := (@copiesFresh dx dy nodes net).1
  rw [← namesNew] at nodup
  exact congrArg Prod.fst (List.inj_on_of_nodup_map nodup left right rfl)

end ShaderNet.Workspace
