import ShaderNet.Proofs.Evaluate.Reference
import ShaderNet.Proofs.Net.Edits
import ShaderNet.Proofs.Net.Reach
import ShaderNet.Proofs.NodeKind.Reads

/-! What a node is made to depends on the node, on its sources, and on theirs. Where a set of nodes
takes all its inputs from within and none of its nodes has changed, neither have their results. -/
namespace ShaderNet.Scene

structure Unchanged (old new : Scene) (id : String) : Prop where
  recipe : ∀ node kind, old.net.node id = .ok node → old.registry.kind node.type = .ok kind →
    ∃ node', new.net.node id = .ok node' ∧ new.registry.kind node'.type = .ok kind ∧
      kind.compile new.surroundings node' = kind.compile old.surroundings node
  sources : ∀ name, (new.net.feeder? ⟨id, name⟩).map Connection.source =
    (old.net.feeder? ⟨id, name⟩).map Connection.source

theorem inputUnchanged {old new : Scene} {p q : String → Except Failure Compiled} {n m : Node}
    {id name : String} (left : n.id = id) (right : m.id = id)
    (sources : (new.net.feeder? ⟨id, name⟩).map Connection.source =
      (old.net.feeder? ⟨id, name⟩).map Connection.source)
    (more : ∀ c, old.net.feeder? ⟨id, name⟩ = some c →
      ∀ d, p c.source.node = .ok d → q c.source.node = .ok d)
    {e} (ok : old.input p n none name = .ok e) : new.input q m none name = .ok e := by
  simp only [input, reduceCtorEq, if_false, left, right] at ok ⊢
  cases fed : old.net.feeder? ⟨id, name⟩ with
  | none =>
    rw [fed] at ok sources
    rw [Option.map_eq_none_iff.mp sources]
    exact ok
  | some c =>
    rw [fed] at ok sources
    obtain ⟨d, fed', same⟩ := Option.map_eq_some_iff.mp sources
    rw [fed']
    dsimp only at ok ⊢
    rw [same]
    split at ok <;> try contradiction
    rename_i result produced
    rw [more c fed result produced]
    exact ok

theorem madeUnchanged {old new : Scene} (sound : old.net.Sound) (sound' : new.net.Sound) {id : String}
    (unchanged : Unchanged old new id) {p q : String → Except Failure Compiled}
    (more : ∀ c ∈ old.net.connectionList, c.target.node = id →
      ∀ d, p c.source.node = .ok d → q c.source.node = .ok d)
    {c} (ok : old.made p id = .ok c) : new.made q id = .ok c := by
  simp only [made] at ok ⊢
  split at ok <;> try contradiction
  rename_i node found
  split at ok <;> try contradiction
  rename_i kind known
  obtain ⟨node', found', known', recipe⟩ := unchanged.recipe node kind found known
  rw [found']
  dsimp only
  rw [known']
  dsimp only
  rw [recipe]
  refine Recipe.followMono (fun name e answered => ?_) ok
  refine inputUnchanged (Net.nodePresent sound found).1 (Net.nodePresent sound' found').1
    (unchanged.sources name) (fun c fed => ?_) answered
  obtain ⟨member, target⟩ := (Net.feederIff sound.toIndexed).mp fed
  exact more c member (by rw [target])

theorem attemptUnchanged {old new : Scene} (sound : old.net.Sound) (sound' : new.net.Sound)
    {safe : String → Prop} (unchanged : ∀ id, safe id → Unchanged old new id)
    (closed : ∀ c ∈ old.net.connectionList, safe c.target.node → safe c.source.node)
    {depth id c} (start : safe id) (ok : old.attempt depth id = .ok c) :
    new.attempt depth id = .ok c := by
  induction depth generalizing id c with
  | zero => cases ok
  | succ depth ih =>
    refine madeUnchanged sound sound' (unchanged id start) (fun c member target d => ih ?_) ok
    exact closed c member (by rw [target]; exact start)

/- What can be made within a depth in which one node cannot is not made from that node. -/
theorem attemptWithout {old new : Scene} (sound : old.net.Sound) (sound' : new.net.Sound) {id : String}
    (unchanged : ∀ k, k ≠ id → Unchanged old new k) {depth : Nat}
    (late : ∀ less ≤ depth, ∀ c, old.attempt less id ≠ .ok c) {k c}
    (ok : old.attempt depth k = .ok c) : new.attempt depth k = .ok c := by
  induction depth generalizing k c with
  | zero => cases ok
  | succ depth ih =>
    have other : k ≠ id := fun same => late _ (Nat.le_refl _) c (same ▸ ok)
    refine madeUnchanged sound sound' (unchanged k other) (fun _ _ _ d => ih ?_) ok
    exact fun less within => late less (Nat.le_succ_of_le within)

theorem evaluateUnchanged {old new : Scene} (sound : old.net.Sound) (sound' : new.net.Sound)
    {safe : String → Prop} (unchanged : ∀ id, safe id → Unchanged old new id)
    (closed : ∀ c ∈ old.net.connectionList, safe c.target.node → safe c.source.node)
    {id c} (start : safe id) (ok : old.evaluate [] id = .ok c) : new.evaluate [] id = .ok c := by
  obtain ⟨depth, made⟩ := evaluateIff.mp ok
  exact evaluateIff.mpr ⟨depth, attemptUnchanged sound sound' unchanged closed start made⟩

end ShaderNet.Scene
