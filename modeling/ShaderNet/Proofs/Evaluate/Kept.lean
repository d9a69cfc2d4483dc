import ShaderNet.Proofs.Evaluate.Dependence

/-! Compilation to the same end, be it a result or a failure. A node that keeps its recipe and its
sources, and whose sources do so too, ends as it did before. -/
namespace ShaderNet.Scene

def recipe (scene : Scene) (id : String) : Except Failure (Recipe Compiled) :=
  match scene.net.node id with
  | .error e => .error e
  | .ok node =>
    match scene.registry.kind node.type with
    | .error e => .error e
    | .ok kind => .ok (kind.compile scene.surroundings node)

theorem madeFails {scene : Scene} {id : String} {e : Failure} (fails : scene.recipe id = .error e)
    (produce : String → Except Failure Compiled) : scene.made produce id = .error e := by
  unfold recipe at fails
  unfold made
  cases found : scene.net.node id with
  | error e' =>
    rw [found] at fails
    cases fails
    rfl
  | ok node =>
    rw [found] at fails
    cases known : scene.registry.kind node.type with
    | error e' =>
      simp only [known] at fails ⊢
      cases fails
      rfl
    | ok kind =>
      simp only [known] at fails
      cases fails

theorem madeFollows {scene : Scene} (sound : scene.net.Sound) {id : String} {r : Recipe Compiled}
    (found : scene.recipe id = .ok r) : ∃ node : Node, node.id = id ∧
      ∀ produce, scene.made produce id = r.follow (scene.input produce node none) := by
  unfold recipe at found
  unfold made
  cases present : scene.net.node id with
  | error e =>
    rw [present] at found
    cases found
  | ok node =>
    rw [present] at found
    refine ⟨node, (Net.nodePresent sound present).1, fun produce => ?_⟩
    cases known : scene.registry.kind node.type with
    | error e =>
      simp only [known] at found
      cases found
    | ok kind =>
      simp only [known] at found ⊢
      cases found
      rfl

structure Kept (old new : Scene) (id : String) : Prop where
  present : new.net.contains id = old.net.contains id
  recipe : new.recipe id = old.recipe id
  sources : ∀ name, (new.net.feeder? ⟨id, name⟩).map Connection.source =
    (old.net.feeder? ⟨id, name⟩).map Connection.source

variable {old new : Scene}

theorem inputKept {p q : String → Except Failure Compiled} {n m : Node} {id name : String}
    (left : n.id = id) (right : m.id = id)
    (sources : (new.net.feeder? ⟨id, name⟩).map Connection.source =
      (old.net.feeder? ⟨id, name⟩).map Connection.source)
    (same : ∀ c, new.net.feeder? ⟨id, name⟩ = some c → q c.source.node = p c.source.node) :
    new.input q m none name = old.input p n none name := by
  simp only [input, reduceCtorEq, if_false, left, right]
  cases fed : new.net.feeder? ⟨id, name⟩ with
  | none =>
    rw [fed] at sources
    rw [Option.map_eq_none_iff.mp sources.symm]
  | some c =>
    rw [fed] at sources
    obtain ⟨d, fed', source⟩ := Option.map_eq_some_iff.mp sources.symm
    rw [fed']
    dsimp only
    rw [same c fed, source]

theorem madeKept (sound : old.net.Sound) (sound' : new.net.Sound) {id : String}
    (kept : Kept old new id) {p q : String → Except Failure Compiled}
    (same : ∀ c ∈ new.net.connectionList, c.target.node = id →
      q c.source.node = p c.source.node) : new.made q id = old.made p id := by
  cases found : old.recipe id with
  | error e => rw [madeFails found, madeFails (kept.recipe.trans found)]
  | ok r =>
    obtain ⟨n, left, follows⟩ := madeFollows sound found
    obtain ⟨m, right, follows'⟩ := madeFollows sound' (kept.recipe.trans found)
    rw [follows, follows']
    refine congrArg (r.follow ·) (funext fun name => ?_)
    refine inputKept left right (kept.sources name) fun c fed => ?_
    obtain ⟨member, target⟩ := (Net.feederIff sound'.toIndexed).mp fed
    exact same c member (by rw [target])

theorem nodeAbsent {n : Net} {id : String} (absent : n.contains id = false) :
    n.node id = .error (.nodeMissing id) := by
  rw [Net.node, Net.node?, Table.containsFalse.mp absent]

/- The sources of a node wait for one more, and fewer nodes are left. -/
theorem evaluateKept (sound : old.net.Sound) (sound' : new.net.Sound) {safe : String → Prop}
    (kept : ∀ id, safe id → Kept old new id)
    (closed : ∀ c ∈ new.net.connectionList, safe c.target.node → safe c.source.node)
    {path : List String} {id : String} (start : safe id) :
    new.evaluate path id = old.evaluate path id := by
  induction left : old.idle path using Nat.strongRecOn generalizing path id with
  | ind left ih =>
    have present := (kept id start).present
    cases there : old.net.contains id with
    | false =>
      rw [evaluateMissing (nodeAbsent there), evaluateMissing (nodeAbsent (present.trans there))]
    | true =>
      obtain ⟨node, found⟩ := Table.containsIff.mp there
      obtain ⟨node', found'⟩ := Table.containsIff.mp (present.trans there)
      by_cases waits : id ∈ path
      · rw [evaluateStack (Net.nodeFound.mpr found) waits,
          evaluateStack (Net.nodeFound.mpr found') waits]
      · have fewer := idleFewer (Net.nodeFound.mpr found) waits
        rw [evaluateMade waits, evaluateMade waits]
        refine madeKept sound sound' (kept id start) fun c member target => ?_
        exact ih _ (left ▸ fewer) (closed c member (target ▸ start)) rfl

end ShaderNet.Scene
