import Mathlib.Data.Nat.Find
import ShaderNet.Evaluate
import ShaderNet.Proofs.Table

/-! Compilation without a cache: every node is made anew from its sources, under the path of nodes
that wait for it. A node that can be made at all can be made within some depth, whatever waits for
it, unless one of those is needed to make it. -/
namespace ShaderNet

namespace Recipe

variable {α σ : Type}

def follow (answer : String → Except Failure (Option Expression)) : Recipe α → Except Failure α
  | .done a => .ok a
  | .fail e => .error e
  | .ask name next =>
    match answer name with
    | .ok e => (next e).follow answer
    | .error e => .error e

theorem followMono {f g : String → Except Failure (Option Expression)}
    (more : ∀ name e, f name = .ok e → g name = .ok e) {r : Recipe α} {a : α}
    (ok : r.follow f = .ok a) : r.follow g = .ok a := by
  induction r with
  | done result => exact ok
  | fail e => cases ok
  | ask name next ih =>
    simp only [follow] at ok ⊢
    split at ok <;> try contradiction
    rename_i e answered
    rw [more name e answered]
    exact ih e ok

theorem runKeeps {kept : σ → Prop} {answer : String → σ → Except Failure (Option Expression) × σ}
    (keeps : ∀ name s, kept s → kept (answer name s).2) (r : Recipe α) {s : σ} (start : kept s) :
    kept (r.run answer s).2 := by
  induction r generalizing s with
  | done result => exact start
  | fail e => exact start
  | ask name next ih =>
    have now := keeps name s start
    simp only [run]
    split <;> rename_i answered <;> rw [answered] at now
    · exact ih _ now
    · exact now

end Recipe

namespace Scene

def input (scene : Scene) (produce : String → Except Failure Compiled) (node : Node)
    (detached : Option String) (name : String) : Except Failure (Option Expression) :=
  if detached = some name then .ok none
  else match scene.net.feeder? ⟨node.id, name⟩ with
    | none => .ok none
    | some c =>
      match produce c.source.node with
      | .error e => .error e
      | .ok result =>
        match result.outputs.get? c.source.name with
        | some e => .ok (some e)
        | none => .error (.socketMissing c.source.node c.source.name)

def made (scene : Scene) (produce : String → Except Failure Compiled) (id : String) :
    Except Failure Compiled :=
  match scene.net.node id with
  | .error e => .error e
  | .ok node =>
    match scene.registry.kind node.type with
    | .error e => .error e
    | .ok kind =>
      (kind.compile scene.surroundings node).follow (scene.input produce node none)

def idle (scene : Scene) (path : List String) : Nat :=
  (scene.net.nodes.keys.filter fun id => id ∉ path).length

theorem idleFewer {scene : Scene} {path : List String} {id : String} {node : Node}
    (found : scene.net.node id = .ok node) (fresh : id ∉ path) :
    scene.idle (path ++ [id]) < scene.idle path := by
  have split : (scene.net.nodes.keys.filter fun k => k ∉ path ++ [id]) =
      (scene.net.nodes.keys.filter fun k => k ∉ path).filter fun k => k ≠ id := by
    rw [List.filter_filter]
    refine List.filter_congr fun k _ => ?_
    simp only [List.mem_append, List.mem_singleton, not_or, Bool.decide_and, ne_eq]
    exact Bool.and_comm _ _
  have present : id ∈ scene.net.nodes.keys := by
    refine Table.memKeys.mpr ⟨node, ?_⟩
    unfold Net.node Net.node? at found
    split at found <;> cases found
    assumption
  rw [idle, idle, split]
  refine List.length_filter_lt_length_iff_exists.mpr ⟨id, ?_, by simp⟩
  exact List.mem_filter.mpr ⟨present, by simpa using fresh⟩

def evaluate (scene : Scene) (path : List String) (id : String) : Except Failure Compiled :=
  match _found : scene.net.node id with
  | .error e => .error e
  | .ok _ =>
    if _waits : id ∈ path then .error (.cyclic (cycle path id))
    else scene.made (fun source => scene.evaluate (path ++ [id]) source) id
termination_by scene.idle path
decreasing_by exact idleFewer _found _waits

def attempt (scene : Scene) : Nat → String → Except Failure Compiled
  | 0, id => .error (.cyclic [id])
  | depth + 1, id => scene.made (scene.attempt depth) id

theorem evaluateMissing {scene : Scene} {path id e} (missing : scene.net.node id = .error e) :
    scene.evaluate path id = .error e := by
  rw [evaluate]
  split
  · rename_i found
    rw [missing] at found
    cases found
    rfl
  · rename_i found
    rw [missing] at found
    cases found

theorem evaluateStack {scene : Scene} {path id node} (found : scene.net.node id = .ok node)
    (waits : id ∈ path) : scene.evaluate path id = .error (.cyclic (cycle path id)) := by
  rw [evaluate]
  split
  · rename_i missing
    rw [found] at missing
    cases missing
  · rw [dif_pos waits]

theorem evaluateMade {scene : Scene} {path id} (fresh : id ∉ path) :
    scene.evaluate path id = scene.made (scene.evaluate (path ++ [id])) id := by
  cases found : scene.net.node id with
  | error e => rw [evaluateMissing found, made, found]
  | ok node =>
    rw [evaluate]
    split
    · rename_i missing
      rw [found] at missing
      cases missing
    · rw [dif_neg fresh]

/-! More sources, more results -/

theorem inputMono {scene : Scene} {p q : String → Except Failure Compiled}
    (more : ∀ id c, p id = .ok c → q id = .ok c) {node detached name e}
    (ok : scene.input p node detached name = .ok e) : scene.input q node detached name = .ok e := by
  unfold input at ok ⊢
  split at ok
  · rw [if_pos (by assumption)]
    exact ok
  · rw [if_neg (by assumption)]
    split at ok
    · exact ok
    · split at ok <;> try contradiction
      rename_i result produced
      rw [more _ _ produced]
      exact ok

theorem madeMono {scene : Scene} {p q : String → Except Failure Compiled}
    (more : ∀ id c, p id = .ok c → q id = .ok c) {id c} (ok : scene.made p id = .ok c) :
    scene.made q id = .ok c := by
  unfold made at ok ⊢
  split at ok <;> try contradiction
  split at ok <;> try contradiction
  exact Recipe.followMono (fun _ _ => inputMono more) ok

theorem attemptMono {scene : Scene} {depth id c} (ok : scene.attempt depth id = .ok c) :
    scene.attempt (depth + 1) id = .ok c := by
  induction depth generalizing id c with
  | zero => cases ok
  | succ depth ih => exact madeMono (fun _ _ => ih) ok

theorem attemptDeeper {scene : Scene} {depth more id c} (within : depth ≤ more)
    (ok : scene.attempt depth id = .ok c) : scene.attempt more id = .ok c := by
  induction within with
  | refl => exact ok
  | step _ ih => exact attemptMono ih

theorem attemptUnique {scene : Scene} {depth other id c d} (left : scene.attempt depth id = .ok c)
    (right : scene.attempt other id = .ok d) : c = d := by
  have left := attemptDeeper (Nat.le_max_left depth other) left
  have right := attemptDeeper (Nat.le_max_right depth other) right
  exact Except.ok.inj (left.symm.trans right)

/-! Depth and path tell the same -/

theorem evaluateFound {scene : Scene} {path id c} (ok : scene.evaluate path id = .ok c) :
    (∃ node, scene.net.node id = .ok node) ∧ id ∉ path := by
  cases found : scene.net.node id with
  | error e =>
    rw [evaluateMissing found] at ok
    cases ok
  | ok node =>
    refine ⟨⟨node, rfl⟩, fun waits => ?_⟩
    rw [evaluateStack found waits] at ok
    cases ok

theorem attemptOfEvaluate {scene : Scene} {path id c} (ok : scene.evaluate path id = .ok c) :
    scene.attempt (scene.idle path + 1) id = .ok c := by
  induction bound : scene.idle path using Nat.strongRecOn generalizing path id c with
  | ind depth ih =>
    obtain ⟨⟨node, found⟩, fresh⟩ := evaluateFound ok
    have fewer := idleFewer found fresh
    rw [evaluateMade fresh] at ok
    refine madeMono (fun source d produced => ?_) ok
    exact attemptDeeper (by omega) (ih _ (by omega) produced rfl)

/- A node on the path that can be made within the same depth might be needed to make this one, and
then the path would be closed. Where none can, the depth shrinks at every source. If the depth is
not the least one for the node, a smaller one does. -/
theorem evaluateOfAttempt {scene : Scene} {depth path id c} (ok : scene.attempt depth id = .ok c)
    (apart : ∀ p ∈ path, ∀ d, scene.attempt depth p ≠ .ok d) : scene.evaluate path id = .ok c := by
  induction depth generalizing path id c with
  | zero => cases ok
  | succ depth ih =>
    have below : ∀ p ∈ path, ∀ d, scene.attempt depth p ≠ .ok d :=
      fun p member d made => apart p member d (attemptMono made)
    cases earlier : scene.attempt depth id with
    | ok d =>
      rw [attemptUnique ok earlier]
      exact ih earlier below
    | error e =>
      have fresh : id ∉ path := fun member => apart id member c ok
      rw [evaluateMade fresh]
      refine madeMono (fun source d produced => ih produced ?_) ok
      intro p member
      rcases List.mem_append.mp member with member | last
      · exact below p member
      · rw [List.mem_singleton.mp last, earlier]
        intro d impossible
        cases impossible

theorem evaluateIff {scene : Scene} {id c} :
    scene.evaluate [] id = .ok c ↔ ∃ depth, scene.attempt depth id = .ok c :=
  ⟨fun ok => ⟨_, attemptOfEvaluate ok⟩, fun ⟨_, ok⟩ => evaluateOfAttempt ok (by simp)⟩

/-- Every node of a path needs the node: whatever can be made of the path within some depth, the node
can be made within less. -/
def Needed (scene : Scene) (path : List String) (id : String) : Prop :=
  ∀ p ∈ path, ∀ depth d, scene.attempt (depth + 1) p = .ok d → ∃ c, scene.attempt depth id = .ok c

theorem evaluateUnder {scene : Scene} {path id c} (ok : scene.evaluate [] id = .ok c)
    (needed : scene.Needed path id) : scene.evaluate path id = .ok c := by
  have reached : ∃ depth, scene.attempt depth id = .ok c := evaluateIff.mp ok
  -- the least depth at which the node can be made is out of reach for all that wait for it
  cases least : Nat.find reached with
  | zero =>
    have made := Nat.find_spec reached
    rw [least] at made
    cases made
  | succ depth =>
    have made := Nat.find_spec reached
    rw [least] at made
    refine evaluateOfAttempt made fun p member d stack => ?_
    obtain ⟨c', earlier⟩ := needed p member depth d stack
    have same := attemptUnique made earlier
    subst same
    exact Nat.find_min reached (by omega) earlier

end Scene
end ShaderNet
