import ShaderNet.Proofs.Evaluate.CacheGrowth
import ShaderNet.Proofs.Net.Unambiguous
import ShaderNet.Proofs.NodeKind.Asks

/-! One input is fed anew. Results that no longer hold are told of, the new source is made to what it
was made to, and so is every node that the one with the input cannot do without. -/
namespace ShaderNet

namespace Net

structure Rewired (n : Net) (c : Connection) (after : Net) : Prop where
  sound : after.Sound
  nodes : after.nodes = n.nodes
  uniforms : after.uniforms = n.uniforms
  here : after.feeder? c.target = some c
  others : ∀ input, input ≠ c.target → after.feeder? input = n.feeder? input

theorem insertConnectionRewired {n after : Net} (sound : n.Sound) {c : Connection} {changes : Changes}
    (ok : n.insertConnection c = .ok (after, changes)) : Rewired n c after := by
  have sound' := insertConnectionSound sound ok
  obtain ⟨⟨_, _, absent, _⟩, e⟩ := insertConnectionIff.mp ok
  cases e
  have perm := linkedPerm absent
  refine ⟨sound', rfl, rfl, ?_, fun input other => ?_⟩
  · exact (feederIff sound'.toIndexed).mpr ⟨perm.mem_iff.mpr List.mem_cons_self, rfl⟩
  · refine Scene.feederCongr sound.toIndexed sound'.toIndexed fun d ends => ?_
    rw [perm.mem_iff, List.mem_cons]
    exact or_iff_right fun same => other (by rw [← ends, same])

theorem removeConnectionFeeder {n : Net} (sound : n.Sound) {old : Connection} {input : Socket}
    (fed : n.feeder? old.target = some old) (other : input ≠ old.target) :
    (n.removeConnection old.id).1.feeder? input = n.feeder? input := by
  have sound' := removeConnectionSound sound old.id
  obtain ⟨member, _⟩ := (feederIff sound.toIndexed).mp fed
  rw [removeConnectionFound sound.toIndexed ((memConnections sound.toIndexed).mp member)] at sound' ⊢
  refine Scene.feederCongr sound.toIndexed sound'.toIndexed fun d ends => ?_
  rw [memUnlinked sound.toIndexed member]
  exact and_iff_left fun same => other (by rw [← ends, same])

theorem connectRewired {n after : Net} (sound : n.Sound) {c : Connection} {changes : Changes}
    (done : n.connect c = (.ok changes, after)) :
    Rewired n c after ∧ ∀ p x, Scene.Stable ⟨n, p, x⟩ ⟨after, p, x⟩ changes.invalidated := by
  rcases connectCases n c with
    ⟨e, refused⟩ | ⟨m, added, ok, accepted⟩ | ⟨old, fed, different, ends, replaced⟩
  · cases refused.symm.trans done
  · cases accepted.symm.trans done
    exact ⟨insertConnectionRewired sound ok, fun _ _ => Scene.insertConnectionStable sound ok⟩
  · rcases replaced with ⟨m, added, ok, accepted⟩ | ⟨e, _, refused⟩
    · cases accepted.symm.trans done
      have sound' := removeConnectionSound sound old.id
      have frame := removeConnectionOnlyLinks n old.id
      have rewired := insertConnectionRewired sound' ok
      have target := ((feederIff sound.toIndexed).mp fed).2
      refine ⟨⟨rewired.sound, rewired.nodes.trans frame.nodes, rewired.uniforms.trans frame.uniforms,
        rewired.here, fun input other => ?_⟩, fun p x => ?_⟩
      · rw [rewired.others input other]
        exact removeConnectionFeeder sound (by rw [target]; exact fed) (target ▸ other)
      · exact Scene.stableAppend (Scene.removeConnectionStable sound old.id)
          (Scene.insertConnectionStable sound' ok)
    · cases refused.symm.trans done

end Net

namespace Scene

theorem evaluateIffMade {scene : Scene} {id : String} {c : Compiled} :
    scene.evaluate [] id = .ok c ↔ scene.made (scene.evaluate []) id = .ok c := by
  refine ⟨fun ok => ?_, evaluateOfMade⟩
  rw [evaluateMade List.not_mem_nil] at ok
  exact madeMono (fun _ _ produced => evaluateIff.mpr ⟨_, attemptOfEvaluate produced⟩) ok

theorem socketsMatches {scene : Scene} {cache : Cache} (working : scene.Working [] cache)
    (kind : NodeKind) (node : Node) (detached : Option String) :
    (scene.sockets kind node detached cache).1 = (kind.sockets scene.surroundings node).follow
        (scene.input (scene.evaluate []) node detached) ∧
      scene.Working [] (scene.sockets kind node detached cache).2 := by
  have agree : ∀ name, (∀ depth : Nat, False → ∃ e,
      scene.input (scene.evaluate []) node detached name = .ok e) → ∀ s, scene.Working [] s →
      (scene.answer scene.compile node detached name s).1 =
        scene.input (scene.evaluate []) node detached name ∧
      scene.Working [] (scene.answer scene.compile node detached name s).2 :=
    fun name _ s good => answerInput (fun c _ => compileMatches good _) good
  exact Recipe.runFollow agree (fun _ _ _ _ left right => Except.ok.inj (left.symm.trans right)) _
    (fun _ impossible => impossible.elim) working

section Rewired

variable {n after : Net} {c : Connection} {p : Registry} {x : Exports}

theorem rewiredUnchanged (rewired : n.Rewired c after) {k : String} (other : k ≠ c.target.node) :
    Unchanged ⟨n, p, x⟩ ⟨after, p, x⟩ k := by
  refine unchangedNode rfl ?_ (by rw [rewired.nodes]) fun name => ?_
  · simp only [surroundings, rewired.uniforms]
  · rw [rewired.others ⟨k, name⟩ fun same => other (by rw [← same])]

theorem rewiredSource (sound : n.Sound) (rewired : n.Rewired c after) {id : String} {d : Compiled}
    (free : (n.downstreamClosure [c.target.node]).contains id = false)
    (ok : (Scene.mk n p x).evaluate [] id = .ok d) : (Scene.mk after p x).evaluate [] id = .ok d := by
  have unchanged : ∀ k, (n.downstreamClosure [c.target.node]).contains k = false →
      Unchanged ⟨n, p, x⟩ ⟨after, p, x⟩ k := by
    refine fun k free => rewiredUnchanged rewired fun same => ?_
    exact Net.unaffected sound.toIndexed free (by simp [same])
  refine evaluateUnchanged sound rewired.sound unchanged (fun d member free => ?_) free ok
  refine Bool.not_eq_true _ ▸ fun affected => ?_
  rw [Net.downstreamClosed sound.toIndexed _ d member affected] at free
  cases free

/- A node that the rewired one asks for whenever it is made is made from nodes other than that. -/
theorem rewiredNeeded (sound : n.Sound) (rewired : n.Rewired c after) {id : String} {d : Compiled}
    (needed : ∀ depth e, (Scene.mk n p x).attempt (depth + 1) c.target.node = .ok e →
      ∃ e', (Scene.mk n p x).attempt depth id = .ok e')
    (ok : (Scene.mk n p x).evaluate [] id = .ok d) : (Scene.mk after p x).evaluate [] id = .ok d := by
  have reached : ∃ depth, (Scene.mk n p x).attempt depth id = .ok d := evaluateIff.mp ok
  have unchanged := fun k => @rewiredUnchanged n after c p x rewired k
  refine evaluateIff.mpr ⟨Nat.find reached, attemptWithout sound rewired.sound unchanged ?_
    (Nat.find_spec reached)⟩
  intro less within e made
  cases less with
  | zero => cases made
  | succ less =>
    obtain ⟨e', earlier⟩ := needed less e made
    cases attemptUnique (Nat.find_spec reached) earlier
    exact Nat.find_min reached within earlier

theorem rewiredMade (rewired : n.Rewired c after) {node : Node} {kind : NodeKind}
    (found : n.node c.target.node = .ok node) (known : p.kind node.type = .ok kind) {d : Compiled} :
    (Scene.mk after p x).evaluate [] c.target.node = .ok d ↔
      (kind.compile (Scene.mk n p x).surroundings node).follow
        ((Scene.mk after p x).input ((Scene.mk after p x).evaluate []) node none) = .ok d := by
  have found' : (Scene.mk after p x).net.node c.target.node = .ok node := by
    rw [Net.node, Net.node?] at found ⊢
    rw [show (Scene.mk after p x).net.nodes = n.nodes from rewired.nodes]
    exact found
  have surroundings : (Scene.mk after p x).surroundings = (Scene.mk n p x).surroundings := by
    simp only [Scene.surroundings, rewired.uniforms]
  rw [evaluateIffMade]
  simp only [made, found', known, surroundings]

/- Of the inputs that the rewired node asks for, all but the one that is fed anew are told as before. -/
theorem rewiredAnswer (sound : n.Sound) (rewired : n.Rewired c after) {node : Node} {kind : NodeKind}
    (found : n.node c.target.node = .ok node) (known : p.kind node.type = .ok kind)
    {names : List String} (asks : (kind.compile (Scene.mk n p x).surroundings node).Asks names)
    {name : String} (listed : name ∈ names) (other : name ≠ c.target.name) {answer : Option Expression}
    (told : (Scene.mk n p x).input ((Scene.mk n p x).evaluate []) node none name = .ok answer) :
    (Scene.mk after p x).input ((Scene.mk after p x).evaluate []) node none name = .ok answer := by
  obtain ⟨same, _⟩ := Net.nodePresent sound found
  have feeder : after.feeder? ⟨node.id, name⟩ = n.feeder? ⟨node.id, name⟩ :=
    rewired.others _ fun here => other (congrArg Socket.name here)
  cases fed : n.feeder? ⟨node.id, name⟩ with
  | none =>
    simp only [input, reduceCtorEq, if_false, fed] at told
    simp only [input, reduceCtorEq, if_false, feeder, fed]
    exact told
  | some d =>
    obtain ⟨result, made⟩ := inputSource fed told
    have now : (Scene.mk after p x).evaluate [] d.source.node = .ok result := by
      refine rewiredNeeded sound rewired (fun depth e ok => ?_) made
      have found' : (Scene.mk n p x).net.node c.target.node = .ok node := found
      simp only [attempt, Scene.made, found', known] at ok
      obtain ⟨_, asked⟩ := Recipe.asksAnswered asks ok name listed
      exact inputSource fed asked
    simp only [input, reduceCtorEq, if_false, fed, made] at told
    simp only [input, reduceCtorEq, if_false, feeder, fed, now]
    exact told

end Rewired
end Scene
end ShaderNet
