import ShaderNet.Proofs.Evaluate.SelfContained

/-! Results that are made anew. Whatever compiling adds to a cache, however old the rest of it is, is
made from what the cache keeps by then. -/
namespace ShaderNet

namespace Recipe

variable {α σ : Type}

/- `f` tells how a state answers by itself. What it once answers it answers ever after. -/
theorem runFollows {answer : String → σ → Except Failure (Option Expression) × σ} {good : σ → Prop}
    (f : σ → String → Except Failure (Option Expression)) (le : σ → σ → Prop)
    (refl : ∀ s, le s s) (trans : ∀ s t u, le s t → le t u → le s u)
    (lasts : ∀ s t name e, le s t → f s name = .ok e → f t name = .ok e)
    (step : ∀ name s, good s → good (answer name s).2 ∧ le s (answer name s).2 ∧
      ∀ e, (answer name s).1 = .ok e → f (answer name s).2 name = .ok e)
    (r : Recipe α) {s : σ} (start : good s) :
    good (r.run answer s).2 ∧ le s (r.run answer s).2 ∧
      ∀ a, (r.run answer s).1 = .ok a → r.follow (f (r.run answer s).2) = .ok a := by
  induction r generalizing s with
  | done result => exact ⟨start, refl s, fun _ ok => ok⟩
  | fail e => exact ⟨start, refl s, fun _ ok => ok⟩
  | ask name next ih =>
    obtain ⟨now, later, told⟩ := step name s start
    simp only [run]
    split <;> rename_i answered <;> rw [answered] at now later told
    · rename_i e mid
      obtain ⟨good', later', follows⟩ := ih e now
      refine ⟨good', trans _ _ _ later later', fun a ok => ?_⟩
      simp only [follow, lasts _ _ name e later' (told e rfl)]
      exact follows a ok
    · exact ⟨now, later, fun _ impossible => by cases impossible⟩

end Recipe

namespace Scene

variable {scene : Scene} {old mid new : Table String Compiled}

def fromKept (results : Table String Compiled) (id : String) : Except Failure Compiled :=
  match results.get? id with
  | some c => .ok c
  | none => .error (.nodeMissing id)

theorem fromKeptIff {id : String} {c : Compiled} :
    fromKept old id = .ok c ↔ old.get? id = some c := by
  unfold fromKept
  cases old.get? id <;> simp

theorem Within.fromKept (within : Within old new) (id : String) (c : Compiled)
    (kept : fromKept old id = .ok c) : fromKept new id = .ok c :=
  fromKeptIff.mpr (within id c (fromKeptIff.mp kept))

structure Renewed (scene : Scene) (old new : Table String Compiled) : Prop where
  within : Within old new
  made : ∀ k c, new.get? k = some c → old.get? k = none → scene.made (fromKept new) k = .ok c

theorem renewedRefl (scene : Scene) (old : Table String Compiled) : scene.Renewed old old := by
  refine ⟨withinRefl old, fun k c found absent => ?_⟩
  rw [absent] at found
  cases found

theorem Renewed.trans (first : scene.Renewed old mid) (second : scene.Renewed mid new) :
    scene.Renewed old new := by
  refine ⟨first.within.trans second.within, fun k c found absent => ?_⟩
  cases between : mid.get? k with
  | none => exact second.made k c found between
  | some d =>
    cases found.symm.trans (second.within k d between)
    exact madeMono second.within.fromKept (first.made k c between absent)

/- A node that waits has no result, so that storing one takes nothing away. -/
theorem renewedStore {id : String} {c : Compiled} (absent : old.get? id = none)
    (made : scene.made (fromKept old) id = .ok c) : scene.Renewed old (old.insert id c) := by
  have within := withinInsert absent c
  refine ⟨within, fun k d found fresh => ?_⟩
  rw [Table.getInsert] at found
  split at found
  · rename_i same
    cases found
    exact same ▸ madeMono within.fromKept made
  · rw [fresh] at found
    cases found

structure Remade (scene : Scene) (id : String) (old : Cache) (r : Except Failure Compiled × Cache) :
    Prop where
  vacant : Vacant r.2
  stack : r.2.stack = old.stack
  renewed : scene.Renewed old.results r.2.results
  kept : ∀ c, r.1 = .ok c → r.2.results.get? id = some c

section Answers

variable {compile : String → Cache → Except Failure Compiled × Cache}
  (remakes : ∀ id cache, Vacant cache → scene.Remade id cache (compile id cache)) (node : Node)
include remakes

theorem answerRemade {cache : Cache} (vacant : Vacant cache) (name : String) :
    let r := scene.answer compile node none name cache
    (Vacant r.2 ∧ r.2.stack = cache.stack) ∧ scene.Renewed cache.results r.2.results ∧
      ∀ e, r.1 = .ok e → scene.input (fromKept r.2.results) node none name = .ok e := by
  dsimp only
  rcases answerCases compile node none name cache with ⟨same, _, opened⟩ | ⟨c, _, same, source⟩
  · rw [same]
    refine ⟨⟨vacant, rfl⟩, renewedRefl _ _, fun e told => ?_⟩
    cases told
    exact opened _
  · have remade := remakes c.source.node cache vacant
    rw [same]
    refine ⟨⟨remade.vacant, remade.stack⟩, remade.renewed, fun e told => ?_⟩
    obtain ⟨result, compiled, _, input⟩ := source e told
    exact input _ (fromKeptIff.mpr (remade.kept result compiled))

theorem runRemade {α : Type} (r : Recipe α) {cache : Cache} (vacant : Vacant cache) :
    let after := (r.run (scene.answer compile node none) cache).2
    (Vacant after ∧ after.stack = cache.stack) ∧ scene.Renewed cache.results after.results ∧
      ∀ a, (r.run (scene.answer compile node none) cache).1 = .ok a →
        r.follow (scene.input (fromKept after.results) node none) = .ok a := by
  have step : ∀ name (s : Cache), (Vacant s ∧ s.stack = cache.stack) →
      let r := scene.answer compile node none name s
      (Vacant r.2 ∧ r.2.stack = cache.stack) ∧ scene.Renewed s.results r.2.results ∧
        ∀ e, r.1 = .ok e → scene.input (fromKept r.2.results) node none name = .ok e := by
    intro name s ⟨vacant, same⟩
    obtain ⟨⟨vacant', stack⟩, told⟩ := answerRemade remakes node vacant name
    exact ⟨⟨vacant', stack.trans same⟩, told⟩
  exact Recipe.runFollows (fun (s : Cache) => scene.input (fromKept s.results) node none)
    (fun s t => scene.Renewed s.results t.results) (fun s => renewedRefl scene s.results)
    (fun _ _ _ first second => first.trans second)
    (fun _ _ _ _ renewed => inputMono renewed.within.fromKept) step r ⟨vacant, rfl⟩

end Answers

theorem compileWithinRemade (scene : Scene) (budget : Nat) (id : String) (cache : Cache)
    (vacant : Vacant cache) : scene.Remade id cache (scene.compileWithin budget id cache) := by
  induction budget using Nat.strongRecOn generalizing id cache with
  | ind budget ih =>
    rcases scene.compileWithinCases budget id cache with
      ⟨e, same⟩ | ⟨result, kept, same⟩ | ⟨less, node, kind, within, found, known, absent, idle, ran⟩
    · rw [same]
      exact ⟨vacant, rfl, renewedRefl _ _, fun _ impossible => by cases impossible⟩
    · rw [same]
      exact ⟨vacant, rfl, renewedRefl _ _, fun _ same => Except.ok.inj same ▸ kept⟩
    · have entered := enterVacant vacant absent
      obtain ⟨⟨vacant', stack⟩, renewed, follows⟩ :=
        runRemade (ih less within) node (kind.compile scene.surroundings node) entered
      rcases ran with ⟨result, after, ran, same⟩ | ⟨e, after, ran, same⟩
      · rw [ran] at vacant' stack renewed follows
        rw [same]
        have made : scene.made (fromKept after.results) id = .ok result := by
          simp only [Scene.made, found, known]
          exact follows result rfl
        have stored := renewedStore (enteredAbsent vacant' stack) made
        refine ⟨storeVacant vacant' stack idle result, leaveStack stack, renewed.trans stored,
          fun c same => ?_⟩
        cases same
        exact (Table.getInsert ..).trans (if_pos rfl)
      · rw [ran] at vacant' stack renewed
        rw [same]
        exact ⟨leaveVacant vacant' stack, leaveStack stack, renewed,
          fun _ impossible => by cases impossible⟩

theorem compileRemade (scene : Scene) (id : String) {cache : Cache} (idle : cache.stack = []) :
    scene.Remade id cache (scene.compile id cache) :=
  compileWithinRemade scene _ id cache (idleVacant idle)

end Scene
end ShaderNet
