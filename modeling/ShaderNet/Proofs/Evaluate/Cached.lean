import ShaderNet.Proofs.Evaluate.Reference
import ShaderNet.Proofs.Net.Edits

/-! Results that are kept change nothing but the work. A result is found before the path is looked at,
so the argument is about the path: what waits for a node is made deeper than the node, and no node
that can be made leads back to one that waits. -/
namespace ShaderNet

namespace Recipe

variable {α σ : Type}

/- `g` are the ways to answer within a depth, `within` the depths that are enough for all of the
recipe. Whoever runs the recipe has to answer only what is asked at every such depth. -/
theorem runFollow {answer : String → σ → Except Failure (Option Expression) × σ}
    {f : String → Except Failure (Option Expression)}
    {g : Nat → String → Except Failure (Option Expression)} {within : Nat → Prop} {good : σ → Prop}
    (agree : ∀ name, (∀ depth, within depth → ∃ e, g depth name = .ok e) →
      ∀ s, good s → (answer name s).1 = f name ∧ good (answer name s).2)
    (same : ∀ name e depth e', f name = .ok e → g depth name = .ok e' → e = e')
    (r : Recipe α) (reach : ∀ depth, within depth → ∃ a, r.follow (g depth) = .ok a) {s : σ}
    (start : good s) : (r.run answer s).1 = r.follow f ∧ good (r.run answer s).2 := by
  induction r generalizing s with
  | done a => exact ⟨rfl, start⟩
  | fail e => exact ⟨rfl, start⟩
  | ask name next ih =>
    have asked : ∀ depth, within depth → ∃ e, g depth name = .ok e ∧
        ∃ a, (next e).follow (g depth) = .ok a := by
      intro depth enough
      obtain ⟨a, ok⟩ := reach depth enough
      simp only [follow] at ok
      split at ok <;> try contradiction
      rename_i e answered
      exact ⟨e, answered, a, ok⟩
    obtain ⟨told, now⟩ := agree name (fun depth enough => (asked depth enough).imp fun _ h => h.1) s
      start
    simp only [run, follow]
    rw [← told]
    split
    · rename_i e s' answered
      rw [answered] at told now
      rw [answered]
      refine ih e (fun depth enough => ?_) now
      obtain ⟨e', answered', rest⟩ := asked depth enough
      rw [same name e depth e' told.symm answered']
      exact rest
    · rename_i e s' answered
      rw [answered] at now
      rw [answered]
      exact ⟨rfl, now⟩

end Recipe

namespace Scene

def Keeps (scene : Scene) (results : Table String Compiled) : Prop :=
  ∀ id c, results.get? id = some c → scene.evaluate [] id = .ok c

theorem inputUnique {scene : Scene} {p q : String → Except Failure Compiled}
    (unique : ∀ id c d, p id = .ok c → q id = .ok d → c = d) {node detached name e e'}
    (left : scene.input p node detached name = .ok e)
    (right : scene.input q node detached name = .ok e') : e = e' := by
  unfold input at left right
  split at left
  · rw [if_pos (by assumption)] at right
    exact Except.ok.inj (left.symm.trans right)
  · rw [if_neg (by assumption)] at right
    cases fed : scene.net.feeder? ⟨node.id, name⟩ with
    | none =>
      simp only [fed] at left right
      exact Except.ok.inj (left.symm.trans right)
    | some c =>
      simp only [fed] at left right
      split at left <;> try contradiction
      rename_i result produced
      split at right <;> try contradiction
      rename_i result' produced'
      rw [unique _ _ _ produced produced'] at left
      exact Except.ok.inj (left.symm.trans right)

theorem inputSource {scene : Scene} {p : String → Except Failure Compiled} {node name e c}
    (fed : scene.net.feeder? ⟨node.id, name⟩ = some c)
    (ok : scene.input p node none name = .ok e) : ∃ result, p c.source.node = .ok result := by
  simp only [input, reduceCtorEq, if_false, fed] at ok
  split at ok <;> try contradiction
  exact ⟨_, by assumption⟩

/- The way a node reads its inputs with a cache, against the way it reads them without. -/
theorem answerInput {scene : Scene} {compile : String → Cache → Except Failure Compiled × Cache}
    {produce : String → Except Failure Compiled} {good : Cache → Prop} {node detached name cache}
    (agree : ∀ c, scene.net.feeder? ⟨node.id, name⟩ = some c →
      (compile c.source.node cache).1 = produce c.source.node ∧ good (compile c.source.node cache).2)
    (start : good cache) :
    (scene.answer compile node detached name cache).1 = scene.input produce node detached name ∧
      good (scene.answer compile node detached name cache).2 := by
  unfold answer input
  split
  · exact ⟨rfl, start⟩
  · cases fed : scene.net.feeder? ⟨node.id, name⟩ with
    | none => exact ⟨rfl, start⟩
    | some c =>
      obtain ⟨told, now⟩ := agree c fed
      dsimp only
      rw [← told]
      cases answered : compile c.source.node cache with
      | mk result after =>
        rw [answered] at now
        cases result with
        | error e => exact ⟨rfl, now⟩
        | ok result =>
          dsimp only
          cases result.outputs.get? c.source.name <;> exact ⟨rfl, now⟩

/-- A cache in the middle of its work: some nodes wait, and all that is kept is right. -/
structure Working (scene : Scene) (path : List String) (cache : Cache) : Prop where
  stack : cache.stack = path
  keeps : scene.Keeps cache.results

theorem emptyWorking (scene : Scene) : scene.Working [] .empty :=
  ⟨rfl, fun _ _ found => nomatch found⟩

theorem neededSource {scene : Scene} {path id} {node : Node} {name} {c : Connection}
    (needed : scene.Needed path id) (fed : scene.net.feeder? ⟨node.id, name⟩ = some c)
    (asked : ∀ depth, (∃ a, scene.attempt (depth + 1) id = .ok a) →
      ∃ e, scene.input (scene.attempt depth) node none name = .ok e) :
    scene.Needed (path ++ [id]) c.source.node := by
  have step : ∀ depth d, scene.attempt (depth + 1) id = .ok d →
      ∃ c', scene.attempt depth c.source.node = .ok c' := by
    intro depth d made
    obtain ⟨e, answered⟩ := asked depth ⟨d, made⟩
    exact inputSource fed answered
  intro p member depth d made
  rcases List.mem_append.mp member with member | last
  · obtain ⟨d', earlier⟩ := needed p member depth d made
    cases depth with
    | zero => cases earlier
    | succ depth =>
      obtain ⟨c', source⟩ := step depth d' earlier
      exact ⟨c', attemptMono source⟩
  · rw [List.mem_singleton.mp last] at made
    exact step depth d made

/- All that comes before the node itself is compiled. -/
theorem compileWithinEarly {scene : Scene} {path id cache} (budget : Nat)
    (working : scene.Working path cache) (needed : scene.Needed path id) :
    ((scene.compileWithin budget id cache).1 = scene.evaluate path id ∧
      scene.Working path (scene.compileWithin budget id cache).2) ∨
    ∃ node kind, scene.net.node id = .ok node ∧ cache.results.get? id = none ∧ id ∉ path ∧
      scene.registry.kind node.type = .ok kind := by
  cases found : scene.net.node id with
  | error e =>
    have step : scene.compileWithin budget id cache = (.error e, cache) := by
      simp only [compileWithin, found]
    rw [step, evaluateMissing found]
    exact .inl ⟨rfl, working⟩
  | ok node =>
    cases kept : cache.results.get? id with
    | some result =>
      have step : scene.compileWithin budget id cache = (.ok result, cache) := by
        simp only [compileWithin, found, kept]
      rw [step, evaluateUnder (working.keeps id result kept) needed]
      exact .inl ⟨rfl, working⟩
    | none =>
      by_cases waits : id ∈ path
      · have step : scene.compileWithin budget id cache =
            (.error (.cyclic (cycle path id)), cache) := by
          simp only [compileWithin, found, kept, working.stack, if_pos waits]
        rw [step, evaluateStack found waits]
        exact .inl ⟨rfl, working⟩
      · cases known : scene.registry.kind node.type with
        | error e =>
          have step : scene.compileWithin budget id cache = (.error e, cache) := by
            simp only [compileWithin, found, kept, working.stack, if_neg waits, known]
          have evaluated : scene.evaluate path id = .error e := by
            simp only [evaluateMade waits, made, found, known]
          rw [step, evaluated]
          exact .inl ⟨rfl, working⟩
        | ok kind => exact .inr ⟨node, kind, rfl, rfl, waits, known⟩

theorem leaveWorking {scene : Scene} {path id cache} (working : scene.Working (path ++ [id]) cache) :
    scene.Working path cache.leave :=
  ⟨(congrArg List.dropLast working.stack).trans (List.dropLast_concat ..), working.keeps⟩

/- The result of a node is the one it would have under an empty path, and may be kept as that. -/
theorem finished {scene : Scene} {path id cache} {c : Compiled} (ok : scene.evaluate path id = .ok c)
    (working : scene.Working (path ++ [id]) cache) :
    scene.Working path (cache.leave.store id c) := by
  refine ⟨(leaveWorking working).stack, fun k d found => ?_⟩
  rw [Cache.store, Table.getInsert] at found
  split at found
  · rename_i same
    cases found
    exact same ▸ evaluateIff.mpr ⟨_, attemptOfEvaluate ok⟩
  · exact working.keeps k d found

theorem compileWithinMatches {scene : Scene} {budget path id cache}
    (working : scene.Working path cache) (needed : scene.Needed path id)
    (enough : scene.idle path ≤ budget) :
    (scene.compileWithin budget id cache).1 = scene.evaluate path id ∧
      scene.Working path (scene.compileWithin budget id cache).2 := by
  induction budget generalizing path id cache with
  | zero =>
    refine (compileWithinEarly 0 working needed).resolve_right ?_
    intro ⟨node, kind, found, _, fresh, _⟩
    have fewer := idleFewer found fresh
    omega
  | succ budget ih =>
    rcases compileWithinEarly (budget + 1) working needed with early | late
    · exact early
    · obtain ⟨node, kind, found, absent, fresh, known⟩ := late
      have fewer := idleFewer found fresh
      have entered : scene.Working (path ++ [id]) (cache.enter id) :=
        ⟨congrArg (· ++ [id]) working.stack, working.keeps⟩
      have agree : ∀ name, (∀ depth, (∃ a, scene.attempt (depth + 1) id = .ok a) →
          ∃ e, scene.input (scene.attempt depth) node none name = .ok e) →
          ∀ s, scene.Working (path ++ [id]) s →
            (scene.answer (scene.compileWithin budget) node none name s).1 =
              scene.input (scene.evaluate (path ++ [id])) node none name ∧
            scene.Working (path ++ [id])
              (scene.answer (scene.compileWithin budget) node none name s).2 :=
        fun name asked s good => answerInput
          (fun c fed => ih good (neededSource needed fed asked) (by omega)) good
      have same : ∀ name e depth e',
          scene.input (scene.evaluate (path ++ [id])) node none name = .ok e →
          scene.input (scene.attempt depth) node none name = .ok e' → e = e' :=
        fun name e depth e' => inputUnique fun _ _ _ left right =>
          attemptUnique (attemptOfEvaluate left) right
      obtain ⟨told, now⟩ := Recipe.runFollow agree same (kind.compile scene.surroundings node)
        (fun depth reached => by simpa only [attempt, made, found, known] using reached) entered
      have evaluated : scene.evaluate path id = (kind.compile scene.surroundings node).follow
          (scene.input (scene.evaluate (path ++ [id])) node none) := by
        simp only [evaluateMade fresh, made, found, known]
      rw [← evaluated] at told
      simp only [compileWithin, found, absent, working.stack, if_neg fresh, known]
      split <;> rename_i ran <;> rw [ran] at told now
      · exact ⟨told, finished told.symm now⟩
      · exact ⟨told, leaveWorking now⟩

theorem neededByNone (scene : Scene) (id : String) : scene.Needed [] id := by
  intro p member
  cases member

theorem compileMatches {scene : Scene} {cache : Cache} (working : scene.Working [] cache)
    (id : String) :
    (scene.compile id cache).1 = scene.evaluate [] id ∧
      scene.Working [] (scene.compile id cache).2 := by
  refine compileWithinMatches working (scene.neededByNone id) ?_
  refine Nat.le_trans (List.length_filter_le _ _) ?_
  simp [Table.keys, Table.size]

theorem cacheTransparent (scene : Scene) (cache : Cache) (id : String) (idle : cache.stack = [])
    (kept : ∀ k c, cache.results.get? k = some c → scene.evaluate [] k = .ok c) :
    (scene.compile id cache).1 = scene.evaluate [] id ∧ (scene.compile id cache).2.stack = [] ∧
      ∀ k c, (scene.compile id cache).2.results.get? k = some c → scene.evaluate [] k = .ok c := by
  obtain ⟨told, now⟩ := compileMatches ⟨idle, kept⟩ id
  exact ⟨told, now.stack, now.keeps⟩

def selfSum : Scene where
  net := Net.empty.run [.insertNode (.named "f" "float"), .insertNode (.named "s" "add"),
    .insertConnection (.between ⟨"f", "out"⟩ ⟨"s", "a"⟩),
    .insertConnection (.between ⟨"s", "out"⟩ ⟨"s", "b"⟩)]
  registry := .standard
  exports := ∅

theorem cacheTransparentSelfSum :
    let cache := (selfSum.compile "f" .empty).2
    (cache.results.keys = ["f"] ∧ (selfSum.compile "s" cache).1 = .error (.cyclic ["s", "s"])) ∧
    (selfSum.compile "s" cache).1 = selfSum.evaluate [] "s" ∧
    (selfSum.compile "s" cache).2.stack = [] ∧
    ∀ k c, (selfSum.compile "s" cache).2.results.get? k = some c → selfSum.evaluate [] k = .ok c := by
  have first := cacheTransparent selfSum .empty "f" rfl (fun _ _ found => by cases found)
  exact ⟨by decide +kernel, cacheTransparent selfSum _ "s" first.2.1 first.2.2⟩

end Scene
end ShaderNet
