import ShaderNet.Proofs.Session.Steps
import ShaderNet.Proofs.Workspace.Shader

/-! Questions between two shaders. They change nothing but what is kept, and more is kept after more
of them. A shader declares whatever is kept of the nodes it is made from, needed or not; so questions
show in its text exactly if one of those nodes has something to declare and is not needed. -/
namespace ShaderNet

namespace Workspace

def Kept (w : Workspace) (cache : Cache) : Prop :=
  w.scene.Working [] cache ∧ w.scene.Grown w.cache.results cache.results

variable {w v : Workspace}

theorem keptLasting (w : Workspace) : w.Lasting w.Kept where
  compiles id cache kept := ⟨Scene.compileWorking id cache kept.1,
    kept.2.trans (Scene.compileFilled id cache kept.1.keeps).grown⟩
  seen _ kept := ⟨⟨kept.1.stack, kept.1.keeps⟩, kept.2⟩

theorem keptNow (working : w.scene.Working [] w.cache) : w.Kept w.cache :=
  ⟨working, Scene.grownRefl _ _⟩

/-! Shaders after questions -/

theorem Asked.evaluates (asked : Asked w.Kept w v) (id : String) :
    (v.compile id).1 = w.scene.evaluate [] id := by
  rw [compileAnswer, asked.compiles]
  exact (Scene.compileMatches asked.kept.1 id).1

theorem shaderCases (w : Workspace) (id : String) :
    (∃ e, ∀ v, Asked w.Kept w v → (v.shader id).1 = .error e) ∨
    ∃ result color, w.scene.evaluate [] id = .ok result ∧ ∀ v, Asked w.Kept w v →
      (v.shader id).1 = .ok (w.shaderText id color (w.declaredAfter v id)) := by
  cases evaluated : w.scene.evaluate [] id with
  | error e =>
    refine .inl ⟨e, fun v asked => ?_⟩
    rw [shaderAnswer, asked.evaluates, evaluated]
    rfl
  | ok result =>
    have answers : ∀ v, Asked w.Kept w v → (v.shader id).1 = (firstColor id result).map fun color =>
        w.shaderText id color.text (w.declaredAfter v id) := by
      intro v asked
      rw [shaderAnswer, asked.evaluates, evaluated]
      simp only [Except.bind, asked.shaderText w.keptLasting]
    cases shown : firstColor id result with
    | error e =>
      refine .inl ⟨e, fun v asked => ?_⟩
      rw [answers v asked, shown]
      rfl
    | ok color =>
      refine .inr ⟨result, color.text, rfl, fun v asked => ?_⟩
      rw [answers v asked, shown]
      rfl

/- What is not kept for a node has nothing to declare. -/
def Unneeded (w : Workspace) (id : String) : Prop :=
  ∀ k ∈ w.net.upstreamOrder id, (w.compile id).2.cache.results.get? k = none →
    ∀ c, (w.compile k).1 = .ok c → c.bindings = []

theorem Asked.declares (asked : Asked w.Kept w v) {id : String} {result : Compiled}
    (working : w.scene.Working [] w.cache) (ok : w.scene.evaluate [] id = .ok result) {k : String}
    {c : Compiled} (found : (w.scene.compile id w.cache).2.results.get? k = some c) :
    (w.scene.compile id v.cache).2.results.get? k = some c := by
  have first := (Scene.compileMatches working id).1.trans ok
  have second := (Scene.compileMatches asked.kept.1 id).1.trans ok
  exact Scene.compileMore asked.kept.1.keeps working.keeps asked.kept.2 first second found

theorem Asked.sameDeclared (asked : Asked w.Kept w v) {id : String} {result : Compiled}
    (working : w.scene.Working [] w.cache) (ok : w.scene.evaluate [] id = .ok result)
    (unneeded : w.Unneeded id) : w.declaredAfter v id = w.declaredAfter w id := by
  rw [declaredAfter, declaredAfter, declaredEach, declaredEach]
  refine List.flatMap_congr fun k member => ?_
  cases found : (w.scene.compile id w.cache).2.results.get? k with
  | some c => simp only [declaredBy, found, asked.declares working ok found]
  | none =>
    cases later : (w.scene.compile id v.cache).2.results.get? k with
    | none => simp only [declaredBy, found, later]
    | some c =>
      have right := (Scene.compileWorking id v.cache asked.kept.1).keeps k c later
      have empty := unneeded k member (by rw [compileResults, found]) c
        (((askedRefl (keptNow working)).evaluates k).trans right)
      simp [declaredBy, found, later, empty]

end Workspace

namespace Session
open Workspace

theorem runAsked {w : Workspace} {s : Session} (asked : Asked w.Kept w s.workspace)
    {requests : List Request} (questions : ∀ request ∈ requests, request.isQuestion = true) :
    Asked w.Kept w (s.run requests).workspace := by
  induction requests generalizing s with
  | nil => exact asked
  | cons request rest ih =>
    have first := answerAsked w.keptLasting asked (questions request List.mem_cons_self)
    exact ih first (s := (s.handle request).2) fun r member =>
      questions r (List.mem_cons_of_mem _ member)

theorem questionShows {s : Session} {id k : String} {c result : Compiled}
    (working : s.workspace.scene.Working [] s.workspace.cache)
    (ok : s.workspace.scene.evaluate [] id = .ok result) (member : k ∈ s.workspace.net.upstreamOrder id)
    (absent : (s.workspace.compile id).2.cache.results.get? k = none)
    (compiled : (s.workspace.compile k).1 = .ok c) (declares : c.bindings ≠ []) :
    room (s.workspace.declaredAfter s.workspace id) <
      room (s.workspace.declaredAfter (s.run [.compile k]).workspace id) := by
  have asked : Asked s.workspace.Kept s.workspace (s.run [.compile k]).workspace :=
    runAsked (askedRefl (keptNow working)) (by simp [Request.isQuestion])
  have results : (s.run [.compile k]).workspace.cache.results =
      (s.workspace.scene.compile k s.workspace.cache).2.results := by
    have told := compileResults s.workspace k
    simp only [run, handle, answer]
    split <;> rename_i answered <;> rw [answered] at told <;> exact told
  rw [compileAnswer] at compiled
  rw [compileResults] at absent
  have found := (Scene.compileFilled k s.workspace.cache working.keeps).kept c compiled
  rw [← results] at found
  refine roomLess (fun _ _ => asked.declares working ok) member absent ?_ declares
  exact (Scene.compileFilled id _ asked.kept.1.keeps).grown.kept k c found

theorem shaderSteadyIff (requests : List Request) (id : String) :
    let s := (start .empty).run requests
    s.workspace.scene.Working [] s.workspace.cache →
    ((∀ p q : List Request, (∀ r ∈ p, r.isQuestion = true) → (∀ r ∈ q, r.isQuestion = true) →
        ((s.run p).workspace.shader id).1 = ((s.run q).workspace.shader id).1) ↔
      ∀ text, (s.workspace.shader id).1 = .ok text → s.workspace.Unneeded id) := by
  intro s working
  have now := askedRefl (keptNow working)
  have later : ∀ p : List Request, (∀ r ∈ p, r.isQuestion = true) →
      Asked s.workspace.Kept s.workspace (s.run p).workspace := fun _ => runAsked now
  rcases s.workspace.shaderCases id with ⟨e, refused⟩ | ⟨result, color, ok, shown⟩
  · refine ⟨fun _ text told => ?_, fun _ p q left right => ?_⟩
    · rw [refused _ now] at told
      cases told
    · rw [refused _ (later p left), refused _ (later q right)]
  · constructor
    · intro steady _ _ k member absent c compiled
      refine Classical.byContradiction fun declares => ?_
      have question : ∀ r ∈ [Request.compile k], r.isQuestion = true := by simp [Request.isQuestion]
      have texts := steady [] [.compile k] (fun _ impossible => nomatch impossible) question
      rw [shown _ (later _ question), shown (s.run []).workspace now] at texts
      have rooms := sameRoom (Except.ok.inj texts) (by simp [preamble])
      exact absurd rooms (Nat.ne_of_lt (questionShows working ok member absent compiled declares))
    · intro unneeded p q left right
      have unneeded := unneeded _ (shown _ now)
      rw [shown _ (later p left), shown _ (later q right),
        (later p left).sameDeclared working ok unneeded,
        (later q right).sameDeclared working ok unneeded]

def partsRequests : List Request := [
  .insertNode (.named "f" "float"), .insertNode (.named "uv" "uv"),
  .insertNode (.named "n" "normalize"), .insertNode (.named "sp" "split"),
  .insertNode (.named "out" "output"), .addConnection ⟨"uv", "out"⟩ ⟨"n", "x"⟩,
  .addConnection ⟨"n", "out"⟩ ⟨"sp", "vector"⟩]

def partColor : List Request := partsRequests ++ [.addConnection ⟨"sp", "x"⟩ ⟨"out", "color"⟩]

def strayPart : List Request := partsRequests ++
  [.addConnection ⟨"f", "out"⟩ ⟨"out", "color"⟩, .addConnection ⟨"sp", "x"⟩ ⟨"out", "a"⟩]

theorem shaderSteadyPartColor :
    let s := (start .empty).run partColor
    (s.workspace.scene.Working [] s.workspace.cache ∧
      (s.workspace.shader "out").1.toOption.isSome = true) ∧
    ∀ p q : List Request, (∀ r ∈ p, r.isQuestion = true) → (∀ r ∈ q, r.isQuestion = true) →
      ((s.run p).workspace.shader "out").1 = ((s.run q).workspace.shader "out").1 := by
  have ordinary : ∀ request ∈ partColor, request.isOrdinary = true := by decide +kernel
  have apart : Net.Apart ((start .empty).linksAlong partColor) := by decide +kernel
  have working := (runCoherent ⟨Workspace.emptyCoherent _, rfl⟩ apart ordinary
    fun c member => ⟨c, member, rfl, rfl⟩).workspace.working
  refine ⟨⟨working, by decide +kernel⟩, (shaderSteadyIff partColor "out" working).mpr ?_⟩
  intro _ _ k member absent
  have kept : ∀ k ∈ ((start .empty).run partColor).workspace.net.upstreamOrder "out",
      (((start .empty).run partColor).workspace.compile "out").2.cache.results.get? k ≠ none := by
    decide +kernel
  exact absurd absent (kept k member)

theorem shaderShowsQuestions :
    let s := (start .empty).run strayPart
    (s.workspace.shader "out").1 = .ok (textOf (s.workspace.preamble [] ++
      ["    fragColor = vec4(vec3(0.0), 1.0);", "\x7d"])) ∧
    ((s.run [.compile "sp"]).workspace.shader "out").1 = .ok (textOf (s.workspace.preamble [] ++
      ["    vec2 n2_sp_vector = normalize(v_uv);", "    fragColor = vec4(vec3(0.0), 1.0);",
        "\x7d"])) := by
  decide +kernel

end Session
end ShaderNet
