import ShaderNet.Proofs.Evaluate.Offered
import ShaderNet.Proofs.NodeKind.Minus
import ShaderNet.Proofs.Session.Connectable
import ShaderNet.Proofs.Session.Each
import ShaderNet.Proofs.Session.Readers
import ShaderNet.Proofs.Workspace.Upstream

/-! Minus signs side by side in sessions. They appear where a node negates an expression that begins with a
minus sign, which is always a number's, and nowhere else. -/
namespace ShaderNet
open Fragment (Apart Inner Signed)
open Relation (ReflTransGen)

def negatesNumber (before behind : Option Char) : Prop :=
  before = some '(' ∧ ∃ d, behind = some d ∧ d.isDigit = true

theorem negatesNumberInner : Inner negatesNumber where
  first := fun _ negates => by cases negates.1
  last := fun _ ⟨_, _, impossible, _⟩ => by cases impossible

theorem neverInner : Inner fun _ _ => False := ⟨fun _ never => never, fun _ never => never⟩

def Compiled.Fuses (c : Compiled) : Prop :=
  (∃ b ∈ c.bindings, ['-', '-'] <:+: b.text.toList) ∨
    ∃ socket e, c.outputs.get? socket = some e ∧ ['-', '-'] <:+: e.text.toList

theorem Fragment.apartNever {text : List Char} (apart : Apart (fun _ _ => False) text) :
    ¬ ['-', '-'] <:+: text := by
  rintro ⟨before, behind, same⟩
  exact apart before behind (by rw [← same]; simp)

theorem Compiled.apartNever {c : Compiled}
    (apart : c.All (fun b => Apart (fun _ _ => False) b.text.toList)
      fun e => Apart (fun _ _ => False) e.text.toList) : ¬ c.Fuses := by
  rintro (⟨b, member, pair⟩ | ⟨socket, e, found, pair⟩)
  · exact Fragment.apartNever (apart.bindings b member) pair
  · exact Fragment.apartNever (apart.outputs socket e found) pair

namespace NodeKind

theorem negateOk {node : Node} {g : String → Except Failure (Option Expression)} {c : Compiled} :
    (compileNegate node).follow g = .ok c ↔ ∃ a, g "a" = .ok (some a) ∧
      c = .single "out" (.compound a.type ("(-" ++ a.text ++ ")")) := by
  constructor
  · intro ok
    obtain ⟨a, fed, ok⟩ := Recipe.followBindOk ok
    cases ok
    exact ⟨a, operandOk fed, rfl⟩
  · rintro ⟨a, fed, rfl⟩
    have operand : (operand node "a").follow g = .ok a := by
      rw [NodeKind.operand, Recipe.followBind, Recipe.followInput, fed]
      rfl
    exact Recipe.followOn operand _

end NodeKind

namespace Scene

variable {scene : Scene}

def NegatesSigned (scene : Scene) (delivers : Socket → Expression → Prop) (id : String) : Prop :=
  ∃ node c e, scene.net.node id = .ok node ∧ scene.registry.kind node.type = .ok .negate ∧
    scene.net.feeder? ⟨id, "a"⟩ = some c ∧ delivers c.source e ∧ e.text.toList.head? = some '-'

theorem minusPasses (registry : scene.registry.Named) (exports : scene.exports.Named) :
    scene.Passes (fun _ e => Apart negatesNumber e.text.toList ∧ Signed e.text.toList)
      fun _ => Compiled.All (fun b => Apart negatesNumber b.text.toList)
        fun e => Apart negatesNumber e.text.toList ∧ Signed e.text.toList := by
  refine passesAll (fun node kind e known yields => ?_) ?_
  · have named := registry _ kind known
    refine ⟨NodeKind.yieldsApart negatesNumberInner (fun _ => And.left) named exports ?_ yields,
      NodeKind.yieldsSigned named exports (fun _ => And.right) yields⟩
    exact fun _ e fed rest same => ⟨rfl, fed.2 rest same⟩
  · rintro node b ⟨e, size, fed, _, _, rfl⟩
    exact fed.1

/- Where nothing is negated that begins with a minus sign, what comes of inputs without two of them side by
side has no two of them side by side. -/
theorem madeApart (registry : scene.registry.Named) (exports : scene.exports.Named)
    {produce : String → Except Failure Compiled} {id : String} {c : Compiled}
    (ok : scene.made produce id = .ok c)
    (fed : ∀ node name e, scene.net.node id = .ok node →
      scene.input produce node none name = .ok (some e) →
      Apart (fun _ _ => False) e.text.toList ∧ (scene.registry.kind node.type = .ok .negate →
        name = "a" → e.text.toList.head? ≠ some '-')) : ¬ c.Fuses := by
  obtain ⟨node, kind, found, known, followed⟩ := madeParts ok
  have fed := fun name e => fed node name e found
  by_cases negates : kind = .negate
  · subst negates
    obtain ⟨a, told, rfl⟩ := NodeKind.negateOk.mp followed
    obtain ⟨apart, unsigned⟩ := fed "a" a told
    refine Compiled.apartNever (Compiled.singleAll "out" ?_)
    have text : ("(-" ++ a.text ++ ")").toList = '(' :: '-' :: (a.text.toList ++ [')']) := by
      simp [String.toList_append]
    refine text ▸ Fragment.apartNegated neverInner apart fun rest same => ?_
    exact unsigned known rfl (by rw [same]; rfl)
  · have answers : ∀ name e, scene.input produce node none name = .ok (some e) →
        ∃ name, scene.input produce node none name = .ok (some e) := fun name e told => ⟨name, told⟩
    have all := Recipe.followEnsures (kind.compileYields scene.surroundings node) answers followed
    have inputs : ∀ e, (∃ name, scene.input produce node none name = .ok (some e)) →
        Apart (fun _ _ => False) e.text.toList := fun e ⟨name, told⟩ => (fed name e told).1
    refine Compiled.apartNever (all.mono ?_ fun e yields => ?_)
    · rintro b ⟨e, size, told, _, _, rfl⟩
      exact inputs e told
    · exact NodeKind.yieldsApart neverInner inputs (registry _ kind known) exports
        (fun same => absurd same negates) yields

theorem attemptFuses (sound : scene.net.Sound) (registry : scene.registry.Named)
    (exports : scene.exports.Named) {depth : Nat} {id : String} {c : Compiled}
    (ok : scene.attempt depth id = .ok c) (fuses : c.Fuses) :
    ∃ k, ReflTransGen scene.net.Feeds k id ∧ scene.NegatesSigned scene.Delivers k := by
  induction depth generalizing id c with
  | zero => cases ok
  | succ depth ih =>
    by_contra none
    refine madeApart registry exports ok (fun node name e found told => ?_) fuses
    obtain ⟨rfl, _⟩ := Net.nodePresent sound found
    obtain ⟨d, result, fed, made, output⟩ := inputFed told
    obtain ⟨listed, target⟩ := (Net.feederIff sound.toIndexed).mp fed
    have feeds : scene.net.Feeds d.source.node node.id := ⟨d, listed, rfl, by rw [target]⟩
    constructor
    · intro before behind same
      refine none ?_
      obtain ⟨k, above, negates⟩ := ih made (.inr ⟨_, e, output, before, behind, by rw [same]; simp⟩)
      exact ⟨k, above.tail feeds, negates⟩
    · rintro known rfl signed
      exact none ⟨node.id, .refl, node, d, e, found, known, fed,
        ⟨result, evaluateIff.mpr ⟨depth, made⟩, output⟩, signed⟩

theorem negatesFuses {id : String} (sound : scene.net.Sound)
    (negates : scene.NegatesSigned scene.Delivers id) : ∃ c, scene.evaluate [] id = .ok c ∧ c.Fuses := by
  obtain ⟨node, c, e, found, known, fed, delivers, signed⟩ := negates
  obtain ⟨rfl, _⟩ := Net.nodePresent sound found
  obtain ⟨rest, same⟩ := List.head?_eq_some_iff.mp signed
  refine ⟨.single "out" (.compound e.type ("(-" ++ e.text ++ ")")), evaluateOfMade ?_,
    .inr ⟨"out", _, rfl, ['('], rest ++ [')'], ?_⟩⟩
  · simp only [made, found, known]
    exact NodeKind.negateOk.mpr ⟨e, inputDelivered fed delivers, rfl⟩
  · simp [Expression.compound, String.toList_append, same]

end Scene

namespace Workspace

variable {w : Workspace} {id k : String}

theorem RightAbove.negatesSigned (right : w.RightAbove id) (sound : w.net.Sound)
    (idle : w.cache.stack = []) (above : ReflTransGen w.net.Feeds k id) :
    w.scene.NegatesSigned w.Delivers k ↔ w.scene.NegatesSigned w.scene.Delivers k := by
  have source : ∀ c, w.net.feeder? ⟨k, "a"⟩ = some c → ReflTransGen w.net.Feeds c.source.node id := by
    intro c fed
    obtain ⟨listed, target⟩ := (Net.feederIff sound.toIndexed).mp fed
    exact .head ⟨c, listed, rfl, by rw [target]⟩ above
  constructor
  · rintro ⟨node, c, e, found, known, fed, delivers, signed⟩
    exact ⟨node, c, e, found, known, fed, (right.delivers sound idle (source c fed)).mp delivers, signed⟩
  · rintro ⟨node, c, e, found, known, fed, delivers, signed⟩
    exact ⟨node, c, e, found, known, fed, (right.delivers sound idle (source c fed)).mpr delivers, signed⟩

end Workspace

namespace Session
open Workspace

theorem minusSignsApart (requests : List Request)
    (standard : ((start .empty).run requests).workspace.registry = .standard) :
    let w := ((start .empty).run requests).workspace
    (∀ id c, (w.compile id).1 = .ok c → c.All (fun b => Apart negatesNumber b.text.toList)
      fun e => Apart negatesNumber e.text.toList) ∧
    ∀ id, w.RightAbove id →
      ((∃ k c, ReflTransGen w.net.Feeds k id ∧ (w.compile k).1 = .ok c ∧ c.Fuses) ↔
        ∃ k, ReflTransGen w.net.Feeds k id ∧ w.scene.NegatesSigned w.Delivers k) := by
  have registry : ∀ {v : Workspace}, v.registry = .standard → v.scene.registry.Named := by
    intro v now
    change v.registry.Named
    rw [now]
    exact Registry.standardNamed
  have exports : ∀ past, ((start .empty).run past).workspace.exports.Named := fun past =>
    runExported (s := start .empty) (fun _ _ _ => Fragment.exportsWordy)
      (fun _ _ found => by cases found) past
  have passes : ∀ past, ((start .empty).run past).workspace.registry = .standard →
      ((start .empty).run past).workspace.scene.Passes
        (fun _ e => Apart negatesNumber e.text.toList ∧ Signed e.text.toList) fun _ =>
          Compiled.All (fun b => Apart negatesNumber b.text.toList) fun e =>
            Apart negatesNumber e.text.toList ∧ Signed e.text.toList :=
    fun past now => Scene.minusPasses (registry now) (exports past)
  have each := runEach (s := start .empty) (fun _ => Scene.emptyEach) requests
    (fun past _ => passes past) standard
  have sound : ((start .empty).run requests).workspace.net.Sound := runSound Net.emptySound requests
  have idle := runIdle (s := start .empty) rfl requests
  refine ⟨fun id c compiled => ?_, fun id right => ⟨?_, ?_⟩⟩
  · exact (compileEach (passes requests standard) each compiled).mono (fun _ apart => apart)
      fun _ => And.left
  · rintro ⟨k, c, above, compiled, fuses⟩
    rw [(right.source above).compile sound idle] at compiled
    obtain ⟨depth, made⟩ := Scene.evaluateIff.mp compiled
    obtain ⟨j, first, negates⟩ := Scene.attemptFuses sound (registry standard) (exports requests) made fuses
    have path := first.trans above
    exact ⟨j, path, (right.negatesSigned sound idle path).mpr negates⟩
  · rintro ⟨k, above, negates⟩
    obtain ⟨c, made, fuses⟩ :=
      Scene.negatesFuses sound ((right.negatesSigned sound idle above).mp negates)
    exact ⟨k, c, above, ((right.source above).compile sound idle).trans made, fuses⟩

def oppositeRequests : List Request := [
  .insertNodes [⟨"f", "float", .origin, Table.ofList [("value", .number (.ofInt (-1)))]⟩,
    .named "n" "negate", .named "m" "subtract"],
  .addConnections [.between ⟨"f", "out"⟩ ⟨"n", "a"⟩, .between ⟨"f", "out"⟩ ⟨"m", "a"⟩,
    .between ⟨"n", "out"⟩ ⟨"m", "b"⟩],
  .compile "n"]

theorem minusSignsApartOpposite :
    let w := ((start .empty).run oppositeRequests).workspace
    let result := Compiled.single "out" (.compound .float "(-1.0 - (--1.0))")
    (w.registry = .standard ∧ w.cache.results.keys = ["f", "n"] ∧ (w.compile "m").1 = .ok result) ∧
    (result.All (fun b => Apart negatesNumber b.text.toList)
      fun e => Apart negatesNumber e.text.toList) ∧
    ∃ k, ReflTransGen w.net.Feeds k "m" ∧ w.scene.NegatesSigned w.Delivers k := by
  have apart := minusSignsApart oppositeRequests
  have facts :
      let w := ((start .empty).run oppositeRequests).workspace
      (w.cache.results.keys = ["f", "n"] ∧
        (w.compile "m").1 = .ok (.single "out" (.compound .float "(-1.0 - (--1.0))"))) ∧
      ∀ p ∈ w.cache.results.entries, (w.scene.compile p.1 .empty).1 = .ok p.2 := by
    decide +kernel
  have standard : ((start .empty).run oppositeRequests).workspace.registry = .standard := rfl
  -- from here on nothing has to be run
  generalize ((start .empty).run oppositeRequests).workspace = w at apart facts standard ⊢
  obtain ⟨⟨keys, compiled⟩, made⟩ := facts
  obtain ⟨allowed, fuses⟩ := apart standard
  have right : w.RightAbove "m" := fun k c _ kept => made _ (Table.getMember kept)
  have pair : ['-', '-'] <:+: "(-1.0 - (--1.0))".toList :=
    ⟨"(-1.0 - (".toList, "1.0))".toList, by decide⟩
  exact ⟨⟨standard, keys, compiled⟩, allowed "m" _ compiled,
    (fuses "m" right).mp ⟨"m", _, .refl, compiled, .inr ⟨"out", _, rfl, pair⟩⟩⟩

theorem negativeNegated :
    let w := ((start .empty).run oppositeRequests).workspace
    let result := Compiled.single "out" (.compound .float "(--1.0)")
    (w.compile "n").1 = .ok result ∧ result.Fuses := by
  refine ⟨by decide +kernel, .inr ⟨"out", _, rfl, ['('], "1.0)".toList, ?_⟩⟩
  decide

end Session
end ShaderNet
