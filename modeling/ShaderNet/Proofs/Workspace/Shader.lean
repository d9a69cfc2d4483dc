import Mathlib.Algebra.GroupWithZero.Nat
import Mathlib.Algebra.Order.BigOperators.Group.List
import Mathlib.Algebra.Order.Group.Nat
import ShaderNet.Proofs.Workspace.Asked

/-! The text of a shader: what comes before the declarations, the declarations, and the color. -/
namespace ShaderNet.Workspace

def declaredIn (results : Table String Compiled) (order : List String) : List Binding :=
  (order.filterMap results.get?).flatMap Compiled.bindings

def declaredBy (results : Table String Compiled) (id : String) : List Binding :=
  ((results.get? id).map Compiled.bindings).getD []

def preamble (w : Workspace) (order : List String) : List String :=
  let types := (order.filterMap w.net.node?).map Node.type
  let ambient := Ambient.all.filter fun value => value.isUniform && value.name ∈ types
  ["#version " ++ w.options.version, "precision " ++ w.options.precision ++ " float;", ""] ++
  ambient.map (fun value => uniformLine value.type value.identifier) ++
  w.net.uniforms.values.map (fun u => uniformLine u.type (Identifier.uniform u.id)) ++
  ["in vec2 v_uv;", "out vec4 " ++ w.options.output ++ ";", ""] ++
  w.net.includes.flatMap includeLines ++ ["void main() \x7b"]

def closing (w : Workspace) (color : String) : List String :=
  ["    " ++ w.options.output ++ " = " ++ color ++ ";", "\x7d"]

def textOf (lines : List String) : String := "\n".intercalate lines ++ "\n"

theorem declaredEach (results : Table String Compiled) (order : List String) :
    declaredIn results order = order.flatMap (declaredBy results) := by
  induction order with
  | nil => rfl
  | cons id rest ih =>
    simp only [declaredIn, declaredBy, List.filterMap_cons, List.flatMap_cons] at ih ⊢
    cases results.get? id with
    | none => exact ih
    | some c => simp [ih]

theorem shaderLinesParts (w : Workspace) (order : List String) (color : String) :
    w.shaderLines order color =
      w.preamble order ++ (declaredIn w.cache.results order).map bindingLine ++ w.closing color := rfl

theorem compileAnswer (w : Workspace) (id : String) :
    (w.compile id).1 = (w.scene.compile id w.cache).1 := by
  unfold compile
  split <;> rename_i answered <;> rw [answered]

theorem compileResults (w : Workspace) (id : String) :
    (w.compile id).2.cache.results = (w.scene.compile id w.cache).2.results := by
  unfold compile
  split <;> rename_i answered <;> rw [answered]
  rfl

def firstColor (id : String) (result : Compiled) : Except Failure Expression :=
  match result.outputs.values.head? with
  | none => .error (.unsupported (.noOutput id))
  | some e => e.displayed.mapError .unsupported

/- All that a shader takes from a workspace besides the compiled node. -/
theorem shaderAnswer (w : Workspace) (id : String) :
    (w.shader id).1 = (w.compile id).1.bind fun result => (firstColor id result).map fun color =>
      textOf ((w.compile id).2.shaderLines ((w.compile id).2.net.upstreamOrder id) color.text) := by
  unfold shader firstColor
  cases w.compile id with
  | mk answer after =>
    cases answer with
    | error e => rfl
    | ok result =>
      simp only [Except.bind]
      cases result.outputs.values.head? with
      | none => rfl
      | some e =>
        dsimp only
        cases e.displayed <;> rfl

/-! Shaders after questions -/

def shaderText (w : Workspace) (id color : String) (bindings : List Binding) : String :=
  textOf (w.preamble (w.net.upstreamOrder id) ++ bindings.map bindingLine ++ w.closing color)

def declaredAfter (w v : Workspace) (id : String) : List Binding :=
  declaredIn (w.scene.compile id v.cache).2.results (w.net.upstreamOrder id)

section Asked

variable {kept : Cache → Prop} {w v : Workspace}

theorem Asked.preamble (asked : Asked kept w v) (order : List String) :
    v.preamble order = w.preamble order := by
  obtain ⟨cs, same, _⟩ := asked.net
  simp only [Workspace.preamble, same, asked.options]
  rfl

theorem Asked.shaderText (lasting : w.Lasting kept) (asked : Asked kept w v) (id color : String) :
    textOf ((v.compile id).2.shaderLines ((v.compile id).2.net.upstreamOrder id) color) =
      w.shaderText id color (w.declaredAfter v id) := by
  have after := asked.compile lasting id
  rw [shaderLinesParts, after.preamble, Net.retypedUpstreamOrder after.net, compileResults, asked.compiles,
    closing, after.options]
  rfl

end Asked

/- What a shader that is shown is made of. -/
theorem shownParts {w : Workspace} {id text : String} (shown : (w.shader id).1 = .ok text) :
    ∃ result color, (w.compile id).1 = .ok result ∧ firstColor id result = .ok color ∧
      text = w.shaderText id color.text (w.declaredAfter w id) := by
  have lasting : w.Lasting fun _ => True := ⟨fun _ _ _ => trivial, fun _ _ => trivial⟩
  have asked : Asked (fun _ => True) w w := askedRefl trivial
  rw [shaderAnswer] at shown
  cases compiled : (w.compile id).1 with
  | error e =>
    rw [compiled] at shown
    cases shown
  | ok result =>
    rw [compiled] at shown
    simp only [Except.bind, asked.shaderText lasting] at shown
    cases first : firstColor id result with
    | error e =>
      rw [first] at shown
      cases shown
    | ok color =>
      rw [first] at shown
      exact ⟨result, color, rfl, first, (Except.ok.inj shown).symm⟩

/-! Every declaration makes the text longer. -/

theorem textLength {lines : List String} (some : lines ≠ []) :
    (textOf lines).length = (lines.map fun line => line.length + 1).sum := by
  induction lines with
  | nil => exact absurd rfl some
  | cons line rest ih =>
    cases rest with
    | nil =>
      rw [textOf, String.length_append, String.intercalate_singleton]
      rfl
    | cons next rest =>
      have shorter := ih (by simp)
      simp only [textOf, String.length_append, String.intercalate_cons_cons, List.map_cons,
        List.sum_cons] at shorter ⊢
      have newline : "\n".length = 1 := rfl
      omega

def room (bindings : List Binding) : Nat := (bindings.map fun b => (bindingLine b).length + 1).sum

theorem roomPositive {bindings : List Binding} (some : bindings ≠ []) : 0 < room bindings := by
  cases bindings with
  | nil => exact absurd rfl some
  | cons b rest => simp only [room, List.map_cons, List.sum_cons]; omega

theorem roomEach (f : String → List Binding) (order : List String) :
    room (order.flatMap f) = (order.map fun id => room (f id)).sum := by
  induction order with
  | nil => rfl
  | cons id rest ih => simpa [room] using ih

theorem sameRoom {before after : List String} {l m : List Binding}
    (same : textOf (before ++ l.map bindingLine ++ after) =
      textOf (before ++ m.map bindingLine ++ after)) (some : before ≠ []) : room l = room m := by
  have lengths := congrArg String.length same
  rw [textLength (by simp [some]), textLength (by simp [some])] at lengths
  simp only [List.map_append, List.map_map, List.sum_append] at lengths
  have here : (l.map ((fun line => line.length + 1) ∘ bindingLine)).sum =
      (m.map ((fun line => line.length + 1) ∘ bindingLine)).sum := by omega
  exact here

theorem roomLess {results more : Table String Compiled} {order : List String}
    (kept : ∀ k c, results.get? k = some c → more.get? k = some c) {k : String} {c : Compiled}
    (member : k ∈ order) (absent : results.get? k = none) (found : more.get? k = some c)
    (declares : c.bindings ≠ []) :
    room (declaredIn results order) < room (declaredIn more order) := by
  rw [declaredEach, declaredEach, roomEach, roomEach]
  refine List.sum_lt_sum _ _ (fun id _ => ?_) ⟨k, member, ?_⟩
  · cases here : results.get? id with
    | none => simp [declaredBy, here, room]
    | some d => simp [declaredBy, here, kept id d here]
  · simpa [declaredBy, absent, found, room] using roomPositive declares

end ShaderNet.Workspace
