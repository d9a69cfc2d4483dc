import Mathlib.Data.List.Forall2
import ShaderNet.Proofs.Evaluate.Reference

/-! Recipes are followed part by part: what a recipe comes to is what its parts come to. -/
namespace ShaderNet.Recipe

variable {α β γ : Type}

theorem bindDone (r : Recipe α) : r.bind .done = r := by
  induction r with
  | done a => rfl
  | fail e => rfl
  | ask name next ih => exact congrArg (ask name) (funext ih)

theorem bindAssoc (r : Recipe α) (f : α → Recipe β) (g : β → Recipe γ) :
    (r.bind f).bind g = r.bind fun a => (f a).bind g := by
  induction r with
  | done a => rfl
  | fail e => rfl
  | ask name next ih => exact congrArg (ask name) (funext ih)

instance : LawfulMonad Recipe := .mk' _ (fun r => bindDone r) (fun _ _ => rfl) (fun r => bindAssoc r)

theorem okBind {ε : Type} (a : α) (f : α → Except ε β) : (Except.ok a >>= f) = f a := rfl

section Follow

variable (answer : String → Except Failure (Option Expression))

theorem followBind (r : Recipe α) (f : α → Recipe β) :
    (r >>= f).follow answer = r.follow answer >>= fun a => (f a).follow answer := by
  change (r.bind f).follow answer = (r.follow answer).bind fun a => (f a).follow answer
  induction r with
  | done a => rfl
  | fail e => rfl
  | ask name next ih =>
    simp only [bind, follow]
    cases answer name with
    | error e => rfl
    | ok e => exact ih e

theorem followPure (a : α) : (pure a : Recipe α).follow answer = .ok a := rfl

theorem followOfExcept (x : Except Unsupported α) :
    (ofExcept x).follow answer = x.mapError .unsupported := by
  cases x <;> rfl

theorem followInput (name : String) : (input name).follow answer = answer name := by
  simp only [input, follow]
  cases answer name <;> rfl

theorem followInputType (name : String) :
    (inputType name).follow answer = (answer name).map (Option.map Expression.type) := by
  rw [inputType, followBind, followInput]
  cases answer name <;> rfl

theorem followMapM (f : α → Recipe β) (l : List α) :
    (l.mapM f).follow answer = l.mapM fun a => (f a).follow answer := by
  induction l with
  | nil => rfl
  | cons a rest ih => simp only [List.mapM_cons, followBind, ih, followPure]; rfl

end Follow

section Results

variable {g : String → Except Failure (Option Expression)}

theorem followBindOk {r : Recipe α} {f : α → Recipe β} {b : β} (ok : (r >>= f).follow g = .ok b) :
    ∃ a, r.follow g = .ok a ∧ (f a).follow g = .ok b := by
  rw [followBind] at ok
  cases first : r.follow g with
  | error e =>
    rw [first] at ok
    cases ok
  | ok a =>
    rw [first] at ok
    exact ⟨a, rfl, ok⟩

theorem followOn {r : Recipe α} {a : α} (first : r.follow g = .ok a) (f : α → Recipe β) :
    (r >>= f).follow g = (f a).follow g := by
  rw [followBind, first]
  rfl

theorem ofExceptOk {x : Except Unsupported α} {a : α} : (ofExcept x).follow g = .ok a ↔ x = .ok a := by
  rw [followOfExcept]
  cases x <;> simp [Except.mapError]

theorem inputOk {f : Option Expression → Recipe β} {name : String} {b : β}
    (ok : (input name >>= f).follow g = .ok b) :
    ∃ answer, g name = .ok answer ∧ (f answer).follow g = .ok b := by
  obtain ⟨answer, told, ok⟩ := followBindOk ok
  exact ⟨answer, (followInput g name).symm.trans told, ok⟩

theorem inputTypeOk {name : String} {answer : Option Expression} (told : g name = .ok answer) :
    (inputType name).follow g = .ok (answer.map Expression.type) := by
  rw [followInputType, told]
  rfl

end Results

/-! Lists of results -/

variable {ε : Type} {f : α → Except ε β}

theorem mapAgree {a : α → γ} {b : β → γ} {l : List α} {m : List β}
    (same : List.Forall₂ (fun x y => a x = b y) l m) : l.map a = m.map b := by
  induction same with
  | nil => rfl
  | cons first _ ih => rw [List.map_cons, List.map_cons, first, ih]

theorem mapMResults {l : List α} {results : List β} (ok : l.mapM f = .ok results) :
    List.Forall₂ (fun a b => f a = .ok b) l results := by
  induction l generalizing results with
  | nil =>
    cases ok
    exact .nil
  | cons a rest ih =>
    simp only [List.mapM_cons] at ok
    cases first : f a with
    | error e =>
      rw [first] at ok
      cases ok
    | ok b =>
      cases others : rest.mapM f with
      | error e =>
        rw [first, others] at ok
        cases ok
      | ok bs =>
        rw [first, others] at ok
        cases ok
        exact .cons first (ih others)

theorem mapMEach {l : List α} {results : List β} (ok : l.mapM f = .ok results) :
    ∀ a ∈ l, ∃ b, f a = .ok b := by
  have each := mapMResults ok
  clear ok
  induction each with
  | nil => exact List.forall_mem_nil _
  | cons first _ ih => exact List.forall_mem_cons.mpr ⟨⟨_, first⟩, ih⟩

theorem mapMSucceeds {l : List α} (each : ∀ a ∈ l, ∃ b, f a = .ok b) :
    ∃ results, l.mapM f = .ok results := by
  induction l with
  | nil => exact ⟨[], rfl⟩
  | cons a rest ih =>
    obtain ⟨b, first⟩ := each a List.mem_cons_self
    obtain ⟨bs, others⟩ := ih fun c member => each c (List.mem_cons_of_mem _ member)
    refine ⟨b :: bs, ?_⟩
    rw [List.mapM_cons, first, others]
    rfl

end ShaderNet.Recipe
