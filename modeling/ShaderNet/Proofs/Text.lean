import ShaderNet.Text

/-! How texts are cut and joined: a text put together from pieces is cut into those pieces. -/
namespace ShaderNet.Text

theorem afterIff {part cs rest : List Char} : after? part cs = some rest ↔ cs = part ++ rest := by
  induction part generalizing cs with
  | nil => simp [after?]
  | cons p part ih =>
    cases cs with
    | nil => simp [after?]
    | cons c cs =>
      by_cases same : p = c
      · simp [after?, same, ih]
      · simp [after?, same, Ne.symm same]

theorem afterNone {part cs : List Char} (apart : ¬ part <+: cs) : after? part cs = none := by
  cases found : after? part cs with
  | none => rfl
  | some rest => exact absurd ⟨rest, (afterIff.mp found).symm⟩ apart

theorem afterFirstNone {part cs : List Char} (apart : ¬ part <:+: cs) : afterFirst? part cs = none := by
  induction cs with
  | nil =>
    rw [afterFirst?]
    exact afterNone fun leads => apart leads.isInfix
  | cons c cs ih =>
    rw [List.infix_cons_iff, not_or] at apart
    simp [afterFirst?, afterNone apart.1, ih apart.2]

/- A part that does not repeat its first letter does not overlap with itself, so no occurrence begins
in what precedes the first one. -/
theorem afterFirst {p : Char} {part front : List Char} (distinct : p ∉ part)
    (apart : ¬ (p :: part) <:+: front) (rest : List Char) :
    afterFirst? (p :: part) (front ++ (p :: part ++ rest)) = some rest := by
  induction front with
  | nil =>
    have found : after? (p :: part) (p :: part ++ rest) = some rest := afterIff.mpr rfl
    simp only [List.cons_append] at found
    simp [afterFirst?, found]
  | cons c front ih =>
    rw [List.infix_cons_iff, not_or] at apart
    have early : after? (p :: part) (c :: (front ++ (p :: part ++ rest))) = none := by
      refine afterNone fun ⟨tail, whole⟩ => ?_
      rw [← List.cons_append, List.append_eq_append_iff] at whole
      rcases whole with ⟨more, longer, _⟩ | ⟨more, longer, left⟩
      · exact apart.1 ⟨more, longer.symm⟩
      · cases more with
        | nil => exact apart.1 ⟨[], by simpa using longer⟩
        | cons d more =>
          have repeated := (List.cons.inj left).1
          simp only [List.cons_append, List.cons.injEq] at longer
          exact distinct (by simp [longer.2, repeated])
    rw [List.cons_append, afterFirst?, early]
    exact ih apart.2

theorem splitOnNone {c : Char} {cs : List Char} (single : c ∉ cs) : splitOn c cs = [cs] := by
  induction cs with
  | nil => rfl
  | cons d cs ih =>
    simp only [List.mem_cons, not_or] at single
    simp [splitOn, Ne.symm single.1, ih single.2]

theorem splitOnFirst {c : Char} {piece : List Char} (single : c ∉ piece) (rest : List Char) :
    splitOn c (piece ++ c :: rest) = piece :: splitOn c rest := by
  induction piece with
  | nil => simp [splitOn]
  | cons d piece ih =>
    simp only [List.mem_cons, not_or] at single
    simp [splitOn, Ne.symm single.1, ih single.2]

theorem splitOnPieces {c : Char} {first : List Char} {others : List (List Char)}
    (single : ∀ piece ∈ first :: others, c ∉ piece) :
    splitOn c (first ++ others.flatMap fun piece => c :: piece) = first :: others := by
  induction others generalizing first with
  | nil => simpa using splitOnNone (single first (by simp))
  | cons piece others ih =>
    rw [List.flatMap_cons, List.cons_append, splitOnFirst (single first (by simp))]
    simp only [List.mem_cons, forall_eq_or_imp] at single ih
    rw [ih single.2]

/- What holds of some texts and stays true when two are joined holds of all of them joined. -/
theorem intercalateInduct {motive : String → Prop} {between : String} {texts : List String}
    (none : motive "") (join : ∀ a b, motive a → motive b → motive (a ++ between ++ b))
    (each : ∀ text ∈ texts, motive text) : motive (between.intercalate texts) := by
  induction texts with
  | nil => exact none
  | cons text rest ih =>
    obtain ⟨here, others⟩ := List.forall_mem_cons.mp each
    cases rest with
    | nil =>
      rw [String.intercalate_singleton]
      exact here
    | cons next rest =>
      rw [String.intercalate_cons_cons]
      exact join _ _ here (ih others)

end ShaderNet.Text
