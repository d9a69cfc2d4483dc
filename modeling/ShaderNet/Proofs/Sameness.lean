import ShaderNet.Proofs.Table
import ShaderNet.Uniform

/-! Values that are the same. Sameness goes both ways and along chains, though no value has to be the
same as itself. -/
namespace ShaderNet

namespace Number.Binary

variable {f : Format} {x y z : Binary f}

theorem sameSymm (same : x.same y = true) : y.same x = true := by
  cases x <;> cases y <;>
    simp only [Binary.same, Bool.and_eq_true, Bool.or_eq_true, decide_eq_true_eq,
      Bool.false_eq_true] at same ⊢
  · exact same.symm
  · obtain ⟨rfl, sign⟩ := same
    exact ⟨rfl, sign.imp_left Eq.symm⟩

theorem sameTrans (first : x.same y = true) (second : y.same z = true) : x.same z = true := by
  cases x <;> cases y <;> cases z <;>
    simp only [Binary.same, Bool.and_eq_true, Bool.or_eq_true, decide_eq_true_eq,
      Bool.false_eq_true] at first second ⊢
  · exact first.trans second
  · obtain ⟨rfl, sign⟩ := first
    obtain ⟨rfl, sign'⟩ := second
    refine ⟨rfl, ?_⟩
    rcases sign with rfl | zero
    · exact sign'
    · exact .inr zero

end Number.Binary

namespace Parameter

theorem sameNumbersSymm {xs ys : List Number.Single} (same : sameNumbers xs ys = true) :
    sameNumbers ys xs = true := by
  induction xs, ys using sameNumbers.induct with
  | case1 => rfl
  | case2 x xs y ys ih =>
    simp only [sameNumbers, Bool.and_eq_true] at same ⊢
    exact ⟨Number.Binary.sameSymm same.1, ih same.2⟩
  | case3 xs ys _ _ =>
    simp only [sameNumbers, Bool.false_eq_true] at same

theorem sameNumbersTrans {xs ys zs : List Number.Single} (first : sameNumbers xs ys = true)
    (second : sameNumbers ys zs = true) : sameNumbers xs zs = true := by
  induction xs, ys using sameNumbers.induct generalizing zs with
  | case1 => exact second
  | case2 x xs y ys ih =>
    cases zs with
    | nil => simp only [sameNumbers, Bool.false_eq_true] at second
    | cons z zs =>
      simp only [sameNumbers, Bool.and_eq_true] at first second ⊢
      exact ⟨Number.Binary.sameTrans first.1 second.1, ih first.2 second.2⟩
  | case3 xs ys _ _ =>
    simp only [sameNumbers, Bool.false_eq_true] at first

variable {p q r : Parameter}

theorem sameSymm (same : p.same q = true) : q.same p = true := by
  cases p <;> cases q <;>
    simp only [Parameter.same, Path.same, Bool.and_eq_true, decide_eq_true_eq,
      Bool.false_eq_true] at same ⊢
  · exact Number.Binary.sameSymm same
  · exact same.symm
  · exact same.symm
  · exact sameNumbersSymm same
  · exact sameNumbersSymm same
  · exact ⟨same.1.symm, same.2.symm⟩

theorem sameTrans (first : p.same q = true) (second : q.same r = true) : p.same r = true := by
  cases p <;> cases q <;> simp only [Parameter.same, Bool.false_eq_true] at first <;> cases r <;>
    simp only [Parameter.same, Path.same, Bool.and_eq_true, decide_eq_true_eq,
      Bool.false_eq_true] at first second ⊢
  · exact Number.Binary.sameTrans first second
  · exact first.trans second
  · exact first.trans second
  · exact sameNumbersTrans first second
  · exact sameNumbersTrans first second
  · exact ⟨first.1.trans second.1, first.2.trans second.2⟩

theorem sameOptionSymm {p q : Option Parameter} (same : sameOption p q = true) :
    sameOption q p = true := by
  cases p <;> cases q <;> simp only [sameOption, Bool.false_eq_true] at same ⊢
  exact sameSymm same

theorem sameOptionTrans {p q r : Option Parameter} (first : sameOption p q = true)
    (second : sameOption q r = true) : sameOption p r = true := by
  cases p <;> cases q <;> cases r <;>
    simp only [sameOption, Bool.false_eq_true] at first second ⊢
  exact sameTrans first second

end Parameter

namespace Uniform

variable {u v w : Uniform}

theorem sameSymm (same : u.same v = true) : v.same u = true := by
  simp only [Uniform.same, Bool.and_eq_true, decide_eq_true_eq] at same ⊢
  obtain ⟨⟨id, type⟩, default⟩ := same
  exact ⟨⟨id.symm, type.symm⟩, Parameter.sameOptionSymm default⟩

theorem sameTrans (first : u.same v = true) (second : v.same w = true) : u.same w = true := by
  simp only [Uniform.same, Bool.and_eq_true, decide_eq_true_eq] at first second ⊢
  obtain ⟨⟨id, type⟩, default⟩ := first
  obtain ⟨⟨id', type'⟩, default'⟩ := second
  exact ⟨⟨id.trans id', type.trans type'⟩, Parameter.sameOptionTrans default default'⟩

end Uniform
end ShaderNet
