import ShaderNet.Proofs.NodeKind.Offered
import ShaderNet.Proofs.NodeKind.Yields
import ShaderNet.Proofs.ValueType.Canonical

/-! Types of results. Nodes yield expressions of canonical types as long as they are given such, and bind
scalars and vectors only. -/
namespace ShaderNet

namespace ValueType

theorem canonicalRegular {t : ValueType} (canonical : t.isCanonical = true) : t.isRegular = true := by
  cases t with
  | vector base size =>
    obtain ⟨least, most⟩ := @basicVector base size canonical
    simp [isRegular, size?, most, Nat.le_of_succ_le least]
  | _ => rfl

theorem canonicalSize {t : ValueType} (canonical : t.isCanonical = true) {size : Nat}
    (sized : t.size? = some size) : size ≤ 4 := by
  have regular := canonicalRegular canonical
  simp only [isRegular, sized, Option.all_some, Bool.and_eq_true, decide_eq_true_eq] at regular
  exact regular.2

theorem sizedShape {t : ValueType} {size : Nat} (sized : t.size? = some size) :
    t.isScalar = true ∨ t.isVector = true := by
  cases t with
  | scalar base => exact .inl rfl
  | vector base size => exact .inr rfl
  | _ => cases sized

end ValueType

def Slot.isTyped : Slot → Bool
  | .fixed type => type.isCanonical
  | .template _ _ => true

def NodeKind.isTyped : NodeKind → Bool
  | compose size => 2 ≤ size && size ≤ 4
  | builtin signature => signature.output.isTyped && signature.isDecided
  | _ => true

theorem Registry.standardTyped {type : String} {kind : NodeKind}
    (known : Registry.standard.kind type = .ok kind) : kind.isTyped = true := by
  have each : ∀ entry ∈ standard.entries, entry.2.isTyped = true := by decide +kernel
  exact each (type, kind) (Table.getMember (kindFound.mp known))

namespace Narrowing

theorem Reached.ranged {s : Signature} {n : Narrowing} (decided : s.isDecided = true)
    (reached : Reached s n) : n.Ranged := by
  induction reached with
  | start => exact Signature.startRanged decided
  | narrow _ ok ih => exact narrowRanged ih ok

theorem resolveCanonical {n : Narrowing} (ranged : n.Ranged) {slot : Slot} {type : ValueType}
    (typed : slot.isTyped = true) (ok : n.resolve slot = .ok type) : type.isCanonical = true := by
  cases slot with
  | fixed t =>
    cases ok
    exact typed
  | template name role =>
    obtain ⟨c, found, rfl, _⟩ := resolveOk.mp ok
    exact Role.typesAdmitted ValueType.canonicalAdmits (ranged name c found)

end Narrowing

namespace NodeKind
open ValueType (canonicalAdmits canonicalRegular shapedAdmitted)

structure Typed (s : Surroundings) : Prop where
  uniforms : ∀ id u, s.uniforms.get? id = some u → u.type.isCanonical = true
  exports : ∀ name f, s.exports.get? name = some f → ∀ t, f.output = some t → t.isCanonical = true

theorem yieldsCanonical {kind : NodeKind} (typed : kind.isTyped = true) {s : Surroundings}
    (surroundings : Typed s) {node : Node} {e : Expression}
    (yields : kind.Yields s node (fun e => e.type.isCanonical = true) e) :
    e.type.isCanonical = true := by
  cases yields with
  | truth b => rfl
  | number base finite => rfl
  | color c => rfl
  | ambient value => cases value <;> rfl
  | uniform found => exact surroundings.uniforms _ _ found
  | operator left right => exact left
  | negate operand => exact operand
  | zero target zero =>
    obtain ⟨⟨name, named⟩, _⟩ := target
    exact ValueType.ofNameAdmitted canonicalAdmits named
  | cast target fed ok =>
    obtain ⟨⟨name, named⟩, _⟩ := target
    rw [castFromType ok]
    exact ValueType.ofNameAdmitted canonicalAdmits named
  | compose each => exact canonicalAdmits.vector .float _ (by simpa [isTyped] using typed)
  | nothing => rfl
  | @scalar e fed scalar =>
    rw [wholeOf, (hoistTypes _ e).2]
    exact fed
  | @component e size type name fed scalar sized parted listed =>
    cases type' : e.type <;> rw [type'] at parted <;> cases parted <;> rfl
  | unselected ok zero =>
    obtain ⟨size, range, rfl⟩ := openSelectionShaped ok
    exact shapedAdmitted canonicalAdmits range
  | unchanged fed ok scalar => exact fed
  | selected fed ok scalar =>
    rcases selectedShaped ok with ⟨_, rfl⟩ | ⟨_, base, size, range, rfl⟩
    · exact fed
    · exact shapedAdmitted canonicalAdmits range
  | builtin reached ok each =>
    obtain ⟨output, decided⟩ := Bool.and_eq_true_iff.mp typed
    exact Narrowing.resolveCanonical (Narrowing.collapseRanged (reached.ranged decided)) output ok
  | function found output each => exact surroundings.exports _ _ found _ output
  | texture fed placed => rfl
  | black label => rfl
  | displayed fed ok =>
    rw [displayedType ok (canonicalRegular fed)]
    rfl

end NodeKind
end ShaderNet
