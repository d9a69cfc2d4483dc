import ShaderNet.Changes
import ShaderNet.Proofs.Table

/-! Records of changes merge like texts: it does not matter how successive records are bracketed, and
an empty one adds nothing. -/
namespace ShaderNet

namespace Table

variable {κ α : Type} [LT κ] [DecidableEq κ] [StrictTotal κ]

theorem findReverse (t : Table κ α) (k : κ) : find k t.entries.reverse = t.get? k := by
  cases found : t.get? k with
  | none => exact findNone.mpr fun v member =>
      findNone.mp found v (List.mem_reverse.mp member)
  | some v =>
    cases again : find k t.entries.reverse with
    | none => exact absurd (List.mem_reverse.mpr (getMember found)) (findNone.mp again v)
    | some v' =>
      have also : t.get? k = some v' := getIff.mpr (List.mem_reverse.mp (findMember again))
      rw [← also, found]

variable [DecidableLT κ]

theorem getOverlayTable (t u : Table κ α) (k : κ) :
    (t.overlay u.entries).get? k = (u.get? k).or (t.get? k) := by
  rw [getOverlay, findReverse]

theorem overlayAssoc (t u v : Table κ α) :
    (t.overlay u.entries).overlay v.entries = t.overlay (u.overlay v.entries).entries :=
  ext fun k => by simp only [getOverlayTable, Option.or_assoc]

theorem emptyOverlay (t : Table κ α) : (∅ : Table κ α).overlay t.entries = t :=
  ext fun k => by rw [getOverlayTable, getEmpty, Option.or_none]

end Table

namespace Changes

theorem invalidatedAppend {c d : Changes} {id : String} :
    (c ++ d).invalidated.contains id = true ↔
      c.invalidated.contains id = true ∨ d.invalidated.contains id = true :=
  KeySet.containsAddAll.trans (by rw [Table.memKeysContains, or_comm])

theorem invalidatedAppendFalse {c d : Changes} {id : String} :
    (c ++ d).invalidated.contains id = false ↔
      c.invalidated.contains id = false ∧ d.invalidated.contains id = false := by
  simp only [← Bool.not_eq_true, invalidatedAppend, not_or]

theorem emptyAppend (c : Changes) : empty ++ c = c := by
  refine Changes.ext rfl rfl rfl rfl rfl ?_ (Table.emptyOverlay _) rfl rfl rfl rfl
  refine KeySet.ext fun k => invalidatedAppend.trans (or_iff_right fun impossible => ?_)
  cases impossible

theorem appendEmpty (c : Changes) : c ++ empty = c := by
  refine Changes.ext ?_ ?_ ?_ ?_ ?_ rfl rfl ?_ ?_ ?_ ?_ <;> exact List.append_nil _

theorem appendAssoc (c d e : Changes) : c ++ d ++ e = c ++ (d ++ e) := by
  refine Changes.ext ?_ ?_ ?_ ?_ ?_ ?_ (Table.overlayAssoc _ _ _) ?_ ?_ ?_ ?_
  all_goals first
    | exact List.append_assoc _ _ _
    | exact KeySet.ext fun k => by simp only [invalidatedAppend, or_assoc]

end Changes
end ShaderNet
