import ShaderNet.Connection
import ShaderNet.Proofs.Text

/-! Which connections are identified by their ids. An id is written from the four names at the two ends
with marks between them, and names may hold those marks. It belongs to one pair of ends alone exactly if
it can be cut at its marks in one way only. -/
namespace ShaderNet

namespace Text

/- A mark that does not repeat its first letter does not overlap with itself: where it stands in front
of a text, it can stand again only behind its own end. -/
theorem markBehind {p : Char} {part more x y : List Char} (distinct : p ∉ part)
    (same : p :: part ++ x = more ++ (p :: part ++ y)) :
    more = [] ∨ ∃ k, more = p :: part ++ k ∧ x = k ++ (p :: part ++ y) := by
  rcases List.append_eq_append_iff.mp same with longer | ⟨k, whole, tail⟩
  · exact .inr longer
  · cases more with
    | nil => exact .inl rfl
    | cons c more =>
      cases k with
      | nil => exact .inr ⟨[], by simpa using whole.symm, by simpa using tail.symm⟩
      | cons d k =>
        have again := (List.cons.inj tail).1
        have inside : d ∈ part := by
          rw [(List.cons.inj whole).2]
          exact List.mem_append_right _ List.mem_cons_self
        exact absurd (again ▸ inside) distinct

theorem cutOnce {p : Char} {part a b x y : List Char} (distinct : p ∉ part)
    (before : ¬ (p :: part) <:+: a) (behind : ¬ (p :: part) <:+: x)
    (same : a ++ (p :: part ++ x) = b ++ (p :: part ++ y)) : a = b ∧ x = y := by
  rcases List.append_eq_append_iff.mp same with ⟨more, longer, tail⟩ | ⟨more, longer, tail⟩
  · rcases markBehind distinct tail with rfl | ⟨k, _, later⟩
    · exact ⟨by simpa using longer.symm, List.append_cancel_left tail⟩
    · exact absurd ⟨k, y, by simpa using later.symm⟩ behind
  · rcases markBehind distinct tail with rfl | ⟨k, earlier, _⟩
    · exact ⟨by simpa using longer, (List.append_cancel_left tail).symm⟩
    · exact absurd ⟨b, k, by rw [longer, earlier, List.append_assoc]⟩ before

end Text

namespace Socket

def written (s : Socket) : List Char := s.node.toList ++ ':' :: s.name.toList

/- One more colon is one more way to cut. -/
theorem writtenTwice {s : Socket} (colon : ':' ∈ s.node.toList ∨ ':' ∈ s.name.toList) :
    ∃ t : Socket, t.written = s.written ∧ t ≠ s := by
  rcases colon with inside | inside
  · obtain ⟨front, back, text⟩ := List.append_of_mem inside
    refine ⟨⟨String.ofList front, String.ofList (back ++ ':' :: s.name.toList)⟩, ?_, fun same => ?_⟩
    · simp [written, text]
    · have shorter := congrArg (fun t : Socket => t.node.toList.length) same
      simp only [String.toList_ofList, text, List.length_append, List.length_cons] at shorter
      omega
  · obtain ⟨front, back, text⟩ := List.append_of_mem inside
    refine ⟨⟨String.ofList (s.node.toList ++ ':' :: front), String.ofList back⟩, ?_, fun same => ?_⟩
    · simp [written, text]
    · have shorter := congrArg (fun t : Socket => t.name.toList.length) same
      simp only [String.toList_ofList, text, List.length_append, List.length_cons] at shorter
      omega

end Socket

namespace Connection

def arrow : List Char := ")->(".toList

structure Plain (c : Connection) : Prop where
  source : ':' ∉ c.source.node.toList ∧ ':' ∉ c.source.name.toList
  target : ':' ∉ c.target.node.toList ∧ ':' ∉ c.target.name.toList
  arrows : ¬ arrow <:+: c.source.name.toList ∧ ¬ arrow <:+: c.target.node.toList

theorem arrowLength : arrow.length = 4 := by decide

theorem idText (c : Connection) :
    c.id.toList = '(' :: (c.source.written ++ (arrow ++ (c.target.written ++ [')']))) := by
  simp [id, arrow, Socket.written, String.toList_append]

theorem idSame {c d : Connection} : d.id = c.id ↔
    d.source.written ++ (arrow ++ d.target.written) = c.source.written ++ (arrow ++ c.target.written) := by
  rw [← String.toList_inj, idText, idText]
  simp [← List.append_assoc]

theorem idColons (c : Connection) : c.id.toList.count ':' =
    c.source.node.toList.count ':' + c.source.name.toList.count ':' +
      (c.target.node.toList.count ':' + c.target.name.toList.count ':') + 2 := by
  have none : arrow.count ':' = 0 := by decide
  have last : [')'].count ':' = 0 := by decide
  have written (s : Socket) :
      s.written.count ':' = s.node.toList.count ':' + s.name.toList.count ':' + 1 := by
    rw [Socket.written, List.count_append, List.count_cons_self, Nat.add_assoc]
  rw [idText, List.count_cons_of_ne (by decide), List.count_append, List.count_append,
    List.count_append, written, written, none, last]
  omega

theorem idPieces {c : Connection} (source : ':' ∉ c.source.node.toList ∧ ':' ∉ c.source.name.toList)
    (target : ':' ∉ c.target.node.toList ∧ ':' ∉ c.target.name.toList) :
    Text.splitOn ':' (c.source.written ++ (arrow ++ c.target.written)) =
      [c.source.node.toList, c.source.name.toList ++ (arrow ++ c.target.node.toList),
        c.target.name.toList] := by
  have none : ':' ∉ arrow := by decide
  have middle : ':' ∉ c.source.name.toList ++ (arrow ++ c.target.node.toList) := by
    simp [source.2, none, target.1]
  have cut := @Text.splitOnPieces ':' c.source.node.toList
    [c.source.name.toList ++ (arrow ++ c.target.node.toList), c.target.name.toList]
    (by simp [source.1, middle, target.2])
  simpa [Socket.written] using cut

theorem plainSingle {c d : Connection} (plain : c.Plain) (same : d.id = c.id) :
    d.source = c.source ∧ d.target = c.target := by
  have counted := congrArg (fun id : String => id.toList.count ':') same
  simp only [idColons, List.count_eq_zero.mpr plain.source.1, List.count_eq_zero.mpr plain.source.2,
    List.count_eq_zero.mpr plain.target.1, List.count_eq_zero.mpr plain.target.2] at counted
  have source : ':' ∉ d.source.node.toList ∧ ':' ∉ d.source.name.toList :=
    ⟨List.count_eq_zero.mp (by omega), List.count_eq_zero.mp (by omega)⟩
  have target : ':' ∉ d.target.node.toList ∧ ':' ∉ d.target.name.toList :=
    ⟨List.count_eq_zero.mp (by omega), List.count_eq_zero.mp (by omega)⟩
  -- with two colons in all, the colons cut the id into the same three pieces
  have pieces := congrArg (Text.splitOn ':') (idSame.mp same)
  rw [idPieces source target, idPieces plain.source plain.target] at pieces
  simp only [List.cons.injEq, and_true] at pieces
  obtain ⟨nodes, middle, names⟩ := pieces
  obtain ⟨inner, outer⟩ := Text.cutOnce (by decide) plain.arrows.1 plain.arrows.2 middle.symm
  exact ⟨Socket.ext (String.toList_inj.mp nodes) (String.toList_inj.mp inner.symm),
    Socket.ext (String.toList_inj.mp outer.symm) (String.toList_inj.mp names)⟩

theorem singlePlain {c : Connection}
    (single : ∀ d : Connection, d.id = c.id → d.source = c.source ∧ d.target = c.target) : c.Plain := by
  have source : ¬ (':' ∈ c.source.node.toList ∨ ':' ∈ c.source.name.toList) := by
    intro colon
    obtain ⟨other, written, different⟩ := Socket.writtenTwice colon
    exact different (single (between other c.target) (idSame.mpr (by simp [between, written]))).1
  have target : ¬ (':' ∈ c.target.node.toList ∨ ':' ∈ c.target.name.toList) := by
    intro colon
    obtain ⟨other, written, different⟩ := Socket.writtenTwice colon
    exact different (single (between c.source other) (idSame.mpr (by simp [between, written]))).2
  refine ⟨not_or.mp source, not_or.mp target, ?_, ?_⟩
  · rintro ⟨front, back, text⟩
    have early := single
      (between ⟨c.source.node, String.ofList front⟩
        ⟨String.ofList (back ++ (arrow ++ c.target.node.toList)), c.target.name⟩)
      (idSame.mpr (by simp [between, Socket.written, ← text]))
    have shorter := congrArg (fun s : Socket => s.name.toList.length) early.1
    simp only [between, String.toList_ofList, ← text, List.length_append, arrowLength] at shorter
    omega
  · rintro ⟨front, back, text⟩
    have late := single
      (between ⟨c.source.node, String.ofList (c.source.name.toList ++ (arrow ++ front))⟩
        ⟨String.ofList back, c.target.name⟩)
      (idSame.mpr (by simp [between, Socket.written, ← text]))
    have shorter := congrArg (fun s : Socket => s.node.toList.length) late.2
    simp only [between, String.toList_ofList, ← text, List.length_append, arrowLength] at shorter
    omega

theorem idSingleIff (c : Connection) :
    (∀ d : Connection, d.id = c.id ↔ d.source = c.source ∧ d.target = c.target) ↔ c.Plain := by
  refine ⟨fun single => singlePlain fun d => (single d).mp, fun plain d => ⟨plainSingle plain, ?_⟩⟩
  rintro ⟨source, target⟩
  rw [id, id, source, target]

/- A colon in the name of a socket, or in that of the node before it. -/
theorem idShared :
    (between ⟨"a", "out"⟩ ⟨"b", "x:y"⟩).id = (between ⟨"a", "out"⟩ ⟨"b:x", "y"⟩).id ∧
      (between ⟨"a", "out"⟩ ⟨"b", "x:y"⟩).target ≠ (between ⟨"a", "out"⟩ ⟨"b:x", "y"⟩).target := by
  decide

end Connection
end ShaderNet
