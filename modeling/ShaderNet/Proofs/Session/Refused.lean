import ShaderNet.Proofs.Session.Sound

/-! What a refused connection leaves behind: the net as it was, unless another connection has its
identifier. Then what fed the input is gone, for it was removed before the new connection was tried. -/
namespace ShaderNet
open Number (Double)

namespace Net

variable {n m k : Net} {c : Connection} {cs : List Connection}

/-- Something else has the identifier of a connection to an input that is fed. -/
structure Clash (n : Net) (c old : Connection) : Prop where
  fed : n.feeder? c.target = some old
  taken : ∃ d ∈ n.connectionList, d.id = c.id ∧ d.target ≠ c.target

def Kept (n : Net) (c : Connection) (m : Net) : Prop :=
  m = n ∨ ∃ old, n.Clash c old ∧ m = (n.removeConnection old.id).1

theorem refusedKept (indexed : Indexed n) {e : Failure} (done : n.connect c = (.error e, m)) :
    n.Kept c m := by
  rcases connectCases n c with
    ⟨e, refused⟩ | ⟨after, added, _, accepted⟩ | ⟨old, fed, different, ends, replaced⟩
  · cases refused.symm.trans done
    exact .inl rfl
  · cases accepted.symm.trans done
  · rcases replaced with ⟨after, added, _, accepted⟩ | ⟨e, failed, refused⟩
    · cases accepted.symm.trans done
    · cases refused.symm.trans done
      rcases insertCleared indexed fed different ends with ⟨r, fits⟩ | taken
      · rw [fits] at failed
        cases failed
      · exact .inr ⟨old, ⟨fed, taken⟩, rfl⟩

inductive Tried : Net → List Connection → List (Connection × Failure) → Net → Prop
  | nothing (n : Net) : Tried n [] [] n
  | accepted {n m k c cs skipped changes} (done : n.connect c = (.ok changes, m))
      (rest : Tried m cs skipped k) : Tried n (c :: cs) skipped k
  | refused {n m k c cs skipped e} (done : n.connect c = (.error e, m)) (kept : n.Kept c m)
      (rest : Tried m cs skipped k) : Tried n (c :: cs) ((c, e) :: skipped) k

end Net

namespace Workspace

def pastedNodes (w : Workspace) (d : Document) (dx dy : Double) : Net :=
  (pasteNodes dx dy d.nodes (pastingSurroundings d w).1.net ∅ .empty).1

theorem addConnectionKept {w after : Workspace} (indexed : w.net.Indexed) {source target : Socket}
    {e : Failure} (refused : w.addConnection source target = (.error e, after)) :
    ∃ net, w.net.Kept (.between source target) net ∧ after = { w with net := net } := by
  unfold addConnection at refused
  split at refused
  · cases refused
  · rename_i done
    cases refused
    exact ⟨_, Net.refusedKept indexed done, rfl⟩

/- Items of a batch stand for connections, or for none. -/
theorem triedEach {α : Type} {items : List α} {action : α → Action} {link : α → Option Connection}
    (wording : Connection → Failure → String)
    (acts : ∀ i, (∃ c, link i = some c ∧ action i = .connecting c (wording c)) ∨
      link i = none ∧ ∃ message, action i = .warn message) {w : Workspace} (sound : w.net.Sound) :
    ∃ skipped, w.net.Tried (items.filterMap link) skipped (Action.each items action w).1.net ∧
      ∀ p ∈ skipped, wording p.1 p.2 ∈ (Action.each items action w).2.warnings := by
  induction items generalizing w with
  | nil => exact ⟨[], .nothing _, fun _ member => nomatch member⟩
  | cons i items ih =>
    have each : Action.each (i :: items) action = (action i).andThen (.each items action) :=
      Action.allCons _ _
    rw [each]
    rcases acts i with ⟨c, found, connecting⟩ | ⟨missing, message, warn⟩
    · rw [List.filterMap_cons_some found, connecting]
      have connected := Net.connectSound sound c
      cases done : w.net.connect c with
      | mk result net =>
        rw [done] at connected
        obtain ⟨skipped, tried, told⟩ := @ih { w with net := net } connected
        cases result with
        | ok changes =>
          have step : Action.connecting c (wording c) w = ({ w with net := net }, changes) := by
            rw [Action.connecting, done]
          refine ⟨skipped, .accepted done ?_, fun p member => ?_⟩
          · rw [Action.andThen, step]
            exact tried
          · rw [Action.andThen, step]
            exact List.mem_append_right _ (told p member)
        | error e =>
          have step : Action.connecting c (wording c) w =
              ({ w with net := net }, .warning (wording c e)) := by
            rw [Action.connecting, done]
          refine ⟨(c, e) :: skipped, .refused done (Net.refusedKept sound.toIndexed done) ?_,
            fun p member => ?_⟩
          · rw [Action.andThen, step]
            exact tried
          · rw [Action.andThen, step]
            rcases List.mem_cons.mp member with rfl | member
            · exact List.mem_append_left _ (List.mem_singleton.mpr rfl)
            · exact List.mem_append_right _ (told p member)
    · rw [List.filterMap_cons_none missing, warn]
      obtain ⟨skipped, tried, told⟩ := ih sound
      exact ⟨skipped, tried, fun p member => List.mem_append_right _ (told p member)⟩

theorem addConnectionsTried {w : Workspace} (sound : w.net.Sound) (cs : List Connection) :
    ∃ skipped, w.net.Tried cs skipped (w.addConnections cs).1.net ∧
      ∀ p ∈ skipped, labelled p.1.id p.2 ∈ (w.addConnections cs).2.warnings := by
  have acts : ∀ c, (∃ d, some c = some d ∧ Action.connecting c (labelled c.id) =
      .connecting d (labelled d.id)) ∨ some c = none ∧ ∃ message,
        Action.connecting c (labelled c.id) = .warn message := fun c => .inl ⟨c, rfl, rfl⟩
  have tried := @triedEach _ cs _ _ (fun c => labelled c.id) acts w sound
  rwa [List.filterMap_some] at tried

theorem pasteTried {w : Workspace} (sound : w.net.Sound) (d : Document) (dx dy : Double) :
    ∃ skipped, (w.pastedNodes d dx dy).Tried (w.pastedLinks d dx dy) skipped
        (w.paste d dx dy).1.net ∧
      ∀ p ∈ skipped, p.2.message ∈ (w.paste d dx dy).2.warnings := by
  have surroundings : Parts (fun _ => False) w _ _ := pastingSurroundingsMade d w
  have nodes : Parts (fun _ => False) (pastingSurroundings d w).1
      { (pastingSurroundings d w).1 with net := w.pastedNodes d dx dy }
      (pasteNodes dx dy d.nodes (pastingSurroundings d w).1.net ∅ .empty).2.2 :=
    pasteNodesMade (.nothing _ rfl)
  have placed := partsSound (.append surroundings nodes) sound
  have acts : ∀ names c, (∃ link, renamed names c = some link ∧ pastingConnection names c =
      .connecting link Failure.message) ∨ renamed names c = none ∧ ∃ message,
        pastingConnection names c = .warn message := by
    intro names c
    unfold pastingConnection
    split
    · rename_i link found
      exact .inl ⟨link, found, rfl⟩
    · rename_i missing
      exact .inr ⟨missing, _, rfl⟩
  obtain ⟨skipped, tried, told⟩ :=
    @triedEach _ d.connections _ _ (fun _ => Failure.message) (acts _) _ placed
  exact ⟨skipped, tried, fun p member => List.mem_append_right _ (told p member)⟩

end Workspace

namespace Session
open Workspace

theorem refusedConnectionKept (requests : List Request) :
    let w := ((start .empty).run requests).workspace
    (∀ source target e after, w.addConnection source target = (.error e, after) →
      ∃ net, w.net.Kept (.between source target) net ∧ after = { w with net := net }) ∧
    (∀ cs, ∃ skipped, w.net.Tried cs skipped (w.addConnections cs).1.net ∧
      ∀ p ∈ skipped, labelled p.1.id p.2 ∈ (w.addConnections cs).2.warnings) ∧
    ∀ d dx dy, ∃ skipped,
      (w.pastedNodes d dx dy).Tried (w.pastedLinks d dx dy) skipped (w.paste d dx dy).1.net ∧
      ∀ p ∈ skipped, p.2.message ∈ (w.paste d dx dy).2.warnings := by
  have fresh : (start .empty).workspace.net.Sound := Net.emptySound
  have sound := runSound fresh requests
  exact ⟨fun _ _ _ _ => addConnectionKept sound.toIndexed, addConnectionsTried sound,
    pasteTried sound⟩

def sineRequests : List Request := [
  .insertNodes [.named "a" "float", .named "s" "sin"],
  .addConnection ⟨"a", "out"⟩ ⟨"s", "x"⟩,
  .compile "s"]

theorem refusedConnectionKeptSine :
    let w := ((start .empty).run sineRequests).workspace
    (w.addConnection ⟨"a", "out"⟩ ⟨"s", "x"⟩).1.isOk = false ∧ w.cache.results.keys = ["a", "s"] ∧
      (w.addConnection ⟨"a", "out"⟩ ⟨"s", "x"⟩).2 = w := by
  intro w
  have facts : (w.addConnection ⟨"a", "out"⟩ ⟨"s", "x"⟩).1.isOk = false ∧
      w.cache.results.keys = ["a", "s"] ∧ ¬ ∃ d ∈ w.net.connectionList,
        d.id = (Connection.between ⟨"a", "out"⟩ ⟨"s", "x"⟩).id ∧ d.target ≠ ⟨"s", "x"⟩ := by
    decide +kernel
  obtain ⟨refused, kept, apart⟩ := facts
  refine ⟨refused, kept, ?_⟩
  cases answered : w.addConnection ⟨"a", "out"⟩ ⟨"s", "x"⟩ with
  | mk result after =>
    cases result with
    | ok changes =>
      rw [answered] at refused
      cases refused
    | error e =>
      obtain ⟨net, same | ⟨old, clash, _⟩, rfl⟩ :=
        (refusedConnectionKept sineRequests).1 _ _ e after answered
      · rw [same]
      · exact absurd clash.taken apart

def clashRequests : List Request := [
  .insertNodes [.named "a" "float", .named "b:i)->(c" "sin", .named "c" "sin", .named "d" "float"],
  .addConnection ⟨"a", "o)->(b:i"⟩ ⟨"c", "x"⟩,
  .addConnection ⟨"d", "out"⟩ ⟨"b:i)->(c", "x"⟩]

theorem refusedConnectionLost :
    let w := ((start .empty).run clashRequests).workspace
    let answer := w.addConnection ⟨"a", "o"⟩ ⟨"b:i)->(c", "x"⟩
    let batch := w.addConnections [.between ⟨"a", "o"⟩ ⟨"b:i)->(c", "x"⟩]
    answer.1.isOk = false ∧ batch.2.warnings.length = 1 ∧
    (w.net.connectionList.map fun c => c.source.node) = ["a", "d"] ∧
    (answer.2.net.connectionList.map fun c => c.source.node) = ["a"] ∧
    batch.1.net.connectionList.map (fun c => c.source.node) = ["a"] := by
  decide +kernel

end Session
end ShaderNet
