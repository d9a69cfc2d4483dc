import ShaderNet.Table
import ShaderNet.ValueType.Basic

/-! Sockets, and connections from an output socket to an input socket. -/
namespace ShaderNet

@[ext] structure Socket where
  node : String
  name : String
  deriving DecidableEq, Repr

namespace Socket

def text (s : Socket) : String := s.node ++ "." ++ s.name

instance : LT Socket := ⟨fun a b => a.node < b.node ∨ a.node = b.node ∧ a.name < b.name⟩

instance : DecidableLT Socket := fun a b =>
  inferInstanceAs (Decidable (a.node < b.node ∨ a.node = b.node ∧ a.name < b.name))

instance : StrictTotal Socket where
  irrefl a h := by
    rcases h with h | h
    · exact StrictTotal.irrefl _ h
    · exact StrictTotal.irrefl _ h.2
  trans {a b c} h h' := by
    rcases h with h | ⟨e, h⟩ <;> rcases h' with h' | ⟨e', h'⟩
    · exact .inl (StrictTotal.trans h h')
    · exact .inl (e' ▸ h)
    · exact .inl (e ▸ h')
    · exact .inr ⟨e.trans e', StrictTotal.trans h h'⟩
  total a b := by
    rcases StrictTotal.total a.node b.node with h | h | h
    · exact .inl (.inl h)
    · rcases StrictTotal.total a.name b.name with h' | h' | h'
      · exact .inl (.inr ⟨h, h'⟩)
      · cases a; cases b; simp_all
      · exact .inr (.inr (.inr ⟨h.symm, h'⟩))
    · exact .inr (.inr (.inl h))

end Socket

structure Connection where
  source : Socket
  target : Socket
  type : Option ValueType
  deriving DecidableEq, Repr

namespace Connection

def between (source target : Socket) : Connection := ⟨source, target, none⟩

def id (c : Connection) : String :=
  "(" ++ c.source.node ++ ":" ++ c.source.name ++ ")->(" ++
    c.target.node ++ ":" ++ c.target.name ++ ")"

end Connection
end ShaderNet
