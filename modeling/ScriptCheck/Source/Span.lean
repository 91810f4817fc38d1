/-! A range of a source text. Offsets are 64-bit words that count UTF-16 code units, the unit in
which the parser of the scripts reports them. Nothing forces the start to lie before the end. -/
namespace ScriptCheck

structure Span where
  start : UInt64
  stop : UInt64
  deriving DecidableEq

namespace Span

/-- The place of what has no place: the empty range at the very start. -/
def none : Span := ⟨0, 0⟩

def length (s : Span) : Nat := s.stop.toNat - s.start.toNat

def isEmpty (s : Span) : Bool := s.length == 0

def text (s : Span) : String := toString s.start.toNat ++ ".." ++ toString s.stop.toNat

end Span
end ScriptCheck
