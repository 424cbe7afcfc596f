namespace Salita

structure Span where
  start : Nat
  stop : Nat
deriving DecidableEq, Inhabited, Repr

namespace Span

/-- The largest offset a span records. Larger offsets are recorded as this one. -/
def maxOffset : Nat := 0xffffffff

def origin : Span := ⟨0, 0⟩

def point (offset : Nat) : Span := ⟨offset, offset⟩

def ofRange (start stop : Nat) : Span := ⟨min start maxOffset, min stop maxOffset⟩

def merge (a b : Span) : Span := ⟨min a.start b.start, max a.stop b.stop⟩

def text (s : Span) : String := s.start.repr ++ ".." ++ s.stop.repr

end Span

end Salita
