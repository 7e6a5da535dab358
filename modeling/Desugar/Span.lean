/-!
# Source spans

A span is a half-open byte range into the source text of a program unit. Spans arrive from
outside and are not checked: a range may run backwards, and then it is empty.
-/

namespace Desugar

/-- A byte range `start ≤ i < stop` of the source text. -/
structure Span where
  start : Nat := 0
  stop : Nat := 0
deriving DecidableEq, Inhabited

namespace Span

/-- The span of code that lowering inserts: it has no place in the source. -/
def nowhere : Span := {}

/-- Number of bytes covered; a range that runs backwards covers none. -/
def size (s : Span) : Nat := s.stop - s.start

/-- No byte is covered. -/
def isEmpty (s : Span) : Bool := s.size == 0

/-- The least range around both ranges. -/
def merge (s t : Span) : Span :=
  { start := min s.start t.start, stop := max s.stop t.stop }

/-- The part of a range that lies inside a text of `length` bytes. A range past the end is moved
to the end and becomes empty. -/
def clamp (s : Span) (length : Nat) : Span :=
  { start := min s.start length, stop := min (s.start + s.size) length }

end Span

end Desugar
