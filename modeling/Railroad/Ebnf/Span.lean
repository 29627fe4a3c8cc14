/-
# Spans of source text

A span is a half-open range of byte offsets.  It never ends before it starts.

Offsets count bytes of the text in UTF-8, so that whoever shows a mistake can cut the text there;
the reader itself works on characters and turns them into bytes only when a mistake is told
(`Mistake.toDiagnostic`).
-/

namespace Railroad.Ebnf

/-- The bytes from `start` up to, and not including, `stop`.  The order of the two is part of the
type. -/
structure Span where
  start : Nat
  stop : Nat
  start_le_stop : start ≤ stop := by omega

namespace Span

/-- The span of a range; one that would end before it starts is empty. -/
def ofRange (start stop : Nat) : Span := ⟨start, max stop start, by omega⟩

/-- How many bytes it covers. -/
def length (s : Span) : Nat := s.stop - s.start

/-- It covers nothing. -/
def isEmpty (s : Span) : Bool := s.start == s.stop

/-- The smallest span that covers both. -/
def union (s t : Span) : Span :=
  ⟨min s.start t.start, max s.stop t.stop, by
    have := s.start_le_stop
    omega⟩

end Span

end Railroad.Ebnf
