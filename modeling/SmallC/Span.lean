/-!
# Spans

A span names a stretch of a source text by the offsets of its first byte and of the byte after its
last one. Every token, every node of a program's tree and every diagnostic carries one.
-/

namespace SmallC

/-- The half-open range `[start, stop)` of UTF-8 byte offsets into a source text. -/
structure Span where
  start : Nat
  stop : Nat
  deriving DecidableEq, Repr, Inhabited

namespace Span

/-- The stretch from the start of one span to the end of another. -/
def through (first last : Span) : Span :=
  ⟨first.start, last.stop⟩

/-- The empty span at an offset. -/
def point (offset : Nat) : Span :=
  ⟨offset, offset⟩

end Span

end SmallC
