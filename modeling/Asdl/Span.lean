/-
Byte ranges of a source text, and faults that carry the range they concern.

Offsets count the bytes of the source in UTF-8, so a range can cover part of a
line that holds characters of any width.  Nothing here looks at a source.
-/

namespace Asdl

/-- The bytes from `start` up to, and not including, `stop`. -/
structure Span where
  start : Nat
  stop : Nat
deriving DecidableEq

namespace Span

def zero : Span :=
  { start := 0
    stop := 0 }

def point (offset : Nat) : Span :=
  { start := offset
    stop := offset }

/-- The smallest range that holds both ranges. -/
def cover (left right : Span) : Span :=
  { start := min left.start right.start
    stop := max left.stop right.stop }

def length (span : Span) : Nat :=
  span.stop - span.start

def text (span : Span) : String :=
  span.start.repr ++ ".." ++ span.stop.repr

end Span

structure Located (Fault : Type) where
  fault : Fault
  span : Span
deriving DecidableEq

def Located.message {Fault : Type} (detail : Fault → String)
    (located : Located Fault) : String :=
  detail located.fault ++ " at " ++ located.span.text

end Asdl
