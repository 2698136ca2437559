/-!
# Spans

Byte ranges of a source text. A span is stored in two 32-bit words, so the
positions of a text of less than 4 GiB are kept exactly and larger ones wrap.
-/

set_option autoImplicit false

namespace ScriptEngine

/-- The bytes `start`, `start + 1`, … of a source text, `length` of them. -/
structure Span where
  start : UInt32
  length : UInt32
deriving DecidableEq, Repr, Inhabited

namespace Span

/-- The bytes from `start` up to but not including `stop`. A `stop` before
`start` gives the empty range at `start`. -/
def between (start stop : Nat) : Span where
  start := UInt32.ofNat start
  length := UInt32.ofNat (stop - start)

def stop (span : Span) : UInt32 :=
  span.start + span.length

/-- The bytes are bytes of the source. -/
def Within (source : String) (span : Span) : Prop :=
  span.start.toNat + span.length.toNat ≤ source.utf8ByteSize

instance (source : String) (span : Span) : Decidable (span.Within source) :=
  inferInstanceAs (Decidable (_ ≤ _))

/-- The number of positions from `start` up to `stop`; it differs from the
length only where `stop` wrapped. -/
def size (span : Span) : Nat :=
  span.stop.toNat - span.start.toNat

/-- The smallest range that covers both spans and everything between them. -/
def merge (left right : Span) : Span :=
  let start := min left.start right.start
  ⟨start, max left.stop right.stop - start⟩

end Span

end ScriptEngine
