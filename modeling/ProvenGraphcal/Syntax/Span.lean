import Mathlib.Data.Nat.Notation

namespace ProvenGraphcal

/-- A range of bytes of a source text. -/
structure Span where
  offset : ℕ
  length : ℕ
  deriving DecidableEq

/-- The range from the first start to the last end. -/
def Span.merge (lhs rhs : Span) : Span :=
  let start := min lhs.offset rhs.offset
  ⟨start, max (lhs.offset + lhs.length) (rhs.offset + rhs.length) - start⟩

end ProvenGraphcal
