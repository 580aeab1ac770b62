import Mathlib.Algebra.Order.Ring.Unbundled.Rat
import ProvenGraphcal.Library.NonEmpty

/-!
# Runtime values

The indexes and instants that runtime values are made of, and why a runtime operation failed.
-/

namespace ProvenGraphcal

inductive IndexEntryKey
  | named (name : String)
  | position (position : ℕ)
  deriving DecidableEq

def IndexEntryKey.text : IndexEntryKey → String
  | named name => name
  | position index => "#" ++ toString index

/-- A concrete index with its ordered entry keys. -/
structure IndexAxis where
  index : String
  keys : NonEmpty IndexEntryKey
  deriving DecidableEq

inductive TimeScale
  | utc | tai | tt | tdb | et | gpst | gst | bdt | qzsst
  deriving DecidableEq

/-- An instant by its TAI duration, with the scale it is written in. -/
structure Epoch where
  timeScale : TimeScale
  taiDuration : ℤ

/-- Why a runtime operation failed: for its user, or by a violated invariant. -/
inductive Failure (E : Type)
  | error (error : E)
  | invariant (description : String)

end ProvenGraphcal
