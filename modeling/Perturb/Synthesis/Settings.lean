/-
  The settings of a synthesis run, with every field at the type it is used at.

  These are the settings the search itself reads.  Where they come from, a file, flags, defaults,
  and which of them are acceptable, is the business of the configuration modules.
-/
import Perturb.Scalar

namespace Perturb

/-- Settings of a run over scalars `K`. -/
structure Settings (K : Type) where
  /-- The share of the dataset to process. -/
  percentage : K
  /-- Whether deferred constraints wait until a candidate violates them. -/
  lazy : Bool
  /-- Whether an objective is set. -/
  optimise : Bool
  /-- The largest change of a pixel. -/
  epsilon : K
  minValue : K
  maxValue : K
  /-- By how much the target must lead. -/
  margin : K
  objective : String
  /-- How long one solve may take, if that is limited. -/
  timeLimit : Option K
  skipLowConfidence : Bool
  lowConfidence : K
  /-- After how many solves beyond the first to give up. -/
  giveUpAfter : K
  /-- The share of live constraints solved from the start. -/
  samplingRatio : K
  /-- Whether candidates are rounded and one pixel must move by a step. -/
  quantized : Bool
  quantizationStep : K
  integrality : Bool
  /-- How many constraints one round may promote. -/
  maxPromotions : K
  backend : String
  seed : Option Int
  deriving Repr, Inhabited

end Perturb
