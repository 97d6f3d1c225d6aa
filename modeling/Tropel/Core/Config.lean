import Tropel.Core.Segment

/-!
# Execution configurations

How a scenario is executed (`ExecutionConfig`), and the share of it that a segment runs
(`ExecutionSegment.applyWith`).
-/

namespace Tropel

structure Stage where
  duration : String
  target : ℕ
  deriving DecidableEq, Repr

structure ArrivalRateStage where
  duration : String
  target : ℚ
  deriving DecidableEq, Repr

structure ThinkTimeConfig where
  iterationPacing : Option String
  delay : Option String
  minDelay : Option String
  maxDelay : Option String
  deriving DecidableEq, Repr, Inhabited

inductive ExecutionConfig
  | constantVus (vus : ℕ) (duration : String) (gracefulStop : Option String)
      (thinkTime : ThinkTimeConfig)
  | rampingVus (stages : List Stage) (startVus : ℕ) (gracefulRampDown gracefulStop : Option String)
      (thinkTime : ThinkTimeConfig)
  | constantArrivalRate (rate : ℚ) (timeUnit duration : String) (preAllocVus maxVus : ℕ)
      (gracefulStop : Option String) (thinkTime : ThinkTimeConfig)
  | sharedIterations (iterations : ℕ) (maxDuration : Option String) (vus : ℕ)
      (gracefulStop : Option String) (thinkTime : ThinkTimeConfig)
  | rampingArrivalRate (startRate : ℚ) (stages : List ArrivalRateStage) (timeUnit : String)
      (preAllocVus maxVus : ℕ) (gracefulStop : Option String) (thinkTime : ThinkTimeConfig)
  | perVUIterations (vus iterations : ℕ) (maxDuration gracefulStop : Option String)
      (thinkTime : ThinkTimeConfig)
  | externallyControlled (vus maxVus : ℕ) (duration gracefulStop : Option String)
      (thinkTime : ThinkTimeConfig)
  deriving DecidableEq, Repr

inductive RateSegmentation
  | scaleRate
  | globalRate
  deriving DecidableEq, Repr

namespace ExecutionSegment

def rateShare (seg : ExecutionSegment) (mode : RateSegmentation) (rate : ℚ) : ℚ :=
  match mode with
  | .scaleRate => seg.scaleRate rate
  | .globalRate => rate

def applyWith (seg : ExecutionSegment) (exec : ExecutionConfig)
    (rateMode : RateSegmentation) : ExecutionConfig :=
  match exec with
  | .constantVus vus duration gracefulStop thinkTime =>
    .constantVus (seg.scaleVus vus) duration gracefulStop thinkTime
  | .rampingVus stages startVus gracefulRampDown gracefulStop thinkTime =>
    .rampingVus (stages.map fun s => { s with target := seg.scaleVus s.target })
      (seg.scaleVus startVus) gracefulRampDown gracefulStop thinkTime
  | .constantArrivalRate rate timeUnit duration preAllocVus maxVus gracefulStop thinkTime =>
    .constantArrivalRate (seg.rateShare rateMode rate) timeUnit duration
      (seg.scaleVus preAllocVus) (seg.scaleVus maxVus) gracefulStop thinkTime
  | .sharedIterations iterations maxDuration vus gracefulStop thinkTime =>
    .sharedIterations (seg.scaleIterations iterations) maxDuration (seg.scaleVus vus)
      gracefulStop thinkTime
  | .rampingArrivalRate startRate stages timeUnit preAllocVus maxVus gracefulStop thinkTime =>
    .rampingArrivalRate (seg.rateShare rateMode startRate)
      (stages.map fun s => { s with target := seg.rateShare rateMode s.target }) timeUnit
      (seg.scaleVus preAllocVus) (seg.scaleVus maxVus) gracefulStop thinkTime
  | .perVUIterations vus iterations maxDuration gracefulStop thinkTime =>
    .perVUIterations (seg.scaleVus vus) (seg.scaleIterations iterations) maxDuration gracefulStop
      thinkTime
  | .externallyControlled vus maxVus duration gracefulStop thinkTime =>
    .externallyControlled (seg.scaleVus vus) (seg.scaleVus maxVus) duration gracefulStop thinkTime

end ExecutionSegment

end Tropel
