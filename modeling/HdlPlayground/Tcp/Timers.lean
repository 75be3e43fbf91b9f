import Mathlib.Algebra.Order.Ring.Abs
import HdlPlayground.Tcp.Scheduler

/-!
# Timer periods and the RTT estimator

`core/timers.py` and `core/rtt.py`, with times and periods as exact rationals.
-/
namespace HdlPlayground.Tcp

structure TimerConfig where
  rtoInitial : ℚ := 1
  rtoMin : ℚ := 1
  rtoMax : ℚ := 60
  rttG : ℚ := 1 / 1000
  maxRetransmits : Int := 12
  persistMin : ℚ := 1
  persistMax : ℚ := 60
  keepaliveIdle : Option ℚ := none
  keepaliveInterval : ℚ := 75
  keepaliveCount : Int := 9
  msl : ℚ := 1
  delayedAck : Option ℚ := none
  userTimeout : Option ℚ := none
  nagle : Bool := false
  swsAvoidance : Bool := true
deriving DecidableEq

/-- The estimator's own variables; its `cfg` is the engine's. The smoothed time and the variation
are set together, by the first sample or by a seed. -/
structure RttEstimator where
  estimates : Option (ℚ × ℚ)
  rto : ℚ
deriving DecidableEq

namespace RttEstimator

def srtt (e : RttEstimator) : Option ℚ := e.estimates.map Prod.fst

def rttvar (e : RttEstimator) : Option ℚ := e.estimates.map Prod.snd

def init (cfg : TimerConfig) : RttEstimator := ⟨none, cfg.rtoInitial⟩

def clamp (cfg : TimerConfig) (v : ℚ) : ℚ := min (max v cfg.rtoMin) cfg.rtoMax

/-- Incorporate an RTT measurement. -/
def sample (cfg : TimerConfig) (e : RttEstimator) (r : ℚ) : RttEstimator :=
  let (srtt, rttvar) :=
    match e.estimates with
    | none => (r, r / 2)
    | some (srtt, rttvar) =>
      ((1 - 1 / 8) * srtt + 1 / 8 * r, (1 - 1 / 4) * rttvar + 1 / 4 * |srtt - r|)
  ⟨some (srtt, rttvar), clamp cfg (srtt + max cfg.rttG (4 * rttvar))⟩

/-- Double the RTO on timeout, capped. -/
def backoff (cfg : TimerConfig) (e : RttEstimator) : RttEstimator :=
  { e with rto := min (e.rto * 2) cfg.rtoMax }

end RttEstimator

end HdlPlayground.Tcp
