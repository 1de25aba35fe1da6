import RoverControl.Hardware.Motors

/-!
# Pan and tilt servo
-/

namespace RoverControl

/-- How far the servo can move, in degrees. -/
structure ServoLimits where
  panMin : Float
  panMax : Float
  tiltMin : Float
  tiltMax : Float

def ServoLimits.standard : ServoLimits := ⟨-90, 90, -45, 45⟩

/-- The position of the servo, in degrees. -/
structure Servo where
  limits : ServoLimits
  pan : Float
  tilt : Float

namespace Servo

/-- A servo that points ahead. -/
def new (limits : ServoLimits) : Servo := ⟨limits, 0, 0⟩

/-- Moves as far towards a position as the limits allow. -/
def moveTo (s : Servo) (pan tilt : Float) : Servo :=
  { s with
    pan := Motors.clamp pan s.limits.panMin s.limits.panMax
    tilt := Motors.clamp tilt s.limits.tiltMin s.limits.tiltMax }

end Servo

end RoverControl
