/-!
# Angles

Radians are the unit throughout; degrees are converted by one multiplication
with the nearest single-precision factor.
-/

namespace FractalCurve.Number

def radians (degrees : Float32) : Float32 := degrees * Float32.ofBits 0x3c8efa35

def degrees (radians : Float32) : Float32 := radians * Float32.ofBits 0x42652ee1

def fullTurn : Float32 := Float32.ofBits 0x40c90fdb
def quarterTurn : Float32 := Float32.ofBits 0x3fc90fdb
def sixthTurn : Float32 := Float32.ofBits 0x3f860a92

end FractalCurve.Number
