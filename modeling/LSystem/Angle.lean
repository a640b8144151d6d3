namespace LSystem

/-- Half of a full turn in radians, to the nearest binary32. -/
def halfTurn : Float32 := Float32.ofBits 0x40490fdb

def quarterTurn : Float32 := Float32.ofBits 0x3fc90fdb

def thirdTurn : Float32 := Float32.ofBits 0x40060a92

end LSystem
