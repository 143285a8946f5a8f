/-
The elementary functions.

Their values are those of the platform's double-precision library, reached through the interchange encoding. They are
total: outside its domain a function is NaN, at a pole it is the infinity of its limit, and overflow is an infinity.
-/
import Calculator.Binary64.Arithmetic

namespace Calculator.Binary64

/-- a function of the platform's library, on encodings -/
def elementary (f : Float → Float) (x : Binary64) : Binary64 := ofBits (f (Float.ofBits x.toBits)).toBits

def sqrt : Binary64 → Binary64 := elementary Float.sqrt
def cbrt : Binary64 → Binary64 := elementary Float.cbrt
def ln : Binary64 → Binary64 := elementary Float.log
def log10 : Binary64 → Binary64 := elementary Float.log10
def sin : Binary64 → Binary64 := elementary Float.sin
def cos : Binary64 → Binary64 := elementary Float.cos
def tan : Binary64 → Binary64 := elementary Float.tan
def asin : Binary64 → Binary64 := elementary Float.asin
def acos : Binary64 → Binary64 := elementary Float.acos
def atan : Binary64 → Binary64 := elementary Float.atan
def sinh : Binary64 → Binary64 := elementary Float.sinh
def cosh : Binary64 → Binary64 := elementary Float.cosh
def tanh : Binary64 → Binary64 := elementary Float.tanh
def asinh : Binary64 → Binary64 := elementary Float.asinh
def acosh : Binary64 → Binary64 := elementary Float.acosh
def atanh : Binary64 → Binary64 := elementary Float.atanh

/-- `a` raised to `b`: zero to a negative power is an infinity, a negative base to a fractional power is NaN. -/
def pow (a b : Binary64) : Binary64 := ofBits (Float.ofBits a.toBits ^ Float.ofBits b.toBits).toBits

/-- the logarithm of `x` in any base: a quotient of two rounded logarithms, rounded -/
def log (x base : Binary64) : Binary64 := x.ln / base.ln

/-- the number nearest to the circle constant -/
def pi : Binary64 := ofRatio false 3141592653589793 (10 ^ 15)

/-- the number nearest to the base of natural logarithms -/
def e : Binary64 := ofRatio false 2718281828459045 (10 ^ 15)

end Calculator.Binary64
