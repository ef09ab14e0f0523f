import ReactiveView.Number.Shortest

/-!
# Written numbers

A number is written with the fewest digits that read back to it. Values show
magnitudes from 10^21 on and below 10^-6 with an exponent, tokens never do.
-/

namespace ReactiveView.Number

set_option autoImplicit false

open Float.Model

def signText : UnpackedFloat.Sign → List Char
  | .positive => []
  | .negative => ['-']

/-- The digits of a value: positional when the leading digit has an exponent
from -6 to 20. -/
def magnitudeText (x : Binary) : List Char :=
  let decimal := x.shortest
  if -6 ≤ decimal.leadingExponent ∧ decimal.leadingExponent ≤ 20 then decimal.positional
  else decimal.scientific

/-- The text of a number as a value. Zero has no sign. -/
def text (x : Float) : String :=
  match x.toModel.unpack with
  | .notANumber => "NaN"
  | .infinity .positive => "Infinity"
  | .infinity .negative => "-Infinity"
  | .zero _ => "0"
  | .finite sign mantissa power _ =>
      String.ofList (signText sign ++ magnitudeText ⟨mantissa, power⟩)

def plainText (x : Float) : String :=
  match x.toModel.unpack with
  | .notANumber => "NaN"
  | .infinity sign => String.ofList (signText sign ++ ['i', 'n', 'f'])
  | .zero sign => String.ofList (signText sign ++ ['0'])
  | .finite sign mantissa power _ =>
      String.ofList (signText sign ++ (Binary.mk mantissa power).shortest.positional)

end ReactiveView.Number
