import Effectus.Lib.Float64
import Effectus.Lib.JsonNumber

/-!
The parts of Go's standard library the model leaves open. Every definition and theorem is
parametric in them: the digest stands for SHA-256, the formatter for the shortest decimal `strconv`
prints, of which only reading back is used, and the matcher for `regexp`.
-/

namespace Effectus

/-- The double a number literal denotes, as `strconv.ParseFloat` rounds it. -/
def Float64.ofNumber (p : NumberParts) : Float64 := Float64.ofAbs p.neg p.absValue

/-- What the program takes from its platform. -/
class Platform where
  /-- `sha256.Sum256`. -/
  sha256 : Text → Text
  /-- `strings.HasSuffix(os.Args[0], ".test")`. -/
  testBinary : Bool
  /-- How `encoding/json` prints a finite `float64`. -/
  formatFloat : Float64 → JsonNumber
  /-- How `encoding/json` prints a finite `float32`. -/
  formatFloat32 : Float64 → JsonNumber
  /-- `regexp.MatchString`; no value when the pattern does not compile. -/
  matchString : Text → Text → Option Bool

end Effectus
