import Effectus.Go.Platform
import Effectus.Lib.Sha256

/-!
A platform to run the model on, with the digest Go uses.
-/

namespace Effectus

@[reducible] def reference : Platform where
  sha256 := Sha256.sum256
  testBinary := false
  formatFloat := fun _ => .ofInt 0
  formatFloat32 := fun _ => .ofInt 0
  matchString := fun _ _ => none

end Effectus
