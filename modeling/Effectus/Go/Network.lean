import Effectus.Errors
import Effectus.Lib.Http

/-!
The parts of Go's standard library that network addresses and settings are read with. They are left open, as the rest of
the platform is.
-/

namespace Effectus

class Network where
  /-- `url.Parse`. -/
  parseURL : Text → Except Err Http.Url
  /-- `(*url.URL).Parse`: a reference from a URL. -/
  resolveURL : Http.Url → Text → Except Err Http.Url
  /-- `(*url.URL).String`. -/
  urlText : Http.Url → Text
  /-- `(*url.URL).String` without the user. -/
  withoutUser : Http.Url → Text
  /-- `shouldCopyHeaderOnRedirect`, or the same host. -/
  isWithin : Http.Url → Http.Url → Bool
  /-- `net.ParseIP`: 16 bytes, also for an address of four. -/
  parseIP : Text → Option (List UInt8)
  /-- `time.ParseDuration`. -/
  parseDuration : Text → Option Int
  /-- `strings.EqualFold`. -/
  equalFold : Text → Text → Bool

/-- What the HTTP client reads off URLs. -/
def Network.urls [Network] : Http.Urls Err := ⟨Network.resolveURL, Network.withoutUser, Network.isWithin⟩

end Effectus
