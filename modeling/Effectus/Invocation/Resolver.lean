import Effectus.Invocation.Http
import Effectus.Runtime.Build

/-!
Executors from descriptors. The network policy is applied to the URL of the descriptor and to every redirect: how many
there may be, to which addresses, never from HTTPS to HTTP, and without the invocation's header fields at another origin.
-/

namespace Effectus

namespace Invocation

/-! ### Descriptors -/

/-- A text field of a descriptor; one that is missing is empty. -/
def descriptorText (descriptor : Descriptor) (name : Text) : Text :=
  match descriptor.document with
  | .obj members =>
    match Json.member? members name with
    | some (.str text) => text.bytes
    | _ => []
  | _ => []

/-- A name and its value. -/
def descriptorEntry : Json → Option (Text × Text)
  | .obj members =>
    match Json.member? members "name", Json.member? members "value" with
    | some (.str name), some (.str value) => some (name.bytes, value.bytes)
    | _, _ => none
  | _ => none

/-- Named values of a descriptor. -/
def descriptorValues (descriptor : Descriptor) (name : Text) : Dict Text Text :=
  match descriptor.document with
  | .obj members =>
    match Json.member? members name with
    | some (.arr items) => .ofEntries (items.filterMap descriptorEntry)
    | _ => .empty
  | _ => .empty

/-! ### Addresses -/

/-- The first `length` bits of an address. -/
structure NetPrefix where
  address : List UInt8
  length : Nat

/-- The bits of an address, the highest first. -/
def addressBits (address : List UInt8) : List Bool :=
  address.flatMap fun b => (List.range 8).map fun i => decide (b.toNat / 2 ^ (7 - i) % 2 = 1)

def NetPrefix.contains (p : NetPrefix) (address : List UInt8) : Bool :=
  decide (p.address.length = address.length) &&
    (addressBits p.address).take p.length == (addressBits address).take p.length

/-- Sixteen bytes from eight groups. -/
def ipv6 (groups : List UInt16) : List UInt8 := groups.flatMap fun (g : UInt16) => [(g >>> 8).toUInt8, g.toUInt8]

def httpNonPublicIPv4 : List NetPrefix :=
  [⟨[0, 0, 0, 0], 8⟩, ⟨[10, 0, 0, 0], 8⟩, ⟨[100, 64, 0, 0], 10⟩, ⟨[127, 0, 0, 0], 8⟩, ⟨[169, 254, 0, 0], 16⟩,
    ⟨[172, 16, 0, 0], 12⟩, ⟨[192, 0, 0, 0], 24⟩, ⟨[192, 0, 2, 0], 24⟩, ⟨[192, 88, 99, 0], 24⟩, ⟨[192, 168, 0, 0], 16⟩,
    ⟨[198, 18, 0, 0], 15⟩, ⟨[198, 51, 100, 0], 24⟩, ⟨[203, 0, 113, 0], 24⟩, ⟨[240, 0, 0, 0], 4⟩]

def httpPublicSpecialIPv4 : List NetPrefix := [⟨[192, 0, 0, 9], 32⟩, ⟨[192, 0, 0, 10], 32⟩]

def httpPublicIPv6 : NetPrefix := ⟨ipv6 [0x2000, 0, 0, 0, 0, 0, 0, 0], 3⟩

def httpNonPublicIPv6 : List NetPrefix :=
  [⟨ipv6 [0x2001, 0, 0, 0, 0, 0, 0, 0], 23⟩, ⟨ipv6 [0x2001, 0xDB8, 0, 0, 0, 0, 0, 0], 32⟩,
    ⟨ipv6 [0x2002, 0, 0, 0, 0, 0, 0, 0], 16⟩, ⟨ipv6 [0x3FFF, 0, 0, 0, 0, 0, 0, 0], 20⟩]

def httpPublicSpecialIPv6 : List NetPrefix :=
  [⟨ipv6 [0x2001, 1, 0, 0, 0, 0, 0, 1], 128⟩, ⟨ipv6 [0x2001, 1, 0, 0, 0, 0, 0, 2], 128⟩,
    ⟨ipv6 [0x2001, 1, 0, 0, 0, 0, 0, 3], 128⟩, ⟨ipv6 [0x2001, 3, 0, 0, 0, 0, 0, 0], 32⟩,
    ⟨ipv6 [0x2001, 4, 0x112, 0, 0, 0, 0, 0], 48⟩, ⟨ipv6 [0x2001, 0x20, 0, 0, 0, 0, 0, 0], 28⟩,
    ⟨ipv6 [0x2001, 0x30, 0, 0, 0, 0, 0, 0], 28⟩]

/-- Twelve bytes that say that an address of sixteen bytes is one of four. -/
def mappedStart : List UInt8 := [0, 0, 0, 0, 0, 0, 0, 0, 0, 0, 0xFF, 0xFF]

/-- `To4` and `Unmap`: the four bytes of an address that has them. -/
def unmap (ip : List UInt8) : List UInt8 :=
  if ip.length = 16 ∧ mappedStart.isPrefixOf ip then ip.drop 12 else ip

/-- An address no packet is sent to by itself: unspecified, multicast or link-local. -/
def isSpecialIP (ip : List UInt8) : Bool :=
  match unmap ip with
  | [a, b, c, d] =>
    (a == 0 && b == 0 && c == 0 && d == 0) || (0xE0 ≤ a && a ≤ 0xEF) || (a == 169 && b == 254)
  | address =>
    (address.length == 16 && address.all (· == 0)) || (address.length == 16 && address.head? == some 0xFF) ||
      (NetPrefix.mk (ipv6 [0xFE80, 0, 0, 0, 0, 0, 0, 0]) 10).contains address

structure HTTPNetworkPolicy where
  allowPrivate : Bool

/-- An address of neither four nor sixteen bytes is none. -/
def HTTPNetworkPolicy.allowedIP (policy : HTTPNetworkPolicy) (ip : List UInt8) : Bool :=
  if isSpecialIP ip then false
  else if ip.length ≠ 4 ∧ ip.length ≠ 16 then false
  else if policy.allowPrivate then true
  else
    let address := unmap ip
    if address.length = 16 ∧ httpPublicIPv6.contains address = false then false
    else
      let blocked := if address.length = 4 then httpNonPublicIPv4 else httpNonPublicIPv6
      let exceptions := if address.length = 4 then httpPublicSpecialIPv4 else httpPublicSpecialIPv6
      !blocked.any (·.contains address) || exceptions.any (·.contains address)

section

variable [Network]

def schemeHTTP : Text := "http"

def schemeHTTPS : Text := "https"

def HTTPNetworkPolicy.validateURL (policy : HTTPNetworkPolicy) (raw : Text) : Except Err Http.Url :=
  match Network.parseURL raw with
  | .error err => .error (err.under "parse invocation HTTP URL")
  | .ok parsed =>
    if parsed.scheme ≠ schemeHTTP ∧ parsed.scheme ≠ schemeHTTPS then
      .error (.new "invocation HTTP URL scheme must be http or https")
    else if parsed.hostname = [] ∨ parsed.hasUser then
      .error (.new "invocation HTTP URL must have a host and no user information")
    else if Network.equalFold parsed.hostname "localhost" ∧ policy.allowPrivate = false then
      .error (.new "invocation HTTP URL host is not allowed")
    else if (Network.parseIP parsed.hostname).any fun ip => !policy.allowedIP ip then
      .error (.new "invocation HTTP URL IP is not allowed")
    else .ok parsed

/-! ### The client -/

/-- The port a request goes to. -/
def effectivePort (url : Http.Url) : Text :=
  if url.port ≠ [] then url.port
  else if Network.equalFold url.scheme schemeHTTPS then ("443" : Text)
  else ("80" : Text)

def sameHTTPOrigin (left right : Http.Url) : Bool :=
  Network.equalFold left.scheme right.scheme && Network.equalFold left.hostname right.hostname &&
    effectivePort left == effectivePort right

/-- The fields a request may take to another origin. -/
def stripHeaders (sensitiveHeaders : Dict Text Text) (header : Http.Header) : Http.Header :=
  let header := (header.del "Authorization").del "Cookie"
  let header := sensitiveHeaders.entries.foldl (fun header entry => header.del entry.1) header
  header.filter fun key => !Text.hasPrefix (Text.toLower key) reservedStart

/-- The check of a redirect after the requests of `via`. -/
def HTTPNetworkPolicy.checkRedirect (policy : HTTPNetworkPolicy) (sensitiveHeaders : Dict Text Text)
    (request : Http.Request) (via : List Http.Request) : Except Err Http.Request :=
  if 3 ≤ via.length then .error (.new "invocation HTTP redirect limit exceeded")
  else
    match policy.validateURL (Network.urlText request.url) with
    | .error err => .error err
    | .ok _ =>
      if via.getLast?.any fun last =>
          Network.equalFold last.url.scheme schemeHTTPS && Network.equalFold request.url.scheme schemeHTTP then
        .error (.new "invocation HTTPS redirect cannot downgrade to HTTP")
      else if via.head?.any fun first => !sameHTTPOrigin first.url request.url then
        .ok { request with header := stripHeaders sensitiveHeaders request.header }
      else .ok request

/-- The client without its timeout and its dialer, which only make a request fail. -/
def HTTPNetworkPolicy.client (policy : HTTPNetworkPolicy) (sensitiveHeaders : Dict Text Text) : Http.Client Err where
  limit := 3
  checkRedirect := policy.checkRedirect sensitiveHeaders
  bounded := fun _ _ h => ⟨_, if_pos h⟩

/-! ### Resolving -/

/-- `strconv.ParseInt(_, 10, 64)`. -/
def parseInt64 (t : Text) : Option Int :=
  let (neg, ds) := match t with
    | 0x2D :: ds => (true, ds)
    | 0x2B :: ds => (false, ds)
    | ds => (false, ds)
  if ds = [] ∨ ds.all Text.isDigit = false then none
  else
    let n : Int := if neg then -(Text.digitsValue 0 ds : Int) else Text.digitsValue 0 ds
    if -(2 ^ 63) ≤ n ∧ n < 2 ^ 63 then some n else none

/-- `strconv.ParseBool`. -/
def parseBool (t : Text) : Option Bool :=
  if ["1", "t", "T", "TRUE", "true", "True"].any fun s => Text.ofString s == t then some true
  else if ["0", "f", "F", "FALSE", "false", "False"].any fun s => Text.ofString s == t then some false
  else none

/-- A setting that may be left out. -/
def readSetting {α : Type} (settings : Dict Text Text) (name : Text) (unset : α) (parse : Text → Option α)
    (message : Text) : Except Err α :=
  let raw := Text.trimSpace ((settings.get? name).getD [])
  if raw = [] then .ok unset
  else
    match parse raw with
    | none => .error (.new message)
    | some value => .ok value

/-- A number above zero. -/
def positive (n : Option Int) : Option Int := n.filter fun n => decide (0 < n)

/-- `HTTPResolver.Resolve`. The timeout is only read. -/
def resolveHTTP (descriptor : Descriptor) : Except Err HTTPExecutor :=
  if descriptorText descriptor "type" ≠ ("http" : Text) then
    .error (.new (("HTTP resolver cannot resolve descriptor type " : Text) ++
      Text.quote (descriptorText descriptor "type")))
  else do
    let settings := descriptorValues descriptor "settings"
    let method := Text.trimSpace ((settings.get? "method").getD [])
    let _ ← readSetting settings "timeout" (30 * DispatcherOptions.second) (fun raw => positive (Network.parseDuration raw))
      "invocation HTTP timeout must be a positive duration"
    let maxResponseBytes ← readSetting settings "max_response_bytes" (2 ^ 20) (fun raw => positive (parseInt64 raw))
      "invocation HTTP max_response_bytes must be positive"
    let allowPrivate ← readSetting settings "allow_private_network" false parseBool
      "invocation HTTP allow_private_network must be boolean"
    let policy : HTTPNetworkPolicy := ⟨allowPrivate⟩
    let _ ← policy.validateURL (descriptorText descriptor "reference")
    newHTTPExecutor {
      url := descriptorText descriptor "reference"
      method := if method = [] then Http.methodPost else method
      headers := descriptorValues descriptor "headers"
      client := some (policy.client (descriptorValues descriptor "headers"))
      maxResponseBytes := maxResponseBytes }

end

end Invocation

end Effectus
