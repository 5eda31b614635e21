import Effectus.Lib.Assoc
import Effectus.Lib.Text
import Mathlib.Data.List.Induction

/-!
HTTP messages, and a client that follows redirects as Go's `net/http` documents them. What a client allows is its own
check of each redirect; the servers are any function of the exchanges so far.
-/

namespace Effectus

namespace Http

/-! ### Header fields -/

/-- The bytes of a token, which field names and methods are made of. -/
def isTokenByte (b : UInt8) : Bool :=
  (0x30 ≤ b && b ≤ 0x39) || (0x41 ≤ b && b ≤ 0x5A) || (0x61 ≤ b && b ≤ 0x7A) || b == 0x21 ||
    (0x23 ≤ b && b ≤ 0x27) || b == 0x2A || b == 0x2B || b == 0x2D || b == 0x2E || b == 0x5E || b == 0x5F ||
    b == 0x60 || b == 0x7C || b == 0x7E

def isToken (t : Text) : Bool := !t.isEmpty && t.all isTokenByte

def upperByte (b : UInt8) : UInt8 := if 0x61 ≤ b && b ≤ 0x7A then b - 0x20 else b

def lowerByte (b : UInt8) : UInt8 := if 0x41 ≤ b && b ≤ 0x5A then b + 0x20 else b

/-- Upper case at the start and after each hyphen, lower case elsewhere. -/
def canonicalFrom : Bool → Text → Text
  | _, [] => []
  | upper, b :: t => (if upper then upperByte b else lowerByte b) :: canonicalFrom (b == 0x2D) t

/-- `CanonicalHeaderKey`: a name that is no token stays as it is. -/
def canonicalKey (name : Text) : Text := if name.all isTokenByte then canonicalFrom true name else name

/-- The fields of a message under their canonical names. -/
abbrev Header := Dict Text (List Text)

namespace Header

def set (h : Header) (name value : Text) : Header := Dict.set h (canonicalKey name) [value]

/-- The first value, or the empty text. -/
def get (h : Header) (name : Text) : Text := ((h.get? (canonicalKey name)).bind List.head?).getD []

/-- The fields whose names are as asked. -/
def filter (h : Header) (keep : Text → Bool) : Header :=
  ⟨h.entries.filter fun x => keep x.1, h.ordered.sublist List.filter_sublist⟩

def del (h : Header) (name : Text) : Header := h.filter fun key => key ≠ canonicalKey name

theorem get_set (h : Header) (name value other : Text) :
    (h.set name value).get other = if canonicalKey other = canonicalKey name then value else h.get other := by
  unfold get set Dict.set Dict.get?
  rw [Assoc.get?_set]
  split
  · rfl
  · rfl

/-- Fields of different names that are set one after another. -/
theorem get_setAll {fields : List (Text × Text)} (hn : (fields.map fun x => canonicalKey x.1).Nodup) {name value : Text}
    (hm : (name, value) ∈ fields) (h : Header) :
    (fields.foldl (fun h x => h.set x.1 x.2) h).get name = value := by
  -- What is set last stands; the earlier fields have other names.
  induction fields using List.reverseRecOn with
  | nil => exact absurd hm List.not_mem_nil
  | append_singleton fields x ih =>
    rw [List.map_append, List.nodup_append] at hn
    rw [List.foldl_append, List.foldl_cons, List.foldl_nil, get_set]
    rcases List.mem_append.1 hm with hm | hm
    · have hne : canonicalKey name ≠ canonicalKey x.1 :=
        hn.2.2 _ (List.mem_map.2 ⟨_, hm, rfl⟩) _ (List.mem_map.2 ⟨x, List.mem_singleton_self _, rfl⟩)
      rw [if_neg hne]
      exact ih hn.1 hm
    · cases List.mem_singleton.1 hm
      exact if_pos rfl

/-- The names of the fields. -/
def keys (h : Header) : List Text := h.entries.map Prod.fst

theorem mem_keys_set {h : Header} {name value key : Text} :
    key ∈ (h.set name value).keys ↔ key = canonicalKey name ∨ key ∈ h.keys := by
  unfold keys
  rw [← Assoc.get?_isSome, ← Assoc.get?_isSome]
  unfold set Dict.set
  rw [Assoc.get?_set]
  split
  · simp [*]
  · simp [*]

theorem mem_keys_filter {h : Header} {keep : Text → Bool} {key : Text} :
    key ∈ (h.filter keep).keys ↔ key ∈ h.keys ∧ keep key = true := by
  unfold keys filter
  simp

theorem mem_keys_del {h : Header} {name key : Text} : key ∈ (h.del name).keys ↔ key ∈ h.keys ∧ key ≠ canonicalKey name := by
  rw [del, mem_keys_filter, decide_eq_true_eq]

end Header

/-! ### Messages -/

/-- What is looked at in a URL. -/
structure Url where
  scheme : Text
  hasUser : Bool
  hostname : Text
  port : Text
  rest : Text
  deriving DecidableEq

structure Request where
  method : Text
  url : Url
  header : Header
  /-- A request without a body has none, which is not the empty one. -/
  body : Option Text

/-- A response; one that was cut off ends in an error after these bytes. -/
structure Response where
  statusCode : Nat
  status : Text
  header : Header
  body : Text
  isCut : Bool

structure Exchange where
  request : Request
  response : Response

def methodGet : Text := "GET"

def methodHead : Text := "HEAD"

def methodPost : Text := "POST"

/-! ### Redirects -/

/-- How a redirect is followed: as a request for another resource, or by the same request. -/
inductive Redirect where
  | other
  | same
  deriving DecidableEq

def Redirect.of (statusCode : Nat) : Option Redirect :=
  if statusCode = 301 ∨ statusCode = 302 ∨ statusCode = 303 then some .other
  else if statusCode = 307 ∨ statusCode = 308 then some .same
  else none

/-- A redirect and where it leads. Without a location it is an answer like any other. -/
def Response.redirect? (response : Response) : Option (Redirect × Text) :=
  match Redirect.of response.statusCode with
  | none => none
  | some redirect =>
    if response.header.get ("Location" : Text) = [] then none
    else some (redirect, response.header.get ("Location" : Text))

/-- What is read off URLs: where a reference leads, the text of a URL without its user, and whether the credentials for one
URL may go to another, at the same host or one under it. -/
structure Urls (ε : Type) where
  resolve : Url → Text → Except ε Url
  withoutUser : Url → Text
  isWithin : Url → Url → Bool

def bodyFields : List Text := ["Content-Encoding", "Content-Language", "Content-Location", "Content-Type"]

def credentialFields : List Text :=
  ["Authorization", "Www-Authenticate", "Cookie", "Cookie2", "Proxy-Authorization", "Proxy-Authenticate"]

section

variable {ε : Type}

/-- `refererForURL`. -/
def Urls.referer (urls : Urls ε) (last url : Url) (explicit : Text) : Text :=
  if last.scheme = ("https" : Text) ∧ url.scheme = ("http" : Text) then []
  else if explicit ≠ [] then explicit
  else urls.withoutUser last

/-- The request that began a chain. -/
def firstOf (via : List Exchange) (last : Request) : Request := (via.head?.map Exchange.request).getD last

/-- The fields of the first request, without those of the body once a redirect dropped it and without credentials once one
left their domain; and where the redirect came from. -/
def Urls.copyHeaders (urls : Urls ε) (redirect : Redirect) (via : List Exchange) (last : Request) (url : Url) : Header :=
  let first := firstOf via last
  let includeBody := redirect == .same && via.all fun x => x.response.redirect?.all fun hop => hop.1 == .same
  let within := ((via.map fun x => x.request.url) ++ [last.url, url]).tail.all (urls.isWithin first.url)
  let header := first.header.filter fun key =>
    (includeBody || !bodyFields.contains key) && (within || !credentialFields.contains key)
  let referer := urls.referer last.url url (header.get "Referer")
  if referer = [] then header else header.set "Referer" referer

/-- The request a redirect asks for. A body that was dropped is not sent again. -/
def Urls.next (urls : Urls ε) (redirect : Redirect) (via : List Exchange) (last : Request) (url : Url) : Request :=
  let header := urls.copyHeaders redirect via last url
  match redirect with
  | .other => ⟨if last.method = methodGet ∨ last.method = methodHead then last.method else methodGet, url, header, none⟩
  | .same => ⟨last.method, url, header, last.body⟩

/-- Fields of neither list are always copied. -/
theorem Urls.mem_copyHeaders {urls : Urls ε} {redirect : Redirect} {via : List Exchange} {last : Request} {url : Url}
    {key : Text} (h : key ∈ (firstOf via last).header.keys) (hbody : bodyFields.contains key = false)
    (hcredential : credentialFields.contains key = false) : key ∈ (urls.copyHeaders redirect via last url).keys := by
  unfold copyHeaders
  dsimp only
  split
  · rw [Header.mem_keys_filter, hbody, hcredential]
    simp [h]
  · rw [Header.mem_keys_set, Header.mem_keys_filter, hbody, hcredential]
    simp [h]

/-- A client: what it says to a redirect after some requests. It never allows more than `limit` requests. -/
structure Client (ε : Type) where
  limit : Nat
  checkRedirect : Request → List Request → Except ε Request
  bounded : ∀ request via, limit ≤ via.length → ∃ err, checkRedirect request via = .error err

theorem Client.refused {client : Client ε} {request next : Request} {via : List Request} (h : client.limit ≤ via.length) :
    client.checkRedirect request via ≠ .ok next := by
  obtain ⟨err, herr⟩ := client.bounded request via h
  simp [herr]

/-- `Client.Do` after the exchanges of `via`: those that led to the answer, and the answer with its request. The client
allows no request past its limit, so the requests that are left run out only when it refuses. -/
def Client.follow (client : Client ε) (urls : Urls ε)
    (server : List Exchange → Request → Except ε Response) :
    (left : Nat) → (via : List Exchange) → client.limit ≤ via.length + left → Request → Except ε (List Exchange × Exchange)
  | left, via, hleft, request =>
    match server via request with
    | .error err => .error err
    | .ok response =>
      match response.redirect? with
      | none => .ok (via, ⟨request, response⟩)
      | some (redirect, location) =>
        match urls.resolve request.url location with
        | .error err => .error err
        | .ok url =>
          match hcheck : client.checkRedirect (urls.next redirect via request url)
              ((via ++ [Exchange.mk request response]).map Exchange.request) with
          | .error err => .error err
          | .ok next =>
            match left, hleft with
            | 0, hleft => absurd hcheck (client.refused (by simp; omega))
            | left + 1, hleft =>
              client.follow urls server left (via ++ [Exchange.mk request response]) (by simp; omega) next

/-- What holds of the first request and is kept by every redirect the client allows holds of the request that was
answered. -/
theorem Client.follow_invariant {client : Client ε} {urls : Urls ε}
    {server : List Exchange → Request → Except ε Response} {P : List Exchange → Request → Prop}
    (step : ∀ via request response redirect location url next, P via request → server via request = .ok response →
      response.redirect? = some (redirect, location) → urls.resolve request.url location = .ok url →
      client.checkRedirect (urls.next redirect via request url) ((via ++ [Exchange.mk request response]).map Exchange.request) = .ok next →
      P (via ++ [⟨request, response⟩]) next) :
    ∀ {left : Nat} {via : List Exchange} {hleft : client.limit ≤ via.length + left} {request : Request}
      {via' : List Exchange} {final : Exchange}, P via request →
      client.follow urls server left via hleft request = .ok (via', final) →
      P via' final.request ∧ server via' final.request = .ok final.response ∧ final.response.redirect? = none
  | left, via, hleft, request, via', final, hp, h => by
    unfold follow at h
    split at h
    · cases h
    rename_i response hserver
    split at h
    · rename_i hredirect
      cases h
      exact ⟨hp, hserver, hredirect⟩
    rename_i redirect location hredirect
    split at h
    · cases h
    rename_i url hurl
    split at h
    · cases h
    rename_i next hcheck
    split at h
    · exact absurd hcheck (client.refused (by simp; omega))
    · exact follow_invariant step (step _ _ _ _ _ _ _ hp hserver hredirect hurl hcheck) h

/-- `Client.Do`. -/
def Client.run (client : Client ε) (urls : Urls ε)
    (server : List Exchange → Request → Except ε Response) (request : Request) :
    Except ε (List Exchange × Exchange) :=
  client.follow urls server client.limit [] (by simp) request

/-- A request that is sent after some exchanges, whether or not the chain it is in ends with an answer. -/
inductive Client.Sends (client : Client ε) (urls : Urls ε)
    (server : List Exchange → Request → Except ε Response) (first : Request) : List Exchange → Request → Prop
  | first : Sends client urls server first [] first
  | next {via : List Exchange} {request next : Request} {response : Response} {redirect : Redirect} {location : Text}
    {url : Url} (h : Sends client urls server first via request) (hserver : server via request = .ok response)
    (hredirect : response.redirect? = some (redirect, location)) (hurl : urls.resolve request.url location = .ok url)
    (hcheck : client.checkRedirect (urls.next redirect via request url) ((via ++ [Exchange.mk request response]).map Exchange.request) = .ok next) :
    Sends client urls server first (via ++ [⟨request, response⟩]) next

section

variable {client : Client ε} {urls : Urls ε}
  {server : List Exchange → Request → Except ε Response} {first request : Request} {via : List Exchange}

theorem Client.run_sends {final : Exchange} (h : client.run urls server first = .ok (via, final)) :
    client.Sends urls server first via final.request ∧ server via final.request = .ok final.response := by
  obtain ⟨hsends, hserver, -⟩ := Client.follow_invariant (P := client.Sends urls server first)
    (fun _ _ _ _ _ _ _ hp hserver hredirect hurl hcheck => .next hp hserver hredirect hurl hcheck) .first h
  exact ⟨hsends, hserver⟩

/-- The chain begins with the first request. -/
theorem Client.Sends.head (h : client.Sends urls server first via request) :
    firstOf via request = first := by
  induction h with
  | first => rfl
  | @next via request _ _ _ _ _ _ _ _ _ _ ih =>
    cases via with
    | nil => exact ih
    | cons x via => exact ih

end

end

end Http

end Effectus
