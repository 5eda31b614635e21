import Effectus.Theorems.Invocation.Redirect

/-!
What a redirect takes to another origin. Each redirected request starts from the header fields of the first one, and the
client's check removes the invocation's fields when the origin changes. The fields it removes and those the invocation sets
are listed apart, and `Idempotency-Key` is only on the second list.
-/

namespace Effectus

namespace Invocation

open Http Fallible

/-! ### Field names -/

/-- A token is lowered byte by byte. -/
theorem toLower_token : ∀ {t : Text}, t.all isTokenByte = true → Text.toLower t = t.map Text.lowerByte
  | [], _ => rfl
  | b :: t, h => by
    obtain ⟨hb, ht⟩ := Bool.and_eq_true_iff.1 h
    have hne : ∀ b : UInt8, isTokenByte b = true → b ≠ 0xC4 ∧ b ≠ 0xE2 := by
      intro b hb
      constructor <;> rintro rfl <;> exact absurd hb (by decide)
    rw [Text.toLower, toLower_token ht, List.map_cons]
    · rintro t rfl
      exact absurd rfl (hne _ hb).1
    · rintro t rfl
      exact absurd rfl (hne _ hb).2

/-- The canonical form changes only the case of a token. -/
theorem canonicalFrom_token : ∀ (upper : Bool) {t : Text}, t.all isTokenByte = true →
    (canonicalFrom upper t).all isTokenByte = true ∧ (canonicalFrom upper t).map Text.lowerByte = t.map Text.lowerByte
  | _, [], _ => ⟨rfl, rfl⟩
  | upper, b :: t, h => by
    obtain ⟨hb, ht⟩ := Bool.and_eq_true_iff.1 h
    have hbyte : ∀ b : UInt8, isTokenByte b = true →
        isTokenByte (upperByte b) = true ∧ isTokenByte (lowerByte b) = true ∧
        Text.lowerByte (upperByte b) = Text.lowerByte b ∧ Text.lowerByte (lowerByte b) = Text.lowerByte b :=
      forall_byte (by decide +kernel)
    obtain ⟨hupper, hlower, hupper', hlower'⟩ := hbyte b hb
    obtain ⟨hrest, hrest'⟩ := canonicalFrom_token (b == 0x2D) ht
    rw [canonicalFrom, List.all_cons, List.map_cons, List.map_cons, hrest, hrest']
    cases upper
    · exact ⟨by simp [hlower], congrArg (· :: _) hlower'⟩
    · exact ⟨by simp [hupper], congrArg (· :: _) hupper'⟩

theorem toLower_canonicalKey (name : Text) : Text.toLower (canonicalKey name) = Text.toLower name := by
  unfold canonicalKey
  split
  · rename_i h
    obtain ⟨htoken, hlower⟩ := canonicalFrom_token true h
    rw [toLower_token htoken, hlower, toLower_token h]
  · rfl

theorem checkStaticNames_ok : ∀ {names : List Text} {seen : List (Text × Text)}, checkStaticNames seen names = .ok () →
    ∀ name ∈ names, Text.toLower name ∉ reservedHTTPHeaders
  | [], _, _ => List.forall_mem_nil _
  | name :: rest, seen, h => by
    rw [checkStaticNames] at h
    split at h
    · cases h
    obtain ⟨hfree, h⟩ := ite_error_ok.1 h
    rw [not_or] at hfree
    refine List.forall_mem_cons.2 ⟨fun hm => hfree.1 (List.contains_iff_mem.2 hm), checkStaticNames_ok h⟩

/-- Of the reserved names only one does not say whose it is. -/
theorem reserved_start {name : Text} (h : name ∈ reservedHTTPHeaders) :
    Text.hasPrefix name reservedStart = true ∨ name = Text.toLower headerIdempotencyKey := by
  have hall : ∀ name ∈ reservedHTTPHeaders,
      Text.hasPrefix name reservedStart = true ∨ name = Text.toLower headerIdempotencyKey := by decide
  exact hall name h

/-! ### Fields at another origin -/

theorem mem_stripHeaders {sensitiveHeaders : Dict Text Text} {header : Header} {key : Text} :
    key ∈ (stripHeaders sensitiveHeaders header).keys ↔ key ∈ header.keys ∧ key ≠ canonicalKey "Authorization" ∧
      key ≠ canonicalKey "Cookie" ∧ (∀ entry ∈ sensitiveHeaders.entries, key ≠ canonicalKey entry.1) ∧
      Text.hasPrefix (Text.toLower key) reservedStart = false := by
  have hfold : ∀ (entries : List (Text × Text)) (header : Header),
      key ∈ (entries.foldl (fun header entry => header.del entry.1) header).keys ↔
        key ∈ header.keys ∧ ∀ entry ∈ entries, key ≠ canonicalKey entry.1 := by
    intro entries
    induction entries with
    | nil => simp
    | cons entry entries ih =>
      intro header
      rw [List.foldl_cons, ih, Header.mem_keys_del, List.forall_mem_cons, and_assoc]
  unfold stripHeaders
  simp only [Header.mem_keys_filter, hfold, Header.mem_keys_del, and_assoc, Bool.not_eq_true']

/-- The fields leave out the invocation's, except for some, and those of the descriptor and of a session. -/
structure Bare (exceptions : List Text) (descriptor : Descriptor) (header : Header) : Prop where
  reserved : ∀ key ∈ header.keys, Text.toLower key ∈ reservedHTTPHeaders → Text.toLower key ∈ exceptions
  start : ∀ key ∈ header.keys, Text.hasPrefix (Text.toLower key) reservedStart = false
  static : ∀ entry ∈ (descriptorValues descriptor "headers").entries, canonicalKey entry.1 ∉ header.keys
  authorization : canonicalKey "Authorization" ∉ header.keys
  cookie : canonicalKey "Cookie" ∉ header.keys

/-- What is left of the fields at another origin: of the reserved ones, at most the idempotency key. -/
theorem stripHeaders_bare (descriptor : Descriptor) (header : Header) :
    Bare [Text.toLower headerIdempotencyKey] descriptor
      (stripHeaders (descriptorValues descriptor "headers") header) where
  reserved key hkey hreserved := by
    obtain ⟨-, -, -, -, hstart⟩ := mem_stripHeaders.1 hkey
    rcases reserved_start hreserved with h | h
    · rw [h] at hstart
      cases hstart
    · rw [h]
      exact List.mem_singleton_self _
  start key hkey := (mem_stripHeaders.1 hkey).2.2.2.2
  static entry hentry hkey := (mem_stripHeaders.1 hkey).2.2.2.1 entry hentry rfl
  authorization hkey := (mem_stripHeaders.1 hkey).2.1 rfl
  cookie hkey := (mem_stripHeaders.1 hkey).2.2.1 rfl

/-- No static field of an accepted executor has a reserved name. -/
theorem static_unreserved {executor accepted : HTTPExecutor} (h : newHTTPExecutor executor = .ok accepted)
    {entry : Text × Text} (hm : entry ∈ executor.headers.entries) : Text.toLower entry.1 ∉ reservedHTTPHeaders :=
  checkStaticNames_ok (newHTTPExecutor_ok h).2.2 _ (List.mem_map_of_mem hm)

theorem idempotencyKey_set (headers : Header) (request : InvocationRequest) :
    canonicalKey headerIdempotencyKey ∈ (setInvocationHeaders headers request).keys := by
  unfold setInvocationHeaders
  dsimp only
  split <;> simp [Header.mem_keys_set]

/-! ### Chains -/

/-- What the network library is trusted with: a text is itself up to case, and writing a URL that a reference led to
keeps its scheme. -/
structure LawfulNetwork [Network] : Prop where
  fold_refl : ∀ t, Network.equalFold t t = true
  scheme_kept : ∀ {base url parsed : Url} {reference : Text}, Network.resolveURL base reference = .ok url →
    Network.parseURL (Network.urlText url) = .ok parsed → parsed.scheme = url.scheme

section

variable [Network]

theorem HTTPNetworkPolicy.validateURL_scheme {policy : HTTPNetworkPolicy} {raw : Text} {parsed : Url}
    (h : policy.validateURL raw = .ok parsed) :
    Network.parseURL raw = .ok parsed ∧ (parsed.scheme = schemeHTTP ∨ parsed.scheme = schemeHTTPS) := by
  unfold validateURL at h
  split at h
  · cases h
  rename_i found hfound
  obtain ⟨hscheme, h⟩ := ite_error_ok.1 h
  obtain ⟨-, h⟩ := ite_error_ok.1 h
  obtain ⟨-, h⟩ := ite_error_ok.1 h
  obtain ⟨-, h⟩ := ite_error_ok.1 h
  cases h
  exact ⟨hfound, by tauto⟩

/-- A redirect that is followed: its URL is allowed, it does not leave HTTPS, and at another origin it goes without the
fields that are removed. -/
theorem HTTPNetworkPolicy.checkRedirect_next {policy : HTTPNetworkPolicy} {sensitiveHeaders : Dict Text Text}
    {request next : Request} {via : List Request} (h : policy.checkRedirect sensitiveHeaders request via = .ok next) :
    next.url = request.url ∧ (∃ parsed, policy.validateURL (Network.urlText request.url) = .ok parsed) ∧
    (∀ last ∈ via.getLast?, Network.equalFold last.url.scheme schemeHTTPS = true →
      Network.equalFold request.url.scheme schemeHTTP = false) ∧
    ∀ first ∈ via.head?, sameHTTPOrigin first.url request.url = false →
      next.header = stripHeaders sensitiveHeaders request.header := by
  unfold checkRedirect at h
  split at h
  · cases h
  split at h
  · cases h
  rename_i parsed hparsed
  obtain ⟨hdowngrade, h⟩ := ite_error_ok.1 h
  have hlast : ∀ last ∈ via.getLast?, Network.equalFold last.url.scheme schemeHTTPS = true →
      Network.equalFold request.url.scheme schemeHTTP = false := by
    intro last hlast hhttps
    by_contra hhttp
    refine hdowngrade ?_
    rw [Option.mem_def.1 hlast]
    simp [hhttps, Bool.eq_true_of_not_eq_false hhttp]
  split at h
  · cases h
    exact ⟨rfl, ⟨parsed, hparsed⟩, hlast, fun _ _ _ => rfl⟩
  · rename_i hsame
    cases h
    refine ⟨rfl, ⟨parsed, hparsed⟩, hlast, fun first hfirst hstray => absurd ?_ hsame⟩
    rw [Option.mem_def.1 hfirst]
    simp [hstray]

section

variable {policy : HTTPNetworkPolicy} {sensitiveHeaders : Dict Text Text}
  {server : List Exchange → Request → Except Err Response} {first request : Request} {via : List Exchange}

/-- A request at another origin has what is left of some fields, among them those of the first that are always copied. -/
theorem sends_stripped (hnet : LawfulNetwork)
    (h : (policy.client sensitiveHeaders).Sends Network.urls server first via request)
    (hstray : sameHTTPOrigin first.url request.url = false) :
    ∃ header, request.header = stripHeaders sensitiveHeaders header ∧ ∀ key ∈ first.header.keys,
      bodyFields.contains key = false → credentialFields.contains key = false → key ∈ header.keys := by
  cases h with
  | first => simp [sameHTTPOrigin, hnet.fold_refl] at hstray
  | @next via last _ response redirect location url h _ _ _ hcheck =>
    obtain ⟨hurl, -, -, hheader⟩ := HTTPNetworkPolicy.checkRedirect_next hcheck
    have hhead : first ∈ ((via ++ [Exchange.mk last response]).map Exchange.request).head? := by
      have := h.head
      cases via with
      | nil => exact congrArg some this
      | cons x via => exact congrArg some this
    refine ⟨_, hheader first hhead (hurl ▸ hstray), fun key hkey hbody hcredential => ?_⟩
    rw [← h.head] at hkey
    cases redirect <;> exact Urls.mem_copyHeaders hkey hbody hcredential

/-- After an HTTPS request every request is one. -/
theorem sends_https (hnet : LawfulNetwork)
    (h : (policy.client sensitiveHeaders).Sends Network.urls server first via request)
    (hx : ∃ x ∈ via, x.request.url.scheme = schemeHTTPS) : request.url.scheme = schemeHTTPS := by
  induction h with
  | first => exact absurd hx (by simp)
  | @next via last next response redirect location url h _ _ hresolve hcheck ih =>
    obtain ⟨hurl, ⟨parsed, hparsed⟩, hdowngrade, -⟩ := HTTPNetworkPolicy.checkRedirect_next hcheck
    have hnext : (Network.urls.next redirect via last url).url = url := by cases redirect <;> rfl
    rw [hnext] at hurl hparsed hdowngrade
    have hlast : last.url.scheme = schemeHTTPS := by
      obtain ⟨x, hm, hx⟩ := hx
      rcases List.mem_append.1 hm with hm | hm
      · exact ih ⟨x, hm, hx⟩
      · rw [List.mem_singleton.1 hm] at hx
        exact hx
    obtain ⟨hparse, hscheme⟩ := HTTPNetworkPolicy.validateURL_scheme hparsed
    rw [hnet.scheme_kept hresolve hparse] at hscheme
    rw [hurl]
    refine hscheme.resolve_left fun hhttp => ?_
    have hno := hdowngrade last (by simp) (by rw [hlast]; exact hnet.fold_refl _)
    rw [hhttp, hnet.fold_refl] at hno
    cases hno

end

/-- The idempotency key is not among what is removed. -/
theorem idempotencyKey_kept {descriptor : Descriptor} {executor : HTTPExecutor}
    (hresolve : resolveHTTP descriptor = .ok executor) {header : Header} (h : canonicalKey headerIdempotencyKey ∈ header.keys) :
    canonicalKey headerIdempotencyKey ∈ (stripHeaders (descriptorValues descriptor "headers") header).keys := by
  refine mem_stripHeaders.2 ⟨h, by decide, by decide, fun entry hm he => ?_, by decide⟩
  obtain ⟨hnew, hheaders, -⟩ := resolveHTTP_ok hresolve
  have hfree := static_unreserved hnew (hheaders ▸ hm)
  rw [← toLower_canonicalKey, ← he] at hfree
  exact hfree (by decide)

variable [Platform]

/-- The requests an executor sends for an invocation. -/
def HTTPExecutor.Sends (executor : HTTPExecutor) (server : List Exchange → Request → Except Err Response)
    (first : Request) (via : List Exchange) (request : Request) : Prop :=
  (executor.client.getD defaultClient).Sends Network.urls server first via request

/-- No request at another origin has fields that are not for it, and none goes back to HTTP. -/
structure Confined (exceptions : List Text) (descriptor : Descriptor) (executor : HTTPExecutor)
    (server : List Exchange → Request → Except Err Response) (first : Request) : Prop where
  bare : ∀ via request, executor.Sends server first via request → sameHTTPOrigin first.url request.url = false →
    Bare exceptions descriptor request.header
  secure : ∀ via request, executor.Sends server first via request → (∃ x ∈ via, x.request.url.scheme = schemeHTTPS) →
    request.url.scheme ≠ schemeHTTP

/-- The invocation's fields stay at their origin exactly if no redirect leaves it: the idempotency key goes along with
every one that does, and nothing else of the invocation. -/
theorem metadata_confined_iff (hnet : LawfulNetwork) {descriptor : Descriptor} {executor : HTTPExecutor}
    (hresolve : resolveHTTP descriptor = .ok executor) (server : List Exchange → Request → Except Err Response)
    (request : InvocationRequest) {first : Request} (hfirst : executor.httpRequest request = .ok first) :
    (Confined [] descriptor executor server first ↔
      ∀ via sent, executor.Sends server first via sent → sameHTTPOrigin first.url sent.url = true) ∧
    Confined [Text.toLower headerIdempotencyKey] descriptor executor server first := by
  obtain ⟨-, -, policy, hclient⟩ := resolveHTTP_ok hresolve
  obtain ⟨-, ⟨headers, hheader⟩, -⟩ := httpRequest_ok hfirst
  have hsends : ∀ {via sent}, executor.Sends server first via sent →
      (policy.client (descriptorValues descriptor "headers")).Sends Network.urls server first via sent := by
    intro via sent h
    rwa [HTTPExecutor.Sends, hclient, Option.getD_some] at h
  have hsecure : ∀ via sent, executor.Sends server first via sent → (∃ x ∈ via, x.request.url.scheme = schemeHTTPS) →
      sent.url.scheme ≠ schemeHTTP := by
    intro via sent h hx hhttp
    rw [sends_https hnet (hsends h) hx] at hhttp
    exact absurd hhttp (by decide)
  refine ⟨⟨fun h via sent hsent => ?_, fun h => ⟨fun via sent hsent hstray => ?_, hsecure⟩⟩,
    ⟨fun via sent hsent hstray => ?_, hsecure⟩⟩
  · by_contra hstray
    have hstray := Bool.eq_false_of_not_eq_true hstray
    have hbare := (h.bare via sent hsent hstray).reserved (canonicalKey headerIdempotencyKey)
    obtain ⟨header, hstripped, hcopied⟩ := sends_stripped hnet (hsends hsent) hstray
    have hkey := hcopied _ (hheader ▸ idempotencyKey_set headers request) (by decide) (by decide)
    exact absurd (hbare (hstripped ▸ idempotencyKey_kept hresolve hkey) (by decide)) (by simp)
  · rw [h via sent hsent] at hstray
    cases hstray
  · obtain ⟨header, hstripped, -⟩ := sends_stripped hnet (hsends hsent) hstray
    rw [hstripped]
    exact stripHeaders_bare descriptor _

end

section

/-- URLs as before, where every reference is a whole URL. -/
@[reducible] def absoluteNetwork : Network :=
  { plainNetwork with resolveURL := fun _ reference => plainNetwork.parseURL reference }

attribute [local instance] reference absoluteNetwork

theorem absoluteNetwork_lawful : LawfulNetwork where
  fold_refl t := beq_self_eq_true (t.map Text.lowerByte)
  scheme_kept {base url parsed reference} hurl hparsed := by
    have hscheme : ∀ {t : Text} {url : Url}, plainNetwork.parseURL t = .ok url → url.scheme = ("https" : Text) := by
      intro t url h
      change ite _ _ _ = _ at h
      split at h <;> cases h
      rfl
    rw [hscheme hurl, hscheme hparsed]

/-- A redirect to a place, and then the empty object. -/
def serverAt (location : Text) (via : List Exchange) (_ : Request) : Except Err Response :=
  if via.isEmpty then .ok ⟨307, [], Header.set .empty "Location" location, [], false⟩
  else .ok ⟨200, [], .empty, "\x7b\x7d", false⟩

/-- The executor, its first request, and what it sent up to the answer. -/
def chainAt (location : Text) : Except Err (HTTPExecutor × Request × List Exchange × Exchange) := do
  let executor ← resolveHTTP plainDescriptor
  let first ← executor.httpRequest plainInvocation
  let (via, final) ← executor.send (serverAt location) first
  return (executor, first, via, final)

theorem chainAt_found (location : Text) {p : HTTPExecutor × Request × List Exchange × Exchange → Bool}
    (h : (chainAt location).toOption.any p = true) : ∃ executor first via final,
      resolveHTTP plainDescriptor = .ok executor ∧ executor.httpRequest plainInvocation = .ok first ∧
      executor.Sends (serverAt location) first via final.request ∧ p (executor, first, via, final) = true := by
  obtain ⟨found, hok, hfound⟩ := ok_of_any h
  obtain ⟨executor, hexecutor, hok⟩ := bind_ok.1 hok
  obtain ⟨first, hfirst, hok⟩ := bind_ok.1 hok
  obtain ⟨⟨via, final⟩, hsend, hok⟩ := bind_ok.1 hok
  cases pure_ok.1 hok
  exact ⟨executor, first, via, final, hexecutor, hfirst, (Client.run_sends hsend).1, hfound⟩

/-- A redirect to another host takes the idempotency key there. -/
theorem idempotencyKey_strays : ∃ executor first via sent, resolveHTTP plainDescriptor = .ok executor ∧
    executor.httpRequest plainInvocation = .ok first ∧
    executor.Sends (serverAt "https://other.test/charge") first via sent ∧
    sameHTTPOrigin first.url sent.url = false ∧ sent.header.get headerIdempotencyKey = ("key" : Text) ∧
    ¬Confined [] plainDescriptor executor (serverAt "https://other.test/charge") first := by
  obtain ⟨executor, first, via, final, hexecutor, hfirst, hsends, hfound⟩ :=
    chainAt_found "https://other.test/charge" (p := fun x =>
      decide (sameHTTPOrigin x.2.1.url x.2.2.2.request.url = false ∧
        x.2.2.2.request.header.get headerIdempotencyKey = ("key" : Text) ∧
        canonicalKey headerIdempotencyKey ∈ x.2.2.2.request.header.keys)) (by decide)
  obtain ⟨hstray, hvalue, hkey⟩ := of_decide_eq_true hfound
  refine ⟨executor, first, via, final.request, hexecutor, hfirst, hsends, hstray, hvalue, fun h => ?_⟩
  exact absurd ((h.bare via final.request hsends hstray).reserved _ hkey (by decide)) (by simp)

/-- One redirect is followed, to where it leads. -/
theorem sends_serverAt {executor : HTTPExecutor} {location : Text} {first sent : Request} {via : List Exchange}
    (h : executor.Sends (serverAt location) first via sent) (hresolve : resolveHTTP plainDescriptor = .ok executor) :
    sent = first ∨ Network.parseURL location = .ok sent.url := by
  obtain ⟨-, -, policy, hclient⟩ := resolveHTTP_ok hresolve
  rw [HTTPExecutor.Sends, hclient, Option.getD_some] at h
  cases h with
  | first => exact .inl rfl
  | @next via last _ response redirect found url h hserver hredirect hurl hcheck =>
    right
    unfold serverAt at hserver
    split at hserver <;> cases hserver
    · have hlocation : (Header.set .empty "Location" location).get "Location" = location := by
        rw [Header.get_set, if_pos rfl]
      have hfound : found = location := by
        change (if (Header.set .empty "Location" location).get "Location" = [] then none
          else some (Redirect.same, (Header.set .empty "Location" location).get "Location")) = some (redirect, found)
          at hredirect
        rw [hlocation] at hredirect
        split at hredirect <;> cases hredirect
        rfl
      obtain ⟨hnext, -⟩ := HTTPNetworkPolicy.checkRedirect_next hcheck
      rw [hnext, ← hfound]
      cases redirect <;> exact hurl
    · cases hredirect

/-- A redirect within the host sends everything where it was sent before. -/
theorem metadata_confined_here : ∃ executor first via sent, resolveHTTP plainDescriptor = .ok executor ∧
    executor.httpRequest plainInvocation = .ok first ∧ via ≠ [] ∧
    executor.Sends (serverAt "https://example.test/other") first via sent ∧
    Confined [] plainDescriptor executor (serverAt "https://example.test/other") first := by
  obtain ⟨executor, first, via, final, hexecutor, hfirst, hsends, hfound⟩ :=
    chainAt_found "https://example.test/other" (p := fun x =>
      decide (x.2.2.1 ≠ [] ∧ sameHTTPOrigin x.2.1.url x.2.1.url = true ∧
        (Network.parseURL "https://example.test/other").toOption.all (sameHTTPOrigin x.2.1.url) = true)) (by decide)
  obtain ⟨hvia, hself, hother⟩ := of_decide_eq_true hfound
  refine ⟨executor, first, via, final.request, hexecutor, hfirst, hvia, hsends, ?_⟩
  refine (metadata_confined_iff absoluteNetwork_lawful hexecutor _ plainInvocation hfirst).1.2 fun via sent h => ?_
  rcases sends_serverAt h hexecutor with rfl | hurl
  · exact hself
  · rw [hurl] at hother
    exact hother

end

end Invocation

end Effectus
