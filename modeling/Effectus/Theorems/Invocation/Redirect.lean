import Effectus.Go.Reference
import Effectus.Invocation.Resolver
import Effectus.Lib.Fallible

/-!
What a reported success answers. The client follows redirects, and a redirect of the older kind turns the invocation into
a request for another resource; the answer to that request decides the outcome all the same.
-/

namespace Effectus

namespace Invocation

open Http Fallible

/-! ### Executors -/

/-- An executor that was accepted is accepted again as it is. -/
theorem newHTTPExecutor_again {executor accepted : HTTPExecutor} (h : newHTTPExecutor executor = .ok accepted) :
    newHTTPExecutor accepted = .ok accepted := by
  unfold newHTTPExecutor at h
  split at h
  · cases h
  rename_i hurl
  split at h
  · cases h
  rename_i hheaders
  split at h
  · cases h
  rename_i hlimit
  cases h
  have hmethod : (if executor.method = [] then methodPost else executor.method) ≠ [] := by
    split
    · decide
    · assumption
  have hbytes : (if executor.maxResponseBytes = 0 then 2 ^ 20 else executor.maxResponseBytes) ≠ 0 := by
    split
    · decide
    · assumption
  have hlimit' : ¬((if executor.maxResponseBytes = 0 then 2 ^ 20 else executor.maxResponseBytes) < 0 ∨
      (if executor.maxResponseBytes = 0 then 2 ^ 20 else executor.maxResponseBytes) = maxInt64) := by
    split
    · decide
    · exact hlimit
  unfold newHTTPExecutor
  simp only [if_neg hurl, hheaders, if_neg hlimit', if_neg hmethod, if_neg hbytes, Option.getD_some]

theorem newHTTPExecutor_ok {executor accepted : HTTPExecutor} (h : newHTTPExecutor executor = .ok accepted) :
    accepted.client = some (executor.client.getD defaultClient) ∧ accepted.headers = executor.headers ∧
      validateStaticHTTPHeaders executor.headers = .ok () := by
  unfold newHTTPExecutor at h
  split at h
  · cases h
  split at h
  · cases h
  rename_i hstatic
  split at h
  · cases h
  cases h
  exact ⟨rfl, rfl, hstatic⟩

theorem decodeFailure_ne_success (response : Response) : (decodeFailure response).outcomeClass ≠ .success := by
  unfold decodeFailure
  dsimp only
  split
  · exact nofun
  · split
    · exact nofun
    · assumption

/-! ### Chains of redirects -/

/-- Every redirect asked for the same request again. -/
def Repeated (via : List Exchange) : Prop :=
  ∀ x ∈ via, x.response.statusCode = 307 ∨ x.response.statusCode = 308

theorem repeated_append {via : List Exchange} {x : Exchange} :
    Repeated (via ++ [x]) ↔ Repeated via ∧ (x.response.statusCode = 307 ∨ x.response.statusCode = 308) := by
  simp only [Repeated, List.mem_append, List.mem_singleton]
  exact ⟨fun h => ⟨fun y hy => h y (.inl hy), h x (.inr rfl)⟩, fun h y hy => hy.elim (h.1 y) fun hx => hx ▸ h.2⟩

theorem Redirect.of_redirect {response : Response} {redirect : Redirect} {location : Text}
    (h : response.redirect? = some (redirect, location)) :
    (redirect = .same ∧ (response.statusCode = 307 ∨ response.statusCode = 308)) ∨
      (redirect = .other ∧ ¬(response.statusCode = 307 ∨ response.statusCode = 308)) := by
  unfold Response.redirect? at h
  split at h
  · cases h
  rename_i found hfound
  split at h
  · cases h
  cases h
  unfold Redirect.of at hfound
  split at hfound
  · cases hfound
    exact .inr ⟨rfl, by omega⟩
  · split at hfound
    · cases hfound
      exact .inl ⟨rfl, by assumption⟩
    · cases hfound

section

variable [Network]

/-- An executor from a descriptor follows redirects by a network policy. -/
theorem resolveHTTP_ok {descriptor : Descriptor} {executor : HTTPExecutor} (h : resolveHTTP descriptor = .ok executor) :
    newHTTPExecutor executor = .ok executor ∧ executor.headers = descriptorValues descriptor "headers" ∧
      ∃ policy : HTTPNetworkPolicy, executor.client = some (policy.client (descriptorValues descriptor "headers")) := by
  unfold resolveHTTP at h
  split at h
  · cases h
  obtain ⟨_, -, h⟩ := bind_ok.1 h
  obtain ⟨maxResponseBytes, -, h⟩ := bind_ok.1 h
  obtain ⟨allowPrivate, -, h⟩ := bind_ok.1 h
  obtain ⟨_, -, h⟩ := bind_ok.1 h
  obtain ⟨hclient, hheaders, -⟩ := newHTTPExecutor_ok h
  exact ⟨newHTTPExecutor_again h, hheaders, ⟨allowPrivate⟩, hclient⟩

theorem HTTPNetworkPolicy.checkRedirect_ok {policy : HTTPNetworkPolicy} {sensitiveHeaders : Dict Text Text}
    {request next : Request} {via : List Request} (h : policy.checkRedirect sensitiveHeaders request via = .ok next) :
    next.method = request.method ∧ next.body = request.body := by
  unfold checkRedirect at h
  split at h
  · cases h
  split at h
  · cases h
  split at h
  · cases h
  split at h
  · cases h
    exact ⟨rfl, rfl⟩
  · cases h
    exact ⟨rfl, rfl⟩

/-! ### What is sent -/

/-- The invocation as it was sent, as long as every redirect asked for it again; a plain request for a resource once one
did not. -/
def SentOr (body : Text) (via : List Exchange) (request : Request) : Prop :=
  (Repeated via ∧ request.method = methodPost ∧ request.body = some body) ∨
    (¬Repeated via ∧ request.method = methodGet ∧ request.body = none)

theorem SentOr.step {body : Text} {policy : HTTPNetworkPolicy} {sensitiveHeaders : Dict Text Text} {via : List Exchange}
    {request next : Request} {response : Response} {redirect : Redirect} {location : Text} {url : Url}
    (h : SentOr body via request) (hredirect : response.redirect? = some (redirect, location))
    (hcheck : (policy.client sensitiveHeaders).checkRedirect (Network.urls.next redirect via request url)
      ((via ++ [Exchange.mk request response]).map Exchange.request) = .ok next) :
    SentOr body (via ++ [⟨request, response⟩]) next := by
  obtain ⟨hmethod, hbody⟩ := HTTPNetworkPolicy.checkRedirect_ok hcheck
  rw [SentOr, repeated_append, hmethod, hbody]
  rcases Redirect.of_redirect hredirect with ⟨rfl, hstatus⟩ | ⟨rfl, hstatus⟩
  · rcases h with ⟨hrepeated, hm, hb⟩ | ⟨hnot, hm, hb⟩
    · exact .inl ⟨⟨hrepeated, hstatus⟩, hm, hb⟩
    · exact .inr ⟨fun h => hnot h.1, hm, hb⟩
  · refine .inr ⟨fun h => hstatus h.2, ?_, rfl⟩
    show (if request.method = methodGet ∨ request.method = methodHead then request.method else methodGet) = methodGet
    rcases h with ⟨-, hm, -⟩ | ⟨-, hm, -⟩
    · rw [hm]
      decide
    · rw [hm]
      decide

variable [Platform]

/-- A success was read from the answer to the last request. -/
theorem invoke_success {executor : HTTPExecutor} {server : List Exchange → Request → Except Err Response}
    {ctx : Option Err} {request : InvocationRequest} (hnew : newHTTPExecutor executor = .ok executor)
    (h : (executor.invoke server ctx request).outcomeClass = .success) :
    ∃ first via final, executor.httpRequest request = .ok first ∧ executor.send server first = .ok (via, final) ∧
      executor.invoke server ctx request = decodeResult final.response.body := by
  unfold HTTPExecutor.invoke at h ⊢
  rw [hnew] at h ⊢
  dsimp only at h ⊢
  split at h
  · cases h
  split at h
  · cases h
  rename_i first hfirst
  split at h
  · cases h
  rename_i via final hsend
  refine ⟨first, via, final, hfirst, hsend, ?_⟩
  unfold readResponse at h ⊢
  split at h
  · cases h
  split at h
  · cases h
  split at h
  · rename_i hcut hlimit hstatus
    rw [if_neg hcut, if_neg hlimit, if_pos hstatus]
  · exact absurd h (decodeFailure_ne_success _)

theorem httpRequest_ok {executor : HTTPExecutor} {request : InvocationRequest} {first : Request}
    (h : executor.httpRequest request = .ok first) :
    first.method = executor.method ∧ (∃ headers, first.header = setInvocationHeaders headers request) ∧
      ∃ body, payload request = some body ∧ first.body = some body := by
  unfold HTTPExecutor.httpRequest at h
  split at h
  · cases h
  rename_i body hbody
  split at h
  · cases h
  split at h
  · cases h
  cases h
  exact ⟨rfl, ⟨_, rfl⟩, body, hbody, rfl⟩

/-- A success is the answer to the invocation as it was sent exactly if no redirect on the way to it asked for another
request. -/
theorem success_answers_invocation {descriptor : Descriptor} {executor : HTTPExecutor}
    (hresolve : resolveHTTP descriptor = .ok executor) (hmethod : executor.method = methodPost)
    (server : List Exchange → Request → Except Err Response) (ctx : Option Err) (request : InvocationRequest)
    (hsuccess : (executor.invoke server ctx request).outcomeClass = .success) :
    ∃ first via final body, executor.httpRequest request = .ok first ∧ executor.send server first = .ok (via, final) ∧
      executor.invoke server ctx request = decodeResult final.response.body ∧ payload request = some body ∧
      ((final.request.method = methodPost ∧ final.request.body = some body) ↔ Repeated via) := by
  obtain ⟨hnew, -, policy, hclient⟩ := resolveHTTP_ok hresolve
  obtain ⟨first, via, final, hfirst, hsend, hresult⟩ := invoke_success hnew hsuccess
  obtain ⟨hfirstMethod, -, body, hbody, hfirstBody⟩ := httpRequest_ok hfirst
  refine ⟨first, via, final, body, hfirst, hsend, hresult, hbody, ?_⟩
  rw [HTTPExecutor.send, hclient, Option.getD_some] at hsend
  have hstart : SentOr body [] first := .inl ⟨nofun, hfirstMethod.trans hmethod, hfirstBody⟩
  obtain ⟨hsent, -⟩ := Client.follow_invariant (P := SentOr body)
    (fun _ _ _ _ _ _ _ hp _ hredirect _ hcheck => hp.step hredirect hcheck) hstart hsend
  rcases hsent with ⟨hrepeated, hm, hb⟩ | ⟨hnot, hm, -⟩
  · exact iff_of_true ⟨hm, hb⟩ hrepeated
  · refine iff_of_false (fun h => ?_) hnot
    rw [hm] at h
    exact absurd h.1 (by decide)

end

/-! ### Two chains -/

section

/-- URLs of a scheme, a name and a path, as far as `net/url` is needed for them. -/
@[reducible] def plainNetwork : Network where
  parseURL t :=
    if Text.hasPrefix t "https://" then
      .ok ⟨"https", false, (t.drop 8).takeWhile (· ≠ 0x2F), [], (t.drop 8).dropWhile (· ≠ 0x2F)⟩
    else .error (.new "unsupported")
  resolveURL base reference := .ok { base with rest := reference }
  urlText url := url.scheme ++ ("://" : Text) ++ url.hostname ++ url.rest
  withoutUser url := url.scheme ++ ("://" : Text) ++ url.hostname ++ url.rest
  isWithin base url := base.hostname == url.hostname
  parseIP _ := none
  parseDuration _ := none
  equalFold a b := a.map Text.lowerByte == b.map Text.lowerByte

attribute [local instance] reference plainNetwork

def plainDescriptor : Descriptor :=
  ⟨.obj [jsonMember "type" (.ofText "http"), jsonMember "reference" (.ofText "https://example.test/charge")],
    "effectus/http/v1"⟩

/-- A redirect by this status, and then the empty object. -/
def redirectingServer (status : Nat) (via : List Exchange) (_ : Request) : Except Err Response :=
  if via.isEmpty then .ok ⟨status, [], Header.set .empty "Location" "/other", [], false⟩
  else .ok ⟨200, [], .empty, "\x7b\x7d", false⟩

def plainInvocation : InvocationRequest where
  requestID := "request"
  executionID := "execution"
  sagaID := "saga"
  effectID := "effect"
  attempt := 1
  direction := .forward
  idempotencyKey := "key"
  fencingGrants := []
  deadline := 0
  verb := "charge"
  arguments := some [("amount", .ofInt64 5)]
  argumentHash := "hash"
  contractHash := "hash"

/-- The executor, the redirects and the answer. -/
def plainChain (status : Nat) : Except Err (HTTPExecutor × List Exchange × Exchange) := do
  let executor ← resolveHTTP plainDescriptor
  let first ← executor.httpRequest plainInvocation
  let (via, final) ← executor.send (redirectingServer status) first
  return (executor, via, final)

theorem plainChain_found (status : Nat) {p : HTTPExecutor × List Exchange × Exchange → Bool}
    (h : (plainChain status).toOption.any p = true) : ∃ executor first via final,
      resolveHTTP plainDescriptor = .ok executor ∧ executor.httpRequest plainInvocation = .ok first ∧
      executor.send (redirectingServer status) first = .ok (via, final) ∧ p (executor, via, final) = true := by
  obtain ⟨found, hok, hfound⟩ := ok_of_any h
  obtain ⟨executor, hexecutor, hok⟩ := bind_ok.1 hok
  obtain ⟨first, hfirst, hok⟩ := bind_ok.1 hok
  obtain ⟨⟨via, final⟩, hsend, hok⟩ := bind_ok.1 hok
  cases pure_ok.1 hok
  exact ⟨executor, first, via, final, hexecutor, hfirst, hsend, hfound⟩

/-- An invocation that was found elsewhere succeeds by the answer to a request without its arguments. -/
theorem success_answers_another : ∃ executor first via final, resolveHTTP plainDescriptor = .ok executor ∧
    executor.method = methodPost ∧ executor.httpRequest plainInvocation = .ok first ∧
    executor.send (redirectingServer 302) first = .ok (via, final) ∧
    (executor.invoke (redirectingServer 302) none plainInvocation).outcomeClass = .success ∧
    final.request.method = methodGet ∧ final.request.body = none := by
  obtain ⟨executor, first, via, final, hexecutor, hfirst, hsend, hfound⟩ := plainChain_found 302
    (p := fun x => decide (x.1.method = methodPost ∧
      (x.1.invoke (redirectingServer 302) none plainInvocation).outcomeClass = .success ∧
      x.2.2.request.method = methodGet ∧ x.2.2.request.body = none)) (by decide)
  obtain ⟨hmethod, hsuccess, hget, hnone⟩ := of_decide_eq_true hfound
  exact ⟨executor, first, via, final, hexecutor, hmethod, hfirst, hsend, hsuccess, hget, hnone⟩

theorem success_answers_invocation_repeated : ∃ executor first via final body,
    resolveHTTP plainDescriptor = .ok executor ∧ executor.httpRequest plainInvocation = .ok first ∧
    executor.send (redirectingServer 307) first = .ok (via, final) ∧ via.length = 1 ∧
    payload plainInvocation = some body ∧ final.request.method = methodPost ∧ final.request.body = some body := by
  obtain ⟨executor, first, via, final, hexecutor, hfirst, hsend, hfound⟩ := plainChain_found 307
    (p := fun x => decide (x.1.method = methodPost ∧
      (x.1.invoke (redirectingServer 307) none plainInvocation).outcomeClass = .success ∧
      x.2.1.length = 1 ∧ ∀ y ∈ x.2.1, y.response.statusCode = 307 ∨ y.response.statusCode = 308)) (by decide)
  obtain ⟨hmethod, hsuccess, hlength, hrepeated⟩ := of_decide_eq_true hfound
  obtain ⟨first', via', final', body, hfirst', hsend', -, hbody, hiff⟩ :=
    success_answers_invocation hexecutor hmethod (redirectingServer 307) none plainInvocation hsuccess
  cases hfirst.symm.trans hfirst'
  cases hsend.symm.trans hsend'
  obtain ⟨hpost, hsame⟩ := hiff.2 hrepeated
  exact ⟨executor, first, via, final, body, hexecutor, hfirst, hsend, hlength, hbody, hpost, hsame⟩

end

end Invocation

end Effectus
