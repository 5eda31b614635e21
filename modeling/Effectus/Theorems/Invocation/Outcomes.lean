import Effectus.Invocation.Handler
import Effectus.Lib.JsonRead
import Effectus.Theorems.Invocation.Redirect

/-!
What an executor reports of a handler's outcome. Whatever happens to the answer on its way, the class that is reported is
the handler's or unknown; only an invocation that was never sent is reported otherwise.
-/

namespace Effectus

namespace Invocation

open Http

/-! ### Classes in header fields -/

theorem outcomeClassOf_text {c : OutcomeClass}
    (hc : c = .retryableKnownNotCommitted ∨ c = .permanentFailure ∨ c = .unknown ∨ c = .staleFence) :
    outcomeClassOf (Text.trimSpace c.text) = c := by
  rcases hc with rfl | rfl | rfl | rfl <;> decide

/-- The class an answer's header says. -/
def headerClass (response : Response) : OutcomeClass :=
  outcomeClassOf (Text.trimSpace (response.header.get headerOutcome))

theorem httpError_header (header : Header) (message : Text) (statusCode : Nat) :
    (httpError header message statusCode).header.get headerOutcome = header.get headerOutcome := by
  show ((header.set "Content-Type" "text/plain; charset=utf-8").set "X-Content-Type-Options" "nosniff").get _ = _
  rw [Header.get_set, if_neg (by decide), Header.get_set, if_neg (by decide)]

theorem headerClass_httpError (c : OutcomeClass)
    (hc : c = .retryableKnownNotCommitted ∨ c = .permanentFailure ∨ c = .unknown ∨ c = .staleFence) (message : Text)
    (statusCode : Nat) : headerClass (httpError (Header.set .empty headerOutcome c.text) message statusCode) = c := by
  rw [headerClass, httpError_header, Header.get_set, if_pos rfl, outcomeClassOf_text hc]

/-! ### Outcomes that are read -/

theorem validateOutcome_failed {c : OutcomeClass} {err : Err}
    (hc : c = .retryableKnownNotCommitted ∨ c = .permanentFailure ∨ c = .unknown ∨ c = .staleFence) :
    validateOutcome (failedOutcome c err) = .ok () := by
  rcases hc with rfl | rfl | rfl | rfl <;> rfl

theorem decodeFailure_eq (response : Response) : ∃ c err, decodeFailure response = failedOutcome c err ∧
    validateOutcome (failedOutcome c err) = .ok () ∧ (c = .unknown ∨ c = headerClass response) ∧ c ≠ .success ∧
    (headerClass response = .unset → c = .unknown) := by
  unfold decodeFailure
  dsimp only
  split
  · exact ⟨.unknown, _, rfl, rfl, .inl rfl, nofun, fun _ => rfl⟩
  rename_i hvalid
  split
  · exact ⟨.unknown, _, rfl, rfl, .inl rfl, nofun, fun _ => rfl⟩
  · rename_i hclass
    refine ⟨_, _, rfl, hvalid, .inr rfl, hclass, fun hunset => ?_⟩
    rw [show outcomeClassOf (Text.trimSpace (response.header.get headerOutcome)) = .unset from hunset] at hvalid
    cases hvalid

/-- What a reading can end in. -/
theorem readResponse_cases (maxResponseBytes : Int) (response : Response) :
    (∃ err, readResponse maxResponseBytes response = failedOutcome .unknown err) ∨
    (response.isCut = false ∧ 200 ≤ response.statusCode ∧ response.statusCode < 300 ∧
      ∃ result rest, Json.decodeFirst response.body = some (result, rest) ∧
        readResponse maxResponseBytes response = ⟨.success, .ofJson result, none⟩) ∨
    (¬(200 ≤ response.statusCode ∧ response.statusCode < 300) ∧
      readResponse maxResponseBytes response = decodeFailure response) := by
  unfold readResponse
  split
  · exact .inl ⟨_, rfl⟩
  rename_i hcut
  split
  · exact .inl ⟨_, rfl⟩
  rename_i hlimit
  split
  · rename_i hstatus
    unfold decodeResult
    split
    · exact .inl ⟨_, rfl⟩
    rename_i result rest hdecode
    split
    · refine .inr (.inl ⟨?_, hstatus.1, hstatus.2, result, rest, hdecode, rfl⟩)
      by_contra hno
      exact hcut ⟨by simpa using hno, not_lt.1 hlimit⟩
    · exact .inl ⟨_, rfl⟩
  · rename_i hstatus
    exact .inr (.inr ⟨hstatus, rfl⟩)

theorem readResponse_valid (maxResponseBytes : Int) (response : Response) :
    validateOutcome (readResponse maxResponseBytes response) = .ok () := by
  rcases readResponse_cases maxResponseBytes response with ⟨err, h⟩ | ⟨-, -, -, result, rest, -, h⟩ | ⟨-, h⟩
  · rw [h]
    rfl
  · rw [h]
    rfl
  · obtain ⟨c, err, heq, hvalid, -⟩ := decodeFailure_eq response
    rw [h, heq, hvalid]

/-! ### The handler's answers -/

/-- What becomes of an answer on its way: it arrives, it is cut off, or the exchange fails. -/
inductive Delivery where
  | whole
  | cut (length : Nat)
  | lost (err : Err)

def Delivery.deliver : Delivery → Response → Except Err Response
  | .whole, response => .ok response
  | .cut length, response => .ok { response with body := response.body.take length, isCut := true }
  | .lost err, _ => .error err

/-- An answer that is no success and says this class. -/
structure Failure (response : Response) (c : OutcomeClass) : Prop where
  status : response.statusCode ∈ [400, 405, 409, 422, 500, 503]
  outcomeClass : headerClass response = c

/-- The class of a failure that is read, whole or cut. -/
theorem readResponse_failure {response original : Response} {c : OutcomeClass} (hf : Failure original c)
    (hstatus : response.statusCode = original.statusCode) (hheader : response.header = original.header)
    (maxResponseBytes : Int) :
    ((readResponse maxResponseBytes response).outcomeClass = .unknown ∨
      (readResponse maxResponseBytes response).outcomeClass = c ∧ c ≠ .success) ∧
      (c = .unset → (readResponse maxResponseBytes response).outcomeClass = .unknown) := by
  have hclass : headerClass response = c := by rw [← hf.outcomeClass, headerClass, hheader, headerClass]
  have hrange : ∀ statusCode ∈ [400, 405, 409, 422, 500, 503], ¬(200 ≤ statusCode ∧ statusCode < 300) := by decide
  rcases readResponse_cases maxResponseBytes response with ⟨err, h⟩ | ⟨-, hlow, hhigh, -⟩ | ⟨-, h⟩
  · rw [h]
    exact ⟨.inl rfl, fun _ => rfl⟩
  · rw [hstatus] at hlow hhigh
    exact absurd ⟨hlow, hhigh⟩ (hrange _ hf.status)
  · obtain ⟨c', err, heq, -, hc', hne, hunset⟩ := decodeFailure_eq response
    rw [h, heq]
    refine ⟨?_, fun hc => hunset (hclass.trans hc)⟩
    rcases hc' with hc' | hc'
    · exact .inl hc'
    · rw [hclass] at hc'
      exact .inr ⟨hc', hc' ▸ hne⟩

theorem send_once [Network] {executor : HTTPExecutor} {server : List Exchange → Request → Except Err Response} {sent : Request}
    {response : Response} (hserver : server [] sent = .ok response) (hstatus : Redirect.of response.statusCode = none) :
    executor.send server sent = .ok ([], ⟨sent, response⟩) := by
  have hnone : response.redirect? = none := by rw [Response.redirect?, hstatus]
  unfold HTTPExecutor.send Client.run Client.follow
  rw [hserver]
  simp only [hnone]

section

variable [Platform]

/-- The handler calls its business function with this. -/
def Calls (maxRequestBytes : Int) (sent : Request) (decoded : InvocationRequest) : Prop :=
  sent.method = methodPost ∧ decodeRequest sent maxRequestBytes = .ok decoded

theorem writeOutcome_answers {outcome : InvocationOutcome} (hvalid : validateOutcome outcome = .ok ()) :
    (outcome.outcomeClass = .success ∧ ∃ j header, outcome.result.marshal = some j ∧
      writeOutcome outcome = answer 200 header (j.render ++ [0x0A])) ∨
    Failure (writeOutcome outcome) .unknown ∨ Failure (writeOutcome outcome) outcome.outcomeClass := by
  unfold writeOutcome
  split
  · rename_i hsuccess
    split
    · exact .inr (.inl ⟨by decide, headerClass_httpError .unknown (by decide) _ _⟩)
    · rename_i j hj
      exact .inl ⟨hsuccess, j, _, hj, rfl⟩
  · rename_i hne
    have hc : outcome.outcomeClass = .retryableKnownNotCommitted ∨ outcome.outcomeClass = .permanentFailure ∨
        outcome.outcomeClass = .unknown ∨ outcome.outcomeClass = .staleFence := by
      unfold validateOutcome at hvalid
      split at hvalid <;> simp_all
    refine .inr (.inr ⟨?_, headerClass_httpError _ hc _ _⟩)
    show failureStatus outcome.outcomeClass ∈ _
    rcases hc with h | h | h | h <;> rw [h] <;> decide

/-- The answer to a request: a refusal without a class, or what the business function's outcome is written as. -/
theorem handle_answers (maxRequestBytes : Int) (business : InvocationRequest → InvocationOutcome) (sent : Request) :
    ((∀ decoded, ¬Calls maxRequestBytes sent decoded) ∧ Failure (handle maxRequestBytes business sent) .unset) ∨
    ∃ decoded, Calls maxRequestBytes sent decoded ∧
      ((validateOutcome (business decoded) = .ok () ∧ (business decoded).outcomeClass = .success ∧
        ∃ j header, (business decoded).result.marshal = some j ∧
          handle maxRequestBytes business sent = answer 200 header (j.render ++ [0x0A])) ∨
        Failure (handle maxRequestBytes business sent) .unknown ∨
        Failure (handle maxRequestBytes business sent) (business decoded).outcomeClass) := by
  unfold handle
  split
  · rename_i hmethod
    refine .inl ⟨fun decoded hcalls => hmethod hcalls.1, by decide, ?_⟩
    rw [headerClass, httpError_header, Header.get_set, if_neg (by decide)]
    decide
  rename_i hmethod
  split
  · rename_i err herr
    refine .inl ⟨fun decoded hcalls => ?_, (by decide : 400 ∈ [400, 405, 409, 422, 500, 503]), ?_⟩
    · rw [hcalls.2] at herr
      cases herr
    · rw [headerClass, httpError_header]
      decide
  rename_i decoded hdecoded
  refine .inr ⟨decoded, ⟨not_not.1 hmethod, hdecoded⟩, ?_⟩
  dsimp only
  split
  · rename_i err herr
    rcases writeOutcome_answers
      (show validateOutcome (failedOutcome .unknown (err.under "business executor returned an invalid outcome")) = .ok () from rfl)
      with ⟨hno, -⟩ | hunknown | hunknown
    · cases hno
    · exact .inr (.inl hunknown)
    · exact .inr (.inl hunknown)
  · rename_i hvalid
    rcases writeOutcome_answers hvalid with ⟨hsuccess, hwritten⟩ | hunknown | hclass
    · exact .inl ⟨hvalid, hsuccess, hwritten⟩
    · exact .inr (.inl hunknown)
    · exact .inr (.inr hclass)

theorem handle_status (maxRequestBytes : Int) (business : InvocationRequest → InvocationOutcome) (sent : Request) :
    Redirect.of (handle maxRequestBytes business sent).statusCode = none := by
  have hfailure : ∀ statusCode ∈ [400, 405, 409, 422, 500, 503], Redirect.of statusCode = none := by decide
  rcases handle_answers maxRequestBytes business sent with
    ⟨-, h⟩ | ⟨decoded, -, ⟨-, -, j, header, -, h⟩ | h | h⟩
  · exact hfailure _ h.status
  · rw [h]
    rfl
  · exact hfailure _ h.status
  · exact hfailure _ h.status

/-! ### What is reported -/

variable [Network]

/-- The handler at the other end of a transport. -/
def handlerServer (delivery : Delivery) (maxRequestBytes : Int) (business : InvocationRequest → InvocationOutcome) :
    List Exchange → Request → Except Err Response :=
  fun _ sent => delivery.deliver (handle maxRequestBytes business sent)

/-- The executor gets as far as sending this. -/
def Sends (executor : HTTPExecutor) (ctx : Option Err) (request : InvocationRequest) (sent : Request) : Prop :=
  ctx = none ∧ ∃ accepted, newHTTPExecutor executor = .ok accepted ∧ accepted.httpRequest request = .ok sent

/-- What an executor that sends reports: nothing is known, or it is read off the answer. -/
theorem invoke_sent {executor : HTTPExecutor} {ctx : Option Err} {request : InvocationRequest} {sent : Request}
    (hsends : Sends executor ctx request sent) (delivery : Delivery) (maxRequestBytes : Int)
    (business : InvocationRequest → InvocationOutcome) :
    (∃ err, executor.invoke (handlerServer delivery maxRequestBytes business) ctx request = failedOutcome .unknown err) ∨
    ∃ maxResponseBytes response, (response = handle maxRequestBytes business sent ∨ response.isCut = true ∧
        response.statusCode = (handle maxRequestBytes business sent).statusCode ∧
        response.header = (handle maxRequestBytes business sent).header) ∧
      executor.invoke (handlerServer delivery maxRequestBytes business) ctx request =
        readResponse maxResponseBytes response := by
  obtain ⟨rfl, accepted, haccepted, hsent⟩ := hsends
  have hfails : ∀ {server err}, accepted.send server sent = .error err →
      executor.invoke server none request = failedOutcome .unknown (err.under "send invocation") := by
    intro server err h
    unfold HTTPExecutor.invoke
    simp only [haccepted, hsent, h]
  have hreads : ∀ {server found}, accepted.send server sent = .ok found →
      executor.invoke server none request = readResponse accepted.maxResponseBytes found.2.response := by
    intro server found h
    unfold HTTPExecutor.invoke
    simp only [haccepted, hsent, h]
  have hstatus := handle_status maxRequestBytes business sent
  cases delivery with
  | lost err =>
    cases hs : accepted.send (handlerServer (.lost err) maxRequestBytes business) sent with
    | error err => exact .inl ⟨_, hfails hs⟩
    | ok found =>
      unfold HTTPExecutor.send Client.run Client.follow at hs
      cases hs
  | whole =>
    exact .inr ⟨_, _, .inl rfl, hreads (send_once rfl hstatus)⟩
  | cut length =>
    have hcut : handlerServer (.cut length) maxRequestBytes business [] sent = .ok
        { handle maxRequestBytes business sent with
          body := (handle maxRequestBytes business sent).body.take length, isCut := true } := rfl
    exact .inr ⟨_, { handle maxRequestBytes business sent with
        body := (handle maxRequestBytes business sent).body.take length, isCut := true },
      .inr ⟨rfl, rfl, rfl⟩, hreads (send_once hcut hstatus)⟩

/-- An invocation that is not sent is reported as such. -/
theorem invoke_unsent {executor : HTTPExecutor} {ctx : Option Err} {request : InvocationRequest}
    (h : ∀ sent, ¬Sends executor ctx request sent) (server : List Exchange → Request → Except Err Response) :
    ∃ c err, executor.invoke server ctx request = failedOutcome c err ∧
      (c = .permanentFailure ∨ c = .retryableKnownNotCommitted) := by
  unfold HTTPExecutor.invoke
  split
  · exact ⟨_, _, rfl, .inl rfl⟩
  rename_i accepted haccepted
  split
  · exact ⟨_, _, rfl, .inr rfl⟩
  split
  · exact ⟨_, _, rfl, .inl rfl⟩
  · rename_i sent hsent
    exact absurd ⟨rfl, accepted, haccepted, hsent⟩ (h sent)

/-- The outcome an executor returns is valid. An invocation that was sent is reported as unknown or by the class of the
handler's outcome, and as unknown if the business function was not called; it is a success only if that function returned
a valid one, with the JSON value of its result. An invocation that was not sent is no success and not unknown. -/
theorem http_outcome_kept (executor : HTTPExecutor) (ctx : Option Err) (request : InvocationRequest)
    (delivery : Delivery) (maxRequestBytes : Int) (business : InvocationRequest → InvocationOutcome) :
    validateOutcome (executor.invoke (handlerServer delivery maxRequestBytes business) ctx request) = .ok () ∧
    ((∀ sent, ¬Sends executor ctx request sent) →
      (executor.invoke (handlerServer delivery maxRequestBytes business) ctx request).outcomeClass = .permanentFailure ∨
      (executor.invoke (handlerServer delivery maxRequestBytes business) ctx request).outcomeClass =
        .retryableKnownNotCommitted) ∧
    ∀ sent, Sends executor ctx request sent →
      ((∀ decoded, ¬Calls maxRequestBytes sent decoded) →
        (executor.invoke (handlerServer delivery maxRequestBytes business) ctx request).outcomeClass = .unknown) ∧
      (∀ decoded, Calls maxRequestBytes sent decoded →
        (executor.invoke (handlerServer delivery maxRequestBytes business) ctx request).outcomeClass = .unknown ∨
        (executor.invoke (handlerServer delivery maxRequestBytes business) ctx request).outcomeClass =
          (business decoded).outcomeClass) ∧
      ((executor.invoke (handlerServer delivery maxRequestBytes business) ctx request).outcomeClass = .success →
        ∃ decoded j, Calls maxRequestBytes sent decoded ∧ validateOutcome (business decoded) = .ok () ∧
          (business decoded).outcomeClass = .success ∧ (business decoded).result.marshal = some j ∧
          (executor.invoke (handlerServer delivery maxRequestBytes business) ctx request).result = .ofJson j.normal) := by
  have hsame : ∀ {decoded decoded' : InvocationRequest} {sent : Request}, Calls maxRequestBytes sent decoded →
      Calls maxRequestBytes sent decoded' → decoded = decoded' := fun h h' => Except.ok.inj (h.2.symm.trans h'.2)
  refine ⟨?_, fun hunsent => ?_, fun sent hsends => ?_⟩
  · by_cases hsent : ∃ sent, Sends executor ctx request sent
    · obtain ⟨sent, hsends⟩ := hsent
      rcases invoke_sent hsends delivery maxRequestBytes business with ⟨err, h⟩ | ⟨maxResponseBytes, response, -, h⟩
      · rw [h]
        rfl
      · rw [h]
        exact readResponse_valid ..
    · obtain ⟨c, err, h, hc⟩ := invoke_unsent (fun sent hs => hsent ⟨sent, hs⟩)
        (handlerServer delivery maxRequestBytes business)
      rw [h]
      exact validateOutcome_failed (by tauto)
  · obtain ⟨c, err, h, hc⟩ := invoke_unsent hunsent (handlerServer delivery maxRequestBytes business)
    rw [h]
    exact hc
  · rcases invoke_sent hsends delivery maxRequestBytes business with ⟨err, h⟩ | ⟨maxResponseBytes, response, hresponse, h⟩
    · rw [h]
      exact ⟨fun _ => rfl, fun _ _ => .inl rfl, nofun⟩
    rw [h]
    have hparts : response.statusCode = (handle maxRequestBytes business sent).statusCode ∧
        response.header = (handle maxRequestBytes business sent).header := by
      rcases hresponse with rfl | ⟨-, hstatus, hheader⟩
      · exact ⟨rfl, rfl⟩
      · exact ⟨hstatus, hheader⟩
    rcases handle_answers maxRequestBytes business sent with
      ⟨hnever, hf⟩ | ⟨decoded, hcalls, ⟨hvalid, hsuccess, j, header, hj, hanswer⟩ | hf | hf⟩
    · have hunknown := (readResponse_failure hf hparts.1 hparts.2 maxResponseBytes).2 rfl
      rw [hunknown]
      exact ⟨fun _ => rfl, fun _ _ => .inl rfl, nofun⟩
    · have hstatus : response.statusCode = 200 := by rw [hparts.1, hanswer]; rfl
      rcases readResponse_cases maxResponseBytes response with
        ⟨err, hread⟩ | ⟨hwhole, -, -, result, rest, hdecode, hread⟩ | ⟨hno, -⟩
      · rw [hread]
        exact ⟨fun _ => rfl, fun _ _ => .inl rfl, nofun⟩
      · rw [hread]
        refine ⟨fun hnever => absurd hcalls (hnever decoded), fun decoded' hcalls' => ?_, fun _ => ?_⟩
        · rw [← hsame hcalls hcalls']
          exact .inr hsuccess.symm
        · have hbody : response.body = j.render ++ [0x0A] := by
            rcases hresponse with rfl | ⟨hcut, -⟩
            · rw [hanswer]
              rfl
            · rw [hwhole] at hcut
              cases hcut
          rw [hbody] at hdecode
          have hstops : Text.Stops [0x0A] := Text.stops_cons (by decide) (by decide) (by decide) (by decide)
          obtain ⟨rfl, -⟩ := Json.decodeFirst_normal j hstops hdecode
          exact ⟨decoded, j, hcalls, hvalid, hsuccess, hj, rfl⟩
      · rw [hstatus] at hno
        exact absurd (by decide) hno
    · have hclass := (readResponse_failure hf hparts.1 hparts.2 maxResponseBytes).1
      have hunknown : (readResponse maxResponseBytes response).outcomeClass = .unknown := hclass.elim id fun h => h.1
      rw [hunknown]
      exact ⟨fun _ => rfl, fun _ _ => .inl rfl, nofun⟩
    · have hclass := (readResponse_failure hf hparts.1 hparts.2 maxResponseBytes).1
      refine ⟨fun hnever => absurd hcalls (hnever decoded), fun decoded' hcalls' => ?_, fun hsuccess => ?_⟩
      · rw [← hsame hcalls hcalls']
        exact hclass.imp id fun h => h.1
      · rcases hclass with hunknown | ⟨hkept, hne⟩
        · rw [hunknown] at hsuccess
          cases hsuccess
        · exact absurd (hkept.symm.trans hsuccess) hne

end

section

attribute [local instance] reference plainNetwork

def directExecutor : HTTPExecutor := ⟨"https://example.test/charge", methodPost, .empty, none, 0⟩

/-- An argument JSON cannot write. -/
def unencodable : InvocationRequest := { plainInvocation with arguments := some [("amount", .ofFloat64 .nan)] }

/-- Nothing is sent, so the handler is never called, and the failure is permanent. -/
theorem http_outcome_unsent : (newHTTPExecutor directExecutor).toOption.isSome = true ∧
    (∀ sent, ¬Sends directExecutor none unencodable sent) ∧
    (directExecutor.invoke (handlerServer .whole 1000 fun _ => ⟨.success, .nil, none⟩) none unencodable).outcomeClass =
      .permanentFailure := by
  have hpayload : payload unencodable = none := by decide
  refine ⟨by decide, ?_, by decide⟩
  rintro sent ⟨-, accepted, -, hsent⟩
  rw [HTTPExecutor.httpRequest, hpayload] at hsent
  cases hsent

end

end Invocation

end Effectus
