import Effectus.Invocation.Handler
import Effectus.Theorems.Invocation.Redirect
import Effectus.Theorems.Outbox.Arguments

/-!
The two sides of the HTTP boundary are inverse to each other: every field of an invocation is read back from the request
that carries it, and the digest of the arguments is found again.
-/

namespace Effectus

namespace Invocation

open Fallible Http JsonSchema

/-! ### Values in header fields -/

/-- A field's value as the handler takes it. -/
def Plain (t : Text) : Prop := t ≠ [] ∧ Text.trimSpace t = t

theorem plain_of_solid {t : Text} (hne : t ≠ []) (h : ∀ b ∈ t, Text.IsSolid b) : Plain t :=
  ⟨hne, Text.trimSpace_of_solid (fun b hb => h b (List.mem_of_head? hb)) fun b hb => h b (List.mem_of_getLast? hb)⟩

theorem parseUint64_decimal {n : Nat} (h : n < 2 ^ 64) : parseUint64 (Text.decimal n) = some n := by
  obtain ⟨hvalue, hdigits, b, t, htext, -⟩ := Text.decimal_spec n
  have hne : ¬(Text.decimal n = [] ∨ (Text.decimal n).all Text.isDigit = false) := by
    rw [List.all_eq_true.2 hdigits, htext]
    simp
  rw [parseUint64, if_neg hne, hvalue, if_pos h]

theorem plain_decimal (n : Nat) : Plain (Text.decimal n) := by
  obtain ⟨-, hdigits, b, t, htext, -⟩ := Text.decimal_spec n
  exact plain_of_solid (by simp [htext]) fun b hb => Text.isSolid_digit (hdigits b hb)

theorem hexValue_hexDigit {n : Nat} (h : n < 16) : Json.hexValue (Text.hexDigit n) = some n := Json.hexValue_hexDigit n h

theorem isSolid_hexDigit : ∀ n < 16, Text.IsSolid (Text.hexDigit n) := by decide

theorem hexDecode_hexEncode : ∀ t : Text, hexDecode (hexEncode t) = some t
  | [] => rfl
  | b :: t => by
    have hhigh : b.toNat / 16 < 16 := Nat.div_lt_of_lt_mul b.toNat_lt
    have hlow : b.toNat % 16 < 16 := Nat.mod_lt _ (by decide)
    have hbyte : UInt8.ofNat (b.toNat / 16 * 16 + b.toNat % 16) = b := by
      rw [Nat.div_add_mod', UInt8.ofNat_toNat]
    show (do
      let high ← Json.hexValue (Text.hexDigit (b.toNat / 16))
      let low ← Json.hexValue (Text.hexDigit (b.toNat % 16))
      let rest ← hexDecode (hexEncode t)
      return UInt8.ofNat (high * 16 + low) :: rest) = _
    rw [hexValue_hexDigit hhigh, hexValue_hexDigit hlow, hexDecode_hexEncode t]
    exact congrArg (fun b => some (b :: t)) hbyte

theorem plain_hexEncode {t : Text} (h : t ≠ []) : Plain (hexEncode t) := by
  refine plain_of_solid (fun hnil => h ?_) fun b hb => ?_
  · cases t with
    | nil => rfl
    | cons c t => cases hnil
  · obtain ⟨c, -, hb⟩ := List.mem_flatMap.1 hb
    rcases List.mem_cons.1 hb with rfl | hb
    · exact isSolid_hexDigit _ (Nat.div_lt_of_lt_mul c.toNat_lt)
    · rw [List.mem_singleton.1 hb]
      exact isSolid_hexDigit _ (Nat.mod_lt _ (by decide))

theorem directionOf_text (d : Direction) : directionOf (Text.trimSpace d.text) = some d := by
  cases d <;> decide

/-! ### Grants -/

/-- A grant that JSON and a counter of 64 bits can hold. -/
structure Grantable (grant : FencingGrant) : Prop where
  authority : Text.validUTF8 grant.authority = true
  resource : Text.validUTF8 grant.resource = true
  token : grant.token < 2 ^ 64

def grantJson (grant : FencingGrant) : Json :=
  .obj [jsonMember "authority" (.ofText grant.authority), jsonMember "resource" (.ofText grant.resource),
    jsonMember "token" (.num (.ofInt grant.token))]

/-- None, or a list of them. -/
theorem grantsJson_eq (grants : List FencingGrant) :
    grantsJson grants = .null ∧ grants = [] ∨ grantsJson grants = .arr (grants.map grantJson) := by
  cases grants with
  | nil => exact .inl ⟨rfl, rfl⟩
  | cons grant grants => exact .inr rfl

def grantValue (grant : FencingGrant) : Value :=
  .struct [("authority", .string grant.authority), ("resource", .string grant.resource), ("token", .uint grant.token)]

theorem sound_grantSchema : grantSchema.Sound := ⟨by decide, by decide, trivial, trivial, trivial, trivial⟩

/-- The list is the document of the values, and each of its members goes to a field. -/
theorem grantJsons_eq {grants : List FencingGrant} (h : ∀ grant ∈ grants, Grantable grant) :
    FitsItems IsUtf8 grantSchema (grants.map grantValue) ∧
      encodeItems grantSchema (grants.map grantValue) = grants.map grantJson ∧
      knownItems grantSchema (grants.map grantJson) = grants.map grantJson ∧
      (settleItems grantSchema (grants.map grantValue)).map grantOf = grants := by
  induction grants with
  | nil => exact ⟨trivial, rfl, rfl, rfl⟩
  | cons grant grants ih =>
    obtain ⟨hfits, hencode, hknown, hsettle⟩ := ih fun grant hm => h grant (List.mem_cons_of_mem _ hm)
    have hgrant := h grant (List.mem_cons_self ..)
    exact ⟨⟨⟨rfl, hgrant.authority, rfl, hgrant.resource, rfl, hgrant.token, rfl⟩, hfits⟩, congrArg _ hencode,
      congrArg _ hknown, congrArg _ hsettle⟩

theorem decodeGrants_grantsJson {grants : List FencingGrant} (h : ∀ grant ∈ grants, Grantable grant) :
    decodeGrants (grantsJson grants).render = some grants := by
  rcases grantsJson_eq grants with ⟨hnull, rfl⟩ | harr
  · rfl
  · obtain ⟨hfits, hencode, hknown, hsettle⟩ := grantJsons_eq h
    have hdocument : grantsJson grants = encode (.slice grantSchema) (.slice (grants.map grantValue)) :=
      harr.trans (congrArg Json.arr hencode.symm)
    have hsame : known (.slice grantSchema) (grantsJson grants) = grantsJson grants := by
      rw [harr]
      exact congrArg Json.arr hknown
    have hread : Json.readOnly (grantsJson grants).render = some (grantsJson grants) := by
      rw [hdocument]
      exact Json.readOnly_render (nested_encode _ hfits (by decide))
    have hdecode : decode (.slice grantSchema) .nilSlice (grantsJson grants) = some
        (settle (.slice grantSchema) (.slice (grants.map grantValue))) := by
      rw [hdocument]
      exact decode_encode _ sound_grantSchema hfits
    rw [decodeGrants, unmarshal, hread, Option.bind_some, hsame, zero, hdecode]
    exact congrArg some hsettle

theorem render_items_last (xs : List Json) : (Json.renderItems xs).getLast? = some 0x5D := by
  induction xs with
  | nil => rfl
  | cons x xs ih =>
    rw [Json.renderItems, List.getLast?_cons, List.getLast?_append, ih]
    rfl

theorem plain_grantsJson (grants : List FencingGrant) : Plain (grantsJson grants).render := by
  refine ⟨Json.render_ne_nil _, ?_⟩
  rcases grantsJson_eq grants with ⟨h, -⟩ | h
  · rw [h]
    decide
  · rw [h]
    cases grants with
    | nil => decide
    | cons grant grants =>
      refine Text.trimSpace_of_solid (fun b hb => ?_) fun b hb => ?_
      · cases hb
        decide
      · rw [List.map_cons, Json.render, List.getLast?_cons, List.getLast?_append, render_items_last] at hb
        cases hb
        exact (by decide : Text.IsSolid 0x5D)

/-! ### Instants -/

theorem isSolid_pad {b : UInt8} {width n : Nat} (h : b ∈ Rfc3339.pad width n) : Text.IsSolid b :=
  Text.isSolid_digit (Rfc3339.isDigit_pad h)

theorem isSolid_yearText {b : UInt8} {year : Int} (h : b ∈ Rfc3339.yearText year) : Text.IsSolid b := by
  unfold Rfc3339.yearText at h
  split at h
  · rcases List.mem_cons.1 h with rfl | h
    · decide
    · exact isSolid_pad h
  split at h
  · exact isSolid_pad h
  · exact Text.isSolid_digit ((Text.decimal_spec _).2.1 b h)

theorem isSolid_fraction {b : UInt8} {nanos : Nat} (h : b ∈ Rfc3339.fraction nanos) : Text.IsSolid b := by
  unfold Rfc3339.fraction at h
  split at h
  · cases h
  · rcases List.mem_cons.1 h with rfl | h
    · decide
    · exact isSolid_pad (List.mem_reverse.1 ((List.dropWhile_sublist _).subset (List.mem_reverse.1 h)))

theorem plain_format (t : Int) : Plain (Rfc3339.format t) := by
  refine plain_of_solid (by simp [Rfc3339.format]) fun b hb => ?_
  simp only [Rfc3339.format, Rfc3339.dateText, Rfc3339.clockText, List.mem_append, List.mem_cons, List.not_mem_nil,
    or_false, List.append_assoc, List.cons_append] at hb
  rcases hb with h | rfl | h | rfl | h | rfl | h | rfl | h | rfl | h | h | rfl
  · exact isSolid_yearText h
  · decide
  · exact isSolid_pad h
  · decide
  · exact isSolid_pad h
  · decide
  · exact isSolid_pad h
  · decide
  · exact isSolid_pad h
  · decide
  · exact isSolid_pad h
  · exact isSolid_fraction h
  · decide

/-! ### Requests -/

/-- The fields of an invocation with a deadline. -/
def invocationFields (request : InvocationRequest) : List (Text × Text) :=
  [(headerVerb, request.verb), (headerRequestID, request.requestID), (headerExecutionID, request.executionID),
    (headerSagaID, request.sagaID), (headerEffectID, request.effectID), (headerAttempt, Text.decimal request.attempt),
    (headerDirection, request.direction.text), (headerIdempotencyKey, request.idempotencyKey),
    (headerArgumentHash, request.argumentHash), (headerContractHash, request.contractHash),
    (headerFencingGrants, (grantsJson request.fencingGrants).render),
    (headerDeadline, Rfc3339.format request.deadline)]

theorem setInvocationHeaders_eq {request : InvocationRequest} (h : request.deadline ≠ 0) (headers : Header) :
    setInvocationHeaders headers request = (invocationFields request).foldl (fun h x => h.set x.1 x.2) headers :=
  if_neg h

theorem invocationFields_nodup (request : InvocationRequest) :
    ((invocationFields request).map fun x => canonicalKey x.1).Nodup := by
  have hnames : ([headerVerb, headerRequestID, headerExecutionID, headerSagaID, headerEffectID, headerAttempt,
      headerDirection, headerIdempotencyKey, headerArgumentHash, headerContractHash, headerFencingGrants,
      headerDeadline].map canonicalKey).Nodup := by decide
  exact hnames

/-- What the handler asks of the fields it reads. -/
structure Deliverable (request : InvocationRequest) : Prop where
  verb : Plain request.verb
  requestID : Plain request.requestID
  executionID : Plain request.executionID
  sagaID : Plain request.sagaID
  effectID : Plain request.effectID
  idempotencyKey : Plain request.idempotencyKey
  contractHash : Plain request.contractHash
  attempt : 0 < request.attempt ∧ request.attempt < 2 ^ 64
  fencingGrants : ∀ grant ∈ request.fencingGrants, Grantable grant
  deadline : request.deadline ≠ 0 ∧ Rfc3339.Printable request.deadline

theorem requiredHeader_ok {headers : Header} {name value : Text} (hget : headers.get name = value) (h : Plain value) :
    requiredHeader headers name = .ok value := by
  rw [requiredHeader, hget, h.2, if_neg h.1]

theorem optionalHeader_ok {α : Type} {headers : Header} {name value : Text} {unset a : α} {read : Text → Option α}
    (hget : headers.get name = value) (h : Plain value) (hread : read value = some a) :
    optionalHeader headers name unset read = .ok a := by
  rw [optionalHeader, hget, h.2, if_neg h.1, hread]

/-- Each field of an invocation is found under its name, whatever was set before. -/
theorem get_field {request : InvocationRequest} (h : request.deadline ≠ 0) (headers : Header) {name value : Text}
    (hm : (name, value) ∈ invocationFields request) : (setInvocationHeaders headers request).get name = value := by
  rw [setInvocationHeaders_eq h]
  exact Header.get_setAll (invocationFields_nodup request) hm headers

theorem decodeMetadata_ok {request : InvocationRequest} (h : Deliverable request) (headers : Header) :
    decodeMetadata (setInvocationHeaders headers request) = .ok ⟨request.requestID, request.executionID, request.sagaID,
      request.effectID, request.attempt, request.direction, request.idempotencyKey, request.fencingGrants,
      request.deadline⟩ := by
  have hget : ∀ {name value : Text}, (name, value) ∈ invocationFields request →
      (setInvocationHeaders headers request).get name = value := get_field h.deadline.1 headers
  generalize setInvocationHeaders headers request = sent at hget
  have hexecution : sent.get headerExecutionID = request.executionID := hget (by simp [invocationFields])
  have hsaga : sent.get headerSagaID = request.sagaID := hget (by simp [invocationFields])
  have heffect : sent.get headerEffectID = request.effectID := hget (by simp [invocationFields])
  have hkey : sent.get headerIdempotencyKey = request.idempotencyKey := hget (by simp [invocationFields])
  have hrequest : sent.get headerRequestID = request.requestID := hget (by simp [invocationFields])
  have hdeadline : sent.get headerDeadline = Rfc3339.format request.deadline := hget (by simp [invocationFields])
  have hgrants : sent.get headerFencingGrants = (grantsJson request.fencingGrants).render :=
    hget (by simp [invocationFields])
  have hattempt : parseUint64 (Text.trimSpace (sent.get headerAttempt)) = some request.attempt := by
    have hvalue : sent.get headerAttempt = Text.decimal request.attempt := hget (by simp [invocationFields])
    rw [hvalue, (plain_decimal _).2, parseUint64_decimal h.attempt.2]
  have hdirection : directionOf (Text.trimSpace (sent.get headerDirection)) = some request.direction := by
    have hvalue : sent.get headerDirection = request.direction.text := hget (by simp [invocationFields])
    rw [hvalue, directionOf_text]
  obtain ⟨n, hn⟩ : ∃ n, request.attempt = n + 1 := ⟨request.attempt - 1, by have := h.attempt.1; omega⟩
  rw [hn] at hattempt
  rw [decodeMetadata, requiredHeader_ok hexecution h.executionID, requiredHeader_ok hsaga h.sagaID,
    requiredHeader_ok heffect h.effectID, requiredHeader_ok hkey h.idempotencyKey, hattempt, hdirection,
    requiredHeader_ok hrequest h.requestID,
    optionalHeader_ok hdeadline (plain_format _) (Rfc3339.parse_format h.deadline.2),
    optionalHeader_ok hgrants (plain_grantsJson _) (decodeGrants_grantsJson h.fencingGrants), hn]
  rfl

section

variable [Platform]

/-- The arguments were decoded from the canonical text their digest is of. -/
def CanonicalArguments (request : InvocationRequest) : Prop :=
  ∃ text, CanonicalText text request.argumentHash ∧ decodeArguments text = some request.arguments

/-- An object and its members. -/
theorem CanonicalArguments.members {request : InvocationRequest} (h : CanonicalArguments request)
    (hsome : request.arguments ≠ none) : ∃ members, (Json.obj members).Fits 0 ∧
      request.arguments = some (GoValue.ofJsonMembers members) ∧
      request.argumentHash = hexEncode (Platform.sha256 (Json.obj members).render) := by
  obtain ⟨text, ⟨j, hfits, rfl, hhash⟩, hdecode⟩ := h
  rw [decodeArguments, Json.decode_render hfits] at hdecode
  cases j with
  | obj members => exact ⟨members, hfits, (Option.some.inj hdecode).symm, hhash⟩
  | null => exact absurd (Option.some.inj hdecode).symm hsome
  | bool | num | str | arr => cases hdecode

theorem checkArgumentHash_ok (hsize : ∀ t, (Platform.sha256 t).length = sha256Size) (members : List (Utf8Text × Json)) :
    checkArgumentHash (GoValue.ofJsonMembers members) (hexEncode (Platform.sha256 (Json.obj members).render)) =
      .ok (hexEncode (Platform.sha256 (Json.obj members).render)) := by
  have hmarshal : (GoValue.ofMap (GoValue.ofJsonMembers members)).marshal = some (Json.obj members) :=
    GoValue.marshal_ofJson (.obj members)
  rw [checkArgumentHash, hmarshal]
  dsimp only
  rw [hexDecode_hexEncode]
  dsimp only
  rw [if_neg (by simp [hsize])]

variable [Network]

/-- The request an executor sends is decoded as the invocation it was built from. -/
theorem decodeRequest_httpRequest (hsize : ∀ t, (Platform.sha256 t).length = sha256Size) {executor : HTTPExecutor}
    {request : InvocationRequest} {sent : Request} {maxBytes : Int} (hdeliverable : Deliverable request)
    (hcanonical : CanonicalArguments request) (hsome : request.arguments ≠ none)
    (hsent : executor.httpRequest request = .ok sent) (hlimit : ((sent.body.getD []).length : Int) ≤ maxBytes) :
    decodeRequest sent maxBytes = .ok request := by
  obtain ⟨members, hfits, harguments, hhash⟩ := hcanonical.members hsome
  obtain ⟨-, ⟨headers, hheaders⟩, body, hpayload, hbody⟩ := httpRequest_ok hsent
  have hwritten : payload request = some (Json.obj members).render := by
    rw [payload, harguments]
    exact congrArg (Option.map Json.render) (GoValue.marshal_ofJson (.obj members))
  obtain rfl : body = (Json.obj members).render := Option.some.inj (hpayload.symm.trans hwritten)
  rw [hbody, Option.getD_some] at hlimit
  have hread : decodeBody (Json.obj members).render maxBytes = .ok (GoValue.ofJsonMembers members) := by
    rw [decodeBody, if_neg (not_lt.2 hlimit), Json.decodeFirst_render hfits]
    rfl
  have hdigest : Plain request.argumentHash := by
    rw [hhash]
    refine plain_hexEncode fun hnil => ?_
    have := hsize (Json.obj members).render
    rw [hnil] at this
    cases this
  have hget : ∀ {name value : Text}, (name, value) ∈ invocationFields request →
      (setInvocationHeaders headers request).get name = value := get_field hdeliverable.deadline.1 headers
  have hverb : (setInvocationHeaders headers request).get headerVerb = request.verb := hget (by simp [invocationFields])
  have hargumentHash : (setInvocationHeaders headers request).get headerArgumentHash = request.argumentHash :=
    hget (by simp [invocationFields])
  have hcontractHash : (setInvocationHeaders headers request).get headerContractHash = request.contractHash :=
    hget (by simp [invocationFields])
  rw [decodeRequest, hheaders, decodeMetadata_ok hdeliverable, hbody, Option.getD_some, hread,
    requiredHeader_ok hverb hdeliverable.verb, requiredHeader_ok hargumentHash hdigest,
    requiredHeader_ok hcontractHash hdeliverable.contractHash]
  simp only [hhash, checkArgumentHash_ok hsize, bind, Except.bind, pure, Except.pure]
  rw [← harguments, ← hhash]

end

end Invocation

end Effectus
