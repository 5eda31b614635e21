import Effectus.Go.Reference
import Effectus.Lib.Fallible
import Effectus.Theorems.Transport.Framing

/-!
The two identities of a request across the transports. Three of them use one digest for both; the Kafka handler takes
the delivery for the admission and the digest for the execution, so the identities agree unless a delivery is handled
under other labels, or a key of another transport spells a delivery.
-/

namespace Effectus

/-! ### Framing -/

/-- The length of a Go string is an `int`. -/
def FitsInt (t : Text) : Prop := t.length < 2 ^ 63

instance (t : Text) : Decidable (FitsInt t) := inferInstanceAs (Decidable (_ < _))

theorem framable_of_fits {xs : List Text} (h : ∀ t ∈ xs, FitsInt t) : Framable xs :=
  fun t ht => (h t ht).trans (by decide)

theorem hexDigit_lower : ∀ n < 16, Text.hexDigit n ≠ 0x6B ∧ Text.IsSolid (Text.hexDigit n) := by decide

theorem mem_hexEncode {t : Text} {b : UInt8} (h : b ∈ hexEncode t) : b ≠ 0x6B ∧ Text.IsSolid b := by
  obtain ⟨c, -, hb⟩ := List.mem_flatMap.1 h
  have hc := c.toNat_lt
  rcases List.mem_cons.1 hb with rfl | hb
  · exact hexDigit_lower _ (by omega)
  · rw [List.mem_singleton.1 hb]
    exact hexDigit_lower _ (by omega)

namespace Transport

theorem toOption_some {ε α : Type} {x : Except ε α} {a : α} (h : x.toOption = some a) : x = .ok a := by
  cases x with
  | error err => cases h
  | ok b => exact congrArg Except.ok (Option.some.inj h)

section

variable [Platform]

/-! ### What each transport derives -/

/-- A record of Kafka, which its delivery identifies. -/
def Request.isRecord : Request → Bool
  | .kafka _ _ => true
  | _ => false

/-- The idempotency key of a request, or the delivery of a record. -/
def Request.key : Request → Text
  | .http _ request => Text.trimSpace request.idempotencyKey
  | .grpc _ request => Text.trimSpace request.idempotencyKey
  | .embedded _ _ request => Text.trimSpace request.idempotencyKey
  | .kafka config message => deliveryID config.clusterNamespace message

/-- What the digest of a request is taken of. -/
def components (r : Request) (a : Admission) : List Text := [a.tenantNamespace, r.key, a.ruleset, a.version]

/-- The identities a request derives. -/
structure Derives (r : Request) (a : Admission) : Prop where
  execution : a.executionID = hashIdentity (components r a)
  admission : a.admissionID = if r.isRecord then r.key else a.executionID

theorem derives_keyed (r : Request) {ns key ruleset version digest : Text} {facts : FactMap} (hr : r.isRecord = false)
    (hkey : r.key = key) : Derives r (keyedAdmission ns key ruleset version facts digest) := by
  subst hkey
  refine ⟨rfl, ?_⟩
  rw [hr]
  rfl

open Fallible in
theorem derives {r : Request} {a : Admission} (h : r.admission? = some a) : Derives r a := by
  cases r with
  | http view request =>
    replace h := toOption_some h
    unfold httpAdmission at h
    obtain ⟨-, h⟩ := guard_ok.1 h
    obtain ⟨-, h⟩ := guard_ok.1 h
    split at h
    · cases h
    obtain ⟨ns, -, h⟩ := bind_ok.1 h
    split at h
    · cases h
    cases h
    exact derives_keyed _ rfl rfl
  | grpc view request =>
    replace h := toOption_some h
    unfold grpcAdmission at h
    obtain ⟨-, h⟩ := guard_ok.1 h
    obtain ⟨-, h⟩ := guard_ok.1 h
    obtain ⟨facts, -, h⟩ := bind_ok.1 h
    split at h
    · cases h
    obtain ⟨-, h⟩ := guard_ok.1 h
    obtain ⟨_, -, h⟩ := bind_ok.1 h
    obtain ⟨_, -, h⟩ := bind_ok.1 h
    obtain ⟨-, h⟩ := guard_ok.1 h
    cases h
    exact derives_keyed _ rfl rfl
  | embedded view digest request =>
    replace h := toOption_some h
    unfold embeddedAdmission at h
    dsimp only at h
    split at h
    · cases h
    obtain ⟨-, h⟩ := ite_error_ok.1 h
    cases h
    exact derives_keyed _ rfl rfl
  | kafka config message =>
    replace h := toOption_some h
    unfold kafkaAdmission at h
    obtain ⟨-, h⟩ := guard_ok.1 h
    split at h
    · cases h
    obtain ⟨-, h⟩ := guard_ok.1 h
    cases h
    exact ⟨rfl, rfl⟩

/-! ### The ledger's identities -/

theorem trimSpace_hashIdentity (xs : List Text) : Text.trimSpace (hashIdentity xs) = hashIdentity xs :=
  Text.trimSpace_of_solid (fun _ hb => (mem_hexEncode (List.mem_of_mem_head? hb)).2)
    fun _ hb => (mem_hexEncode (List.mem_of_mem_getLast? hb)).2

end

/-- A delivery begins with a letter and ends with a digit. -/
theorem trimSpace_deliveryID (cluster : Text) (message : KafkaMessage) :
    Text.trimSpace (deliveryID cluster message) = deliveryID cluster message := by
  obtain ⟨-, hdigits, b, t, hdecimal, -⟩ := Text.decimal_spec message.offset.natAbs
  refine Text.trimSpace_of_solid (fun c hc => ?_) fun c hc => ?_
  · have hhead : (deliveryID cluster message).head? = some 0x6B := rfl
    rw [hhead] at hc
    cases hc
    decide
  · have hne : Text.decimal message.offset.natAbs ≠ [] := by simp [hdecimal]
    have hlast : (deliveryID cluster message).getLast? = (Text.decimal message.offset.natAbs).getLast? := by
      rw [deliveryID]
      simp only [JsonNumber.ofInt, ← List.append_assoc]
      rw [List.getLast?_append_of_ne_nil _ hne]
    rw [hlast] at hc
    exact Text.isSolid_digit (hdigits c (List.mem_of_mem_getLast? hc))

section

variable [Platform]

theorem deliveryID_ne_hashIdentity (cluster : Text) (message : KafkaMessage) (xs : List Text) :
    deliveryID cluster message ≠ hashIdentity xs := by
  intro h
  have hhead : (deliveryID cluster message).head? = some 0x6B := rfl
  have hk := List.mem_of_mem_head? hhead
  rw [h] at hk
  exact (mem_hexEncode hk).1 rfl

/-- What the ledger sees is what the transport derived. -/
theorem prepareAdmission_identities {r : Request} {a p : Admission} (h : r.admission? = some a)
    (hp : prepareAdmission a = .ok p) : admissionIdentity p = admissionIdentity a ∧ p.executionID = a.executionID := by
  obtain ⟨hexecution, hadmission⟩ := derives h
  have hid : Text.trimSpace a.executionID = a.executionID := by
    rw [hexecution, trimSpace_hashIdentity]
  have had : Text.trimSpace a.admissionID = a.admissionID := by
    rw [hadmission]
    cases r with
    | kafka config message => exact trimSpace_deliveryID _ _
    | _ => exact hid
  unfold prepareAdmission at hp
  dsimp only at hp
  obtain ⟨-, hp⟩ := Fallible.ite_error_ok.1 hp
  obtain ⟨-, hp⟩ := Fallible.ite_error_ok.1 hp
  cases hp
  simp only [admissionIdentity, hid, had, and_self]

theorem admissionIdentity_eq {r : Request} {a : Admission} (h : Derives r a) :
    admissionIdentity a = if r.isRecord then r.key else a.executionID := by
  rw [admissionIdentity, h.admission]
  cases r with
  | kafka config message => exact if_pos (by simp [Request.key, deliveryID, Request.isRecord, Text.ofString])
  | _ => simp [Request.isRecord]

end

/-! ### Correspondence -/

/-- The labels an admission is made under. -/
def labels (a : Admission) : Text × Text × Text := (a.tenantNamespace, a.ruleset, a.version)

/-- No delivery is handled under two sets of labels, and no key of another transport spells a delivery under its
labels. -/
def Apart (r : Request) (a : Admission) (q : Request) (b : Admission) : Prop :=
  (r.isRecord = true → q.isRecord = true → r.key = q.key → labels a = labels b) ∧
    (r.isRecord ≠ q.isRecord → ¬(r.key = q.key ∧ labels a = labels b))

theorem components_eq_iff {r q : Request} {a b : Admission} :
    components r a = components q b ↔ r.key = q.key ∧ labels a = labels b := by
  simp only [components, labels, List.cons.injEq, Prod.mk.injEq, and_true]
  tauto

section

variable [Platform]

/-- Two requests that pass the checks of their transports: their admission identities are equal exactly if their
execution IDs are, provided no delivery is taken for another admission. The ledger sees these identities. -/
theorem identities_correspond (r q : Request) {a b : Admission} (ha : r.admission? = some a) (hb : q.admission? = some b)
    (hfa : ∀ t ∈ components r a, FitsInt t) (hfb : ∀ t ∈ components q b, FitsInt t)
    (hsha : Platform.sha256 (frameIdentity (components r a)) = Platform.sha256 (frameIdentity (components q b)) →
      frameIdentity (components r a) = frameIdentity (components q b)) :
    ((admissionIdentity a = admissionIdentity b ↔ a.executionID = b.executionID) ↔ Apart r a q b) ∧
      (∀ p, prepareAdmission a = .ok p → admissionIdentity p = admissionIdentity a ∧ p.executionID = a.executionID) ∧
      ∀ p, prepareAdmission b = .ok p → admissionIdentity p = admissionIdentity b ∧ p.executionID = b.executionID := by
  have hda := derives ha
  have hdb := derives hb
  have hexecution : a.executionID = b.executionID ↔ r.key = q.key ∧ labels a = labels b := by
    rw [hda.execution, hdb.execution, ← components_eq_iff]
    refine ⟨fun h => frameIdentity_inj (framable_of_fits hfa) (framable_of_fits hfb) (hsha (hexEncode_injective h)), fun h => by rw [h]⟩
  have hne : ∀ {x y : Request} {c : Admission}, Derives y c → x.isRecord = true → x.key ≠ c.executionID := by
    intro x y c hd hx
    rw [hd.execution]
    cases x with
    | kafka config message => exact deliveryID_ne_hashIdentity _ _ _
    | _ => cases hx
  refine ⟨?_, fun p hp => prepareAdmission_identities ha hp, fun p hp => prepareAdmission_identities hb hp⟩
  rw [admissionIdentity_eq hda, admissionIdentity_eq hdb, Apart]
  cases hr : r.isRecord <;> cases hq : q.isRecord
  · simp
  · have := (hne hda hq).symm
    simp [hexecution, this]
  · have := hne hdb hr
    simp [hexecution, this]
  · simp only [if_true, hexecution]
    tauto

end

section

attribute [local instance] reference

/-- A record, and the handler of a daemon that serves a version. -/
def sampleRecord (version : Text) : Request :=
  .kafka ⟨"default", "orders", version, "default", 1024⟩ ⟨"orders", 0, 5, "\x7b\"facts\":\x7b\"total\":1\x7d\x7d"⟩

/-- A request for the same facts over HTTP. -/
def sampleRequest (key : Text) : Request :=
  .http ⟨"orders", "1"⟩ ⟨key, [], "\x7b\"namespace\":\"default\",\"facts\":\x7b\"total\":1\x7d\x7d"⟩

theorem sampleRecord_passes : ∀ version ∈ ([("1" : Text), ("2" : Text)] : List Text),
    (sampleRecord version).admission?.isSome = true := by decide +kernel

theorem sampleRequest_passes : (sampleRequest "order-5").admission?.isSome = true := by decide +kernel

/-- A record that is handled again by a daemon with another version has the admission identity it had before, and another
execution. -/
theorem record_relabeled : ∃ a ∈ (sampleRecord "1").admission?, ∃ b ∈ (sampleRecord "2").admission?,
    admissionIdentity a = admissionIdentity b ∧ a.executionID ≠ b.executionID :=
  ⟨_, Option.get_mem (sampleRecord_passes "1" (by decide)), _, Option.get_mem (sampleRecord_passes "2" (by decide)),
    by decide +kernel, by decide +kernel⟩

/-- A record and a request with a key of its own. -/
theorem record_and_request_correspond :
    ∃ a ∈ (sampleRecord "1").admission?, ∃ b ∈ (sampleRequest "order-5").admission?,
      Apart (sampleRecord "1") a (sampleRequest "order-5") b ∧
        (admissionIdentity a = admissionIdentity b ↔ a.executionID = b.executionID) := by
  have h := identities_correspond _ _ (Option.some_get (sampleRecord_passes "1" (by decide))).symm
    (Option.some_get sampleRequest_passes).symm (by decide +kernel) (by decide +kernel)
    fun h => absurd h (by decide +kernel)
  have hapart : Apart (sampleRecord "1") ((sampleRecord "1").admission?.get (sampleRecord_passes "1" (by decide)))
      (sampleRequest "order-5") ((sampleRequest "order-5").admission?.get sampleRequest_passes) :=
    ⟨fun _ h => absurd h (by decide), fun _ h => absurd h.1 (by decide +kernel)⟩
  exact ⟨_, Option.get_mem _, _, Option.get_mem _, hapart, h.1.2 hapart⟩

end

end Transport

end Effectus
