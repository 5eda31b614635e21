import Effectus.Go.Reference
import Effectus.Theorems.Outbox.Advance
import Effectus.Transport.Adapters

/-!
What identities are made of can be read back from them. A digest is taken of components framed by their lengths, so
that the frames of one list are no frames of another; a delivery is spelled with slashes, which only its topic may hold.
-/

namespace Effectus

/-! ### Frames -/

theorem bigEndian64_inj {m n : Nat} (hm : m < 2 ^ 64) (hn : n < 2 ^ 64) (h : bigEndian64 m = bigEndian64 n) : m = n := by
  simp only [bigEndian64, List.cons.injEq, and_true] at h
  obtain ⟨h₁, h₂, h₃, h₄, h₅, h₆, h₇, h₈⟩ := h
  have key : ∀ {a b : Nat}, UInt8.ofNat a = UInt8.ofNat b → a % 256 = b % 256 := fun h => by
    simpa using congrArg UInt8.toNat h
  have h₁ := key h₁
  have h₂ := key h₂
  have h₃ := key h₃
  have h₄ := key h₄
  have h₅ := key h₅
  have h₆ := key h₆
  have h₇ := key h₇
  have h₈ := key h₈
  omega

/-- Components whose lengths can be written in a frame. -/
def Framable (components : List Text) : Prop := ∀ t ∈ components, t.length < 2 ^ 64

instance (components : List Text) : Decidable (Framable components) := inferInstanceAs (Decidable (∀ _ ∈ _, _))

theorem frameIdentity_cons (x : Text) (xs : List Text) :
    frameIdentity (x :: xs) = bigEndian64 x.length ++ (x ++ frameIdentity xs) := by
  rw [frameIdentity, List.flatMap_cons, List.append_assoc]
  rfl

theorem frameIdentity_ne_nil (x : Text) (xs : List Text) : frameIdentity (x :: xs) ≠ [] := by
  rw [frameIdentity_cons]
  exact List.append_ne_nil_of_left_ne_nil (List.cons_ne_nil _ _) _

/-- The frames tell the components: a length says where its component ends, and no frame is empty. -/
theorem frameIdentity_inj : ∀ {xs ys : List Text}, Framable xs → Framable ys → frameIdentity xs = frameIdentity ys → xs = ys
  | [], [], _, _, _ => rfl
  | [], y :: ys, _, _, h => absurd h.symm (frameIdentity_ne_nil y ys)
  | x :: xs, [], _, _, h => absurd h (frameIdentity_ne_nil x xs)
  | x :: xs, y :: ys, hx, hy, h => by
    obtain ⟨hx, hxs⟩ := List.forall_mem_cons.1 hx
    obtain ⟨hy, hys⟩ := List.forall_mem_cons.1 hy
    rw [frameIdentity_cons, frameIdentity_cons] at h
    obtain ⟨hlength, h⟩ := List.append_inj h rfl
    obtain ⟨rfl, hrest⟩ := List.append_inj h (bigEndian64_inj hx hy hlength)
    rw [frameIdentity_inj hxs hys hrest]

section

variable [Platform]

/-- Two messages with one digest. -/
def Collision (a b : Text) : Prop := a ≠ b ∧ Platform.sha256 a = Platform.sha256 b

theorem hashIdentity_inj {xs ys : List Text} (hx : Framable xs) (hy : Framable ys)
    (hsha : ¬Collision (frameIdentity xs) (frameIdentity ys)) (h : hashIdentity xs = hashIdentity ys) : xs = ys :=
  frameIdentity_inj hx hy (not_not.1 fun hne => hsha ⟨hne, hexEncode_injective h⟩)

end

/-! ### Deliveries -/

namespace Transport

theorem JsonNumber.ofInt_text_inj {m n : Int} (h : (JsonNumber.ofInt m).text = (JsonNumber.ofInt n).text) : m = n := by
  have hvalue : (JsonNumber.ofInt m).parts.value = (JsonNumber.ofInt n).parts.value := by
    simp only [JsonNumber.parts, h]
  rw [JsonNumber.value_ofInt, JsonNumber.value_ofInt] at hvalue
  exact Int.cast_injective hvalue

theorem slash_notMem_ofInt (n : Int) : (0x2F : UInt8) ∉ (JsonNumber.ofInt n).text := by
  intro h
  rcases List.mem_append.1 h with h | h
  · split at h
    · exact absurd h (by decide)
    · exact List.not_mem_nil h
  · exact absurd ((Text.decimal_spec n.natAbs).2.1 _ h) (by decide)

/-- What comes before the first slash, where there is none in it. -/
theorem append_slash_inj {a b s t : Text} (ha : 0x2F ∉ a) (hb : 0x2F ∉ b) (h : a ++ 0x2F :: s = b ++ 0x2F :: t) :
    a = b ∧ s = t := by
  induction a generalizing b with
  | nil =>
    cases b with
    | nil => exact ⟨rfl, (List.cons.inj h).2⟩
    | cons c b => exact absurd (List.mem_cons.2 (.inl (List.cons.inj h).1)) hb
  | cons c a ih =>
    cases b with
    | nil => exact absurd (List.mem_cons.2 (.inl (List.cons.inj h).1.symm)) ha
    | cons d b =>
      obtain ⟨rfl, htail⟩ := List.cons.inj h
      obtain ⟨rfl, hrest⟩ := ih (List.not_mem_of_not_mem_cons ha) (List.not_mem_of_not_mem_cons hb) htail
      exact ⟨rfl, hrest⟩

/-- What comes after the last slash. -/
theorem slash_append_inj {a b s t : Text} (ha : 0x2F ∉ a) (hb : 0x2F ∉ b) (h : s ++ 0x2F :: a = t ++ 0x2F :: b) :
    s = t ∧ a = b := by
  have hreverse := congrArg List.reverse h
  simp only [List.reverse_append, List.reverse_cons, List.append_assoc, List.singleton_append] at hreverse
  obtain ⟨hab, hst⟩ := append_slash_inj (by simpa using ha) (by simpa using hb) hreverse
  exact ⟨List.reverse_injective hst, List.reverse_injective hab⟩

theorem deliveryID_eq (cluster : Text) (message : KafkaMessage) : deliveryID cluster message =
    ("kafka/" : Text) ++ (cluster ++ 0x2F :: ((message.topic ++ 0x2F :: (JsonNumber.ofInt message.partition).text) ++
      0x2F :: (JsonNumber.ofInt message.offset).text)) := by
  simp only [deliveryID, List.append_assoc]
  rfl

/-- A delivery tells the cluster, which has no slash, and the record. -/
theorem deliveryID_inj {cluster cluster' : Text} {message message' : KafkaMessage} (hc : 0x2F ∉ cluster)
    (hc' : 0x2F ∉ cluster') (h : deliveryID cluster message = deliveryID cluster' message') :
    cluster = cluster' ∧ message.topic = message'.topic ∧ message.partition = message'.partition ∧
      message.offset = message'.offset := by
  rw [deliveryID_eq, deliveryID_eq] at h
  obtain ⟨hcluster, h⟩ := append_slash_inj hc hc' (List.append_cancel_left h)
  obtain ⟨h, hoffset⟩ := slash_append_inj (slash_notMem_ofInt _) (slash_notMem_ofInt _) h
  obtain ⟨htopic, hpartition⟩ := slash_append_inj (slash_notMem_ofInt _) (slash_notMem_ofInt _) h
  exact ⟨hcluster, htopic, JsonNumber.ofInt_text_inj hpartition, JsonNumber.ofInt_text_inj hoffset⟩

end Transport

/-! ### Identities -/

theorem Direction.text_inj {d d' : Direction} (h : d.text = d'.text) : d = d' := by
  cases d <;> cases d' <;> first | rfl | exact absurd h (by decide)

section

variable [Platform]

/-- What an identity is made of can be read back from it, unless two frames have one digest; and so can a delivery of a
cluster without a slash. -/
theorem identities_injective :
    (∀ xs ys, Framable xs → Framable ys → frameIdentity xs = frameIdentity ys → xs = ys) ∧
    (∀ execution plan execution' plan', Framable [execution, plan] → Framable [execution', plan'] →
      ¬Collision (frameIdentity [execution, plan]) (frameIdentity [execution', plan']) →
      stableSagaID execution plan = stableSagaID execution' plan' → execution = execution' ∧ plan = plan') ∧
    (∀ ns saga effect ns' saga' effect' (d d' : Direction), Framable [ns, saga, effect] → Framable [ns', saga', effect'] →
      ¬Collision (frameIdentity [ns, saga, effect, d.text]) (frameIdentity [ns', saga', effect', d'.text]) →
      idempotencyKey ns saga effect d = idempotencyKey ns' saga' effect' d' →
      ns = ns' ∧ saga = saga' ∧ effect = effect' ∧ d = d') ∧
    (∀ ns delivery ruleset version ns' delivery' ruleset' version', Framable [ns, delivery, ruleset, version] →
      Framable [ns', delivery', ruleset', version'] →
      ¬Collision (frameIdentity [ns, delivery, ruleset, version]) (frameIdentity [ns', delivery', ruleset', version']) →
      stableExecutionID ns delivery ruleset version = stableExecutionID ns' delivery' ruleset' version' →
      ns = ns' ∧ delivery = delivery' ∧ ruleset = ruleset' ∧ version = version') ∧
    ∀ cluster cluster' (message message' : Transport.KafkaMessage), 0x2F ∉ cluster → 0x2F ∉ cluster' →
      Transport.deliveryID cluster message = Transport.deliveryID cluster' message' →
      cluster = cluster' ∧ message.topic = message'.topic ∧ message.partition = message'.partition ∧
        message.offset = message'.offset := by
  refine ⟨fun xs ys hx hy => frameIdentity_inj hx hy, ?_, ?_, ?_, fun _ _ _ _ hc hc' => Transport.deliveryID_inj hc hc'⟩
  · intro execution plan execution' plan' hx hy hsha h
    simpa using hashIdentity_inj hx hy hsha h
  · intro ns saga effect ns' saga' effect' d d' hx hy hsha h
    have hdirection : ∀ {xs : List Text} (d : Direction), Framable xs → Framable (xs ++ [d.text]) := by
      intro xs d hxs
      refine List.forall_mem_append.2 ⟨hxs, List.forall_mem_singleton.2 ?_⟩
      cases d <;> decide
    have heq := hashIdentity_inj (hdirection d hx) (hdirection d' hy) hsha h
    simp only [List.cons_append, List.nil_append, List.cons.injEq, and_true] at heq
    exact ⟨heq.1, heq.2.1, heq.2.2.1, Direction.text_inj heq.2.2.2⟩
  · intro ns delivery ruleset version ns' delivery' ruleset' version' hx hy hsha h
    simpa using hashIdentity_inj hx hy hsha h

end

end Effectus
