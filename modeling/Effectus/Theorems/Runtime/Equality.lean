import Effectus.Go.Reference
import Effectus.Lib.Fallible
import Effectus.Runtime.Evaluate

/-!
What predicates compare. A normal value stands for a mathematical one, where an integer and a float of the same value are
one number and an object is its fields in name order. Equality of the program is equality of what values stand for, and
ordering and membership read nothing else.
-/

namespace Effectus

/-! ### Normal values -/

mutual

/-- The entries of every map come in key order, at any depth. -/
def GoValue.KeysOrdered : GoValue → Prop
  | .slice _ items => KeysOrderedItems items
  | .map _ entries => Assoc.Ordered entries ∧ KeysOrderedEntries entries
  | _ => True

def GoValue.KeysOrderedItems : List GoValue → Prop
  | [] => True
  | v :: vs => KeysOrdered v ∧ KeysOrderedItems vs

def GoValue.KeysOrderedEntries : List (Text × GoValue) → Prop
  | [] => True
  | (_, v) :: es => KeysOrdered v ∧ KeysOrderedEntries es

end

/-- The values normalization returns: nil, booleans, strings, `int64`, finite `float64`, and `[]any` and
`map[string]any` of them. -/
inductive Normal : GoValue → Prop
  | nil : Normal .nil
  | bool (b : Bool) : Normal (.bool b)
  | str (s : Text) : Normal (.str s)
  | int (n : Int64) : Normal (.ofInt64 n)
  | float {f : Float64} (hf : f.isFinite = true) : Normal (.ofFloat64 f)
  | list {items : List GoValue} (hi : ∀ v ∈ items, Normal v) : Normal (.ofList items)
  | map {entries : List (Text × GoValue)} (ho : Assoc.Ordered entries) (he : ∀ e ∈ entries, Normal e.2) :
    Normal (.ofMap entries)

/-- A value as normalization returns it. -/
abbrev NormalValue := { v : GoValue // Normal v }

/-! ### Normalization returns normal values -/

theorem normalizeFloat_finite {v : GoValue} {f : Float64} (h : normalizeFloat v = some f) : f.isFinite = true := by
  unfold normalizeFloat at h
  split at h
  · exact (Option.filter_eq_some_iff.1 h).2
  · rename_i n
    cases h
    exact Float64.isFinite_ofInt (by have := n.le_toInt; have := n.toInt_lt; omega)
  · rename_i n
    cases h
    exact Float64.isFinite_ofInt (by simpa using n.toNat_lt)
  · split at h <;> cases h
    assumption
  · split at h <;> cases h
    assumption
  · cases h

theorem normalizeItems_normal {item : GoValue → Nat → Except Err (GoValue × Nat)}
    (hitem : ∀ {v nodes w}, v.KeysOrdered → item v nodes = .ok w → Normal w.1) :
    ∀ {index : Nat} {items : List GoValue} {nodes : Nat} {out : List GoValue × Nat}, GoValue.KeysOrderedItems items →
      normalizeItems item index items nodes = .ok out → ∀ v ∈ out.1, Normal v
  | _, [], _, _, _, h => by
    cases h
    exact List.forall_mem_nil _
  | index, v :: vs, nodes, out, ho, h => by
    rw [normalizeItems] at h
    split at h
    · cases h
    rename_i w _ hw
    split at h
    · cases h
    rename_i ws _ hws
    cases h
    exact List.forall_mem_cons.2 ⟨hitem ho.1 hw, normalizeItems_normal hitem ho.2 hws⟩

/-- The fields keep their names, in order, and their values are normal. -/
theorem normalizeEntries_normal {expected : Text → Option TypeRef}
    {item : TypeRef → GoValue → Nat → Except Err (GoValue × Nat)}
    (hitem : ∀ {ref v nodes w}, v.KeysOrdered → item ref v nodes = .ok w → Normal w.1) :
    ∀ {entries : List (Text × GoValue)} {nodes : Nat} {out : List (Text × GoValue) × Nat},
      GoValue.KeysOrderedEntries entries → normalizeEntries expected item entries nodes = .ok out →
      out.1.map Prod.fst = entries.map Prod.fst ∧ ∀ e ∈ out.1, Normal e.2
  | [], _, _, _, h => by
    cases h
    exact ⟨rfl, List.forall_mem_nil _⟩
  | (k, v) :: es, nodes, out, ho, h => by
    rw [normalizeEntries] at h
    split at h
    · cases h
    split at h
    · cases h
    split at h
    · cases h
    rename_i ref _ w _ hw
    split at h
    · cases h
    rename_i ws _ hws
    cases h
    obtain ⟨hkeys, hnormal⟩ := normalizeEntries_normal hitem ho.2 hws
    exact ⟨congrArg (k :: ·) hkeys, List.forall_mem_cons.2 ⟨hitem ho.1 hw, hnormal⟩⟩

theorem GoValue.KeysOrdered.items {v : GoValue} (h : v.KeysOrdered) {items : List GoValue} (hi : v.items? = some items) :
    KeysOrderedItems items := by
  cases v <;> cases hi
  · rename_i b
    induction b with
    | nil => trivial
    | cons x b ih => exact ⟨trivial, ih h⟩
  · exact h

theorem GoValue.KeysOrdered.entries {v : GoValue} (h : v.KeysOrdered) {entries : List (Text × GoValue)}
    (he : v.entries? = some entries) : Assoc.Ordered entries ∧ KeysOrderedEntries entries := by
  cases v <;> cases he
  exact h

theorem orMismatch_ok {ref : TypeRef} {v : GoValue} {w : GoValue × Nat} {nodes : Nat} {found : Option GoValue}
    (h : orMismatch ref v nodes found = .ok w) : found = some w.1 := by
  cases found with
  | none => cases h
  | some _ => cases h; rfl

theorem Environment.normalizeValue_normal (env : Environment) : ∀ {room : Nat} {ref : TypeRef} {v : GoValue} {nodes : Nat}
    {w : GoValue × Nat}, v.KeysOrdered → env.normalizeValue room ref v nodes = .ok w → Normal w.1
  | 0, _, _, _, _, _, h => by cases h
  | room + 1, ref, v, nodes, w, ho, h => by
    rw [Environment.normalizeValue.eq_def] at h
    dsimp only at h
    split at h
    · cases h
    have hitem : ∀ {ref v nodes w}, v.KeysOrdered → env.normalizeValue room ref v nodes = .ok w → Normal w.1 :=
      fun ho h => env.normalizeValue_normal ho h
    -- One case for each kind of type: a scalar is found or not, a list or object is normal part by part.
    split at h
    · cases h
    · have hfound := orMismatch_ok h
      split at hfound
      · exact Option.some.inj hfound ▸ .nil
      · cases hfound
    · have hfound := orMismatch_ok h
      split at hfound
      · exact Option.some.inj hfound ▸ .bool _
      · cases hfound
    · have hfound := orMismatch_ok h
      split at hfound
      · split at hfound
        · exact Option.some.inj hfound ▸ .str _
        · cases hfound
      · cases hfound
    · split at h
      · cases h
      obtain ⟨text, -, hw⟩ := Option.map_eq_some_iff.1 (orMismatch_ok h)
      exact hw ▸ .str text
    · obtain ⟨n, -, hw⟩ := Option.map_eq_some_iff.1 (orMismatch_ok h)
      exact hw ▸ .int n
    · obtain ⟨f, hf, hw⟩ := Option.map_eq_some_iff.1 (orMismatch_ok h)
      exact hw ▸ .float (normalizeFloat_finite hf)
    · split at h
      · cases h
      rename_i items hitems
      obtain ⟨-, h⟩ := Fallible.ite_error_ok.1 h
      obtain ⟨out, hout, rfl⟩ := Fallible.map_ok.1 h
      exact .list (normalizeItems_normal hitem (ho.items hitems) hout)
    · split at h
      · cases h
      rename_i entries hentries
      obtain ⟨-, h⟩ := Fallible.ite_error_ok.1 h
      obtain ⟨out, hout, rfl⟩ := Fallible.map_ok.1 h
      obtain ⟨hordered, hin⟩ := ho.entries hentries
      obtain ⟨hkeys, hnormal⟩ := normalizeEntries_normal hitem hin hout
      exact .map (hordered.of_keys hkeys) hnormal
    · split at h
      · cases h
      rename_i entries hentries
      obtain ⟨-, h⟩ := Fallible.ite_error_ok.1 h
      split at h
      · cases h
      rename_i out hout
      split at h
      · cases h
      cases h
      obtain ⟨hordered, hin⟩ := ho.entries hentries
      obtain ⟨hkeys, hnormal⟩ := normalizeEntries_normal hitem hin hout
      exact .map (hordered.of_keys hkeys) hnormal
    · cases h
    · cases h

theorem normalizeValue_normal {environment : Environment} {typeName : Text} {v w : GoValue} (ho : v.KeysOrdered)
    (h : normalizeValue environment typeName v = .ok w) : Normal w := by
  unfold normalizeValue at h
  split at h
  · cases h
  split at h
  · cases h
  rename_i env _ _ ref _
  obtain ⟨⟨_, nodes⟩, hrun, rfl⟩ := Fallible.map_ok.1 h
  exact env.normalizeValue_normal ho hrun

/-! ### What a value stands for -/

/-- What a normal value stands for. -/
inductive Meaning where
  | null
  | bool (b : Bool)
  | text (s : Text)
  | number (q : ℚ)
  | list (items : List Meaning)
  | object (fields : List (Text × Meaning))

mutual

/-- Values that are never normal stand for nothing. -/
def GoValue.meaning : GoValue → Meaning
  | .bool b => .bool b
  | .str s => .text s
  | .int _ n => .number n.toInt
  | .float64 _ f => .number f.toRat
  | .slice _ items => .list (meaningItems items)
  | .map _ entries => .object (meaningEntries entries)
  | _ => .null

def GoValue.meaningItems : List GoValue → List Meaning
  | [] => []
  | v :: vs => meaning v :: meaningItems vs

def GoValue.meaningEntries : List (Text × GoValue) → List (Text × Meaning)
  | [] => []
  | (k, v) :: es => (k, meaning v) :: meaningEntries es

end

theorem GoValue.meaningItems_eq (items : List GoValue) : meaningItems items = items.map meaning := by
  induction items with
  | nil => rfl
  | cons v vs ih => rw [meaningItems, ih, List.map_cons]

theorem GoValue.meaningEntries_eq (entries : List (Text × GoValue)) :
    meaningEntries entries = entries.map fun e => (e.1, e.2.meaning) := by
  induction entries with
  | nil => rfl
  | cons e es ih => rw [meaningEntries, ih, List.map_cons]

/-- The number, if it is one. -/
def Meaning.number? : Meaning → Option ℚ
  | .number q => some q
  | _ => none

theorem checkedRational_normal {v : GoValue} (h : Normal v) : checkedRational v = v.meaning.number? := by
  cases h with
  | nil => rfl
  | bool b => rfl
  | str s => rfl
  | int n => rfl
  | float hf => simp [checkedRational, checkedFloat, checkedInteger, GoValue.ofFloat64, GoValue.meaning, hf, Meaning.number?]
  | list hi => rfl
  | map ho he => rfl

/-! ### Equality -/

theorem checkedEqualItems_iff {items : List GoValue} (ih : ∀ v ∈ items, ∀ {w : GoValue}, Normal w →
      (checkedEqual v w = true ↔ v.meaning = w.meaning)) {others : List GoValue} (ho : ∀ w ∈ others, Normal w) :
    checkedEqualItems items others = true ↔ items.map GoValue.meaning = others.map GoValue.meaning := by
  induction items generalizing others with
  | nil => cases others <;> simp [checkedEqualItems]
  | cons v vs ihs =>
    cases others with
    | nil => simp [checkedEqualItems]
    | cons w ws =>
      obtain ⟨hw, hws⟩ := List.forall_mem_cons.1 ho
      obtain ⟨hv, hvs⟩ := List.forall_mem_cons.1 ih
      rw [checkedEqualItems, Bool.and_eq_true, hv hw, ihs hvs hws, List.map_cons, List.map_cons, List.cons.injEq]

theorem checkedEqualEntries_iff {entries others : List (Text × GoValue)} :
    checkedEqualEntries entries others = true ↔
      ∀ e ∈ entries, ∃ v, Assoc.get? others e.1 = some v ∧ checkedEqual e.2 v = true := by
  induction entries with
  | nil => simp [checkedEqualEntries]
  | cons e es ih =>
    obtain ⟨k, v⟩ := e
    rw [checkedEqualEntries, List.forall_mem_cons, ← ih]
    cases Assoc.get? others k <;> simp

/-- Two objects of one size, where each field of the first is in the second and stands for the same there, have the same
fields: neither has a field the other lacks. -/
theorem meaning_entries_iff {entries others : List (Text × GoValue)} (he : Assoc.Ordered entries)
    (ho : Assoc.Ordered others) :
    (entries.length = others.length ∧
      ∀ e ∈ entries, ∃ v, Assoc.get? others e.1 = some v ∧ e.2.meaning = v.meaning) ↔
    (entries.map fun e => (e.1, e.2.meaning)) = others.map fun e => (e.1, e.2.meaning) := by
  have ordered : ∀ {es : List (Text × GoValue)}, Assoc.Ordered es → Assoc.Ordered (es.map fun e => (e.1, e.2.meaning)) :=
    fun h => h.of_keys (by simp)
  constructor
  · rintro ⟨hlength, hreads⟩
    refine (ordered he).eq_of_reads (ordered ho) (by simp [hlength]) fun x hx => ?_
    obtain ⟨e, hm, rfl⟩ := List.mem_map.1 hx
    obtain ⟨v, hv, hmeaning⟩ := hreads e hm
    rw [Assoc.get?_map, hv, hmeaning]
    rfl
  · intro h
    refine ⟨by simpa using congrArg List.length h, fun e hm => ?_⟩
    have hread : Assoc.get? (others.map fun e => (e.1, e.2.meaning)) e.1 = some e.2.meaning :=
      (ordered ho).get?_of_mem (h ▸ List.mem_map_of_mem hm)
    rw [Assoc.get?_map] at hread
    obtain ⟨v, hv, hmeaning⟩ := Option.map_eq_some_iff.1 hread
    exact ⟨v, hv, hmeaning.symm⟩

theorem checkedEqual_leaf {v : GoValue} (hv : v = .nil ∨ (∃ b, v = .bool b) ∨ ∃ s, v = .str s) (w : GoValue) :
    checkedEqual v w = deepEqual v w := by
  rcases hv with rfl | ⟨b, rfl⟩ | ⟨s, rfl⟩ <;> rw [checkedEqual.eq_def] <;> rfl

theorem checkedEqual_ofList (items : List GoValue) (w : GoValue) : checkedEqual (.ofList items) w =
    match w with
    | .slice type others => decide (type = GoValue.anySlice) && checkedEqualItems items others
    | _ => false := by
  rw [checkedEqual.eq_def]
  rfl

theorem checkedEqual_ofMap (entries : List (Text × GoValue)) (w : GoValue) : checkedEqual (.ofMap entries) w =
    match w with
    | .map type others =>
      decide (type = GoValue.anyMap ∧ entries.length = others.length) && checkedEqualEntries entries others
    | _ => false := by
  rw [checkedEqual.eq_def]
  rfl

theorem checkedEqual_number {v w : GoValue} {q : ℚ} (hv : checkedRational v = some q) :
    checkedEqual v w = true ↔ checkedRational w = some q := by
  rw [checkedEqual.eq_def, hv]
  cases checkedRational w with
  | none => simp
  | some r => simp [eq_comm]

/-- The program's equality is equality of what values stand for. -/
theorem checkedEqual_iff {v : GoValue} (hv : Normal v) :
    ∀ {w : GoValue}, Normal w → (checkedEqual v w = true ↔ v.meaning = w.meaning) := by
  have number : ∀ {v w : GoValue} {q : ℚ}, checkedRational v = some q → v.meaning = .number q → Normal w →
      (checkedEqual v w = true ↔ v.meaning = w.meaning) := by
    intro v w q hq hv hw
    rw [checkedEqual_number hq, checkedRational_normal hw, hv]
    cases w.meaning <;> simp [Meaning.number?, eq_comm]
  induction hv with
  | nil =>
    intro w hw
    rw [checkedEqual_leaf (.inl rfl)]
    cases hw with
    | nil => exact iff_of_true rfl rfl
    | _ => exact iff_of_false (by rintro ⟨⟩) (by rintro ⟨⟩)
  | bool b =>
    intro w hw
    rw [checkedEqual_leaf (.inr (.inl ⟨b, rfl⟩))]
    cases hw with
    | bool c => simp [deepEqual, GoValue.meaning]
    | _ => exact iff_of_false (by rintro ⟨⟩) (by rintro ⟨⟩)
  | str s =>
    intro w hw
    rw [checkedEqual_leaf (.inr (.inr ⟨s, rfl⟩))]
    cases hw with
    | str t => simp [deepEqual, GoValue.meaning]
    | _ => exact iff_of_false (by rintro ⟨⟩) (by rintro ⟨⟩)
  | int n => exact fun hw => number rfl rfl hw
  | float hf => exact fun hw => number ((checkedRational_normal (.float hf)).trans rfl) rfl hw
  | @list items hi ih =>
    intro w hw
    rw [checkedEqual_ofList]
    cases hw with
    | @list others hothers =>
      simp only [GoValue.ofList, GoValue.meaning, GoValue.meaningItems_eq, Meaning.list.injEq, decide_true, Bool.true_and]
      exact checkedEqualItems_iff ih hothers
    | _ => exact iff_of_false (by rintro ⟨⟩) (by rintro ⟨⟩)
  | @map entries ho he ih =>
    intro w hw
    rw [checkedEqual_ofMap]
    cases hw with
    | @map others hordered hothers =>
      simp only [GoValue.ofMap, GoValue.meaning, GoValue.meaningEntries_eq, Meaning.object.injEq, true_and,
        Bool.and_eq_true, decide_eq_true_eq, checkedEqualEntries_iff, ← meaning_entries_iff ho hordered]
      refine and_congr_right fun _ => forall₂_congr fun e hm => exists_congr fun v => and_congr_right fun hv => ?_
      exact ih e hm (hothers _ (Assoc.mem_of_get? hv))
    | _ => exact iff_of_false (by rintro ⟨⟩) (by rintro ⟨⟩)

/-! ### Order -/

section

variable {α : Type} [LT α] [DecidableLT α] [DecidableEq α] {a b c : α}

/-- The three ways two elements compare, with the answer. -/
theorem compareOfLessAndEq_cases [Std.Trichotomous fun a b : α => a < b] (a b : α) :
    (a < b ∧ compareOfLessAndEq a b = .lt) ∨ (a = b ∧ compareOfLessAndEq a b = .eq) ∨
      (b < a ∧ compareOfLessAndEq a b = .gt) := by
  by_cases hlt : a < b
  · exact .inl ⟨hlt, if_pos hlt⟩
  by_cases heq : a = b
  · exact .inr (.inl ⟨heq, by rw [compareOfLessAndEq, if_neg hlt, if_pos heq]⟩)
  · exact .inr (.inr ⟨Assoc.lt_of_not_lt hlt heq, by rw [compareOfLessAndEq, if_neg hlt, if_neg heq]⟩)

variable [Std.Irrefl fun a b : α => a < b]
  [Trans (fun a b : α => a < b) (fun a b : α => a < b) fun a b : α => a < b]

theorem compareOfLessAndEq_of_gt (h : b < a) : compareOfLessAndEq a b = .gt := by
  have hlt : ¬a < b := fun hab => Std.Irrefl.irrefl a (Trans.trans hab h)
  have hne : a ≠ b := fun heq => Std.Irrefl.irrefl a (by rwa [← heq] at h)
  rw [compareOfLessAndEq, if_neg hlt, if_neg hne]

variable [Std.Trichotomous fun a b : α => a < b]

theorem compareOfLessAndEq_swap (a b : α) : compareOfLessAndEq b a = (compareOfLessAndEq a b).swap := by
  rcases compareOfLessAndEq_cases a b with ⟨hlt, h⟩ | ⟨rfl, h⟩ | ⟨hgt, h⟩
  · rw [h, compareOfLessAndEq_of_gt hlt, Ordering.swap]
  · rw [h, Ordering.swap]
  · rw [h, compareOfLessAndEq, if_pos hgt, Ordering.swap]

omit [Trans (fun a b : α => a < b) (fun a b : α => a < b) fun a b : α => a < b] in
theorem compareOfLessAndEq_iff : compareOfLessAndEq a b = .eq ↔ a = b := by
  rcases compareOfLessAndEq_cases a b with ⟨hlt, h⟩ | ⟨rfl, h⟩ | ⟨hgt, h⟩
  · exact ⟨fun he => absurd (h.symm.trans he) nofun, fun he => absurd hlt (he ▸ Std.Irrefl.irrefl a)⟩
  · exact ⟨fun _ => rfl, fun _ => h⟩
  · exact ⟨fun he => absurd (h.symm.trans he) nofun, fun he => absurd hgt (he ▸ Std.Irrefl.irrefl a)⟩

omit [Std.Irrefl fun a b : α => a < b] in
theorem compareOfLessAndEq_trans (hab : compareOfLessAndEq a b ≠ .gt) (hbc : compareOfLessAndEq b c ≠ .gt) :
    compareOfLessAndEq a c = (compareOfLessAndEq a b).then (compareOfLessAndEq b c) := by
  rcases compareOfLessAndEq_cases a b with ⟨hlt, h⟩ | ⟨rfl, h⟩ | ⟨-, h⟩
  · rw [h]
    rcases compareOfLessAndEq_cases b c with ⟨hlt', -⟩ | ⟨rfl, -⟩ | ⟨-, h'⟩
    · exact if_pos (Trans.trans hlt hlt')
    · exact h
    · exact absurd h' hbc
  · rw [h]
    rfl
  · exact absurd h hab

end

/-- The comparison of what values stand for. -/
def Meaning.compare : Meaning → Meaning → Except EvalError Ordering
  | .text l, .text r => .ok (compareOfLessAndEq l r)
  | .text _, _ => .error .comparisonDiffers
  | .number l, .number r => .ok (compareOfLessAndEq l r)
  | _, _ => .error .comparisonOperands

theorem compareCheckedValues_number {v w : GoValue} (hv : ∀ s, v ≠ .str s) : compareCheckedValues v w =
    match checkedRational v, checkedRational w with
    | some l, some r => .ok (compareOfLessAndEq l r)
    | _, _ => .error .comparisonOperands := by
  cases v with
  | str s => exact absurd rfl (hv s)
  | _ => rfl

theorem compareCheckedValues_normal {v w : GoValue} (hv : Normal v) (hw : Normal w) :
    compareCheckedValues v w = v.meaning.compare w.meaning := by
  by_cases htext : ∃ s, v = .str s
  · obtain ⟨s, rfl⟩ := htext
    cases hw with
    | str t =>
      simp only [compareCheckedValues, Text.lt, decide_eq_true_eq]
      rfl
    | _ => rfl
  · rw [compareCheckedValues_number fun s hs => htext ⟨s, hs⟩, checkedRational_normal hv, checkedRational_normal hw]
    cases hv with
    | str s => exact absurd ⟨s, rfl⟩ htext
    | int n => cases w.meaning <;> rfl
    | float hf => cases w.meaning <;> rfl
    | _ => rfl

/-! ### Membership -/

open Classical in
/-- Whether a text has a part, or a list an item. -/
noncomputable def Meaning.contains (container item : Meaning) : Option Bool :=
  match container with
  | .text whole => match item with | .text part => some (containsText whole part) | _ => none
  | .list items => some (decide (item ∈ items))
  | _ => none

theorem checkedContains_normal {v w : GoValue} (hv : Normal v) (hw : Normal w) :
    (checkedContains v w).toOption = v.meaning.contains w.meaning := by
  cases hv with
  | str s => cases hw <;> rfl
  | @list items hi =>
    have hany : (items.any fun v => checkedEqual v w) = true ↔ w.meaning ∈ GoValue.meaningItems items := by
      rw [GoValue.meaningItems_eq, List.any_eq_true, List.mem_map]
      exact exists_congr fun v => and_congr_right fun hv => checkedEqual_iff (hi v hv) hw
    refine congrArg some (Bool.eq_iff_iff.2 (hany.trans ?_))
    simp
  | _ => rfl

/-! ### Predicates -/

/-- A number, as normal values have them. -/
def GoValue.isNumber : GoValue → Bool
  | .int _ _ | .float64 _ _ => true
  | _ => false

def GoValue.isText : GoValue → Bool
  | .str _ => true
  | _ => false

/-- Two numbers, or two strings. -/
def GoValue.Comparable (v w : GoValue) : Prop :=
  (v.isNumber = true ∧ w.isNumber = true) ∨ (v.isText = true ∧ w.isText = true)

/-- The operators that compare. -/
def comparisons : List BinaryOperator :=
  [.equal, .notEqual, .less, .lessEqual, .greater, .greaterEqual, .isIn, .contains]

theorem comparable_compare {v w : NormalValue} (h : v.1.Comparable w.1) :
    ∃ o, compareCheckedValues v.1 w.1 = .ok o ∧ (o = .eq ↔ checkedEqual v.1 w.1 = true) ∧
      compareCheckedValues w.1 v.1 = .ok o.swap := by
  obtain ⟨v, hv⟩ := v
  obtain ⟨w, hw⟩ := w
  have hmeaning : (∃ l r, v.meaning = .number l ∧ w.meaning = .number r) ∨
      ∃ l r, v.meaning = .text l ∧ w.meaning = .text r := by
    rcases h with ⟨hl, hr⟩ | ⟨hl, hr⟩
    · exact .inl (by cases v <;> cases hl <;> cases w <;> cases hr <;> exact ⟨_, _, rfl, rfl⟩)
    · exact .inr (by cases v <;> cases hl; cases w <;> cases hr; exact ⟨_, _, rfl, rfl⟩)
  rw [compareCheckedValues_normal hv hw, compareCheckedValues_normal hw hv, checkedEqual_iff hv hw]
  rcases hmeaning with ⟨l, r, hl, hr⟩ | ⟨l, r, hl, hr⟩
  · rw [hl, hr, Meaning.number.injEq]
    exact ⟨_, rfl, compareOfLessAndEq_iff, congrArg _ (compareOfLessAndEq_swap l r)⟩
  · rw [hl, hr, Meaning.text.injEq]
    exact ⟨_, rfl, compareOfLessAndEq_iff, congrArg _ (compareOfLessAndEq_swap l r)⟩

theorem compareCheckedValues_trans {u v w : NormalValue} {o p : Ordering} (huv : compareCheckedValues u.1 v.1 = .ok o)
    (hvw : compareCheckedValues v.1 w.1 = .ok p) (ho : o ≠ .gt) (hp : p ≠ .gt) :
    compareCheckedValues u.1 w.1 = .ok (o.then p) := by
  rw [compareCheckedValues_normal u.2 v.2] at huv
  rw [compareCheckedValues_normal v.2 w.2] at hvw
  rw [compareCheckedValues_normal u.2 w.2]
  cases hu : u.1.meaning <;> cases hv : v.1.meaning <;> rw [hu, hv] at huv <;> cases huv <;>
    cases hw : w.1.meaning <;> rw [hv, hw] at hvw <;> cases hvw <;>
    exact congrArg _ (compareOfLessAndEq_trans ho hp)

/-- Equal values stand for the same, and the comparing operators see nothing else. -/
theorem evaluateCheckedBinary_congr [Platform] {op : BinaryOperator} (hop : op ∈ comparisons) {v v' w w' : NormalValue}
    (hv : v.1.meaning = v'.1.meaning) (hw : w.1.meaning = w'.1.meaning) :
    (evaluateCheckedBinary op v.1 w.1).toOption = (evaluateCheckedBinary op v'.1 w'.1).toOption := by
  have hequal : checkedEqual v.1 w.1 = checkedEqual v'.1 w'.1 := by
    rw [Bool.eq_iff_iff, checkedEqual_iff v.2 w.2, checkedEqual_iff v'.2 w'.2, hv, hw]
  have hcompare : compareCheckedValues v.1 w.1 = compareCheckedValues v'.1 w'.1 := by
    rw [compareCheckedValues_normal v.2 w.2, compareCheckedValues_normal v'.2 w'.2, hv, hw]
  have hcontains : (checkedContains v.1 w.1).toOption = (checkedContains v'.1 w'.1).toOption := by
    rw [checkedContains_normal v.2 w.2, checkedContains_normal v'.2 w'.2, hv, hw]
  have hin : (checkedContains w.1 v.1).toOption = (checkedContains w'.1 v'.1).toOption := by
    rw [checkedContains_normal w.2 v.2, checkedContains_normal w'.2 v'.2, hv, hw]
  have map : ∀ {x y : Except EvalError Bool}, x.toOption = y.toOption →
      (x.map GoValue.bool).toOption = (y.map GoValue.bool).toOption := by
    intro x y hxy
    cases x <;> cases y <;> simp_all [Except.toOption, Except.map]
  simp only [comparisons, List.mem_cons, List.not_mem_nil, or_false] at hop
  rcases hop with rfl | rfl | rfl | rfl | rfl | rfl | rfl | rfl
  · rw [evaluateCheckedBinary, evaluateCheckedBinary, hequal]
  · rw [evaluateCheckedBinary, evaluateCheckedBinary, hequal]
  · rw [evaluateCheckedBinary, evaluateCheckedBinary, hcompare]
  · rw [evaluateCheckedBinary, evaluateCheckedBinary, hcompare]
  · rw [evaluateCheckedBinary, evaluateCheckedBinary, hcompare]
  · rw [evaluateCheckedBinary, evaluateCheckedBinary, hcompare]
  · exact map hin
  · exact map hcontains

/-- Equality is an equivalence, comparison is its total order on numbers and on strings, and no operator that compares
tells equal operands apart. An operator that fails on one fails on the other. -/
theorem equality_congruence [Platform] :
    (∀ {environment : Environment} {typeName : Text} {value v : GoValue}, value.KeysOrdered →
      normalizeValue environment typeName value = .ok v → Normal v) ∧
    (Equivalence fun v w : NormalValue => checkedEqual v.1 w.1 = true) ∧
    (∀ v w : NormalValue, v.1.Comparable w.1 → ∃ o, compareCheckedValues v.1 w.1 = .ok o ∧
      (o = .eq ↔ checkedEqual v.1 w.1 = true) ∧ compareCheckedValues w.1 v.1 = .ok o.swap) ∧
    (∀ (u v w : NormalValue) (o p : Ordering), compareCheckedValues u.1 v.1 = .ok o →
      compareCheckedValues v.1 w.1 = .ok p → o ≠ .gt → p ≠ .gt → compareCheckedValues u.1 w.1 = .ok (o.then p)) ∧
    ∀ op ∈ comparisons, ∀ v v' w w' : NormalValue, checkedEqual v.1 v'.1 = true → checkedEqual w.1 w'.1 = true →
      (evaluateCheckedBinary op v.1 w.1).toOption = (evaluateCheckedBinary op v'.1 w'.1).toOption := by
  refine ⟨normalizeValue_normal, ⟨fun v => ?_, fun {v w} h => ?_, fun {u v w} huv hvw => ?_⟩,
    fun v w => comparable_compare, fun u v w o p => compareCheckedValues_trans, fun op hop v v' w w' hv hw => ?_⟩
  · exact (checkedEqual_iff v.2 v.2).2 rfl
  · exact (checkedEqual_iff w.2 v.2).2 ((checkedEqual_iff v.2 w.2).1 h).symm
  · exact (checkedEqual_iff u.2 w.2).2 (((checkedEqual_iff u.2 v.2).1 huv).trans ((checkedEqual_iff v.2 w.2).1 hvw))
  · exact evaluateCheckedBinary_congr hop ((checkedEqual_iff v.2 v'.2).1 hv) ((checkedEqual_iff w.2 w'.2).1 hw)

section

attribute [local instance] reference

/-- Above `2 ^ 53` neighbouring integers share their nearest float, and still only one of them equals it. -/
theorem equality_congruence_wide :
    compareCheckedValues (.ofFloat64 (.ofInt (2 ^ 53))) (.ofInt64 (2 ^ 53 + 1)) = .ok .lt ∧
    Float64.ofInt (2 ^ 53) = Float64.ofInt (2 ^ 53 + 1) ∧
    (evaluateCheckedBinary .isIn (.ofFloat64 (.ofInt (2 ^ 53))) (.ofList [.nil, .ofInt64 (2 ^ 53)])).toOption =
      (evaluateCheckedBinary .isIn (.ofInt64 (2 ^ 53)) (.ofList [.nil, .ofInt64 (2 ^ 53)])).toOption := by
  let float : NormalValue := ⟨.ofFloat64 (.ofInt (2 ^ 53)), .float (by decide +kernel)⟩
  let whole : NormalValue := ⟨.ofInt64 (2 ^ 53), .int _⟩
  let next : NormalValue := ⟨.ofInt64 (2 ^ 53 + 1), .int _⟩
  let list : NormalValue := ⟨.ofList [.nil, .ofInt64 (2 ^ 53)], .list (by simp [Normal.nil, Normal.int])⟩
  obtain ⟨-, hequiv, -, htrans, hcongr⟩ := equality_congruence
  have hequal : checkedEqual float.1 whole.1 = true := by decide +kernel
  refine ⟨?_, by decide +kernel, ?_⟩
  · exact htrans float whole next .eq .lt (by decide +kernel) (by decide +kernel) (by decide) (by decide)
  · exact hcongr .isIn (by decide) float whole list list hequal (hequiv.refl list)

end

end Effectus
