import AccessGuard.Proofs.WrittenJson
import AccessGuard.Value.Json

/-!
# Values and JSON are inverse

A value whose decimals are the large integers becomes JSON without doubles, and comes back as it
was; so does JSON without doubles. The boundary of 64 signed bits decides on both ways: below it an
integer is an `int`, beyond it a `decimal` whose text is read as the same integer. With what is
known of written JSON, a displayed value is read back, and different values are displayed
differently.

* `Value.ofJson_toJson`, `Value.toJson_ofJson`: there and back, at any depth.
* `Value.toJson_wellFormed`, `Value.toJson_integersOnly`: what the JSON of a value is like.
* `Value.display_injective`: the text determines the value.
* `Value.json_inverse`: the two ways, the text, and any reader of written JSON.
-/

namespace AccessGuard

/-- The numeral of an integer that 64 bits hold only without a sign. -/
def IsLargeInteger (text : String) : Prop :=
  ∃ n : Nat, 0x8000000000000000 ≤ n ∧ n < 0x10000000000000000 ∧ text = toString n

theorem compact_ofNat (n : Nat) : (Json.ofNat n).compact = toString n := by
  have hpos : ¬ (n : Int) < 0 := by omega
  rw [Json.compact, Json.ofNat, Json.write, Number.text, if_neg hpos, Int.natAbs_natCast]
  exact Nat.toString_eq_ofList_toDigits.symm

theorem Json.integersOnly_ofNat {n : Nat} (h : n < 0x10000000000000000) :
    (Json.ofNat n).IntegersOnly := by
  have hlow : -0x8000000000000000 ≤ (n : Int) := by omega
  have hhigh : (n : Int) < 0x10000000000000000 := by omega
  exact ⟨hlow, hhigh⟩

/-- The numeral of an integer is JSON of its own. -/
theorem Json.read?_toString {n : Nat} (h : n < 0x10000000000000000) :
    Json.read? (toString n) = some (.ofNat n) := by
  have hwf : (Json.ofNat n).WellFormed := trivial
  rw [← compact_ofNat, Json.read?_compact hwf (Json.integersOnly_ofNat h)]
  rfl

namespace Value

mutual

/-- All decimals are large integers; no double is among them. -/
def IntegersOnly : Value → Prop
  | null | bool _ | int _ | str _ => True
  | decimal text => IsLargeInteger text
  | list items => ItemsIntegersOnly items
  | record fields => FieldsIntegersOnly fields
termination_by structural v => v

/-- So in all elements. -/
def ItemsIntegersOnly : List Value → Prop
  | [] => True
  | v :: vs => IntegersOnly v ∧ ItemsIntegersOnly vs
termination_by structural vs => vs

/-- So in the values of all fields. -/
def FieldsIntegersOnly : List (String × Value) → Prop
  | [] => True
  | (_, v) :: fs => IntegersOnly v ∧ FieldsIntegersOnly fs
termination_by structural fs => fs

end

/-! ## Numbers -/

theorem ofNumber_toInt (n : Int64) : ofNumber (.integer n.toInt) = int n := by
  have hlow : -0x8000000000000000 ≤ n.toInt := n.le_toInt
  have hhigh : n.toInt < 0x8000000000000000 := n.toInt_lt
  rw [ofNumber, if_pos ⟨hlow, hhigh⟩, Int64.ofInt_toInt]

theorem ofNumber_large {n : Nat} (h : 0x8000000000000000 ≤ n) :
    ofNumber (.integer n) = decimal (toString n) := by
  have hlarge : ¬ (-0x8000000000000000 ≤ (n : Int) ∧ (n : Int) < 0x8000000000000000) := by omega
  rw [ofNumber, if_neg hlarge, ← compact_ofNat]
  rfl

theorem toJson_decimal {n : Nat} (h : n < 0x10000000000000000) :
    (decimal (toString n)).toJson = .ofNat n := by
  rw [toJson, Json.read?_toString h, Option.getD_some]

/-- An integer becomes an `int` up to the boundary of 64 signed bits and a `decimal` beyond it. -/
theorem ofNumber_integer {n : Int} (hlow : -0x8000000000000000 ≤ n)
    (hhigh : n < 0x10000000000000000) :
    (∃ i : Int64, i.toInt = n ∧ ofNumber (.integer n) = int i) ∨
      (∃ m : Nat, (m : Int) = n ∧ 0x8000000000000000 ≤ m ∧ m < 0x10000000000000000 ∧
        ofNumber (.integer n) = decimal (toString m)) := by
  by_cases hsigned : n < 0x8000000000000000
  · have htoInt : (Int64.ofInt n).toInt = n := Int64.toInt_ofInt_of_le hlow hsigned
    refine .inl ⟨.ofInt n, htoInt, ?_⟩
    rw [← ofNumber_toInt, htoInt]
  · obtain ⟨m, rfl⟩ := Int.eq_ofNat_of_zero_le (a := n) (by omega)
    have hm : 0x8000000000000000 ≤ m := by omega
    exact .inr ⟨m, rfl, hm, by omega, ofNumber_large hm⟩

/-! ## There and back -/

mutual

/-- **A value comes back from its JSON**, at any depth. -/
theorem ofJson_toJson : ∀ {v : Value}, v.IntegersOnly → ofJson v.toJson = v
  | null, _ | bool _, _ | str _, _ => rfl
  | int n, _ => ofNumber_toInt n
  | decimal _, ⟨n, hlow, hhigh, rfl⟩ => by
    rw [toJson_decimal hhigh, Json.ofNat, ofJson, ofNumber_large hlow]
  | list items, h => by rw [toJson, ofJson, itemsOfJson_toJson h]
  | record fields, h => by rw [toJson, ofJson, fieldsOfJson_toJson h]

theorem itemsOfJson_toJson : ∀ {vs : List Value}, ItemsIntegersOnly vs →
    itemsOfJson (itemsToJson vs) = vs
  | [], _ => rfl
  | v :: vs, h => by rw [itemsToJson, itemsOfJson, ofJson_toJson h.1, itemsOfJson_toJson h.2]

theorem fieldsOfJson_toJson : ∀ {fs : List (String × Value)}, FieldsIntegersOnly fs →
    fieldsOfJson (fieldsToJson fs) = fs
  | [], _ => rfl
  | (k, v) :: fs, h => by
    rw [fieldsToJson, fieldsOfJson, ofJson_toJson h.1, fieldsOfJson_toJson h.2]

end

mutual

/-- **JSON without doubles comes back from its value**, at any depth. -/
theorem toJson_ofJson : ∀ {j : Json}, j.IntegersOnly → (ofJson j).toJson = j
  | .null, _ | .bool _, _ | .string _, _ => rfl
  | .number (.integer n), h => by
    rw [ofJson]
    rcases ofNumber_integer h.1 h.2 with ⟨i, hi, hint⟩ | ⟨m, rfl, -, hm, hdecimal⟩
    · rw [hint, toJson, hi]
    · rw [hdecimal, toJson_decimal hm, Json.ofNat]
  | .number (.double _), h => h.elim
  | .array items, h => by rw [ofJson, toJson, itemsToJson_ofJson h]
  | .object members, h => by rw [ofJson, toJson, fieldsToJson_ofJson h]

theorem itemsToJson_ofJson : ∀ {js : List Json}, Json.ItemsIntegersOnly js →
    itemsToJson (itemsOfJson js) = js
  | [], _ => rfl
  | j :: js, h => by rw [itemsOfJson, itemsToJson, toJson_ofJson h.1, itemsToJson_ofJson h.2]

theorem fieldsToJson_ofJson : ∀ {ms : List (String × Json)}, Json.MembersIntegersOnly ms →
    fieldsToJson (fieldsOfJson ms) = ms
  | [], _ => rfl
  | (k, j) :: ms, h => by
    rw [fieldsOfJson, fieldsToJson, toJson_ofJson h.1, fieldsToJson_ofJson h.2]

end

/-! ## What the JSON of a value is like -/

mutual

theorem toJson_integersOnly : ∀ {v : Value}, v.IntegersOnly → v.toJson.IntegersOnly
  | null, _ | bool _, _ | str _, _ => trivial
  | int n, _ => by
    have hhigh : n.toInt < 0x8000000000000000 := n.toInt_lt
    refine ⟨n.le_toInt, ?_⟩
    omega
  | decimal _, ⟨n, hlow, hhigh, rfl⟩ => by
    rw [toJson_decimal hhigh]
    exact Json.integersOnly_ofNat hhigh
  | list items, h => itemsToJson_integersOnly h
  | record fields, h => fieldsToJson_integersOnly h

theorem itemsToJson_integersOnly : ∀ {vs : List Value}, ItemsIntegersOnly vs →
    Json.ItemsIntegersOnly (itemsToJson vs)
  | [], _ => trivial
  | _ :: _, h => ⟨toJson_integersOnly h.1, itemsToJson_integersOnly h.2⟩

theorem fieldsToJson_integersOnly : ∀ {fs : List (String × Value)}, FieldsIntegersOnly fs →
    Json.MembersIntegersOnly (fieldsToJson fs)
  | [], _ => trivial
  | _ :: _, h => ⟨toJson_integersOnly h.1, fieldsToJson_integersOnly h.2⟩

end

theorem fieldsToJson_eq_map (fs : List (String × Value)) :
    fieldsToJson fs = fs.map fun f => (f.1, f.2.toJson) := by
  induction fs with
  | nil => rfl
  | cons f fs ih => rw [fieldsToJson, ih, List.map_cons]

mutual

/-- Names stay as they are, and so in their order. -/
theorem toJson_wellFormed : ∀ {v : Value}, v.WellFormed → v.IntegersOnly → v.toJson.WellFormed
  | null, _, _ | bool _, _, _ | int _, _, _ | str _, _, _ => trivial
  | decimal _, _, ⟨n, _, hhigh, rfl⟩ => by
    rw [toJson_decimal hhigh]
    trivial
  | list items, hwf, hints => itemsToJson_wellFormed hwf hints
  | record fields, hwf, hints => by
    have hnames : Ascending (fieldsToJson fields) := by
      rw [fieldsToJson_eq_map]
      exact List.pairwise_map.2 hwf.1
    exact ⟨hnames, fieldsToJson_wellFormed hwf.2 hints⟩

theorem itemsToJson_wellFormed : ∀ {vs : List Value}, ItemsWellFormed vs → ItemsIntegersOnly vs →
    Json.ItemsWellFormed (itemsToJson vs)
  | [], _, _ => trivial
  | _ :: _, hwf, hints => ⟨toJson_wellFormed hwf.1 hints.1, itemsToJson_wellFormed hwf.2 hints.2⟩

theorem fieldsToJson_wellFormed : ∀ {fs : List (String × Value)}, FieldsWellFormed fs →
    FieldsIntegersOnly fs → Json.MembersWellFormed (fieldsToJson fs)
  | [], _, _ => trivial
  | _ :: _, hwf, hints => ⟨toJson_wellFormed hwf.1 hints.1, fieldsToJson_wellFormed hwf.2 hints.2⟩

end

/-! ## The displayed text -/

/-- **Different values are displayed differently**, at any depth. -/
theorem display_injective {v w : Value} (hv : v.WellFormed ∧ v.IntegersOnly)
    (hw : w.WellFormed ∧ w.IntegersOnly) (h : v.display = w.display) : v = w := by
  have hjson : v.toJson = w.toJson := Json.compact_injective
    ⟨toJson_wellFormed hv.1 hv.2, toJson_integersOnly hv.2⟩
    ⟨toJson_wellFormed hw.1 hw.2, toJson_integersOnly hw.2⟩ h
  rw [← ofJson_toJson hv.2, ← ofJson_toJson hw.2, hjson]

/-- **Values and JSON are inverse where no double is involved**, and the displayed text of a value
is read as that value by any reader that reads back what is written. The reader with a limit does
so down to its limit. -/
theorem json_inverse (read : String → Option Json)
    (hread : ∀ j : Json, j.WellFormed → j.IntegersOnly → read j.compact = some j) :
    (∀ v : Value, v.IntegersOnly → ofJson v.toJson = v) ∧
      (∀ j : Json, j.IntegersOnly → (ofJson j).toJson = j) ∧
      (∀ v : Value, v.WellFormed → v.IntegersOnly → (read v.display).map ofJson = some v) ∧
      (∀ v w : Value, v.WellFormed ∧ v.IntegersOnly → w.WellFormed ∧ w.IntegersOnly →
        (v.display = w.display ↔ v = w)) ∧
      (∀ v : Value, v.WellFormed → v.IntegersOnly → (Json.read? v.display).map ofJson =
        if v.toJson.depth ≤ Tree.depthLimit then some v else none) := by
  refine ⟨fun _ => ofJson_toJson, fun _ => toJson_ofJson, ?_, ?_, ?_⟩
  · intro v hwf hints
    have hback : read v.display = some v.toJson :=
      hread v.toJson (toJson_wellFormed hwf hints) (toJson_integersOnly hints)
    rw [hback, Option.map_some, ofJson_toJson hints]
  · intro v w hv hw
    constructor
    · exact display_injective hv hw
    · intro h
      rw [h]
  · intro v hwf hints
    rw [display, Json.read?_compact (toJson_wellFormed hwf hints) (toJson_integersOnly hints)]
    split
    · rw [Option.map_some, ofJson_toJson hints]
    · rfl

namespace Sample

/-- The greatest integer that is kept, and a text with a quote in a nested list. -/
def nestedValue : Value :=
  .record [("id", .decimal "18446744073709551615"),
    ("tags", .list [.str "a\"b", .null, .int (-7), .record []])]

end Sample

theorem json_inverse_sample :
    (∀ j : Json, j.WellFormed → j.IntegersOnly → Json.readUnlimited? j.compact = some j) ∧
      Sample.nestedValue.WellFormed ∧ Sample.nestedValue.IntegersOnly ∧
      ofJson Sample.nestedValue.toJson = Sample.nestedValue ∧
      (Json.readUnlimited? Sample.nestedValue.display).map ofJson = some Sample.nestedValue ∧
      (Json.read? Sample.nestedValue.display).map ofJson = some Sample.nestedValue := by
  have hread : ∀ j : Json, j.WellFormed → j.IntegersOnly →
      Json.readUnlimited? j.compact = some j := fun _ => Json.readUnlimited?_compact
  have hwf : Sample.nestedValue.WellFormed :=
    ⟨by decide, trivial, ⟨trivial, trivial, trivial, ⟨by decide, trivial⟩, trivial⟩, trivial⟩
  have hints : Sample.nestedValue.IntegersOnly :=
    ⟨⟨18446744073709551615, by decide, by decide, by decide +kernel⟩,
      ⟨trivial, trivial, trivial, trivial, trivial⟩, trivial⟩
  obtain ⟨hvalue, -, hdisplay, -, hlimited⟩ := json_inverse _ hread
  have hdepth : Sample.nestedValue.toJson.depth ≤ Tree.depthLimit := by decide +kernel
  refine ⟨hread, hwf, hints, hvalue _ hints, hdisplay _ hwf hints, ?_⟩
  rw [hlimited _ hwf hints, if_pos hdepth]

end Value

end AccessGuard
