import DataGrid.Store

/-!
# The types of the values that are read

Whatever a text or a stored JSON value is read as, the result is null or lies in the one domain of
the kind's values, within which any two are ordered. So it has the type of the kind's family, and a
sum over a field of numbers meets numbers only, and cannot fail; nor can any extreme.
-/

namespace DataGrid

namespace Value

/-- The types of values that are ordered among each other. -/
inductive Domain where
  | bool | number | decimal | text | date | time | local | zoned
  deriving DecidableEq

/-- The domain of a value; none for null and for a binary number that is not finite. -/
def domain? : Value → Option Domain
  | bool _ => some .bool
  | int _ | float (.finite _) => some .number
  | decimal _ => some .decimal
  | text _ => some .text
  | date _ => some .date
  | time _ => some .time
  | dateTime _ => some .local
  | zoned _ => some .zoned
  | null | float _ => none

def isNumber : Value → Bool
  | int _ | float _ | decimal _ => true
  | _ => false

def isBool : Value → Bool
  | bool _ => true
  | _ => false

/-- Whether a value has the type that the kinds of a family are read as. -/
def suits (v : Value) : Family → Bool
  | .numeric | .relatedCount => v.isNumber
  | .temporal => v.asTemporal?.isSome
  | .text | .enumeration => v.asText?.isSome
  | .boolean => v.isBool

end Value

namespace Kind

/-- The domain of the values that a kind is read as. -/
def domain : Kind → Value.Domain
  | byte | short | int | long | relatedCount | float | double => .number
  | decimal => .decimal
  | date => .date
  | time | offsetTime => .time
  | timestamp => .local
  | instant | offsetDateTime | zonedDateTime | calendar => .zoned
  | text | enumeration => .text
  | bool => .bool

end Kind

theorem Value.suits_of_domain {v : Value} {kind : Kind} (h : v.domain? = some kind.domain) :
    v.suits kind.family := by
  cases v with
  | null => cases h
  | float x => cases x <;> cases kind <;> first | rfl | cases h
  | _ => cases kind <;> first | rfl | cases h

namespace Kind

theorem readDouble?_domain {s : List Char} {v : Value} (h : readDouble? s = some v) :
    v.domain? = some .number := by
  obtain ⟨x, hx, rfl⟩ := Option.map_eq_some_iff.mp h
  have hfinite := (Option.filter_eq_some_iff.mp hx).2
  cases x with
  | finite x => rfl
  | nan | infinite _ => cases hfinite

theorem readFloat?_domain {s : List Char} {v : Value} (h : readFloat? s = some v) :
    v.domain? = some .number := by
  unfold readFloat? at h
  split at h
  · split at h
    · exact readDouble?_domain h
    · cases h
  · cases h

theorem readWord?_domain {bits : Nat} {s : List Char} {v : Value}
    (h : readWord? bits s = some v) : v.domain? = some .number := by
  obtain ⟨n, _, rfl⟩ := Option.map_eq_some_iff.mp h
  rfl

theorem readBool?_domain {s : List Char} {v : Value} (h : readBool? s = some v) :
    v.domain? = some .bool := by
  simp only [readBool?] at h
  split at h
  · cases h; rfl
  · split at h
    · cases h; rfl
    · cases h

/-- A text that a kind reads is read into the kind's domain. -/
theorem read?_domain {kind : Kind} {raw : String} {v : Value} (h : kind.read? raw = some v) :
    v.domain? = some kind.domain := by
  cases kind <;> simp only [read?] at h
  case byte | short | int | long | relatedCount => exact readWord?_domain h
  case double => exact readDouble?_domain h
  case float => exact readFloat?_domain h
  case bool => exact readBool?_domain h
  case text => cases h; rfl
  case enumeration =>
    split at h <;> cases h
    rfl
  all_goals
    obtain ⟨x, _, rfl⟩ := Option.map_eq_some_iff.mp h
    rfl

/-- What a text is read as, with null for a text that cannot be read. -/
theorem read?_getD_domain (kind : Kind) (raw : String) :
    (kind.read? raw).getD .null = .null ∨
      ((kind.read? raw).getD .null).domain? = some kind.domain := by
  cases h : kind.read? raw with
  | none => exact .inl rfl
  | some v => exact .inr (read?_domain h)

end Kind

theorem JsonNumber.readAs_domain (n : JsonNumber) (kind : Kind) :
    n.readAs kind = .null ∨ (n.readAs kind).domain? = some kind.domain := by
  cases kind
  case byte | short | int | long | relatedCount =>
    simp only [JsonNumber.readAs]
    cases n.toInt64? <;> exact .inr rfl
  case decimal => exact Kind.read?_getD_domain .decimal n.text
  case float | double | text | enumeration => exact .inr rfl
  all_goals exact .inl rfl

/-- Every stored value is read as null or into the kind's domain. -/
theorem Json.readAs_domain (json : Json) (kind : Kind) :
    json.readAs kind = .null ∨ (json.readAs kind).domain? = some kind.domain := by
  cases json with
  | null | array _ | object _ => exact .inl rfl
  | bool b => cases kind <;> first | exact .inl rfl | exact .inr rfl
  | number n => exact n.readAs_domain kind
  | string s => exact Kind.read?_getD_domain kind s

theorem Record.read_domain (row : Record) (path : Path) (kind : Kind) :
    row.read path kind = .null ∨ (row.read path kind).domain? = some kind.domain := by
  unfold Record.read
  cases row.lookup? path.segments with
  | none => exact .inl rfl
  | some json => exact json.readAs_domain kind

theorem Record.read_suits (row : Record) (path : Path) (kind : Kind) :
    row.read path kind = .null ∨ (row.read path kind).suits kind.family :=
  (row.read_domain path kind).imp_right Value.suits_of_domain

/-! ## Aggregates that cannot fail -/

/-- The totals take every number. -/
theorem Totals.add?_isSome {t : Totals} {v : Value} (h : v.isNumber) :
    ∃ t', t.add? v = some t' := by
  cases v with
  | int n => exact ⟨_, rfl⟩
  | float x => exact ⟨_, rfl⟩
  | decimal d => exact ⟨_, rfl⟩
  | null | bool _ | text _ | date _ | time _ | dateTime _ | zoned _ => cases h

theorem Totals.ofValues_ok (a : Aggregate) {vs : List Value} (h : ∀ v ∈ vs, v.isNumber)
    (t : Totals) : ∃ t', ofValues a t vs = .ok t' := by
  induction vs generalizing t with
  | nil => exact ⟨t, rfl⟩
  | cons v vs ih =>
    obtain ⟨t', ht⟩ := Totals.add?_isSome (t := t) (h v List.mem_cons_self)
    obtain ⟨total, htotal⟩ := ih (fun w hw => h w (List.mem_cons_of_mem v hw)) t'
    refine ⟨total, ?_⟩
    simp only [ofValues, ht]
    exact htotal

namespace Aggregate

/-- Whether the aggregate adds values up. -/
def adds : Aggregate → Bool
  | sum | average => true
  | _ => false

/-- Only sums and means can fail, and only over a value that is no number. -/
theorem apply_ok {a : Aggregate} {vs : List Value} (h : a.adds → ∀ v ∈ vs, v.isNumber) :
    ∃ v, a.apply vs = .ok v := by
  cases vs with
  | nil => cases a <;> exact ⟨_, rfl⟩
  | cons v vs =>
    cases a with
    | sum =>
      obtain ⟨t, ht⟩ := Totals.ofValues_ok .sum (h rfl) {}
      exact ⟨t.sum, by simp only [apply, ht]; rfl⟩
    | average =>
      obtain ⟨t, ht⟩ := Totals.ofValues_ok .average (h rfl) {}
      exact ⟨t.average (v :: vs).length, by simp only [apply, ht]; rfl⟩
    | max | min | greatest | least | count => exact ⟨_, rfl⟩

end Aggregate

end DataGrid
