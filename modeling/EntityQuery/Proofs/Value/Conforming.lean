import EntityQuery.Proofs.Number.Binary64
import EntityQuery.Value.Literal

/-!
# Values of a type

A column holds null or values of its type, and a value of a floating-point type is a number.  Values
of one type stand in one order, and values of comparable types always have an order.  What JSON
gives for a type conforms to it, since the numbers in a JSON text are numbers.

## Main definitions

* `Value.ofType` : a value of a type, neither null nor outside the order of the type
* `Value.conforms` : null or a value of the type
* `Value.content`, `Value.ofContent` : what a value of a type holds, and the value that holds it
* `Json.isProper` : a JSON value as a text can hold it

## Main statements

* `exists_order` : the values of a type stand in one order
* `exists_compare?` : values of comparable types have an order
* `conforms_ofJson?` : what JSON gives for a type conforms to it
-/

namespace EntityQuery

namespace Value

/-! ## Values of a type -/

/-- A value that can be ordered within its type: no list, and no binary64 value that is not a
number. -/
def isProper : Value → Bool
  | .float64 x => Binary64.isNumber x
  | .list _ => false
  | _ => true

/-- A value of the type. -/
def ofType (t : ScalarType) (v : Value) : Bool := v.type? = some t && v.isProper

/-- Null or a value of the type. -/
def conforms (t : ScalarType) (v : Value) : Bool := v.isNull || v.ofType t

@[simp] theorem conforms_null (t : ScalarType) : Value.null.conforms t = true := rfl

theorem isNull_of_ofType {t : ScalarType} {v : Value} (hv : v.ofType t = true) :
    v.isNull = false := by
  cases v <;> simp_all [ofType, type?, isNull]

theorem ofType_of_conforms {t : ScalarType} {v : Value} (hv : v.conforms t = true)
    (hnull : v.isNull = false) : v.ofType t = true := by
  simpa [conforms, hnull] using hv

theorem eq_null_of_isNull {v : Value} (hv : v.isNull = true) : v = .null := by
  cases v <;> simp_all [isNull]

theorem exists_text_of_ofType {v : Value} (hv : v.ofType .text = true) : ∃ s, v = .text s := by
  cases v <;> simp_all [ofType, type?]

/-! ## What values hold -/

/-- What the values of a type hold. -/
abbrev Content : ScalarType → Type
  | .boolean => Bool
  | .int32 => Int32
  | .int64 => Int64
  | .float64 => Float
  | .text => String
  | .uuid => Uuid
  | .date => Date
  | .dateTime => DateTime
  | .moment => Moment

/-- What a value of the type holds; nothing in particular for other values. -/
def content : (t : ScalarType) → Value → Content t
  | .boolean, .boolean b => b
  | .boolean, _ => false
  | .int32, .int32 n => n
  | .int32, _ => 0
  | .int64, .int64 n => n
  | .int64, _ => 0
  | .float64, .float64 x => x
  | .float64, _ => 0
  | .text, .text s => s
  | .text, _ => ""
  | .uuid, .uuid u => u
  | .uuid, _ => ⟨0⟩
  | .date, .date d => d
  | .date, _ => ⟨0, 0, 0⟩
  | .dateTime, .dateTime t => t
  | .dateTime, _ => ⟨⟨0, 0, 0⟩, ⟨0, 0, 0, 0⟩⟩
  | .moment, .moment t => t
  | .moment, _ => ⟨⟨⟨0, 0, 0⟩, ⟨0, 0, 0, 0⟩⟩, 0⟩

/-- The value of the type that holds something. -/
def ofContent : (t : ScalarType) → Content t → Value
  | .boolean, b => .boolean b
  | .int32, n => .int32 n
  | .int64, n => .int64 n
  | .float64, x => .float64 x
  | .text, s => .text s
  | .uuid, u => .uuid u
  | .date, d => .date d
  | .dateTime, t => .dateTime t
  | .moment, t => .moment t

@[simp] theorem content_ofContent (t : ScalarType) (x : Content t) :
    content t (ofContent t x) = x := by
  cases t <;> rfl

theorem exists_eq_ofContent {t : ScalarType} {v : Value} (hv : v.ofType t = true) :
    ∃ x, v = ofContent t x := by
  rw [ofType, Bool.and_eq_true, decide_eq_true_eq] at hv
  obtain ⟨htype, hproper⟩ := hv
  cases v with
  | null => simp [type?] at htype
  | list items => simp [isProper] at hproper
  | boolean x | int32 x | int64 x | float64 x | text x | uuid x | date x | dateTime x | moment x =>
      obtain rfl := Option.some.inj htype
      exact ⟨x, rfl⟩

/-! ## Order -/

theorem transCmp_map {α β : Type} (f : α → β) (cmp : β → β → Ordering) [Std.TransCmp cmp] :
    Std.TransCmp fun a b => cmp (f a) (f b) where
  eq_swap := Std.OrientedCmp.eq_swap
  isLE_trans := Std.TransCmp.isLE_trans

instance : Std.TransCmp Uuid.compare := transCmp_map (fun u : Uuid => u.bits.toNat) compare

instance : Std.TransCmp Date.compare :=
  inferInstanceAs (Std.TransCmp
    (compareLex (compareOn Date.year) (compareLex (compareOn Date.month) (compareOn Date.day))))

instance : Std.TransCmp Clock.compare :=
  inferInstanceAs (Std.TransCmp
    (compareLex (compareOn Clock.hour)
      (compareLex (compareOn Clock.minute)
        (compareLex (compareOn Clock.second) (compareOn Clock.nano)))))

instance : Std.TransCmp DateTime.compare :=
  have _ := transCmp_map DateTime.date Date.compare
  have _ := transCmp_map DateTime.clock Clock.compare
  inferInstanceAs (Std.TransCmp
    (compareLex (fun a b : DateTime => Date.compare a.date b.date) fun a b =>
      Clock.compare a.clock b.clock))

instance : Std.TransCmp Moment.compare := transCmp_map Moment.universal DateTime.compare

theorem exists_order_of_key {α : Type} (t : ScalarType) (key : Content t → α)
    (cmp : α → α → Ordering) [Std.TransCmp cmp]
    (h : ∀ x y : Content t, (ofContent t x).ofType t = true → (ofContent t y).ofType t = true →
      (ofContent t x).compare? (ofContent t y) = some (cmp (key x) (key y))) :
    ∃ order : Value → Value → Ordering, Std.TransCmp order ∧
      ∀ a b : Value, a.ofType t = true → b.ofType t = true → a.compare? b = some (order a b) := by
  refine ⟨_, transCmp_map (fun v => key (content t v)) cmp, fun a b ha hb => ?_⟩
  obtain ⟨x, rfl⟩ := exists_eq_ofContent ha
  obtain ⟨y, rfl⟩ := exists_eq_ofContent hb
  simpa only [content_ofContent] using h x y ha hb

/-- The values of a type stand in one order. -/
theorem exists_order (t : ScalarType) :
    ∃ order : Value → Value → Ordering, Std.TransCmp order ∧
      ∀ a b : Value, a.ofType t = true → b.ofType t = true → a.compare? b = some (order a b) := by
  cases t with
  | boolean => exact exists_order_of_key .boolean id compare fun _ _ _ _ => rfl
  | int32 => exact exists_order_of_key .int32 Int32.toInt compare fun _ _ _ _ => rfl
  | int64 => exact exists_order_of_key .int64 Int64.toInt compare fun _ _ _ _ => rfl
  | text => exact exists_order_of_key .text id compare fun _ _ _ _ => rfl
  | uuid => exact exists_order_of_key .uuid id Uuid.compare fun _ _ _ _ => rfl
  | date => exact exists_order_of_key .date id Date.compare fun _ _ _ _ => rfl
  | dateTime => exact exists_order_of_key .dateTime id DateTime.compare fun _ _ _ _ => rfl
  | moment => exact exists_order_of_key .moment id Moment.compare fun _ _ _ _ => rfl
  | float64 =>
      -- only numbers are values of the type
      refine exists_order_of_key .float64 Binary64.rank compare fun x y hx hy => ?_
      have hxnumber : Binary64.isNumber x = true := (Bool.and_eq_true_iff.mp hx).2
      have hynumber : Binary64.isNumber y = true := (Bool.and_eq_true_iff.mp hy).2
      simp [ofContent, compare?, float?, Binary64.compare?, hxnumber, hynumber]

theorem exists_float?_of_isNumeric {t : ScalarType} {v : Value} (ht : t.isNumeric = true)
    (hv : v.ofType t = true) : ∃ x, v.float? = some x ∧ Binary64.isNumber x = true := by
  cases t <;> simp [ScalarType.isNumeric, ScalarType.family] at ht <;> cases v <;>
    simp_all [ofType, type?, isProper, float?, Binary64.isNumber_ofInt]

/-- Values of comparable types have an order. -/
theorem exists_compare? {t u : ScalarType} {a b : Value} (htu : t.comparable u = true)
    (ha : a.ofType t = true) (hb : b.ofType u = true) : ∃ o, a.compare? b = some o := by
  simp only [ScalarType.comparable, Bool.or_eq_true, decide_eq_true_eq, Bool.and_eq_true] at htu
  rcases htu with rfl | ⟨ht, hu⟩
  · obtain ⟨order, -, horder⟩ := exists_order t
    exact ⟨order a b, horder a b ha hb⟩
  · obtain ⟨x, hx, hxnumber⟩ := exists_float?_of_isNumeric ht ha
    obtain ⟨y, hy, hynumber⟩ := exists_float?_of_isNumeric hu hb
    obtain ⟨o, ho⟩ := Option.isSome_iff_exists.mp (Binary64.compare?_isSome hxnumber hynumber)
    cases a <;> cases b <;> simp_all [compare?, float?]

/-! ## Null in comparisons -/

@[simp] theorem compare?_null_left (v : Value) : Value.null.compare? v = none := by
  cases v <;> rfl

@[simp] theorem compare?_null_right (v : Value) : v.compare? .null = none := by
  cases v <;> simp [compare?, float?]

end Value

/-! ## Values from JSON -/

namespace Json

mutual

/-- All floating-point numbers in the value are numbers, as in the JSON value of any text. -/
def isProper : Json → Bool
  | .real x => Binary64.isNumber x
  | .arr items => areProper items
  | .obj members => membersAreProper members
  | _ => true

/-- All items are proper. -/
def areProper : List Json → Bool
  | [] => true
  | item :: rest => item.isProper && areProper rest

/-- The values of all members are proper. -/
def membersAreProper : List (String × Json) → Bool
  | [] => true
  | (_, value) :: rest => value.isProper && membersAreProper rest

end

theorem areProper_iff {items : List Json} :
    areProper items = true ↔ ∀ item ∈ items, item.isProper = true := by
  induction items with
  | nil => simp [areProper]
  | cons item items ih => simp [areProper, ih]

theorem membersAreProper_iff {members : List (String × Json)} :
    membersAreProper members = true ↔ ∀ m ∈ members, m.2.isProper = true := by
  induction members with
  | nil => simp [membersAreProper]
  | cons m members ih => simp [membersAreProper, ih]

theorem isProper_of_member? {members : List (String × Json)} {key : String} {json : Json}
    (hmembers : membersAreProper members = true) (hkey : member? key members = some json) :
    json.isProper = true := by
  induction members with
  | nil => simp [member?] at hkey
  | cons m members ih =>
      rw [membersAreProper_iff] at hmembers ih
      unfold member? at hkey ih
      rw [List.lookup_cons] at hkey
      split at hkey
      · obtain rfl := Option.some.inj hkey
        exact hmembers m (List.mem_cons_self ..)
      · exact ih (fun m hm => hmembers m (List.mem_cons_of_mem _ hm)) hkey

end Json

namespace Value

/-- What JSON gives for a type conforms to it. -/
theorem conforms_ofJson? {t : ScalarType} {json : Json} {v : Value} (hjson : json.isProper = true)
    (hv : ofJson? t json = some v) : v.conforms t = true := by
  unfold ofJson? at hv
  split at hv
  all_goals try split at hv
  all_goals
    simp only [Option.some.injEq, Option.map_eq_some_iff, reduceCtorEq] at hv
  all_goals
    first
    | obtain rfl := hv
    | obtain ⟨-, -, rfl⟩ := hv
  all_goals simp_all [conforms, ofType, type?, isNull, isProper, Json.isProper,
    Binary64.isNumber_ofInt]

/-- Only null is read as null. -/
theorem isNull_iff_of_ofJson? {t : ScalarType} {json : Json} {v : Value}
    (hv : ofJson? t json = some v) : v.isNull = true ↔ json = .null := by
  unfold ofJson? at hv
  split at hv
  all_goals try split at hv
  all_goals
    simp only [Option.some.injEq, Option.map_eq_some_iff, reduceCtorEq] at hv
  all_goals
    first
    | obtain rfl := hv
    | obtain ⟨-, -, rfl⟩ := hv
  all_goals simp [isNull]

end Value

end EntityQuery
