import EntityQuery.Flow.Group
import EntityQuery.Proofs.Value.Conforming

/-!
# Values that form one key

Two values form one key in either order, and values that form a key with the same value form one
with each other.  The rows that a match table finds for a key are therefore those whose key is the
same, in their order, no matter how the rows were put into buckets.  A value need not form a key
with itself, though: a list that holds what is not a number does not.

Within a type, two values form one key exactly if they agree in what the type compares: their
content, their bits, or their instant.  So every value of a type forms a key with itself, and values
of one key are equal in order.

## Main definitions

* `Value.meets` : the values of two columns that are joined

## Main statements

* `sameKey_symm`, `sameKey_trans` : forming one key is symmetric and transitive
* `exists_sameKey_iff` : values of one type form one key if they agree in something
* `compare?_of_sameKey` : values of one key are equal in order
* `compare?_eq_iff` : values of one type are equal in order if they are equal
* `meets_comm`, `meets_iff` : values meet in either order, if one of them is not null and they form
  one key
* `rowsOf_ofRows` : the rows that a match table finds
-/

namespace EntityQuery

/-! ## Equality and keys of any values -/

namespace Binary64

variable {x y z : Float}

theorem eq_iff : compare? x y = some .eq ↔ (isNumber x = true ∧ isNumber y = true) ∧
    rank x = rank y := by
  simp [compare?]

theorem eq_symm (h : compare? x y = some .eq) : compare? y x = some .eq := by
  rw [eq_iff] at h ⊢
  exact ⟨h.1.symm, h.2.symm⟩

theorem eq_trans (h : compare? x y = some .eq) (h' : compare? y z = some .eq) :
    compare? x z = some .eq := by
  rw [eq_iff] at h h' ⊢
  exact ⟨⟨h.1.1, h'.1.2⟩, h.2.trans h'.2⟩

end Binary64

namespace Value

mutual

theorem equal_symm : ∀ {a b : Value}, a.equal b = true → b.equal a = true
  | .list as, b, h => by
      cases b <;> simp only [equal, Bool.false_eq_true] at h ⊢
      exact equalItems_symm h
  | .float64 x, b, h => by
      cases b <;> simp_all [equal, Binary64.eq_symm]
  | .null, b, h | .boolean _, b, h | .int32 _, b, h | .int64 _, b, h | .text _, b, h | .uuid _, b,
      h | .date _, b, h
  | .dateTime _, b, h | .moment _, b, h => by
      cases b <;> simp_all [equal]

theorem equalItems_symm : ∀ {as bs : List Value}, equalItems as bs = true → equalItems bs as = true
  | [], [], _ => rfl
  | [], _ :: _, h | _ :: _, [], h => by simp [equalItems] at h
  | a :: as, b :: bs, h => by
      rw [equalItems, Bool.and_eq_true] at h ⊢
      exact ⟨equal_symm h.1, equalItems_symm h.2⟩

end

mutual

theorem equal_trans : ∀ {a b d : Value}, a.equal b = true → b.equal d = true → a.equal d = true
  | .list as, b, d, h, h' => by
      cases b <;> simp only [equal, Bool.false_eq_true] at h
      cases d <;> simp only [equal, Bool.false_eq_true] at h' ⊢
      exact equalItems_trans h h'
  | .float64 x, b, d, h, h' => by
      cases b <;> simp only [equal, Bool.false_eq_true, decide_eq_true_eq] at h
      cases d <;> simp only [equal, Bool.false_eq_true, decide_eq_true_eq] at h' ⊢
      exact Binary64.eq_trans h h'
  | .null, b, d, h, h' | .boolean _, b, d, h, h' | .int32 _, b, d, h, h'
  | .int64 _, b, d, h, h' | .text _, b, d, h, h' | .uuid _, b, d, h, h'
  | .date _, b, d, h, h' | .dateTime _, b, d, h, h' | .moment _, b, d, h, h' => by
      cases b <;> simp only [equal, Bool.false_eq_true, decide_eq_true_eq] at h
      cases d <;> simp_all [equal]

theorem equalItems_trans :
    ∀ {as bs ds : List Value}, equalItems as bs = true → equalItems bs ds = true →
    equalItems as ds = true
  | [], [], _, _, h => h
  | [], _ :: _, _, h, _ | _ :: _, [], _, h, _ | _ :: _, _ :: _, [], _, h => by
      simp [equalItems] at h
  | a :: as, b :: bs, d :: ds, h, h' => by
      rw [equalItems, Bool.and_eq_true] at h h' ⊢
      exact ⟨equal_trans h.1 h'.1, equalItems_trans h.2 h'.2⟩

end

mutual

theorem sameKey_symm : ∀ {a b : Value}, a.sameKey b = true → b.sameKey a = true
  | .list as, b, h => by
      cases b <;> simp only [sameKey, equal, Bool.false_eq_true] at h ⊢
      exact sameKeyItems_symm h
  | .float64 x, b, h => by
      cases b <;> simp_all [sameKey, equal]
  | .null, b, h | .boolean _, b, h | .int32 _, b, h | .int64 _, b, h | .text _, b, h | .uuid _, b,
      h | .date _, b, h
  | .dateTime _, b, h | .moment _, b, h => by
      cases b <;> simp_all [sameKey, equal]

theorem sameKeyItems_symm :
    ∀ {as bs : List Value}, sameKeyItems as bs = true → sameKeyItems bs as = true
  | [], [], _ => rfl
  | [], _ :: _, h | _ :: _, [], h => by simp [sameKeyItems] at h
  | a :: as, b :: bs, h => by
      rw [sameKeyItems, Bool.and_eq_true, Bool.and_eq_true] at h ⊢
      exact ⟨⟨sameKey_symm h.1.1, equal_symm h.1.2⟩, sameKeyItems_symm h.2⟩

end

mutual

theorem sameKey_trans : ∀ {a b d : Value},
    a.sameKey b = true → b.sameKey d = true → a.sameKey d = true
  | .list as, b, d, h, h' => by
      cases b <;> simp only [sameKey, equal, Bool.false_eq_true] at h
      cases d <;> simp only [sameKey, equal, Bool.false_eq_true] at h' ⊢
      exact sameKeyItems_trans h h'
  | .float64 x, b, d, h, h' => by
      cases b <;> simp only [sameKey, equal, Bool.false_eq_true, decide_eq_true_eq] at h
      cases d <;> simp_all [sameKey, equal]
  | .null, b, d, h, h' | .boolean _, b, d, h, h' | .int32 _, b, d, h, h'
  | .int64 _, b, d, h, h' | .text _, b, d, h, h' | .uuid _, b, d, h, h'
  | .date _, b, d, h, h' | .dateTime _, b, d, h, h' | .moment _, b, d, h, h' => by
      cases b <;> simp only [sameKey, equal, Bool.false_eq_true, decide_eq_true_eq] at h
      cases d <;> simp_all [sameKey, equal]

theorem sameKeyItems_trans :
    ∀ {as bs ds : List Value}, sameKeyItems as bs = true → sameKeyItems bs ds = true →
    sameKeyItems as ds = true
  | [], [], _, _, h => h
  | [], _ :: _, _, h, _ | _ :: _, [], _, h, _ | _ :: _, _ :: _, [], _, h => by
      simp [sameKeyItems] at h
  | a :: as, b :: bs, d :: ds, h, h' => by
      rw [sameKeyItems, Bool.and_eq_true, Bool.and_eq_true] at h h' ⊢
      exact ⟨⟨sameKey_trans h.1.1 h'.1.1, equal_trans h.1.2 h'.1.2⟩, sameKeyItems_trans h.2 h'.2⟩

end

/-! ## Values of one type -/

/-- Values of one type form one key exactly if they agree in something. -/
theorem exists_sameKey_iff (t : ScalarType) :
    ∃ (κ : Type) (key : Value → κ), ∀ a b : Value, a.ofType t = true → b.ofType t = true →
      (a.sameKey b = true ↔ key a = key b) := by
  suffices h : ∃ (κ : Type) (key : Content t → κ), ∀ x y : Content t,
      (ofContent t x).sameKey (ofContent t y) = true ↔ key x = key y by
    obtain ⟨κ, key, hkey⟩ := h
    refine ⟨κ, fun v => key (content t v), fun a b ha hb => ?_⟩
    obtain ⟨x, rfl⟩ := exists_eq_ofContent ha
    obtain ⟨y, rfl⟩ := exists_eq_ofContent hb
    simpa only [content_ofContent] using hkey x y
  cases t with
  | float64 => exact ⟨UInt64, Float.toBits, fun x y => by simp [ofContent, sameKey]⟩
  | moment => exact ⟨DateTime, Moment.universal, fun x y => by simp [ofContent, sameKey, equal]⟩
  | boolean | int32 | int64 | text | uuid | date | dateTime =>
      exact ⟨_, id, fun x y => by simp [ofContent, sameKey, equal]⟩

theorem sameKey_self {t : ScalarType} {a : Value} (ha : a.ofType t = true) :
    a.sameKey a = true := by
  obtain ⟨κ, key, hkey⟩ := exists_sameKey_iff t
  exact (hkey a a ha ha).mpr rfl

/-- Values of one type and one key are equal in order. -/
theorem compare?_of_sameKey {t : ScalarType} {a b : Value} (ha : a.ofType t = true)
    (hb : b.ofType t = true) (h : a.sameKey b = true) : a.compare? b = some .eq := by
  obtain ⟨x, rfl⟩ := exists_eq_ofContent ha
  obtain ⟨y, rfl⟩ := exists_eq_ofContent hb
  cases t with
  | float64 =>
      -- the rank of a number is made of its bits
      have hbits : x.toBits = y.toBits := by simpa [ofContent, sameKey] using h
      have hx : Binary64.isNumber x = true := (Bool.and_eq_true_iff.mp ha).2
      have hy : Binary64.isNumber y = true := (Bool.and_eq_true_iff.mp hb).2
      simp [ofContent, compare?, float?, Binary64.compare?, hx, hy, Binary64.rank,
        Binary64.isNegative, Binary64.magnitude, hbits]
  | moment =>
      have huniversal : x.universal = y.universal := by simpa [ofContent, sameKey, equal] using h
      have hcompare : Moment.compare x y = .eq := by
        rw [Moment.compare, huniversal]
        exact Std.ReflCmp.compare_self
      exact congrArg some hcompare
  | boolean | int32 | int64 | text | uuid | date | dateTime =>
      obtain rfl : x = y := by simpa [ofContent, sameKey, equal] using h
      obtain ⟨order, _, horder⟩ := exists_order _
      exact (horder _ _ ha ha).trans (congrArg some Std.ReflCmp.compare_self)

/-- The values of two columns by which rows are joined: neither is null, and they form one key. -/
def meets (left right : Value) : Bool := !left.isNull && !right.isNull && right.sameKey left

@[simp] theorem meets_null_left (right : Value) : meets .null right = false := rfl

theorem isNull_eq_of_sameKey {a b : Value} (h : a.sameKey b = true) : a.isNull = b.isNull := by
  cases a <;> cases b <;> simp_all [sameKey, equal, isNull]

theorem meets_comm (a b : Value) : a.meets b = b.meets a := by
  have hsame : b.sameKey a = a.sameKey b := Bool.eq_iff_iff.mpr ⟨sameKey_symm, sameKey_symm⟩
  rw [meets, meets, hsame, Bool.and_comm (!a.isNull)]

/-- Values meet if one of them is not null and forms a key with the other. -/
theorem meets_iff {a b : Value} : a.meets b = true ↔ b.isNull = false ∧ b.sameKey a = true := by
  rw [meets, Bool.and_eq_true, Bool.and_eq_true, Bool.not_eq_true', Bool.not_eq_true']
  constructor
  · rintro ⟨⟨-, hb⟩, hsame⟩
    exact ⟨hb, hsame⟩
  · rintro ⟨hb, hsame⟩
    exact ⟨⟨isNull_eq_of_sameKey hsame ▸ hb, hb⟩, hsame⟩

end Value

/-! ## Equality and order -/

theorem Uuid.compare_eq_iff {a b : Uuid} : a.compare b = .eq ↔ a = b := by
  obtain ⟨x⟩ := a
  obtain ⟨y⟩ := b
  simp [Uuid.compare, BitVec.toNat_inj]

theorem Date.compare_eq_iff {a b : Date} : a.compare b = .eq ↔ a = b := by
  obtain ⟨year, month, day⟩ := a
  obtain ⟨otherYear, otherMonth, otherDay⟩ := b
  simp [Date.compare, Ordering.then_eq_eq]

theorem Clock.compare_eq_iff {a b : Clock} : a.compare b = .eq ↔ a = b := by
  obtain ⟨hour, minute, second, nano⟩ := a
  obtain ⟨otherHour, otherMinute, otherSecond, otherNano⟩ := b
  simp [Clock.compare, Ordering.then_eq_eq]

theorem DateTime.compare_eq_iff {a b : DateTime} : a.compare b = .eq ↔ a = b := by
  obtain ⟨date, clock⟩ := a
  obtain ⟨otherDate, otherClock⟩ := b
  simp [DateTime.compare, Ordering.then_eq_eq, Date.compare_eq_iff, Clock.compare_eq_iff]

namespace Value

/-- Values of one type are equal in order exactly if they are equal. -/
theorem compare?_eq_iff {t : ScalarType} {a b : Value} (ha : a.ofType t = true)
    (hb : b.ofType t = true) : a.compare? b = some .eq ↔ a.equal b = true := by
  obtain ⟨x, rfl⟩ := exists_eq_ofContent ha
  obtain ⟨y, rfl⟩ := exists_eq_ofContent hb
  cases t with
  | boolean => cases x <;> cases y <;> decide
  | int32 => simp [ofContent, compare?, equal, Int32.toInt_inj]
  | int64 => simp [ofContent, compare?, equal, Int64.toInt_inj]
  | float64 => simp [ofContent, compare?, equal, float?]
  | text => simp [ofContent, compare?, equal]
  | uuid => simp [ofContent, compare?, equal, Uuid.compare_eq_iff]
  | date => simp [ofContent, compare?, equal, Date.compare_eq_iff]
  | dateTime => simp [ofContent, compare?, equal, DateTime.compare_eq_iff]
  | moment => simp [ofContent, compare?, equal, Moment.compare, DateTime.compare_eq_iff]

theorem equal_null_iff {a : Value} : a.equal .null = true ↔ a.isNull = true := by
  cases a <;> simp [equal, isNull]

theorem null_equal_iff {a : Value} : Value.null.equal a = true ↔ a.isNull = true := by
  cases a <;> simp [equal, isNull]

/-- Null is equal to itself, but not in order. -/
theorem compare?_eq_iff_of_conforms {t : ScalarType} {a b : Value} (ha : a.conforms t = true)
    (hb : b.conforms t = true) : a.compare? b = some .eq ↔ b.isNull = false ∧ a.equal b = true := by
  cases hnull : b.isNull with
  | true =>
      obtain rfl := eq_null_of_isNull hnull
      simp
  | false =>
      cases hother : a.isNull with
      | true =>
          obtain rfl := eq_null_of_isNull hother
          simp [null_equal_iff, hnull]
      | false =>
          rw [compare?_eq_iff (ofType_of_conforms ha hother) (ofType_of_conforms hb hnull),
            and_iff_right rfl]

end Value

/-! ## Keys -/

theorem Value.sameKey_self_of_conforms {t : ScalarType} {v : Value} (hv : v.conforms t = true) :
    v.sameKey v = true := by
  cases hnull : v.isNull with
  | true =>
      obtain rfl := eq_null_of_isNull hnull
      rfl
  | false => exact sameKey_self (ofType_of_conforms hv hnull)

theorem Key.same_self {key : Key} (hkey : ∀ v ∈ key, v.sameKey v = true) : key.same key = true := by
  induction key with
  | nil => rfl
  | cons v key ih =>
      rw [List.forall_mem_cons] at hkey
      rw [same, hkey.1, ih hkey.2]
      rfl

theorem Key.same_symm {first second : Key} (h : first.same second = true) :
    second.same first = true := by
  induction first generalizing second with
  | nil => cases second <;> simp_all [same]
  | cons v first ih =>
      cases second with
      | nil => simp [same] at h
      | cons w second =>
          rw [same, Bool.and_eq_true] at h ⊢
          exact ⟨Value.sameKey_symm h.1, ih h.2⟩

theorem Key.same_trans {first second third : Key} (h : first.same second = true)
    (h' : second.same third = true) : first.same third = true := by
  induction first generalizing second third with
  | nil => cases second <;> simp_all [same]
  | cons v first ih =>
      cases second with
      | nil => simp [same] at h
      | cons w second =>
          cases third with
          | nil => simp [same] at h'
          | cons u third =>
              rw [same, Bool.and_eq_true] at h h' ⊢
              exact ⟨Value.sameKey_trans h.1 h'.1, ih h.2 h'.2⟩

theorem Key.same_comm (first second : Key) : first.same second = second.same first :=
  Bool.eq_iff_iff.mpr ⟨same_symm, same_symm⟩

/-- Keys differ if their values at some position form different keys. -/
theorem Key.same_eq_false {first second : Key} {k : Nat} {a b : Value} (ha : first[k]? = some a)
    (hb : second[k]? = some b) (hapart : a.sameKey b = false) : first.same second = false := by
  induction first generalizing second k with
  | nil => simp at ha
  | cons v first ih =>
      cases second with
      | nil => simp at hb
      | cons w second =>
          rw [same, Bool.and_eq_false_iff]
          cases k with
          | zero =>
              obtain rfl : v = a := by simpa using ha
              obtain rfl : w = b := by simpa using hb
              exact .inl hapart
          | succ k => exact .inr (ih (by simpa using ha) (by simpa using hb))

/-! ## Match tables -/

namespace MatchTable

/-- The rows in the bucket of a key. -/
def rowsIn (buckets : List (Value × List Row)) (key : Value) : List Row :=
  match buckets.find? (·.1.sameKey key) with
  | some (_, rows) => rows
  | none => []

theorem rowsIn_cons (first : Value) (rows : List Row) (buckets : List (Value × List Row))
    (key : Value) :
    rowsIn ((first, rows) :: buckets) key =
      if first.sameKey key then rows else rowsIn buckets key := by
  unfold rowsIn
  rw [List.find?_cons]
  cases first.sameKey key <;> rfl

/-- A row is added to the bucket of its key, and to no other. -/
theorem rowsIn_addBucket (added key : Value) (row : Row) (buckets : List (Value × List Row)) :
    rowsIn (addBucket added row buckets) key =
      rowsIn buckets key ++ if added.sameKey key then [row] else [] := by
  induction buckets with
  | nil =>
      rw [addBucket, rowsIn_cons]
      rfl
  | cons first buckets ih =>
      obtain ⟨first, rows⟩ := first
      rw [addBucket]
      -- the bucket of the row: equal keys are found by the same keys
      by_cases hsame : first.sameKey added = true
      · rw [if_pos hsame, rowsIn_cons, rowsIn_cons]
        by_cases hfound : first.sameKey key = true
        · have : added.sameKey key = true := Value.sameKey_trans (Value.sameKey_symm hsame) hfound
          simp [hfound, this]
        · have : ¬ added.sameKey key = true := fun h => hfound (Value.sameKey_trans hsame h)
          simp [hfound, this]
      · rw [if_neg hsame, rowsIn_cons, rowsIn_cons]
        by_cases hfound : first.sameKey key = true
        · have : ¬ added.sameKey key = true := fun h =>
            hsame (Value.sameKey_trans hfound (Value.sameKey_symm h))
          simp [hfound, this]
        · rw [if_neg hfound, if_neg hfound, ih]

theorem rowsIn_foldl {key : Value} (hnull : key.isNull = false) (column : Nat) (rows : List Row)
    (buckets : List (Value × List Row)) :
    rowsIn (rows.foldl (fun buckets row =>
        let added := row.getD column .null
        if added.isNull then buckets else addBucket added row buckets) buckets) key =
      rowsIn buckets key ++ rows.filter fun row => key.meets (row.getD column .null) := by
  induction rows generalizing buckets with
  | nil => simp
  | cons row rows ih =>
      rw [List.foldl_cons]
      dsimp only
      -- rows without a key are in no bucket, and meet no key
      cases hrow : (row.getD column .null).isNull with
      | true => rw [if_pos rfl, ih, List.filter_cons_of_neg (by rw [Value.meets, hrow]; simp)]
      | false =>
          have hmeets : key.meets (row.getD column .null) =
              (row.getD column .null).sameKey key := by
            rw [Value.meets, hnull, hrow]
            rfl
          rw [if_neg (by simp), ih, rowsIn_addBucket, List.append_assoc, List.filter_cons, hmeets]
          split <;> rfl

/-- The rows that a match table finds for a key are those whose values meet it, in their order. -/
theorem rowsOf_ofRows (key : Value) (column : Nat) (rows : List Row) :
    (ofRows column rows).rowsOf key = rows.filter fun row => key.meets (row.getD column .null) := by
  unfold rowsOf
  cases hnull : key.isNull with
  | true =>
      obtain rfl := Value.eq_null_of_isNull hnull
      simp
  | false =>
      rw [if_neg (by simp)]
      exact rowsIn_foldl hnull column rows []

end MatchTable

end EntityQuery
