import EntityQuery.Proofs.Number.Finite
import EntityQuery.Proofs.Value.Conforming

/-!
# Values that stem from JSON

A JSON text holds whole numbers in the range of a machine word and finite numbers.  A value that is
read from it is finite as well, so it is written as null only if it is null: nothing that has been
given is lost when it is written.

## Main definitions

* `Json.isFinite` : a JSON value whose numbers a text can hold

## Main statements

* `Json.isProper_of_isFinite` : what a text can hold is a number
* `Value.isFinite_of_ofJson?` : what stems from JSON is finite
* `Value.isNull_toJson` : what stems from JSON is written as null only if it is null
-/

namespace EntityQuery

namespace Json

/-! ## Numbers in JSON -/

mutual

/-- Whole numbers are in the range of a machine word, all other numbers are finite. -/
def isFinite : Json → Bool
  | .int n => inIntRange n
  | .real x => Binary64.isFinite x
  | .arr items => areFinite items
  | .obj members => membersAreFinite members
  | _ => true

/-- All items are finite. -/
def areFinite : List Json → Bool
  | [] => true
  | item :: rest => item.isFinite && areFinite rest

/-- The values of all members are finite. -/
def membersAreFinite : List (String × Json) → Bool
  | [] => true
  | (_, value) :: rest => value.isFinite && membersAreFinite rest

end

mutual

/-- Finite numbers are numbers. -/
theorem isProper_of_isFinite : ∀ {json : Json}, json.isFinite = true → json.isProper = true
  | .real x, h => by
      rw [isFinite, Binary64.isFinite, decide_eq_true_eq] at h
      rw [isProper, Binary64.isNumber, decide_eq_true_eq]
      exact Nat.le_of_lt h
  | .arr items, h => areProper_of_areFinite h
  | .obj members, h => membersAreProper_of_membersAreFinite h
  | .null, _ | .bool _, _ | .int _, _ | .str _, _ => rfl

theorem areProper_of_areFinite :
    ∀ {items : List Json}, areFinite items = true → areProper items = true
  | [], _ => rfl
  | item :: rest, h => by
      rw [areFinite, Bool.and_eq_true] at h
      rw [areProper, isProper_of_isFinite h.1, areProper_of_areFinite h.2]
      rfl

theorem membersAreProper_of_membersAreFinite :
    ∀ {members : List (String × Json)}, membersAreFinite members = true →
    membersAreProper members = true
  | [], _ => rfl
  | (_, value) :: rest, h => by
      rw [membersAreFinite, Bool.and_eq_true] at h
      rw [membersAreProper, isProper_of_isFinite h.1, membersAreProper_of_membersAreFinite h.2]
      rfl

end

theorem areFinite_iff {items : List Json} :
    areFinite items = true ↔ ∀ item ∈ items, item.isFinite = true := by
  induction items with
  | nil => simp [areFinite]
  | cons item items ih => simp [areFinite, ih]

theorem membersAreFinite_iff {members : List (String × Json)} :
    membersAreFinite members = true ↔ ∀ m ∈ members, m.2.isFinite = true := by
  induction members with
  | nil => simp [membersAreFinite]
  | cons m members ih => simp [membersAreFinite, ih]

theorem isFinite_of_member? {members : List (String × Json)} {key : String} {json : Json}
    (hmembers : membersAreFinite members = true) (hkey : member? key members = some json) :
    json.isFinite = true :=
  membersAreFinite_iff.mp hmembers _ (Keyed.mem_of_lookup hkey)

theorem isFinite_of_get? {key : String} {json value : Json} (hjson : json.isFinite = true)
    (hkey : json.get? key = some value) : value.isFinite = true := by
  cases json with
  | obj members => exact isFinite_of_member? hjson hkey
  | _ => simp [get?] at hkey

theorem natAbs_lt_of_inIntRange {n : Int} (hn : inIntRange n = true) : n.natAbs < 2 ^ 64 := by
  simp only [inIntRange, Width.fitsInt64, Width.fitsWord, Bool.or_eq_true, Bool.and_eq_true,
    decide_eq_true_eq] at hn
  have hword : Width.maxWord = 0xFFFFFFFFFFFFFFFF := rfl
  omega

end Json

/-! ## Values read and written -/

/-- A floating-point number that stems from JSON is finite. -/
theorem Value.isFinite_of_ofJson? {type : ScalarType} {json : Json} {x : Float}
    (hjson : json.isFinite = true) (hx : ofJson? type json = some (.float64 x)) :
    Binary64.isFinite x = true := by
  unfold ofJson? at hx
  split at hx
  all_goals
    simp only [Option.some.injEq, Option.map_eq_some_iff, Option.ite_none_right_eq_some,
      reduceCtorEq, float64.injEq, and_false, exists_false] at hx
  · rw [← hx]
    exact Binary64.isFinite_ofInt (Json.natAbs_lt_of_inIntRange hjson)
  · rw [← hx]
    exact hjson

/-- A value that stems from JSON is written as null only if it is null. -/
theorem Value.isNull_toJson {type : ScalarType} {json : Json} {v : Value}
    (hjson : json.isFinite = true) (hv : ofJson? type json = some v) :
    v.toJson.isNull = v.isNull := by
  cases v with
  | float64 x =>
      rw [toJson, if_pos (isFinite_of_ofJson? hjson hv)]
      rfl
  | _ => rfl

end EntityQuery
