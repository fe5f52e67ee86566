import EntityQuery.Proofs.Time.Written
import EntityQuery.Proofs.Uuid
import EntityQuery.Proofs.Value.Written

/-!
# Values that are read again

A value that has been read from JSON is written as JSON that is read as the same value again.  The
readers of dates, times and identifiers take more notations than the one that is written, but each
of them takes that one, and the values they give exist, so that they can be written.  Only the
written form of a moment is not always taken: it has an offset, and texts with an offset are read if
the year has four digits and no sign.

## Main definitions

* `Value.hasPlainYear` : the value is no moment of a year with a sign

## Main statements

* `Value.read_again` : which values are read again
-/

namespace EntityQuery

namespace Value

/-- The local year of a moment has four digits and no sign; other values have nothing to do with
it. -/
def hasPlainYear : Value → Bool
  | .moment t => 0 ≤ t.here.date.year && t.here.date.year ≤ 9999
  | _ => true

/-- A value that has been read is written as JSON that is read as the same value again, unless it is
a moment of a year with a sign: that is refused. -/
theorem read_again {type : ScalarType} {json : Json} {v : Value} (hjson : json.isFinite = true)
    (hv : ofJson? type json = some v) :
    ofJson? type v.toJson = if v.hasPlainYear then some v else none := by
  unfold ofJson? at hv
  split at hv
  -- null, and booleans
  · obtain rfl := Option.some.inj hv
    cases type <;> rfl
  · obtain rfl := Option.some.inj hv
    rfl
  -- whole numbers that fit, and finite numbers
  · obtain ⟨hfits, hv⟩ := Option.ite_none_right_eq_some.mp hv
    obtain rfl := Option.some.inj hv
    rw [toJson, Width.toInt_ofInt_of_fitsInt32 hfits]
    exact if_pos hfits
  · obtain ⟨hfits, hv⟩ := Option.ite_none_right_eq_some.mp hv
    obtain rfl := Option.some.inj hv
    rw [toJson, Width.toInt_ofInt_of_fitsInt64 hfits]
    exact if_pos hfits
  · obtain rfl := Option.some.inj hv
    rw [toJson, if_pos (Binary64.isFinite_ofInt (Json.natAbs_lt_of_inIntRange hjson))]
    rfl
  · obtain rfl := Option.some.inj hv
    rw [toJson, if_pos (by simpa only [Json.isFinite] using hjson)]
    rfl
  · obtain rfl := Option.some.inj hv
    rfl
  -- texts in one of the notations in which they are read
  · obtain ⟨u, -, rfl⟩ := Option.map_eq_some_iff.mp hv
    simp only [toJson, ofJson?, Uuid.read?_text, Option.map_some, hasPlainYear, if_true]
  · obtain ⟨d, hd, rfl⟩ := Option.map_eq_some_iff.mp hv
    simp only [toJson, ofJson?, Date.read?_text (Date.valid_of_read? hd), Option.map_some,
      hasPlainYear, if_true]
  · obtain ⟨t, ht, rfl⟩ := Option.map_eq_some_iff.mp hv
    simp only [toJson, ofJson?, DateTime.read?_text (DateTime.valid_of_read? ht), Option.map_some,
      hasPlainYear, if_true]
  · obtain ⟨t, ht, rfl⟩ := Option.map_eq_some_iff.mp hv
    simp only [toJson, ofJson?, Moment.read?_text (Moment.valid_of_read? ht), hasPlainYear,
      Bool.and_eq_true, decide_eq_true_eq]
    split <;> rfl
  · simp at hv

/-- A leap second is read again, though it is written with another mark and more digits. -/
theorem read_again_leapSecond :
    (Json.str "2016-12-31 23:59:60.5").isFinite = true ∧
      ∃ v, ofJson? .dateTime (.str "2016-12-31 23:59:60.5") = some v ∧
        v.toJson = .str "2016-12-31T23:59:60.500" ∧
        ofJson? .dateTime v.toJson = some v := by
  have hread : ofJson? .dateTime (.str "2016-12-31 23:59:60.5") =
      some (.dateTime ⟨⟨2016, 12, 31⟩, ⟨23, 59, 59, 1500000000⟩⟩) := rfl
  have hwritten : toJson (.dateTime ⟨⟨2016, 12, 31⟩, ⟨23, 59, 59, 1500000000⟩⟩) =
      .str "2016-12-31T23:59:60.500" := rfl
  exact ⟨rfl, _, hread, hwritten, read_again rfl hread⟩

/-- A moment that is read from a date and time without offset is written with an offset, and is then
refused if its year has a sign. -/
theorem refused_again_signedYear :
    (Json.str "+12345-01-01T00:00:00").isFinite = true ∧
      ∃ v, ofJson? .moment (.str "+12345-01-01T00:00:00") = some v ∧
        v.toJson = .str "+12345-01-01T00:00:00+00:00" ∧ ofJson? .moment v.toJson = none := by
  have hread : ofJson? .moment (.str "+12345-01-01T00:00:00") =
      some (.moment ⟨⟨⟨12345, 1, 1⟩, .midnight⟩, 0⟩) := rfl
  have hwritten : toJson (.moment ⟨⟨⟨12345, 1, 1⟩, .midnight⟩, 0⟩) =
      .str "+12345-01-01T00:00:00+00:00" := rfl
  refine ⟨rfl, _, hread, hwritten, ?_⟩
  rw [hwritten]
  rfl

end Value

end EntityQuery
