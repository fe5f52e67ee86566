import EntityQuery.Value.Literal

/-!
# Records

A record is a row of a result: values under labels, in the order of the projection.  Putting a value
under a label replaces the one that stands there.
-/

namespace EntityQuery

/-- A labelled row. -/
structure Record where
  entries : List (String × Value)

namespace Record

/-- The record without entries. -/
def empty : Record := ⟨[]⟩

/-- Labels and values side by side; a repeated label stays. -/
def zip (labels : List String) (values : List Value) : Record := ⟨labels.zip values⟩

/-- A value put under a label: in place of the one there, or at the end. -/
def put (r : Record) (label : String) (value : Value) : Record :=
  ⟨Keyed.put Prod.fst (label, value) r.entries⟩

/-- Entries put one after the other. -/
def ofEntries (entries : List (String × Value)) : Record := ⟨Keyed.ofList Prod.fst entries⟩

/-- The value under a label, the first one if it is repeated. -/
def get? (r : Record) (label : String) : Option Value := r.entries.lookup label

/-- The labels in order. -/
def labels (r : Record) : List String := r.entries.map (·.1)

/-- The record as a flat JSON object. -/
def toJson (r : Record) : Json :=
  .obj (Keyed.ofList Prod.fst (r.entries.map fun (label, value) => (label, value.toJson)))

@[simp] theorem labels_empty : empty.labels = [] := rfl

@[simp] theorem get?_put_self (r : Record) (label : String) (value : Value) :
    (r.put label value).get? label = some value := Keyed.lookup_put_self label value r.entries

end Record

end EntityQuery
