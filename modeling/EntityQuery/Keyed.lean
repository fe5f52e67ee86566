/-!
# Lists with one entry for each key

Entries stand in the order in which their keys came first.  There are two ways to add an entry of a
key that is there already: `put` lets it take the place of the old one, `add` leaves the old one.

## Main definitions

* `Keyed.put`, `Keyed.ofList` : the last entry of each key counts
* `Keyed.add`, `Keyed.addAll` : the first entry of each key counts
* `Keyed.repeated?` : the first key that comes again

## Main statements

* `lookup_put_self`, `lookup_put_of_ne` : what is found after an entry has been put
* `map_put`, `map_add` : the keys after an entry has been put or added
* `mem_map_ofList`, `mem_map_addAll` : the keys after entries have been put or added
* `find?_put`, `find?_foldl_put` : the entry that is found after entries have been put
* `exists_map_foldl_put` : keys keep their places when entries are put
* `nodup_map_put`, `nodup_map_add` : no key comes twice
* `addAll_addAll` : adding is associative
* `addAll_eq_append` : entries of new keys are added at the end
* `repeated?_eq_none_iff` : nothing is repeated exactly if all keys are distinct
-/

namespace EntityQuery.Keyed

variable {α : Type}

/-! ## The last entry counts -/

/-- An entry in place of the one of its key, or at the end. -/
def put (key : α → String) (entry : α) : List α → List α
  | [] => [entry]
  | other :: rest => if key other = key entry then entry :: rest else other :: put key entry rest

/-- Entries put one after the other. -/
def ofList (key : α → String) (entries : List α) : List α :=
  entries.foldl (fun done entry => put key entry done) []

theorem mem_ite_append {k new : String} {keys : List String} :
    k ∈ (if new ∈ keys then keys else keys ++ [new]) ↔ k ∈ keys ∨ k = new := by
  split
  · next there => exact ⟨.inl, fun h => h.elim id fun e => e ▸ there⟩
  · rw [List.mem_append, List.mem_singleton]

/-- A key that is there keeps its place, a new one comes last. -/
theorem map_put (key : α → String) (entry : α) (entries : List α) :
    (put key entry entries).map key =
      if key entry ∈ entries.map key then entries.map key else entries.map key ++ [key entry] := by
  induction entries with
  | nil => simp [put]
  | cons other rest ih =>
    by_cases h : key other = key entry
    · simp [put, h]
    · have h' : key entry ≠ key other := fun e => h e.symm
      simp only [put, h, if_false, List.map_cons, ih, List.mem_cons, h', false_or]
      split <;> simp

theorem nodup_map_put (key : α → String) (entry : α) {entries : List α}
    (h : (entries.map key).Nodup) : ((put key entry entries).map key).Nodup := by
  rw [map_put]
  split
  · exact h
  · next absent =>
    refine List.nodup_append.2 ⟨h, by simp, fun a ha b hb => ?_⟩
    rw [List.mem_singleton.1 hb]
    exact fun e => absent (e ▸ ha)

@[simp] theorem lookup_put_self {β : Type} (k : String) (value : β) (entries : List (String × β)) :
    (put Prod.fst (k, value) entries).lookup k = some value := by
  induction entries with
  | nil => simp [put]
  | cons first rest ih =>
    obtain ⟨key, kept⟩ := first
    by_cases h : key = k
    · simp [put, h]
    · have h' : (k == key) = false := by simpa using fun e => h e.symm
      simpa [put, h, List.lookup_cons, h'] using ih

theorem lookup_put_of_ne {β : Type} {k other : String} (h : other ≠ k) (value : β)
    (entries : List (String × β)) :
    (put Prod.fst (k, value) entries).lookup other = entries.lookup other := by
  induction entries with
  | nil => simp [put, h]
  | cons first rest ih =>
    obtain ⟨key, kept⟩ := first
    by_cases same : key = k
    · subst same
      have h' : (other == key) = false := by simpa using h
      simp [put, List.lookup_cons, h']
    · simp only [put, same, if_false, List.lookup_cons]
      split <;> simp [ih]

/-- The entry that is found for a key after an entry has been put. -/
theorem find?_put (key : α → String) (entry : α) (k : String) (entries : List α) :
    (put key entry entries).find? (key · = k) =
      if key entry = k then some entry else entries.find? (key · = k) := by
  induction entries with
  | nil => by_cases h : key entry = k <;> simp [put, h]
  | cons other rest ih =>
    by_cases same : key other = key entry
    · by_cases h : key entry = k <;> simp [put, same, h]
    · rw [put, if_neg same]
      by_cases h : key other = k
      · have h' : key entry ≠ k := fun e => same (h.trans e.symm)
        simp [h, h']
      · simp [h, ih]

/-- The entry that is found for a key after entries of distinct keys have been put: the one among
them, else the old one. -/
theorem find?_foldl_put (key : α → String) (k : String) {more : List α} (h : (more.map key).Nodup)
    (entries : List α) :
    (more.foldl (fun done entry => put key entry done) entries).find? (key · = k) =
      (more.find? (key · = k)).or (entries.find? (key · = k)) := by
  induction more generalizing entries with
  | nil => simp
  | cons entry rest ih =>
    rw [List.map_cons, List.nodup_cons] at h
    rw [List.foldl_cons, ih h.2, find?_put]
    by_cases same : key entry = k
    · have absent : rest.find? (key · = k) = none := by
        simp only [List.find?_eq_none, decide_eq_true_eq]
        exact fun other member e => h.1 (same.trans e.symm ▸ List.mem_map_of_mem member)
      simp [same, absent]
    · simp [same]

theorem nodup_map_foldl_put (key : α → String) (more : List α) {entries : List α}
    (h : (entries.map key).Nodup) :
    ((more.foldl (fun done entry => put key entry done) entries).map key).Nodup := by
  induction more generalizing entries with
  | nil => exact h
  | cons entry rest ih => exact ih (nodup_map_put key entry h)

theorem mem_map_foldl_put (key : α → String) (entries more : List α) (k : String) :
    k ∈ (more.foldl (fun done entry => put key entry done) entries).map key ↔
      k ∈ entries.map key ∨ k ∈ more.map key := by
  induction more generalizing entries with
  | nil => simp
  | cons entry rest ih =>
      rw [List.foldl_cons, ih, map_put, mem_ite_append, List.map_cons, List.mem_cons, or_assoc]

/-- The keys of a list into which entries are put are those of the entries. -/
theorem mem_map_ofList (key : α → String) (entries : List α) (k : String) :
    k ∈ (ofList key entries).map key ↔ k ∈ entries.map key := by
  simp [ofList, mem_map_foldl_put]

/-- The old keys keep their places when entries are put, and new ones stand behind them. -/
theorem exists_map_foldl_put (key : α → String) (entries more : List α) :
    ∃ rest, (more.foldl (fun done entry => put key entry done) entries).map key =
      entries.map key ++ rest := by
  induction more generalizing entries with
  | nil => exact ⟨[], by simp⟩
  | cons entry more ih =>
    obtain ⟨rest, h⟩ := ih (put key entry entries)
    rw [List.foldl_cons, h, map_put]
    split
    · exact ⟨rest, rfl⟩
    · exact ⟨key entry :: rest, by simp⟩

theorem nodup_map_ofList (key : α → String) (entries : List α) :
    ((ofList key entries).map key).Nodup :=
  nodup_map_foldl_put key entries List.nodup_nil

/-- Where no key comes twice, an entry is found exactly if it is there. -/
theorem find?_eq_some_iff (key : α → String) {entries : List α} (h : (entries.map key).Nodup)
    {k : String} {entry : α} : entries.find? (key · = k) = some entry ↔
      entry ∈ entries ∧ key entry = k := by
  constructor
  · intro found
    exact ⟨List.mem_of_find?_eq_some found, by simpa using List.find?_some found⟩
  · rintro ⟨member, rfl⟩
    induction entries with
    | nil => simp at member
    | cons other rest ih =>
      rw [List.map_cons, List.nodup_cons] at h
      rcases List.mem_cons.1 member with rfl | member
      · simp
      · have apart : key other ≠ key entry := fun e => h.1 (e ▸ List.mem_map_of_mem member)
        simp [apart, ih h.2 member]

theorem mem_of_lookup {β : Type} {k : String} {value : β} {entries : List (String × β)}
    (h : entries.lookup k = some value) : (k, value) ∈ entries := by
  obtain ⟨before, after, rfl, -⟩ := List.lookup_eq_some_iff.1 h
  simp

/-! ## The first entry counts -/

/-- An entry at the end, if its key is not there. -/
def add (key : α → String) (entries : List α) (entry : α) : List α :=
  if entries.any (key · = key entry) then entries else entries ++ [entry]

/-- Entries added one after the other. -/
def addAll (key : α → String) (entries more : List α) : List α := more.foldl (add key) entries

theorem map_add (key : α → String) (entries : List α) (entry : α) :
    (add key entries entry).map key =
      if key entry ∈ entries.map key then entries.map key else entries.map key ++ [key entry] := by
  have same : entries.any (fun other => key other = key entry) = true ↔
      key entry ∈ entries.map key := by
    simp
  simp only [add, same]
  split <;> simp

theorem nodup_map_add (key : α → String) {entries : List α} (h : (entries.map key).Nodup)
    (entry : α) : ((add key entries entry).map key).Nodup := by
  rw [map_add, ← map_put]
  exact nodup_map_put key entry h

theorem nodup_map_addAll (key : α → String) (more : List α) {entries : List α}
    (h : (entries.map key).Nodup) : ((addAll key entries more).map key).Nodup := by
  induction more generalizing entries with
  | nil => exact h
  | cons entry rest ih => exact ih (nodup_map_add key h entry)

/-- The keys after entries have been added are the old and the new ones. -/
theorem mem_map_addAll (key : α → String) (entries more : List α) (k : String) :
    k ∈ (addAll key entries more).map key ↔ k ∈ entries.map key ∨ k ∈ more.map key := by
  induction more generalizing entries with
  | nil => simp [addAll]
  | cons entry rest ih =>
    have step : addAll key entries (entry :: rest) = addAll key (add key entries entry) rest := rfl
    rw [step, ih, map_add, mem_ite_append, List.map_cons, List.mem_cons, or_assoc]

/-- Adding entries that have been put together by adding is adding them one after the other. -/
theorem addAll_addAll (key : α → String) (entries more rest : List α) :
    addAll key entries (addAll key more rest) = addAll key (addAll key entries more) rest := by
  induction rest generalizing more with
  | nil => rfl
  | cons entry rest ih =>
    have step (others : List α) :
        addAll key others (entry :: rest) = addAll key (add key others entry) rest := rfl
    rw [step, step, ih]
    congr 1
    by_cases there : key entry ∈ more.map key
    · have kept : key entry ∈ (addAll key entries more).map key :=
        (mem_map_addAll key entries more _).2 (.inr there)
      rw [add, if_pos (by simpa using there), add, if_pos (by simpa using kept)]
    · rw [add, if_neg (by simpa using there), addAll, List.foldl_append]
      rfl

/-- What is added comes behind what is there. -/
theorem exists_addAll (key : α → String) (entries more : List α) :
    ∃ rest, addAll key entries more = entries ++ rest ∧ ∀ entry ∈ rest, entry ∈ more := by
  induction more generalizing entries with
  | nil => exact ⟨[], by simp [addAll]⟩
  | cons entry more ih =>
    obtain ⟨rest, h, stems⟩ := ih (add key entries entry)
    have step : addAll key entries (entry :: more) = addAll key (add key entries entry) more := rfl
    rw [step, h, add]
    split
    · exact ⟨rest, rfl, fun other member => List.mem_cons_of_mem entry (stems other member)⟩
    · refine ⟨entry :: rest, by simp, fun other member => ?_⟩
      rcases List.mem_cons.1 member with rfl | member
      · exact List.mem_cons_self ..
      · exact List.mem_cons_of_mem entry (stems other member)

/-- Entries of distinct new keys are added at the end. -/
theorem addAll_eq_append (key : α → String) {entries more : List α}
    (h : ((entries ++ more).map key).Nodup) : addAll key entries more = entries ++ more := by
  induction more generalizing entries with
  | nil => simp [addAll]
  | cons entry rest ih =>
    have absent : key entry ∉ entries.map key := by
      rw [List.map_append, List.map_cons, List.nodup_append] at h
      exact fun member => h.2.2 _ member _ (List.mem_cons_self ..) rfl
    have step : add key entries entry = entries ++ [entry] := by
      have : entries.any (fun other => key other = key entry) = false := by
        rw [List.any_eq_false]
        intro other member
        simpa using fun e : key other = key entry => absent (e ▸ List.mem_map_of_mem member)
      simp [add, this]
    rw [addAll, List.foldl_cons, step, ← addAll, ih (by simpa using h)]
    simp

/-! ## Keys that come again -/

/-- The first name that is among those seen before, or among those in front of it. -/
def repeatedAfter? (seen : List String) : List String → Option String
  | [] => none
  | name :: rest => if seen.contains name then some name else repeatedAfter? (name :: seen) rest

/-- The first name that comes a second time. -/
def repeated? (names : List String) : Option String := repeatedAfter? [] names

theorem repeatedAfter?_eq_none_iff (seen names : List String) :
    repeatedAfter? seen names = none ↔ names.Nodup ∧ ∀ name ∈ names, name ∉ seen := by
  induction names generalizing seen with
  | nil => simp [repeatedAfter?]
  | cons name rest ih =>
    by_cases h : name ∈ seen
    · simp [repeatedAfter?, h]
    · simp only [repeatedAfter?, List.contains_iff_mem, h, if_false, ih, List.mem_cons, not_or,
        List.nodup_cons, forall_eq_or_imp, not_false_eq_true, true_and]
      constructor
      · rintro ⟨distinct, apart⟩
        exact ⟨⟨fun member => (apart name member).1 rfl, distinct⟩,
          fun other member => (apart other member).2⟩
      · rintro ⟨⟨first, distinct⟩, apart⟩
        exact ⟨distinct, fun other member => ⟨fun e => first (e ▸ member), apart other member⟩⟩

theorem repeated?_eq_none_iff (names : List String) : repeated? names = none ↔ names.Nodup := by
  simp [repeated?, repeatedAfter?_eq_none_iff]

end EntityQuery.Keyed
