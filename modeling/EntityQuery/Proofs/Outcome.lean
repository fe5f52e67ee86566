import Mathlib.Data.List.Forall2

/-!
# Computations that may fail

How a computation that may fail succeeds: a sequence of steps succeeds exactly if every step does,
and a list of computations exactly if all of them do.  The results of a list of computations stand
side by side with what they are computed from.

## Main statements

* `exists_forall₂_iff` : a list has another by its side if each of its items has a partner
* `bind_eq_ok_iff` : a step and what follows it
* `mapM_eq_ok_iff` : the results of a list of computations
* `forM_eq_ok_iff` : a list of checks
* `Avoids.bind`, `Avoids.mapM` : what does not fail with a fault step by step does not fail with it
  at all
-/

namespace EntityQuery.Outcome

variable {ε α β : Type}

/-! ## Lists side by side -/

section

variable {R : α → β → Prop} {xs : List α} {ys : List β}

theorem exists_of_mem_left (h : List.Forall₂ R xs ys) {x : α} (hx : x ∈ xs) : ∃ y ∈ ys, R x y := by
  induction h with
  | nil => simp at hx
  | cons hxy _ ih =>
      rcases List.mem_cons.mp hx with rfl | hx
      · exact ⟨_, List.mem_cons_self, hxy⟩
      · obtain ⟨y, hy, hxy⟩ := ih hx
        exact ⟨y, List.mem_cons_of_mem _ hy, hxy⟩

theorem exists_of_mem_right (h : List.Forall₂ R xs ys) {y : β} (hy : y ∈ ys) : ∃ x ∈ xs, R x y :=
  exists_of_mem_left h.flip hy

theorem exists_forall₂_iff : (∃ ys, List.Forall₂ R xs ys) ↔ ∀ x ∈ xs, ∃ y, R x y := by
  constructor
  · rintro ⟨ys, h⟩ x hx
    obtain ⟨y, -, hxy⟩ := exists_of_mem_left h hx
    exact ⟨y, hxy⟩
  · intro h
    induction xs with
    | nil => exact ⟨[], .nil⟩
    | cons x xs ih =>
        rw [List.forall_mem_cons] at h
        obtain ⟨y, hxy⟩ := h.1
        obtain ⟨ys, hrest⟩ := ih h.2
        exact ⟨y :: ys, .cons hxy hrest⟩

theorem exists_forall₂_forall₂_iff {γ : Type} {S : β → γ → Prop} {zs : List γ} :
    (∃ ys, List.Forall₂ R xs ys ∧ List.Forall₂ S ys zs) ↔
      List.Forall₂ (fun x z => ∃ y, R x y ∧ S y z) xs zs := by
  constructor
  · rintro ⟨ys, hxs, hzs⟩
    induction hxs generalizing zs with
    | nil =>
        cases hzs
        exact .nil
    | cons hxy _ ih =>
        cases hzs with
        | cons hyz hzs => exact .cons ⟨_, hxy, hyz⟩ (ih hzs)
  · intro h
    induction h with
    | nil => exact ⟨[], .nil, .nil⟩
    | cons hxz _ ih =>
        obtain ⟨y, hxy, hyz⟩ := hxz
        obtain ⟨ys, hxs, hzs⟩ := ih
        exact ⟨y :: ys, .cons hxy hxs, .cons hyz hzs⟩

end

/-! ## Steps -/

@[simp] theorem pure_eq_ok (a : α) : (pure a : Except ε α) = .ok a := rfl

@[simp] theorem throw_eq_error (e : ε) : (throw e : Except ε α) = .error e := rfl

@[simp] theorem ok_bind (a : α) (f : α → Except ε β) : (Except.ok a >>= f) = f a := rfl

@[simp] theorem error_bind (e : ε) (f : α → Except ε β) : (Except.error e >>= f) = .error e := rfl

theorem bind_eq_ok_iff {x : Except ε α} {f : α → Except ε β} {b : β} :
    (x >>= f) = .ok b ↔ ∃ a, x = .ok a ∧ f a = .ok b := by
  cases x with
  | error e => simp
  | ok a => simp

theorem exists_bind_iff {x : Except ε α} {f : α → Except ε β} :
    (∃ b, (x >>= f) = .ok b) ↔ ∃ a, x = .ok a ∧ ∃ b, f a = .ok b := by
  cases x with
  | error e => simp
  | ok a => simp

theorem map_eq_ok_iff {x : Except ε α} {f : α → β} {b : β} :
    f <$> x = .ok b ↔ ∃ a, x = .ok a ∧ f a = b := by
  cases x with
  | error e => simp
  | ok a => simp

theorem mapError_eq_ok_iff {δ : Type} {x : Except ε α} {f : ε → δ} {a : α} :
    x.mapError f = .ok a ↔ x = .ok a := by
  cases x with
  | error e => simp [Except.mapError]
  | ok a => simp [Except.mapError]

theorem toOption_eq_some_iff {x : Except ε α} {a : α} : x.toOption = some a ↔ x = .ok a := by
  cases x with
  | error e => simp [Except.toOption]
  | ok a => simp [Except.toOption]

/-! ## Lists of computations -/

theorem mapM_eq_ok_iff {f : α → Except ε β} {xs : List α} {ys : List β} :
    xs.mapM f = .ok ys ↔ List.Forall₂ (fun x y => f x = .ok y) xs ys := by
  induction xs generalizing ys with
  | nil => cases ys <;> simp
  | cons x xs ih =>
      simp only [List.mapM_cons, bind_eq_ok_iff, pure_eq_ok, Except.ok.injEq,
        List.forall₂_cons_left_iff]
      constructor
      · rintro ⟨y, hy, rest, hrest, rfl⟩
        exact ⟨y, rest, hy, ih.mp hrest, rfl⟩
      · rintro ⟨y, rest, hy, hrest, rfl⟩
        exact ⟨y, hy, rest, ih.mpr hrest, rfl⟩

theorem mapM_congr {f g : α → Except ε β} {xs : List α} (h : ∀ x ∈ xs, f x = g x) :
    xs.mapM f = xs.mapM g := by
  induction xs with
  | nil => rfl
  | cons x xs ih =>
      rw [List.forall_mem_cons] at h
      rw [List.mapM_cons, List.mapM_cons, h.1, ih h.2]

theorem exists_of_mem_mapM {f : α → Except ε β} {xs : List α} {ys : List β} (h : xs.mapM f = .ok ys)
    {y : β} (hy : y ∈ ys) : ∃ x ∈ xs, f x = .ok y :=
  exists_of_mem_right (mapM_eq_ok_iff.mp h) hy

theorem exists_mem_of_mapM {f : α → Except ε β} {xs : List α} {ys : List β} (h : xs.mapM f = .ok ys)
    {x : α} (hx : x ∈ xs) : ∃ y ∈ ys, f x = .ok y :=
  exists_of_mem_left (mapM_eq_ok_iff.mp h) hx

theorem exists_mapM_iff {f : α → Except ε β} {xs : List α} :
    (∃ ys, xs.mapM f = .ok ys) ↔ ∀ x ∈ xs, ∃ y, f x = .ok y := by
  simp only [mapM_eq_ok_iff, exists_forall₂_iff]

theorem exists_mapM_eq_ok {f : α → Except ε β} {xs : List α} (h : ∀ x ∈ xs, ∃ y, f x = .ok y) :
    ∃ ys, xs.mapM f = .ok ys :=
  exists_mapM_iff.mpr h

theorem getElem?_of_mapM {f : α → Except ε β} {xs : List α} {ys : List β} (h : xs.mapM f = .ok ys)
    {k : Nat} {x : α} (hx : xs[k]? = some x) : ∃ y, ys[k]? = some y ∧ f x = .ok y := by
  rw [mapM_eq_ok_iff] at h
  obtain ⟨hlt, rfl⟩ := List.getElem?_eq_some_iff.mp hx
  have hlt' : k < ys.length := h.length_eq ▸ hlt
  exact ⟨ys[k], List.getElem?_eq_getElem hlt', h.get hlt hlt'⟩

theorem mapM_eq_ok_map {f : α → Except ε β} {g : α → β} {xs : List α}
    (h : ∀ x ∈ xs, f x = .ok (g x)) : xs.mapM f = .ok (xs.map g) := by
  rw [mapM_eq_ok_iff, List.forall₂_map_right_iff, List.forall₂_same]
  exact h

theorem exists_map_of_mapM [Nonempty β] {f : α → Except ε β} {xs : List α} {ys : List β}
    (h : xs.mapM f = .ok ys) : ∃ g : α → β, (∀ x ∈ xs, f x = .ok (g x)) ∧ ys = xs.map g := by
  obtain ⟨y₀⟩ := ‹Nonempty β›
  have hg : ∀ x ∈ xs, f x = .ok ((f x).toOption.getD y₀) := by
    intro x hx
    obtain ⟨y, -, hy⟩ := exists_mem_of_mapM h hx
    rw [hy]
    rfl
  exact ⟨fun x => (f x).toOption.getD y₀, hg, Except.ok.inj (h.symm.trans (mapM_eq_ok_map hg))⟩

theorem map_of_mapM {γ : Type} {f : α → Except ε β} {g : α → γ} {k : β → γ} {xs : List α}
    {ys : List β} (hk : ∀ x ∈ xs, ∀ {y}, f x = .ok y → k y = g x) (h : xs.mapM f = .ok ys) :
    ys.map k = xs.map g := by
  rw [mapM_eq_ok_iff] at h
  induction h with
  | nil => rfl
  | cons hxy _ ih =>
      rw [List.forall_mem_cons] at hk
      rw [List.map_cons, List.map_cons, hk.1 hxy, ih hk.2]

/-- Where a condition on results can be told from what they are computed from, either can be used to
choose some. -/
theorem mapM_filter {f : α → Except ε β} {p : α → Bool} {q : β → Bool} {xs : List α} {ys : List β}
    (hq : ∀ x ∈ xs, ∀ {y}, f x = .ok y → q y = p x) (h : xs.mapM f = .ok ys) :
    (xs.filter p).mapM f = .ok (ys.filter q) := by
  rw [mapM_eq_ok_iff] at h ⊢
  induction h with
  | nil => exact .nil
  | cons hxy _ ih =>
      rw [List.forall_mem_cons] at hq
      rw [List.filter_cons, List.filter_cons, hq.1 hxy]
      split
      · exact .cons hxy (ih hq.2)
      · exact ih hq.2

theorem mapM_eq_some_map {f : α → Option β} {g : α → β} {xs : List α}
    (h : ∀ x ∈ xs, f x = some (g x)) : xs.mapM f = some (xs.map g) := by
  induction xs with
  | nil => rfl
  | cons x xs ih =>
      rw [List.forall_mem_cons] at h
      rw [List.mapM_cons, h.1, ih h.2]
      rfl

theorem mapM_append_eq_ok {f : α → Except ε β} {xs more : List α} {ys : List β}
    (h : (xs ++ more).mapM f = .ok ys) :
    ∃ first second, xs.mapM f = .ok first ∧ more.mapM f = .ok second ∧ ys = first ++ second := by
  rw [List.mapM_append] at h
  obtain ⟨first, hfirst, h⟩ := bind_eq_ok_iff.mp h
  obtain ⟨second, hsecond, h⟩ := bind_eq_ok_iff.mp h
  exact ⟨first, second, hfirst, hsecond, (Except.ok.inj h).symm⟩

theorem mapM_append_singleton_eq_ok {f : α → Except ε β} {xs : List α} {x : α} {ys : List β}
    (h : (xs ++ [x]).mapM f = .ok ys) :
    ∃ init last, xs.mapM f = .ok init ∧ f x = .ok last ∧ ys = init ++ [last] := by
  obtain ⟨init, lasts, hinit, hlasts, rfl⟩ := mapM_append_eq_ok h
  rw [List.mapM_cons] at hlasts
  obtain ⟨last, hlast, hlasts⟩ := bind_eq_ok_iff.mp hlasts
  obtain rfl := Except.ok.inj hlasts
  exact ⟨init, last, hinit, hlast, rfl⟩

theorem forM_eq_ok_iff {f : α → Except ε Unit} {xs : List α} :
    xs.forM f = .ok () ↔ ∀ x ∈ xs, f x = .ok () := by
  induction xs with
  | nil => simp [List.forM]
  | cons x xs ih =>
      rw [List.forM, List.forall_mem_cons, bind_eq_ok_iff]
      constructor
      · rintro ⟨⟨⟩, hx, hxs⟩
        exact ⟨hx, ih.mp hxs⟩
      · rintro ⟨hx, hxs⟩
        exact ⟨(), hx, ih.mpr hxs⟩

theorem forM_eq_error {f : α → Except ε Unit} {front back : List α} {a : α} {e : ε}
    (hfront : ∀ b ∈ front, f b = .ok ()) (ha : f a = .error e) :
    (front ++ a :: back).forM f = .error e := by
  induction front with
  | nil => rw [List.nil_append, List.forM, ha, error_bind]
  | cons b front ih =>
      rw [List.forall_mem_cons] at hfront
      rw [List.cons_append, List.forM, hfront.1, ok_bind]
      exact ih hfront.2

/-! ## Faults that do not occur -/

/-- The computation does not fail with any of the faults. -/
def Avoids {ι : Type} (faults : ι → ε) (x : Except ε α) : Prop := ∀ i, x ≠ .error (faults i)

namespace Avoids

variable {ι : Type} {faults : ι → ε} {x : Except ε α}

theorem of_ok {a : α} (hx : x = .ok a) : Avoids faults x := fun i h => by simp [hx] at h

theorem of_error {e : ε} (he : ∀ i, e ≠ faults i) : Avoids faults (throw e : Except ε α) :=
  fun i h => he i (Except.error.inj h)

theorem of_mapError {δ : Type} {x : Except δ α} {f : δ → ε} (hf : ∀ e i, f e ≠ faults i) :
    Avoids faults (x.mapError f) := by
  intro i h
  cases x with
  | ok a => simp [Except.mapError] at h
  | error e => exact hf e i (Except.error.inj h)

theorem bind {f : α → Except ε β} (hx : Avoids faults x)
    (hf : ∀ a, x = .ok a → Avoids faults (f a)) : Avoids faults (x >>= f) := by
  intro i h
  cases x with
  | ok a => exact hf a rfl i h
  | error other => exact hx i (by simpa using h)

theorem mapM {f : α → Except ε β} {xs : List α} (hf : ∀ a ∈ xs, Avoids faults (f a)) :
    Avoids faults (xs.mapM f) := by
  induction xs with
  | nil => exact of_ok rfl
  | cons a xs ih =>
      rw [List.forall_mem_cons] at hf
      rw [List.mapM_cons]
      refine hf.1.bind fun b _ => (ih hf.2).bind fun bs _ => ?_
      exact of_ok rfl

end Avoids

end EntityQuery.Outcome
