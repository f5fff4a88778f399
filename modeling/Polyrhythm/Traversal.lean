/-!
# Steps over a list that may fail

Many steps of the library treat the elements of a list one after another and stop at the first
fault. `mapM_congr` says that only the values at the elements of the list matter, `length_of_mapM`
that a traversal that succeeds keeps the length, `exists_of_mem_mapM` that its results come from the
steps, and `mapM_of_forall` that it succeeds when every step does. `bind_eq_bimap` and
`mapM_eq_bimap` compare steps whose results and faults are those of other steps, changed, and
`bind_eq_map` and `mapM_eq_map` those that fail alike.
-/

namespace Polyrhythm.Traversal

variable {ε α β : Type}

/-- Two steps that agree on the elements of a list agree on the list. -/
theorem mapM_congr {f g : α → Except ε β} {xs : List α} (h : ∀ x ∈ xs, f x = g x) :
    xs.mapM f = xs.mapM g := by
  induction xs with
  | nil => rfl
  | cons x xs ih =>
    rw [List.mapM_cons, List.mapM_cons, h x (by simp), ih fun y hy => h y (by simp [hy])]

/-- The first step fails, or it succeeds and the rest decides. -/
theorem mapM_cons_eq_ok {f : α → Except ε β} {x : α} {xs : List α} {zs : List β} :
    (x :: xs).mapM f = .ok zs ↔ ∃ y ys, f x = .ok y ∧ xs.mapM f = .ok ys ∧ zs = y :: ys := by
  rw [List.mapM_cons]
  cases hx : f x with
  | error e => simp [bind, Except.bind]
  | ok y =>
    cases hxs : xs.mapM f with
    | error e => simp [bind, Except.bind]
    | ok ys => simp [bind, Except.bind, pure, Except.pure, eq_comm]

/-- A traversal that succeeds yields as many results as there were elements. -/
theorem length_of_mapM {f : α → Except ε β} {xs : List α} {ys : List β}
    (h : xs.mapM f = .ok ys) : ys.length = xs.length := by
  induction xs generalizing ys with
  | nil => cases h; rfl
  | cons x xs ih =>
    obtain ⟨y, zs, -, hzs, rfl⟩ := mapM_cons_eq_ok.1 h
    simp [ih hzs]

/-- A traversal succeeds when every step does, and yields the results of the steps. -/
theorem mapM_of_forall {f : α → Except ε β} {g : α → β} {xs : List α}
    (h : ∀ x ∈ xs, f x = .ok (g x)) : xs.mapM f = .ok (xs.map g) := by
  induction xs with
  | nil => rfl
  | cons x xs ih =>
    exact mapM_cons_eq_ok.2 ⟨g x, xs.map g, h x (by simp), ih fun y hy => h y (by simp [hy]), rfl⟩

/-- What a traversal yields comes from a step. -/
theorem exists_of_mem_mapM {f : α → Except ε β} {xs : List α} {ys : List β} {y : β}
    (h : xs.mapM f = .ok ys) (hy : y ∈ ys) : ∃ x ∈ xs, f x = .ok y := by
  induction xs generalizing ys with
  | nil =>
    cases h
    cases hy
  | cons x xs ih =>
    obtain ⟨z, zs, hz, hzs, rfl⟩ := mapM_cons_eq_ok.1 h
    rcases List.mem_cons.1 hy with rfl | hy
    · exact ⟨x, List.mem_cons_self, hz⟩
    · obtain ⟨w, hw, hfw⟩ := ih hzs hy
      exact ⟨w, List.mem_cons_of_mem _ hw, hfw⟩

/-- A successful step ends where a step that succeeded before it led. -/
theorem bind_eq_ok {x : Except ε α} {f : α → Except ε β} {b : β} :
    (x >>= f) = .ok b ↔ ∃ a, x = .ok a ∧ f a = .ok b := by
  cases x with
  | error e => simp [bind, Except.bind]
  | ok a => simp [bind, Except.bind]

/-- A step that is known to succeed has a result. -/
theorem exists_of_isOk {x : Except ε α} (h : x.isOk = true) : ∃ a, x = .ok a := by
  cases x with
  | error e => cases h
  | ok a => exact ⟨a, rfl⟩

/-- A step in two parts fails in the first part or after it. -/
theorem bind_eq_error {x : Except ε α} {f : α → Except ε β} {e : ε} :
    (x >>= f) = .error e ↔ x = .error e ∨ ∃ a, x = .ok a ∧ f a = .error e := by
  cases x with
  | error e' => simp [bind, Except.bind]
  | ok a => simp [bind, Except.bind]

/-- A traversal that fails fails at some element. -/
theorem exists_of_mapM_eq_error {f : α → Except ε β} {xs : List α} {e : ε}
    (h : xs.mapM f = .error e) : ∃ x ∈ xs, f x = .error e := by
  induction xs with
  | nil => cases h
  | cons x xs ih =>
    rw [List.mapM_cons] at h
    rcases bind_eq_error.1 h with hx | ⟨y, -, h⟩
    · exact ⟨x, List.mem_cons_self, hx⟩
    · rcases bind_eq_error.1 h with hxs | ⟨ys, -, h⟩
      · obtain ⟨z, hz, hfz⟩ := ih hxs
        exact ⟨z, List.mem_cons_of_mem _ hz, hfz⟩
      · cases h

/-! ## Changed results -/

/-- What a step yields with the result changed by one function and the fault by another. -/
def bimap {ε' α' : Type} (e : ε → ε') (g : α → α') : Except ε α → Except ε' α'
  | .ok a => .ok (g a)
  | .error fault => .error (e fault)

/-- Changing the result alone. -/
theorem bimap_id {α' : Type} (g : α → α') (x : Except ε α) : bimap id g x = x.map g := by
  cases x <;> rfl

section
variable {ε' α' β' : Type} {e : ε → ε'} {g : α → α'} {h : β → β'}

/-- If a step yields a changed result or fault, and so does what follows it, then so do both in a
row. -/
theorem bind_eq_bimap {x : Except ε α} {x' : Except ε' α'} {f : α → Except ε β}
    {f' : α' → Except ε' β'} (hx : x' = bimap e g x) (hf : ∀ a, f' (g a) = bimap e h (f a)) :
    (x' >>= f') = bimap e h (x >>= f) := by
  subst hx
  cases x with
  | error fault => rfl
  | ok a => exact hf a

/-- If every step yields a changed result or fault on a changed element, so does the traversal. -/
theorem mapM_eq_bimap {f : α → Except ε β} {f' : α' → Except ε' β'} {xs : List α}
    (hf : ∀ x ∈ xs, f' (g x) = bimap e h (f x)) :
    (xs.map g).mapM f' = bimap e (List.map h) (xs.mapM f) := by
  induction xs with
  | nil => rfl
  | cons x xs ih =>
    rw [List.map_cons, List.mapM_cons, List.mapM_cons]
    refine bind_eq_bimap (hf x (by simp)) fun y => ?_
    exact bind_eq_bimap (ih fun z hz => hf z (by simp [hz])) fun ys => rfl

end

section
variable {α' β' : Type} {g : α → α'} {h : β → β'}

/-- If a step yields changed results, and so does what follows it, then so do both in a row. -/
theorem bind_eq_map {x : Except ε α} {x' : Except ε α'} {f : α → Except ε β}
    {f' : α' → Except ε β'} (hx : x' = x.map g) (hf : ∀ a, f' (g a) = (f a).map h) :
    (x' >>= f') = (x >>= f).map h := by
  rw [← bimap_id] at hx ⊢
  exact bind_eq_bimap hx fun a => (hf a).trans (bimap_id h (f a)).symm

/-- If every step yields changed results on changed elements, so does the traversal. -/
theorem mapM_eq_map {f : α → Except ε β} {f' : α' → Except ε β'} {xs : List α}
    (hf : ∀ x ∈ xs, f' (g x) = (f x).map h) :
    (xs.map g).mapM f' = (xs.mapM f).map (List.map h) := by
  rw [← bimap_id]
  exact mapM_eq_bimap fun x hx => (hf x hx).trans (bimap_id h (f x)).symm

end

end Polyrhythm.Traversal
