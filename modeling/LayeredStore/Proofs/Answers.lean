import LayeredStore.Fault

namespace LayeredStore.Answer

/-!
# Answers of computations

A computation without state answers or reports a fault. What the whole answers or
reports is told by what its steps do.

* `bind_eq_ok_iff`, `bind_eq_error_iff` — two steps;
* `map_eq_ok_iff`, `map_eq_error_iff` — a step whose answer is converted;
* `exists_map_ok` — computations that all answer;
* `FailsBy` — a law for the faults that a computation may report.
-/

variable {α β : Type} {result : Except Fault α} {next : α → Except Fault β} {fault : Fault}

/-! ### Steps -/

/-- Two steps answer if both do. -/
theorem bind_eq_ok_iff {answer : β} :
    (result >>= next) = .ok answer ↔ ∃ first, result = .ok first ∧ next first = .ok answer := by
  cases result with
  | ok first =>
    refine ⟨fun h => ⟨first, rfl, h⟩, ?_⟩
    rintro ⟨_, hfirst, hnext⟩
    cases hfirst
    exact hnext
  | error cause =>
    refine ⟨fun h => (nomatch h), ?_⟩
    rintro ⟨_, hfirst, _⟩
    cases hfirst

/-- Two steps report what the first one does, or the second where the first answers. -/
theorem bind_eq_error_iff :
    (result >>= next) = .error fault ↔
      result = .error fault ∨ ∃ first, result = .ok first ∧ next first = .error fault := by
  cases result with
  | ok first =>
    refine ⟨fun h => .inr ⟨first, rfl, h⟩, ?_⟩
    rintro (h | ⟨_, hfirst, hnext⟩)
    · cases h
    · cases hfirst
      exact hnext
  | error cause =>
    refine ⟨fun h => .inl (by cases h; rfl), ?_⟩
    rintro (h | ⟨_, hfirst, _⟩)
    · cases h
      rfl
    · cases hfirst

theorem map_eq_ok_iff {convert : α → β} {answer : β} :
    result.map convert = .ok answer ↔ ∃ first, result = .ok first ∧ convert first = answer := by
  cases result with
  | ok first => simp [Except.map]
  | error cause => simp [Except.map]

theorem map_eq_error_iff {convert : α → β} :
    result.map convert = .error fault ↔ result = .error fault := by
  cases result with
  | ok first => simp [Except.map]
  | error cause => simp [Except.map]

/-- Computations that all answer are given by their answers. -/
theorem exists_map_ok {results : List (Except Fault α)}
    (h : ∀ result ∈ results, ∃ answer, result = .ok answer) :
    ∃ answers : List α, results = answers.map .ok := by
  induction results with
  | nil => exact ⟨[], rfl⟩
  | cons result results ih =>
    obtain ⟨⟨answer, rfl⟩, hrest⟩ := List.forall_mem_cons.mp h
    obtain ⟨answers, rfl⟩ := ih hrest
    exact ⟨answer :: answers, rfl⟩

/-! ### Faults -/

/-- Whatever fault the computation reports is of one kind. -/
def FailsBy (P : Fault → Prop) (result : Except Fault α) : Prop :=
  ∀ fault, result = .error fault → P fault

namespace FailsBy

variable {P : Fault → Prop}

theorem ok (answer : α) : FailsBy P (.ok answer : Except Fault α) := fun _ h => nomatch h

theorem error (h : P fault) : FailsBy P (.error fault : Except Fault α) := by
  rintro _ ⟨⟩
  exact h

/-- A second step that fails by one kind of fault, whatever the first one answers, does so
    where the first one fails by that kind. -/
theorem bind_of_ok (h : FailsBy P result)
    (hnext : ∀ first, result = .ok first → FailsBy P (next first)) :
    FailsBy P (result >>= next) := by
  intro fault hfailed
  rcases bind_eq_error_iff.mp hfailed with hfirst | ⟨first, hfirst, hrest⟩
  · exact h fault hfirst
  · exact hnext first hfirst fault hrest

/-- Of two steps that fail by one kind of fault the whole fails by that kind. -/
theorem bind (h : FailsBy P result) (hnext : ∀ first, FailsBy P (next first)) :
    FailsBy P (result >>= next) :=
  h.bind_of_ok fun first _ => hnext first

theorem map (h : FailsBy P result) (convert : α → β) : FailsBy P (result.map convert) :=
  fun fault hfailed => h fault (map_eq_error_iff.mp hfailed)

end FailsBy

end LayeredStore.Answer
