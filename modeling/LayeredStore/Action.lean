import LayeredStore.Fault

namespace LayeredStore

/-!
# Actions

An action changes a state and may stop with a fault. What it had changed before
the fault stays changed, so the state after a failure can be spoken about.

* `Action` — actions on a state;
* `Action.lift` — a computation without state, as an action;
* `Action.within` — an action on a part of the state;
* `Action.ignoreFault` — an action whose fault is of no consequence;
* `Action.perform` — what an action answers, and the state that it leaves;
* `Action.Moves` — a law for how the states before and after an action are related;
* `Action.FailsBy` — a law for the faults of an action.
-/

/-- An action on a state `σ` with an answer in `α`. -/
abbrev Action (σ α : Type) := EStateM Fault σ α

namespace Action

variable {σ τ α β : Type}

/-- A computation that looks at no state. -/
def lift (result : Except Fault α) : Action σ α := fun state =>
  match result with
  | .ok answer => .ok answer state
  | .error fault => .error fault state

/-- An action on a part of the state, all else being kept. -/
def within (get : σ → τ) (set : τ → σ → σ) (action : Action τ α) : Action σ α := fun state =>
  match action (get state) with
  | .ok answer part => .ok answer (set part state)
  | .error fault part => .error fault (set part state)

/-- The action without its answer, ending well even where the action fails. -/
def ignoreFault (action : Action σ α) : Action σ Unit := fun state =>
  match action state with
  | .ok _ state => .ok () state
  | .error _ state => .ok () state

/-- The answer of an action and the state that it leaves. -/
def perform (action : Action σ α) (state : σ) : Except Fault α × σ :=
  match action state with
  | .ok answer state => (.ok answer, state)
  | .error fault state => (.error fault, state)

/-! ### How actions run -/

@[simp] theorem lift_ok (answer : α) (state : σ) :
    (lift (.ok answer) : Action σ α) state = .ok answer state := rfl

@[simp] theorem lift_error (fault : Fault) (state : σ) :
    (lift (.error fault) : Action σ α) state = .error fault state := rfl

@[simp] theorem pure_apply (answer : α) (state : σ) :
    (pure answer : Action σ α) state = .ok answer state := rfl

theorem bind_ok {action : Action σ α} {next : α → Action σ β} {state after : σ} {answer : α}
    (h : action state = .ok answer after) : (action >>= next) state = next answer after := by
  simp [bind, EStateM.bind, h]

theorem bind_error {action : Action σ α} {next : α → Action σ β} {state after : σ}
    {fault : Fault} (h : action state = .error fault after) :
    (action >>= next) state = .error fault after := by
  simp [bind, EStateM.bind, h]

/-- An action in two steps that answers has answered in both. -/
theorem of_bind_ok {action : Action σ α} {next : α → Action σ β} {state after : σ} {answer : β}
    (h : (action >>= next) state = .ok answer after) :
    ∃ first between, action state = .ok first between ∧ next first between = .ok answer after := by
  cases hfirst : action state with
  | ok first between =>
    rw [bind_ok hfirst] at h
    exact ⟨first, between, rfl, h⟩
  | error fault between =>
    rw [bind_error hfirst] at h
    cases h

/-- An action in two steps that fails has failed in one of them. -/
theorem of_bind_error {action : Action σ α} {next : α → Action σ β} {state after : σ}
    {fault : Fault} (h : (action >>= next) state = .error fault after) :
    action state = .error fault after
      ∨ ∃ first between, action state = .ok first between
        ∧ next first between = .error fault after := by
  cases hfirst : action state with
  | ok first between =>
    rw [bind_ok hfirst] at h
    exact .inr ⟨first, between, rfl, h⟩
  | error fault between =>
    rw [bind_error hfirst] at h
    cases h
    exact .inl rfl

theorem of_lift_ok {result : Except Fault α} {state after : σ} {answer : α}
    (h : lift result state = .ok answer after) : result = .ok answer ∧ after = state := by
  cases result with
  | ok found => cases h; exact ⟨rfl, rfl⟩
  | error fault => cases h

theorem of_lift_error {result : Except Fault α} {state after : σ} {fault : Fault}
    (h : lift result state = .error fault after) : result = .error fault ∧ after = state := by
  cases result with
  | ok found => cases h
  | error found => cases h; exact ⟨rfl, rfl⟩

theorem within_ok {get : σ → τ} {set : τ → σ → σ} {action : Action τ α} {state : σ} {part : τ}
    {answer : α} (h : action (get state) = .ok answer part) :
    within get set action state = .ok answer (set part state) := by
  simp only [within, h]

theorem of_within_ok {get : σ → τ} {set : τ → σ → σ} {action : Action τ α} {state after : σ}
    {answer : α} (h : within get set action state = .ok answer after) :
    ∃ part, action (get state) = .ok answer part ∧ after = set part state := by
  cases hpart : action (get state) with
  | ok found part =>
    rw [within_ok hpart] at h
    cases h
    exact ⟨part, rfl, rfl⟩
  | error fault part =>
    simp only [within, hpart] at h
    cases h

theorem of_within_error {get : σ → τ} {set : τ → σ → σ} {action : Action τ α} {state after : σ}
    {fault : Fault} (h : within get set action state = .error fault after) :
    ∃ part, action (get state) = .error fault part ∧ after = set part state := by
  cases hpart : action (get state) with
  | ok found part =>
    rw [within_ok hpart] at h
    cases h
  | error found part =>
    simp only [within, hpart] at h
    cases h
    exact ⟨part, rfl, rfl⟩

theorem discard_ok {action : Action σ α} {state after : σ} {answer : α}
    (h : action state = .ok answer after) :
    (discard action : Action σ Unit) state = .ok () after := by
  simp [discard, Functor.mapConst, EStateM.map, h]

theorem discard_error {action : Action σ α} {state after : σ} {fault : Fault}
    (h : action state = .error fault after) :
    (discard action : Action σ Unit) state = .error fault after := by
  simp [discard, Functor.mapConst, EStateM.map, h]

theorem of_discard_ok {action : Action σ α} {state after : σ}
    (h : (discard action : Action σ Unit) state = .ok () after) :
    ∃ answer, action state = .ok answer after := by
  cases haction : action state with
  | ok answer between =>
    rw [discard_ok haction] at h
    cases h
    exact ⟨answer, rfl⟩
  | error fault between =>
    rw [discard_error haction] at h
    cases h

theorem of_discard_error {action : Action σ α} {state after : σ} {fault : Fault}
    (h : (discard action : Action σ Unit) state = .error fault after) :
    action state = .error fault after := by
  cases haction : action state with
  | ok answer between =>
    rw [discard_ok haction] at h
    cases h
  | error found between =>
    rw [discard_error haction] at h
    cases h
    rfl

/-- A computation without state that is followed by an action. -/
theorem of_lift_bind_ok {result : Except Fault α} {next : α → Action σ β} {state after : σ}
    {answer : β} (h : (lift result >>= next) state = .ok answer after) :
    ∃ first, result = .ok first ∧ next first state = .ok answer after := by
  obtain ⟨first, between, hfirst, hnext⟩ := of_bind_ok h
  obtain ⟨hresult, hsame⟩ := of_lift_ok hfirst
  exact ⟨first, hresult, hsame ▸ hnext⟩

/-- An action on a part of the state that is followed by another. -/
theorem of_within_bind_ok {get : σ → τ} {set : τ → σ → σ} {action : Action τ α}
    {next : α → Action σ β} {state after : σ} {answer : β}
    (h : (within get set action >>= next) state = .ok answer after) :
    ∃ first part, action (get state) = .ok first part
      ∧ next first (set part state) = .ok answer after := by
  obtain ⟨first, between, hfirst, hnext⟩ := of_bind_ok h
  obtain ⟨part, hpart, hsame⟩ := of_within_ok hfirst
  exact ⟨first, part, hpart, hsame ▸ hnext⟩

/-- A computation without state that is followed by an action fails first, or the action does. -/
theorem of_lift_bind_error {result : Except Fault α} {next : α → Action σ β} {state after : σ}
    {fault : Fault} (h : (lift result >>= next) state = .error fault after) :
    (result = .error fault ∧ after = state)
      ∨ ∃ first, result = .ok first ∧ next first state = .error fault after := by
  rcases of_bind_error h with h | ⟨first, between, hfirst, hnext⟩
  · exact .inl (of_lift_error h)
  · obtain ⟨hresult, hsame⟩ := of_lift_ok hfirst
    exact .inr ⟨first, hresult, hsame ▸ hnext⟩

/-- An action on a part of the state that is followed by another fails first, or the other
    does. -/
theorem of_within_bind_error {get : σ → τ} {set : τ → σ → σ} {action : Action τ α}
    {next : α → Action σ β} {state after : σ} {fault : Fault}
    (h : (within get set action >>= next) state = .error fault after) :
    (∃ part, action (get state) = .error fault part ∧ after = set part state)
      ∨ ∃ first part, action (get state) = .ok first part
        ∧ next first (set part state) = .error fault after := by
  rcases of_bind_error h with h | ⟨first, between, hfirst, hnext⟩
  · exact .inl (of_within_error h)
  · obtain ⟨part, hpart, hsame⟩ := of_within_ok hfirst
    exact .inr ⟨first, part, hpart, hsame ▸ hnext⟩

theorem lift_bind {result : Except Fault α} {first : α} {next : α → Action σ β} {state : σ}
    (h : result = .ok first) : (lift result >>= next) state = next first state := by
  subst h
  rfl

theorem lift_bind_error {result : Except Fault α} {fault : Fault} {next : α → Action σ β}
    {state : σ} (h : result = .error fault) : (lift result >>= next) state = .error fault state := by
  subst h
  rfl

theorem within_bind {get : σ → τ} {set : τ → σ → σ} {action : Action τ α}
    {next : α → Action σ β} {state : σ} {part : τ} {first : α}
    (h : action (get state) = .ok first part) :
    (within get set action >>= next) state = next first (set part state) :=
  bind_ok (within_ok h)

theorem ignoreFault_ok {action : Action σ α} {state after : σ} {answer : α}
    (h : action state = .ok answer after) : ignoreFault action state = .ok () after := by
  simp only [ignoreFault, h]

/-- An action whose fault is of no consequence does not fail. -/
theorem not_ignoreFault_error {action : Action σ α} {state after : σ} {fault : Fault} :
    ignoreFault action state ≠ .error fault after := by
  rw [ignoreFault]
  cases action state <;> exact fun h => by cases h

theorem perform_ok {action : Action σ α} {state after : σ} {answer : α}
    (h : action state = .ok answer after) : action.perform state = (.ok answer, after) := by
  simp only [perform, h]

theorem perform_error {action : Action σ α} {state after : σ} {fault : Fault}
    (h : action state = .error fault after) : action.perform state = (.error fault, after) := by
  simp only [perform, h]

/-! ### Actions that are tried out -/

/-- Whether an action answers, and its answer and the state that it leaves pass a check. -/
def okWith (check : α → σ → Bool) (action : Action σ α) (state : σ) : Bool :=
  match action state with
  | .ok answer after => check answer after
  | .error _ _ => false

/-- Whether an action fails, and its fault and the state that it leaves pass a check. -/
def errorWith (check : Fault → σ → Bool) (action : Action σ α) (state : σ) : Bool :=
  match action state with
  | .ok _ _ => false
  | .error fault after => check fault after

theorem of_okWith {check : α → σ → Bool} {action : Action σ α} {state : σ}
    (h : okWith check action state = true) :
    ∃ answer after, action state = .ok answer after ∧ check answer after = true := by
  rw [okWith] at h
  cases haction : action state with
  | ok answer after => rw [haction] at h; exact ⟨answer, after, rfl, h⟩
  | error fault after => rw [haction] at h; cases h

theorem of_errorWith {check : Fault → σ → Bool} {action : Action σ α} {state : σ}
    (h : errorWith check action state = true) :
    ∃ fault after, action state = .error fault after ∧ check fault after = true := by
  rw [errorWith] at h
  cases haction : action state with
  | ok answer after => rw [haction] at h; cases h
  | error fault after => rw [haction] at h; exact ⟨fault, after, rfl, h⟩

/-! ### What actions do to the state -/

/-- However the action ends, the states before and after it are related. -/
def Moves (R : σ → σ → Prop) (action : Action σ α) : Prop :=
  ∀ state, R state (action.perform state).2

variable {R : σ → σ → Prop} {action : Action σ α} {next : α → Action σ β}

theorem Moves.of_ok (h : Moves R action) {state after : σ} {answer : α}
    (hok : action state = .ok answer after) : R state after := by
  have hmoved := h state
  rwa [perform_ok hok] at hmoved

theorem Moves.of_error (h : Moves R action) {state after : σ} {fault : Fault}
    (herror : action state = .error fault after) : R state after := by
  have hmoved := h state
  rwa [perform_error herror] at hmoved

/-- A law for both outcomes is one for the action. -/
theorem Moves.of_outcomes
    (hok : ∀ {state after answer}, action state = .ok answer after → R state after)
    (herror : ∀ {state after fault}, action state = .error fault after → R state after) :
    Moves R action := by
  intro state
  cases h : action state with
  | ok answer after => rw [perform_ok h]; exact hok h
  | error fault after => rw [perform_error h]; exact herror h

/-- Of two steps that each follow a law the whole follows it. -/
theorem Moves.bind (htrans : ∀ {a b c}, R a b → R b c → R a c) (h : Moves R action)
    (hnext : ∀ answer, Moves R (next answer)) : Moves R (action >>= next) := by
  intro state
  cases hfirst : action state with
  | ok answer between =>
    rw [perform, bind_ok hfirst]
    exact htrans (h.of_ok hfirst) (hnext answer between)
  | error fault between =>
    rw [perform, bind_error hfirst]
    exact h.of_error hfirst

/-- Whether a fault is ignored makes no difference to the state. -/
theorem Moves.ignoreFault (h : Moves R action) : Moves R (ignoreFault action) := by
  intro state
  cases hdone : action state with
  | ok answer after => simpa only [perform, Action.ignoreFault, hdone] using h.of_ok hdone
  | error fault after => simpa only [perform, Action.ignoreFault, hdone] using h.of_error hdone

/-! ### What actions fail by -/

/-- Wherever the action fails, its fault is of one kind. -/
def FailsBy (P : Fault → Prop) (action : Action σ α) : Prop :=
  ∀ state fault after, action state = .error fault after → P fault

theorem FailsBy.pure {P : Fault → Prop} (answer : α) : FailsBy P (pure answer : Action σ α) :=
  fun _ _ _ h => nomatch h

theorem FailsBy.mono {P Q : Fault → Prop} (h : FailsBy P action) (hkind : ∀ fault, P fault → Q fault) :
    FailsBy Q action :=
  fun state fault after hfailed => hkind fault (h state fault after hfailed)

/-- An action on a part of the state fails by what the action fails by. -/
theorem FailsBy.within {P : Fault → Prop} {get : σ → τ} {set : τ → σ → σ} {action : Action τ α}
    (h : FailsBy P action) : FailsBy P (within get set action) := by
  intro state fault after hfailed
  obtain ⟨part, hpart, _⟩ := of_within_error hfailed
  exact h (get state) fault part hpart

/-- Of two steps that fail by one kind of fault the whole fails by that kind. -/
theorem FailsBy.bind {P : Fault → Prop} (h : FailsBy P action)
    (hnext : ∀ answer, FailsBy P (next answer)) : FailsBy P (action >>= next) := by
  intro state fault after hfailed
  rcases of_bind_error hfailed with hfirst | ⟨answer, between, _, hrest⟩
  · exact h state fault after hfirst
  · exact hnext answer between fault after hrest

end Action

end LayeredStore
