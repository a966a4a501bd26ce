import Handheld.Fault

namespace Handheld.Access

variable {σ τ α β : Type}

/-- What follows a success goes on from there. -/
theorem bind_of_ok {x : Access σ α} {f : α → Access σ β} {s u : σ} {a : α} (h : x s = .ok a u) :
    (x >>= f) s = f a u := by
  simp only [bind, EStateM.bind, h]

/-- Nothing follows a failure. -/
theorem bind_of_error {x : Access σ α} {f : α → Access σ β} {s u : σ} {e : Fault}
    (h : x s = .error e u) : (x >>= f) s = .error e u := by
  simp only [bind, EStateM.bind, h]

theorem bind_eq_ok_iff {x : Access σ α} {f : α → Access σ β} {s t : σ} {b : β} :
    (x >>= f) s = .ok b t ↔ ∃ a u, x s = .ok a u ∧ f a u = .ok b t := by
  cases h : x s with
  | ok a u =>
    simp only [bind, EStateM.bind, h, EStateM.Result.ok.injEq]
    exact ⟨fun hf => ⟨a, u, ⟨rfl, rfl⟩, hf⟩, fun ⟨_, _, ⟨rfl, rfl⟩, hf⟩ => hf⟩
  | error e u => simp [bind, EStateM.bind, h]

theorem bind_eq_error_iff {x : Access σ α} {f : α → Access σ β} {s t : σ} {e : Fault} :
    (x >>= f) s = .error e t ↔
      x s = .error e t ∨ ∃ a u, x s = .ok a u ∧ f a u = .error e t := by
  cases h : x s with
  | ok a u =>
    simp only [bind, EStateM.bind, h, EStateM.Result.ok.injEq, reduceCtorEq, false_or]
    exact ⟨fun hf => ⟨a, u, ⟨rfl, rfl⟩, hf⟩, fun ⟨_, _, ⟨rfl, rfl⟩, hf⟩ => hf⟩
  | error e u => simp [bind, EStateM.bind, h]

/-- The state that an operation leaves, whether or not it succeeds. -/
def after (act : Access σ α) (s : σ) : σ :=
  match act s with
  | .ok _ t | .error _ t => t

theorem after_of_ok {act : Access σ α} {s t : σ} {a : α} (h : act s = .ok a t) :
    after act s = t := by
  simp [after, h]

theorem after_of_error {act : Access σ α} {s t : σ} {e : Fault} (h : act s = .error e t) :
    after act s = t := by
  simp [after, h]

/-- An operation that gives a value succeeds in the state that it leaves. -/
theorem eq_ok_of_run' {act : Access σ α} {s : σ} {a : α} (h : act.run' s = some a) :
    act s = .ok a (after act s) := by
  unfold EStateM.run' EStateM.run at h
  cases hact : act s with
  | ok b t =>
    rw [hact] at h
    cases h
    rw [after_of_ok hact]
  | error e t =>
    rw [hact] at h
    cases h

theorem run'_of_ok {act : Access σ α} {s t : σ} {a : α} (h : act s = .ok a t) :
    act.run' s = some a := by
  unfold EStateM.run' EStateM.run
  rw [h]

/-- The operation keeps a property of the state, and does so even if it fails. -/
def Preserves (P : σ → Prop) (act : Access σ α) : Prop :=
  ∀ s, P s → P (after act s)

theorem Preserves.of_ok {P : σ → Prop} {act : Access σ α} {s t : σ} {a : α}
    (h : Preserves P act) (hs : P s) (hact : act s = .ok a t) : P t :=
  after_of_ok hact ▸ h s hs

theorem Preserves.of_error {P : σ → Prop} {act : Access σ α} {s t : σ} {e : Fault}
    (h : Preserves P act) (hs : P s) (hact : act s = .error e t) : P t :=
  after_of_error hact ▸ h s hs

theorem Preserves.bind {P : σ → Prop} {x : Access σ α} {f : α → Access σ β}
    (hx : Preserves P x) (hf : ∀ a, Preserves P (f a)) : Preserves P (x >>= f) := by
  intro s hs
  cases hact : (x >>= f) s with
  | ok b t =>
    obtain ⟨a, u, hxs, hfu⟩ := bind_eq_ok_iff.mp hact
    rw [after_of_ok hact]
    exact (hf a).of_ok (hx.of_ok hs hxs) hfu
  | error e t =>
    rw [after_of_error hact]
    obtain hxs | ⟨a, u, hxs, hfu⟩ := bind_eq_error_iff.mp hact
    · exact hx.of_error hs hxs
    · exact (hf a).of_error (hx.of_ok hs hxs) hfu

/-- From where `I` holds the operation leads to where `I` holds, or, if it fails, to where `E`
    does. -/
def Maintains (I : σ → Prop) (E : Fault → σ → Prop) (act : Access σ α) : Prop :=
  ∀ s, I s → (∀ a t, act s = .ok a t → I t) ∧ ∀ e t, act s = .error e t → E e t

theorem Maintains.bind {I : σ → Prop} {E : Fault → σ → Prop} {x : Access σ α}
    {f : α → Access σ β} (hx : Maintains I E x) (hf : ∀ a, Maintains I E (f a)) :
    Maintains I E (x >>= f) := by
  intro s hs
  obtain ⟨hok, herror⟩ := hx s hs
  refine ⟨fun b t hact => ?_, fun e t hact => ?_⟩
  · obtain ⟨a, u, hxs, hfu⟩ := bind_eq_ok_iff.mp hact
    exact (hf a u (hok a u hxs)).1 b t hfu
  · obtain hxs | ⟨a, u, hxs, hfu⟩ := bind_eq_error_iff.mp hact
    · exact herror e t hxs
    · exact (hf a u (hok a u hxs)).2 e t hfu

/-- Looking at the state leaves it alone. -/
theorem after_observe (look : σ → Except Fault α) (s : σ) : after (observe look) s = s := by
  unfold after observe
  cases look s <;> rfl

theorem observe_of_ok {look : σ → Except Fault α} {s : σ} {a : α} (h : look s = .ok a) :
    observe look s = .ok a s := by
  simp only [observe, h]

theorem observe_of_error {look : σ → Except Fault α} {s : σ} {e : Fault}
    (h : look s = .error e) : observe look s = .error e s := by
  simp only [observe, h]

/-- An operation on a part of the state leaves the rest alone. -/
theorem after_zoom (get : σ → τ) (set : τ → σ → σ) (act : Access τ α) (s : σ) :
    after (zoom get set act) s = set (after act (get s)) s := by
  unfold after zoom
  cases act (get s) <;> rfl

section Zoom

variable {get : σ → τ} {set : τ → σ → σ} {act : Access τ α} {s u : σ}

theorem zoom_eq_ok_iff {a : α} :
    zoom get set act s = .ok a u ↔ ∃ t, act (get s) = .ok a t ∧ u = set t s := by
  unfold zoom
  cases act (get s) with
  | ok a' t =>
    simp only [EStateM.Result.ok.injEq]
    exact ⟨fun ⟨ha, hu⟩ => ⟨t, ⟨ha, rfl⟩, hu.symm⟩, fun ⟨_, ⟨ha, ht⟩, hu⟩ => ⟨ha, ht ▸ hu.symm⟩⟩
  | error e t => simp

theorem zoom_eq_error_iff {e : Fault} :
    zoom get set act s = .error e u ↔ ∃ t, act (get s) = .error e t ∧ u = set t s := by
  unfold zoom
  cases act (get s) with
  | ok a t => simp
  | error e' t =>
    simp only [EStateM.Result.error.injEq]
    exact ⟨fun ⟨he, hu⟩ => ⟨t, ⟨he, rfl⟩, hu.symm⟩, fun ⟨_, ⟨he, ht⟩, hu⟩ => ⟨he, ht ▸ hu.symm⟩⟩

end Zoom

end Handheld.Access
