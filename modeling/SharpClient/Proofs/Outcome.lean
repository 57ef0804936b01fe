/-!
# Outcomes of a run that may fail

How a successful run falls apart into the successes of its steps, and how a step that is known to
succeed or to fail is taken. The `simp` set turns a chain of steps into the outcome of its first
open one.
-/

namespace SharpClient.Outcome

variable {ε α β : Type}

@[simp] theorem ok_bind (a : α) (f : α → Except ε β) : (Except.ok a >>= f) = f a := rfl

@[simp] theorem error_bind (e : ε) (f : α → Except ε β) : (Except.error e >>= f) = .error e := rfl

@[simp] theorem pure_eq_ok (a : α) : (pure a : Except ε α) = .ok a := rfl

@[simp] theorem map_ok (f : α → β) (a : α) : (Except.ok a : Except ε α).map f = .ok (f a) := rfl

@[simp] theorem map_error (f : α → β) (e : ε) :
    (Except.error e : Except ε α).map f = .error e := rfl

/-- A chain of two steps succeeds when both do. -/
theorem bind_eq_ok {x : Except ε α} {f : α → Except ε β} {b : β} :
    x >>= f = .ok b ↔ ∃ a, x = .ok a ∧ f a = .ok b := by
  cases x <;> simp

theorem map_eq_ok {x : Except ε α} {f : α → β} {b : β} :
    x.map f = .ok b ↔ ∃ a, x = .ok a ∧ f a = b := by
  cases x <;> simp

theorem map_map {γ : Type} (x : Except ε α) (f : α → β) (g : β → γ) :
    (x.map f).map g = x.map fun a => g (f a) := by
  cases x <;> rfl

/-- A step that succeeds on each element succeeds on the list, and gives nothing else. -/
theorem exists_mapM {f : α → Except ε β} {as : List α}
    (h : ∀ a ∈ as, ∃ b, f a = .ok b) :
    ∃ bs, as.mapM f = .ok bs ∧ ∀ b ∈ bs, ∃ a ∈ as, f a = .ok b := by
  induction as with
  | nil => exact ⟨[], rfl, by simp⟩
  | cons a as ih =>
    obtain ⟨b, hb⟩ := h a (by simp)
    obtain ⟨bs, hbs, hmem⟩ := ih fun x hx => h x (by simp [hx])
    refine ⟨b :: bs, ?_, fun b' hb' => ?_⟩
    · rw [List.mapM_cons, hb, ok_bind, hbs]
      rfl
    · rcases List.mem_cons.1 hb' with rfl | hb'
      · exact ⟨a, by simp, hb⟩
      · obtain ⟨x, hx, hfx⟩ := hmem b' hb'
        exact ⟨x, List.mem_cons_of_mem _ hx, hfx⟩

/-- A step that succeeded on the list succeeded on each element. -/
theorem exists_mem_of_mapM {f : α → Except ε β} {as : List α} {bs : List β}
    (h : as.mapM f = .ok bs) {a : α} (ha : a ∈ as) : ∃ b ∈ bs, f a = .ok b := by
  induction as generalizing bs with
  | nil => simp at ha
  | cons a' as ih =>
    rw [List.mapM_cons] at h
    obtain ⟨b, hb, h⟩ := bind_eq_ok.1 h
    obtain ⟨bs', hbs', h⟩ := bind_eq_ok.1 h
    cases h
    rcases List.mem_cons.1 ha with rfl | ha
    · exact ⟨b, List.mem_cons_self, hb⟩
    · obtain ⟨b', hb', hfa⟩ := ih hbs' ha
      exact ⟨b', List.mem_cons_of_mem _ hb', hfa⟩

/-- What a step gave on the list, it gave on one of the elements. -/
theorem mem_mapM_iff {f : α → Except ε β} {as : List α} {bs : List β} (h : as.mapM f = .ok bs)
    {b : β} : b ∈ bs ↔ ∃ a ∈ as, f a = .ok b := by
  constructor
  · intro hb
    obtain ⟨bs', hbs', hmem⟩ := exists_mapM fun a ha => (exists_mem_of_mapM h ha).imp fun _ => And.right
    rw [hbs'] at h
    cases h
    exact hmem b hb
  · rintro ⟨a, ha, hb⟩
    obtain ⟨b', hb', hfa⟩ := exists_mem_of_mapM h ha
    cases hb.symm.trans hfa
    exact hb'

/-- What is known of the results one by one is known of their list. -/
theorem map_eq_of_mapM {γ : Type} {f : α → Except ε β} {as : List α} {bs : List β}
    (h : as.mapM f = .ok bs) {g : β → γ} {k : α → γ} (hk : ∀ a ∈ as, ∀ b, f a = .ok b → g b = k a) :
    bs.map g = as.map k := by
  induction as generalizing bs with
  | nil =>
    cases h
    rfl
  | cons a as ih =>
    rw [List.mapM_cons] at h
    obtain ⟨b, hb, h⟩ := bind_eq_ok.mp h
    obtain ⟨bs', hbs', h⟩ := bind_eq_ok.mp h
    cases h
    rw [List.forall_mem_cons] at hk
    rw [List.map_cons, List.map_cons, hk.1 b hb, ih hbs' hk.2]

/-- A step whose outcome is determined by that of another one succeeds where the other does. -/
theorem mapM_map_of_mapM {γ : Type} {f : α → Except ε β} {k : α → Except ε γ} {g : β → γ}
    {as : List α} {bs : List β} (h : as.mapM f = .ok bs)
    (hk : ∀ a b, f a = .ok b → k a = .ok (g b)) : as.mapM k = .ok (bs.map g) := by
  induction as generalizing bs with
  | nil =>
    cases h
    rfl
  | cons a as ih =>
    rw [List.mapM_cons] at h
    obtain ⟨b, hb, h⟩ := bind_eq_ok.mp h
    obtain ⟨bs', hbs', h⟩ := bind_eq_ok.mp h
    cases h
    rw [List.mapM_cons, hk a b hb, ok_bind, ih hbs']
    rfl

theorem mapM_congr {f g : α → Except ε β} {as : List α} (h : ∀ a ∈ as, f a = g a) :
    as.mapM f = as.mapM g := by
  induction as with
  | nil => rfl
  | cons a as ih =>
    rw [List.forall_mem_cons] at h
    rw [List.mapM_cons, List.mapM_cons, h.1, ih h.2]

/-! ### Errors -/

/-- The error of a run, if it failed. -/
def error? : Except ε α → Option ε
  | .ok _ => none
  | .error e => some e

@[simp] theorem error?_ok (a : α) : error? (.ok a : Except ε α) = none := rfl

@[simp] theorem error?_error (e : ε) : error? (.error e : Except ε α) = some e := rfl

theorem error?_eq_some {x : Except ε α} {e : ε} : error? x = some e ↔ x = .error e := by
  cases x <;> simp

/-- Runs fail alike when their first steps do, and the rests do wherever the first steps succeed. -/
theorem error?_bind_congr {α' β' : Type} {x : Except ε α} {y : Except ε α'} {f : α → Except ε β}
    {g : α' → Except ε β'} (hfirst : error? x = error? y)
    (hrest : ∀ a b, x = .ok a → y = .ok b → error? (f a) = error? (g b)) :
    error? (x >>= f) = error? (y >>= g) := by
  cases x with
  | error e => rw [error_bind, error?_eq_some.1 hfirst.symm, error_bind, error?_error, error?_error]
  | ok a =>
    cases y with
    | error e => cases hfirst
    | ok b => exact hrest a b rfl rfl

/-- A step on all elements fails with the first error of a single one. -/
theorem error?_mapM (f : α → Except ε β) (as : List α) :
    error? (as.mapM f) = as.findSome? fun a => error? (f a) := by
  induction as with
  | nil => rfl
  | cons a as ih =>
    rw [List.mapM_cons, List.findSome?_cons, ← ih]
    cases f a with
    | error e => rfl
    | ok b => cases as.mapM f <;> rfl

end SharpClient.Outcome
