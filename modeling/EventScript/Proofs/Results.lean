/-
Results and faults. What it takes for a computation in steps to give a result, and to
fail: the same for one step behind another, and for reading a list item by item.
-/
import Mathlib.Data.List.Forall2

namespace EventScript

variable {α β ε : Type}

theorem map_eq_ok_iff {x : Except ε α} {f : α → β} {b : β} :
    x.map f = .ok b ↔ ∃ a, x = .ok a ∧ b = f a := by
  cases x with
  | error fault => exact iff_of_false nofun nofun
  | ok a =>
    constructor
    · rintro ⟨⟩
      exact ⟨a, rfl, rfl⟩
    · rintro ⟨_, ⟨⟩, rfl⟩
      rfl

theorem bind_eq_ok_iff {x : Except ε α} {f : α → Except ε β} {b : β} :
    x.bind f = .ok b ↔ ∃ a, x = .ok a ∧ f a = .ok b := by
  cases x with
  | error fault => exact iff_of_false nofun nofun
  | ok a => exact ⟨fun h => ⟨a, rfl, h⟩, fun ⟨_, eq, h⟩ => Except.ok.inj eq ▸ h⟩

theorem bind_eq_error_iff {x : Except ε α} {f : α → Except ε β} {fault : ε} :
    x.bind f = .error fault ↔ x = .error fault ∨ ∃ a, x = .ok a ∧ f a = .error fault := by
  cases x with
  | error other =>
    constructor
    · rintro ⟨⟩
      exact .inl rfl
    · rintro (⟨⟨⟩⟩ | ⟨_, ⟨⟩, -⟩)
      rfl
  | ok a =>
    exact ⟨fun h => .inr ⟨a, rfl, h⟩,
      fun h => h.elim nofun fun ⟨_, eq, failed⟩ => Except.ok.inj eq ▸ failed⟩

theorem map_eq_error_iff {x : Except ε α} {f : α → β} {fault : ε} :
    x.map f = .error fault ↔ x = .error fault := by
  cases x with
  | error other =>
    constructor
    · rintro ⟨⟩
      rfl
    · rintro ⟨⟩
      rfl
  | ok a => exact iff_of_false nofun nofun

variable {f : α → Except ε β} {items : List α}

theorem mapM_eq_ok_iff {results : List β} :
    items.mapM f = .ok results ↔ List.Forall₂ (fun a b => f a = .ok b) items results := by
  induction items generalizing results with
  | nil =>
    rw [List.mapM_nil, List.forall₂_nil_left_iff]
    exact ⟨fun h => (Except.ok.inj h).symm, fun h => h ▸ rfl⟩
  | cons a rest ih =>
    rw [List.mapM_cons, List.forall₂_cons_left_iff]
    constructor
    · intro read
      cases first : f a with
      | error fault =>
        rw [first] at read
        cases read
      | ok b =>
        cases others : rest.mapM f with
        | error fault =>
          rw [first, others] at read
          cases read
        | ok more =>
          rw [first, others] at read
          cases read
          exact ⟨b, more, rfl, ih.mp others, rfl⟩
    · rintro ⟨b, more, first, others, rfl⟩
      rw [first, ih.mpr others]
      rfl

/-- Reading a list fails just if an item cannot be read, and as the first such
item does. -/
theorem mapM_eq_error_iff {fault : ε} :
    items.mapM f = .error fault ↔ ∃ before a after, items = before ++ a :: after ∧
      (∀ other ∈ before, ∃ b, f other = .ok b) ∧ f a = .error fault := by
  induction items with
  | nil =>
    rw [List.mapM_nil]
    refine iff_of_false nofun ?_
    rintro ⟨before, a, after, eq, -⟩
    cases List.append_eq_nil_iff.mp eq.symm |>.2
  | cons a rest ih =>
    rw [List.mapM_cons]
    constructor
    · intro failed
      cases first : f a with
      | error other =>
        rw [first] at failed
        cases failed
        exact ⟨[], a, rest, rfl, by simp, first⟩
      | ok b =>
        cases others : rest.mapM f with
        | error other =>
          rw [first, others] at failed
          cases failed
          obtain ⟨before, c, after, rfl, fine, strange⟩ := ih.mp others
          exact ⟨a :: before, c, after, rfl, List.forall_mem_cons.mpr ⟨⟨b, first⟩, fine⟩, strange⟩
        | ok more =>
          rw [first, others] at failed
          cases failed
    · rintro ⟨before, c, after, eq, fine, strange⟩
      cases before with
      | nil =>
        cases eq
        rw [strange]
        rfl
      | cons first before =>
        cases eq
        obtain ⟨⟨b, known⟩, fine⟩ := List.forall_mem_cons.mp fine
        rw [known, ih.mpr ⟨before, c, after, rfl, fine, strange⟩]
        rfl

end EventScript
