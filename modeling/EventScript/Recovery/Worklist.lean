/-
Working off the worklist. A probe either was done before, or starts outside
the image and finds nothing, or visits an address of the image for the first
time. The first two shorten the worklist and the third leaves fewer addresses
to visit, so the work ends.
-/
import EventScript.Recovery.Progress

namespace EventScript.Recovery

/-- How many addresses of the image were neither probed as a branch nor scanned
as a table, counting each way on its own. -/
def Session.unvisited (setting : Setting) (s : Session) : Nat :=
  (List.range setting.image.byteLength).countP (· ∉ s.script.branches) +
    (List.range setting.image.byteLength).countP (· ∉ s.script.tableAddresses)

theorem countP_lt {p q : Nat → Bool} {l : List Nat} (sub : ∀ a, q a = true → p a = true)
    {a : Nat} (mem : a ∈ l) (hp : p a = true) (hq : q a = false) : l.countP q < l.countP p := by
  induction l with
  | nil => cases mem
  | cons b l ih =>
    rw [List.countP_cons, List.countP_cons]
    have le : l.countP q ≤ l.countP p := List.countP_mono_left fun x _ => sub x
    rcases List.mem_cons.mp mem with rfl | mem
    · simp only [hp, hq]
      simp
      omega
    · have := ih mem
      have step : (if q b = true then 1 else 0) ≤ (if p b = true then 1 else 0) := by
        by_cases hb : q b = true
        · simp [hb, sub b hb]
        · simp [hb]
      omega

theorem Session.Extends.unvisited_le {setting : Setting} {s t : Session} (h : t.Extends s) :
    t.unvisited setting ≤ s.unvisited setting := by
  refine Nat.add_le_add (List.countP_mono_left fun a _ hb => ?_)
    (List.countP_mono_left fun a _ hb => ?_)
  · simp only [decide_eq_true_eq] at hb ⊢
    exact fun m => hb (h.branches a m)
  · simp only [decide_eq_true_eq] at hb ⊢
    exact fun m => hb (h.tables a m)

/-- Visiting a branch of the image for the first time leaves fewer addresses. -/
theorem Session.Extends.unvisited_lt_of_branch {setting : Setting} {s t : Session}
    (h : t.Extends s) {a : Nat} (inside : a < setting.image.byteLength)
    (new : a ∉ s.script.branches) (done : a ∈ t.script.branches) :
    t.unvisited setting < s.unvisited setting := by
  refine Nat.add_lt_add_of_lt_of_le
    (countP_lt (fun b hb => ?_) (List.mem_range.mpr inside) ?_ ?_)
    (List.countP_mono_left fun b _ hb => ?_)
  · simp only [decide_eq_true_eq] at hb ⊢
    exact fun m => hb (h.branches b m)
  · simpa using new
  · simpa using done
  · simp only [decide_eq_true_eq] at hb ⊢
    exact fun m => hb (h.tables b m)

/-- So does scanning a table of the image for the first time. -/
theorem Session.Extends.unvisited_lt_of_table {setting : Setting} {s t : Session}
    (h : t.Extends s) {a : Nat} (inside : a < setting.image.byteLength)
    (new : a ∉ s.script.tableAddresses) (done : a ∈ t.script.tableAddresses) :
    t.unvisited setting < s.unvisited setting := by
  refine Nat.add_lt_add_of_le_of_lt (List.countP_mono_left fun b _ hb => ?_)
    (countP_lt (fun b hb => ?_) (List.mem_range.mpr inside) ?_ ?_)
  · simp only [decide_eq_true_eq] at hb ⊢
    exact fun m => hb (h.branches b m)
  · simp only [decide_eq_true_eq] at hb ⊢
    exact fun m => hb (h.tables b m)
  · simpa using new
  · simpa using done

/-- A session is nearer to the end: fewer addresses are unvisited, or no more
are and the worklist is not longer. -/
def Session.Nearer (setting : Setting) (t s : Session) : Prop :=
  t.unvisited setting < s.unvisited setting ∨
    t.unvisited setting ≤ s.unvisited setting ∧ t.worklist = s.worklist

instance (setting : Setting) (t s : Session) : Decidable (t.Nearer setting s) :=
  inferInstanceAs (Decidable (_ ∨ _ ∧ _))

theorem probeBranch_nearer {setting : Setting} {address : Nat} {s t : Session}
    (h : probeBranch setting address s = .ok t) : t.Nearer setting s := by
  have grown := probeBranch_extends h
  have done := probeBranch_visits h
  by_cases new : address ∈ s.script.branches
  · rw [probeBranch, if_pos (by simpa using new)] at h
    cases h
    exact .inr ⟨Nat.le_refl _, rfl⟩
  · by_cases inside : address < setting.image.byteLength
    · exact .inl (grown.unvisited_lt_of_branch inside new done)
    · refine .inr ⟨grown.unvisited_le, ?_⟩
      rw [probeBranch, if_neg (by simpa using new), decodeFrom, dif_neg] at h
      · cases h
        rfl
      · simp only [Image.byteLength] at inside
        omega

theorem probeTable_nearer {setting : Setting} {address : Nat} {kind : TableKind} {role : Role}
    {s t : Session} (h : probeTable setting address kind role s = .ok t) :
    t.Nearer setting s := by
  have grown := probeTable_extends h
  have done := probeTable_visits h
  by_cases new : address ∈ s.script.tableAddresses
  · rw [probeTable, if_pos (by simpa using new)] at h
    cases h
    exact .inr ⟨Nat.le_refl _, rfl⟩
  · by_cases inside : address < setting.image.byteLength
    · exact .inl (grown.unvisited_lt_of_table inside new done)
    · have none : slotsFrom setting.image address = 0 := by
        simp only [Image.byteLength] at inside
        simp only [slotsFrom]
        omega
      rw [probeTable, if_neg (by simpa using new)] at h
      simp [none, scanBranches] at h

/-- Does the work of one probe. -/
def runProbe (setting : Setting) : Probe → Session → Except Halt Session
  | .branch address, s => probeBranch setting address s
  | .table address role, s => probeTable setting address .branches role s

theorem runProbe_nearer {setting : Setting} {probe : Probe} {s t : Session}
    (h : runProbe setting probe s = .ok t) : t.Nearer setting s := by
  cases probe with
  | branch address => exact probeBranch_nearer h
  | table address role => exact probeTable_nearer h

/-- Work that is nearer to its end than what was left below the first probe is
nearer than with that probe. -/
theorem Session.Nearer.lex {setting : Setting} {s t : Session} {probe : Probe} {rest : List Probe}
    (pending : s.worklist = probe :: rest) (nearer : t.Nearer setting { s with worklist := rest }) :
    Prod.Lex (· < ·) (· < ·) (t.unvisited setting, t.worklist.length)
      (s.unvisited setting, s.worklist.length) := by
  have same : ({ s with worklist := rest } : Session).unvisited setting = s.unvisited setting :=
    rfl
  rcases nearer with fewer | ⟨noMore, shorter⟩
  · exact .left _ _ (same ▸ fewer)
  · rcases Nat.lt_or_eq_of_le (same ▸ noMore) with fewer | equal
    · exact .left _ _ fewer
    · rw [equal, shorter, pending]
      exact .right _ (by simp)

/-- Works off the worklist, from its top. -/
def drain (setting : Setting) (s : Session) : Except Halt Session :=
  match _pending : s.worklist with
  | [] => .ok s
  | probe :: rest =>
    match _ran : runProbe setting probe { s with worklist := rest } with
    | .error halt => .error halt
    | .ok t => drain setting t
termination_by (s.unvisited setting, s.worklist.length)
decreasing_by exact (runProbe_nearer _ran).lex _pending

theorem drain_nil {setting : Setting} {s : Session} (empty : s.worklist = []) :
    drain setting s = .ok s := by
  rw [drain]
  split
  · rfl
  · rename_i pending
    rw [empty] at pending
    cases pending

theorem drain_cons {setting : Setting} {s : Session} {probe : Probe} {rest : List Probe}
    (pending : s.worklist = probe :: rest) :
    drain setting s =
      (runProbe setting probe { s with worklist := rest }).bind (drain setting) := by
  rw [drain]
  split
  · rename_i empty
    rw [pending] at empty
    cases empty
  · rename_i same
    rw [pending] at same
    cases same
    split
    · rename_i halted
      rw [halted]
      rfl
    · rename_i ran
      rw [ran]
      rfl

end EventScript.Recovery
