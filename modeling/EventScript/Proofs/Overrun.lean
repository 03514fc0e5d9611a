/-
What correcting a table does: it keeps the slots up to the first that another
entry owns or a label names, gives the references of the others back, and seals
what it keeps (`correctTable_cases`). Nothing but this table changes.
-/
import EventScript.Proofs.LabelTable
import EventScript.Proofs.Layout
import EventScript.Recovery.Overrun

namespace EventScript

/-- Gives back one reference on each of some names. -/
def LabelTable.releaseAll (table : LabelTable) (names : List String) : LabelTable :=
  names.foldl (fun table name => (table.release name).2) table

theorem LabelTable.Sound.gives_releaseAll {table : LabelTable} (h : table.Sound)
    (names : List String) : Gives table names (table.releaseAll names) := by
  induction names generalizing table with
  | nil => exact .none h
  | cons name rest ih =>
    have first := h.gives_release name
    exact first.append (ih first.sound)

namespace Script

/-! ## Which slots a table keeps -/

theorem ownSlots_bounds (script : Script) (head room n : Nat) :
    n ≤ script.ownSlots head room n ∧ script.ownSlots head room n ≤ n + room := by
  induction room generalizing n with
  | zero => simp [ownSlots]
  | succ room ih =>
    rw [ownSlots]
    split
    · omega
    · have := ih (n + 1)
      omega

theorem ownSlots_own {script : Script} {head room n k : Nat} (low : n ≤ k)
    (high : k < script.ownSlots head room n) : script.claimedFrom head (head + 4 * k) = false := by
  induction room generalizing n with
  | zero =>
    rw [ownSlots] at high
    omega
  | succ room ih =>
    rw [ownSlots] at high
    split at high
    · omega
    · rename_i own
      by_cases eq : k = n
      · simpa [eq] using own
      · exact ih (by omega) high

/-- A table that does not keep all its slots loses the first that is claimed. -/
theorem ownSlots_claimed {script : Script} {head room n : Nat}
    (short : script.ownSlots head room n < n + room) :
    script.claimedFrom head (head + 4 * script.ownSlots head room n) = true := by
  induction room generalizing n with
  | zero =>
    rw [ownSlots] at short
    omega
  | succ room ih =>
    rw [ownSlots] at short ⊢
    split at short
    · rename_i claimed
      rw [if_pos claimed]
      exact claimed
    · rename_i own
      rw [if_neg own]
      exact ih (by omega)

theorem loose_of_claimedFrom {script : Script} {head slot : Nat}
    (h : script.claimedFrom head slot = false) :
    ∃ e, script.entryAt? slot = some e ∧ e.Loose head := by
  rw [claimedFrom, Bool.or_eq_false_iff] at h
  replace h := h.1
  split at h
  · cases h
  · exact ⟨_, ‹_›, .inl rfl⟩
  · exact ⟨_, ‹_›, .inr (.inr ⟨_, _, rfl⟩)⟩
  · rename_i owner at_slot
    exact ⟨_, at_slot, .inr (.inl (by simpa using h))⟩
  · cases h

theorem unnamed_of_claimedFrom {script : Script} {head slot : Nat}
    (h : script.claimedFrom head slot = false) : script.labels.contains slot = false := by
  rw [claimedFrom, Bool.or_eq_false_iff] at h
  exact h.2

/-! ## Giving references back -/

/-- Giving back the references of table entries changes the labels, and which
roles are still recorded. -/
structure Released (before : Script) (names : List String) (after : Script) : Prop where
  entries : after.entries = before.entries
  labels : after.labels = before.labels.releaseAll names
  branches : after.branches = before.branches
  tables : after.tableAddresses = before.tableAddresses
  diagnostics : after.diagnostics = before.diagnostics

theorem releaseEntry_released (script : Script) (name : String) :
    Released script [name] (script.releaseEntry name) := by
  rw [releaseEntry]
  split
  · rw [forget]
    split
    · exact ⟨rfl, rfl, rfl, rfl, rfl⟩
    · exact ⟨rfl, rfl, rfl, rfl, rfl⟩
  · exact ⟨rfl, rfl, rfl, rfl, rfl⟩

theorem releaseEntries_released (script : Script) (names : List String) :
    Released script names (names.foldl releaseEntry script) := by
  induction names generalizing script with
  | nil => exact ⟨rfl, rfl, rfl, rfl, rfl⟩
  | cons name rest ih =>
    obtain ⟨entries, labels, branches, tables, diagnostics⟩ := releaseEntry_released script name
    have more := ih (script.releaseEntry name)
    refine ⟨?_, ?_, ?_, ?_, ?_⟩
    · rw [List.foldl_cons, more.entries, entries]
    · rw [List.foldl_cons, more.labels, labels]
      rfl
    · rw [List.foldl_cons, more.branches, branches]
    · rw [List.foldl_cons, more.tables, tables]
    · rw [List.foldl_cons, more.diagnostics, diagnostics]

/-! ## Freeing what was sealed -/

theorem freeTail_eq (script : Script) (head count n : Nat) :
    script.freeTail head count n =
      { script with entries := (script.freeTail head count n).entries } := by
  induction count generalizing script n with
  | zero => rfl
  | succ count ih =>
    simp only [freeTail]
    rw [ih]
    split
    · split <;> rfl
    · rfl

theorem size_freeTail (script : Script) (head count n : Nat) :
    (script.freeTail head count n).entries.size = script.entries.size := by
  induction count generalizing script n with
  | zero => rfl
  | succ count ih =>
    rw [freeTail, ih]
    split
    · split
      · exact size_setEntry ..
      · rfl
    · rfl

theorem getElem?_freeTail_one (script : Script) (slot n m : Nat) :
    (script.freeTail (4 * slot) 1 n).entries[m]? =
      if m = slot + n ∧ script.entries[m]? = some (.continuation (4 * slot)) then some .unset
      else script.entries[m]? := by
  simp only [freeTail, show 4 * slot + 4 * n = 4 * (slot + n) by omega, entryAt?_slot]
  split
  · rename_i owner at_slot
    have inside := (Array.getElem?_eq_some_iff.mp at_slot).1
    split
    · rename_i own
      rw [getElem?_setEntry, show 4 * (slot + n) / 4 = slot + n by omega]
      by_cases eq : m = slot + n
      · rw [if_pos ⟨eq, eq ▸ inside⟩, if_pos ⟨eq, by rw [eq, at_slot, own]⟩]
      · rw [if_neg fun both => eq both.1, if_neg fun both => eq both.1]
    · rename_i other
      rw [if_neg]
      rintro ⟨rfl, own⟩
      rw [at_slot] at own
      cases own
      exact other rfl
  · rename_i free
    rw [if_neg]
    rintro ⟨rfl, own⟩
    exact free (4 * slot) own

theorem getElem?_freeTail (script : Script) (slot count n m : Nat) :
    (script.freeTail (4 * slot) count n).entries[m]? =
      if slot + n ≤ m ∧ m < slot + n + count ∧
        script.entries[m]? = some (.continuation (4 * slot)) then some .unset
      else script.entries[m]? := by
  induction count generalizing script n with
  | zero =>
    rw [freeTail, if_neg]
    omega
  | succ count ih =>
    have step : script.freeTail (4 * slot) (count + 1) n =
        (script.freeTail (4 * slot) 1 n).freeTail (4 * slot) count (n + 1) := rfl
    rw [step, ih, getElem?_freeTail_one]
    by_cases first : m = slot + n ∧ script.entries[m]? = some (.continuation (4 * slot))
    · rw [if_pos first, if_neg (by omega), if_pos ⟨by omega, by omega, first.2⟩]
    · rw [if_neg first]
      by_cases later : slot + (n + 1) ≤ m ∧ m < slot + (n + 1) + count ∧
          script.entries[m]? = some (.continuation (4 * slot))
      · rw [if_pos later, if_pos ⟨by omega, by omega, later.2.2⟩]
      · rw [if_neg later, if_neg]
        rintro ⟨low, high, own⟩
        by_cases eq : m = slot + n
        · exact first ⟨eq, own⟩
        · exact later ⟨by omega, by omega, own⟩

/-! ## Cutting -/

/-- The table at slot `n` is cut down to its first `keep` labels, but what is
left of it is not sealed yet. -/
structure Cut (before : Script) (n : Nat) (labels : List String) (keep : Nat) (after : Script) :
    Prop where
  size : after.entries.size = before.entries.size
  entries : ∀ m, after.entries[m]? =
    if m = n then some (.pointerTable (4 * n) (labels.take keep))
    else if n + keep ≤ m ∧ m < n + labels.length ∧
      before.entries[m]? = some (.continuation (4 * n)) then some .unset
    else before.entries[m]?
  released : after.labels = before.labels.releaseAll (labels.drop keep)
  branches : after.branches = before.branches
  tables : after.tableAddresses = before.tableAddresses
  diagnostics : after.diagnostics = before.diagnostics ++
    if keep < labels.length then [⟨4 * n, .tableOverrun keep (labels.drop keep).length⟩] else []

theorem cutTable_cut {script : Script} {n keep : Nat} {labels : List String}
    (inside : n < script.entries.size) (shorter : keep < labels.length) :
    Cut script n labels keep (script.cutTable (4 * n) keep labels) := by
  obtain ⟨entries, released, branches, tables, diagnostics⟩ :=
    releaseEntries_released script (labels.drop keep)
  refine ⟨?_, fun m => ?_, ?_, ?_, ?_, ?_⟩
  · simp only [cutTable, size_setEntry, diagnose, size_freeTail, entries]
  · simp only [cutTable]
    rw [getElem?_setEntry, show 4 * n / 4 = n by omega]
    simp only [diagnose, size_freeTail, entries, getElem?_freeTail]
    by_cases eq : m = n
    · rw [if_pos ⟨eq, eq ▸ inside⟩, if_pos eq]
    · rw [if_neg fun both => eq both.1, if_neg eq,
        show n + keep + (labels.length - keep) = n + labels.length by omega]
  · simp only [cutTable, setEntry, diagnose]
    rw [freeTail_eq]
    exact released
  · simp only [cutTable, setEntry, diagnose]
    rw [freeTail_eq]
    exact branches
  · simp only [cutTable, setEntry, diagnose]
    rw [freeTail_eq]
    exact tables
  · simp only [cutTable, setEntry, diagnose]
    rw [freeTail_eq, if_pos shorter]
    simp only [diagnostics]

/-- A table that keeps all its labels is not changed by the cut. -/
theorem Cut.whole {script : Script} {n : Nat} {labels : List String}
    (table : script.entries[n]? = some (.pointerTable (4 * n) labels)) :
    Cut script n labels labels.length script := by
  refine ⟨rfl, fun m => ?_, ?_, rfl, rfl, ?_⟩
  · split
    · rename_i eq
      rw [eq, table, List.take_length]
    · rw [if_neg (by omega)]
  · rw [List.drop_length]
    rfl
  · rw [if_neg (Nat.lt_irrefl _), List.append_nil]

/-! ## The whole correction -/

/-- What correcting the table at slot `n` changes, `keep` of its labels being kept. -/
structure Corrected (before : Script) (n : Nat) (labels : List String) (keep : Nat)
    (after : Script) : Prop where
  entries : Recut before.entries n labels keep after.entries
  /-- No label names a slot that is sealed. -/
  unnamed : ∀ {m}, n < m → m < n + keep → before.labels.contains (4 * m) = false
  released : after.labels = before.labels.releaseAll (labels.drop keep)
  branches : after.branches = before.branches
  tables : after.tableAddresses = before.tableAddresses
  diagnostics : after.diagnostics = before.diagnostics ++
    if keep < labels.length then [⟨4 * n, .tableOverrun keep (labels.drop keep).length⟩] else []

/-- The entries cut off give their references back. -/
theorem Corrected.gives {before after : Script} {n keep : Nat} {labels : List String}
    (c : Corrected before n labels keep after) (sound : before.labels.Sound) :
    before.labels.Gives (labels.drop keep) after.labels := by
  rw [c.released]
  exact sound.gives_releaseAll _

/-- Sealing what is left of a table after the cut. -/
theorem Cut.corrected {before after : Script} {n keep : Nat} {labels : List String}
    (c : Cut before n labels keep after)
    (table : before.entries[n]? = some (.pointerTable (4 * n) labels)) (pos : 0 < keep)
    (le : keep ≤ labels.length)
    (loose : ∀ {m}, n < m → m < n + keep → ∃ e, before.entries[m]? = some e ∧ e.Loose (4 * n))
    (unnamed : ∀ {m}, n < m → m < n + keep → before.labels.contains (4 * m) = false) :
    Corrected before n labels keep
      (after.fill (4 * n + 4) (.continuation (4 * n)) (keep - 1)) := by
  have sealed : ∀ m, (after.fill (4 * n + 4) (.continuation (4 * n)) (keep - 1)).entries[m]? =
      if n + 1 ≤ m ∧ m < n + 1 + (keep - 1) ∧ m < before.entries.size then
        some (.continuation (4 * n))
      else after.entries[m]? := fun m => by
    rw [getElem?_fill, show (4 * n + 4) / 4 = n + 1 by omega, c.size]
  refine ⟨⟨?_, table, ?_, pos, le, ?_, ?_, ?_⟩, unnamed, ?_, ?_, ?_, ?_⟩
  · rw [size_fill, c.size]
  · rw [sealed, if_neg (by omega), c.entries, if_pos rfl]
  · intro m low high
    obtain ⟨e, at_m, slack⟩ := loose low high
    have := (Array.getElem?_eq_some_iff.mp at_m).1
    rw [sealed, if_pos (by omega)]
    exact ⟨rfl, e, at_m, slack⟩
  · intro m low high own
    rw [sealed, if_neg (by omega), c.entries, if_neg (by omega), if_pos ⟨low, high, own⟩]
  · intro m other out gone
    rw [sealed, if_neg (by omega), c.entries, if_neg other, if_neg gone]
  · rw [labels_fill, c.released]
  · rw [fill_eq]
    exact c.branches
  · rw [fill_eq]
    exact c.tables
  · rw [diagnostics_fill, c.diagnostics]

theorem correctTable_corrected {script : Script} (laid : Laid script.entries) {n : Nat}
    {labels : List String} (table : script.entries[n]? = some (.pointerTable (4 * n) labels)) :
    Corrected script n labels (script.ownSlots (4 * n) (labels.length - 1) 1)
      (script.correctTable (4 * n)) := by
  have inside := (Array.getElem?_eq_some_iff.mp table).1
  have nonempty : 0 < labels.length := (laid.room table rfl).1
  have bounds := script.ownSlots_bounds (4 * n) (labels.length - 1) 1
  have loose : ∀ {m}, n < m → m < n + script.ownSlots (4 * n) (labels.length - 1) 1 →
      ∃ e, script.entries[m]? = some e ∧ e.Loose (4 * n) := fun {m} low high => by
    have own : m - n < script.ownSlots (4 * n) (labels.length - 1) 1 := by omega
    obtain ⟨e, at_slot, loose⟩ := loose_of_claimedFrom (ownSlots_own (by omega) own)
    rw [show 4 * n + 4 * (m - n) = 4 * m by omega, entryAt?_slot] at at_slot
    exact ⟨e, at_slot, loose⟩
  have unnamed : ∀ {m}, n < m → m < n + script.ownSlots (4 * n) (labels.length - 1) 1 →
      script.labels.contains (4 * m) = false := fun {m} low high => by
    have own : m - n < script.ownSlots (4 * n) (labels.length - 1) 1 := by omega
    have free := unnamed_of_claimedFrom (ownSlots_own (by omega) own)
    rwa [show 4 * n + 4 * (m - n) = 4 * m by omega] at free
  rw [correctTable, entryAt?_slot, table]
  simp only
  generalize script.ownSlots (4 * n) (labels.length - 1) 1 = keep at bounds loose unnamed ⊢
  by_cases shorter : keep < labels.length
  · rw [if_pos shorter]
    exact (cutTable_cut inside shorter).corrected table (by omega) (by omega) loose unnamed
  · rw [if_neg shorter]
    have all : keep = labels.length := by omega
    subst all
    exact (Cut.whole table).corrected table nonempty (Nat.le_refl _) loose unnamed

/-- **Correcting a table** cuts and seals it; where no table is, nothing changes. -/
theorem correctTable_cases {script : Script} (laid : Laid script.entries) (head : Nat) :
    (script.correctTable head = script ∧
      ∀ {n address labels}, script.entries[n]? = some (.pointerTable address labels) →
        4 * n ≠ head) ∨
      ∃ n labels keep, head = 4 * n ∧
        Corrected script n labels keep (script.correctTable head) := by
  by_cases table : ∃ n address labels, script.entries[n]? = some (.pointerTable address labels) ∧
      4 * n = head
  · obtain ⟨n, address, labels, at_n, rfl⟩ := table
    have home := laid.home at_n rfl
    subst home
    exact .inr ⟨n, labels, _, rfl, correctTable_corrected laid at_n⟩
  · have none : ∀ {n address labels}, script.entries[n]? = some (.pointerTable address labels) →
        4 * n ≠ head := fun at_n eq => table ⟨_, _, _, at_n, eq⟩
    refine .inl ⟨?_, none⟩
    rw [correctTable]
    split
    · rename_i address labels at_head
      obtain ⟨aligned, at_slot⟩ := entryAt?_eq_some at_head
      exact absurd aligned.symm (none at_slot)
    · rfl

theorem correctTable_laid {script : Script} (laid : Laid script.entries) (head : Nat) :
    Laid (script.correctTable head).entries := by
  obtain ⟨same, -⟩ | ⟨n, labels, keep, -, c⟩ := correctTable_cases laid head
  · rw [same]
    exact laid
  · exact c.entries.laid laid

end Script
end EventScript
