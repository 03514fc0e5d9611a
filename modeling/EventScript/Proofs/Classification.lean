/-
Every slot of a recovered script is classified exactly once. Exploration leaves
tables open: what stands behind the head of one may belong to something else.
Correcting the tables seals them (`correctOverruns_sealed`), and neither laying
out texts nor taking the rest for data opens a run again, so a recovered script
is laid and sealed (`disassemble_sealed`).

In a script that is both, one run begins where another ends. Going from entry
to entry by their widths therefore meets every head and nothing else, and ends
with the script (`walk_heads`).
-/
import EventScript.Proofs.Bounded
import EventScript.Proofs.Placement

namespace EventScript

/-! ## From entry to entry -/

/-- Going from entry to entry by their widths, from slot `n` on, meets entries
at the given addresses and ends exactly with the last slot. -/
inductive Walk (entries : Array Entry) : (n : Nat) → List Nat → Prop
  | done : Walk entries entries.size []
  | step {n w : Nat} {e : Entry} {rest : List Nat} (here : entries[n]? = some e)
      (width : e.width? = some w) (pos : 0 < w) (more : Walk entries (n + w) rest) :
      Walk entries n (4 * n :: rest)

/-- Every run that begins before slot `n` ends there at the latest. -/
def Boundary (entries : Array Entry) (n : Nat) : Prop :=
  ∀ {m e w}, m < n → entries[m]? = some e → e.width? = some w → m + w ≤ n

theorem Boundary.zero (entries : Array Entry) : Boundary entries 0 :=
  fun low => absurd low (Nat.not_lt_zero _)

/-- Where all runs have ended, another begins. -/
theorem Boundary.head {entries : Array Entry} {n : Nat} (h : Boundary entries n)
    (laid : Laid entries) (inside : n < entries.size) :
    ∃ e w, entries[n]? = some e ∧ e.width? = some w ∧ 0 < w ∧ n + w ≤ entries.size := by
  have here := Array.getElem?_eq_getElem inside
  cases width : entries[n].width? with
  | some w => exact ⟨_, w, here, width, laid.room here width⟩
  | none =>
    obtain ⟨m, head, k, at_m, tail, eq⟩ := laid.owned here width
    -- The head that owns the slot would reach past it.
    cases known : head.width? with
    | none =>
      rw [(Entry.home?_tail_of_width? known).2] at tail
      cases tail
    | some w =>
      have length := Entry.length_tail known (laid.room at_m known).1
      have ends := h (by omega) at_m known
      obtain ⟨bound, -⟩ := List.getElem?_eq_some_iff.mp tail
      omega

/-- Behind the first slot of a run nothing begins until the run ends. -/
theorem Sealed.width?_eq_none {entries : Array Entry} (h : Sealed entries) (laid : Laid entries)
    {n m w : Nat} {e other : Entry} (here : entries[n]? = some e) (width : e.width? = some w)
    (low : n < m) (high : m < n + w) (at_m : entries[m]? = some other) :
    other.width? = none := by
  have length := Entry.length_tail width (laid.room here width).1
  have bound : m - n - 1 < e.tail.length := by omega
  have tail := List.getElem?_eq_getElem bound
  have there := h n e here tail
  rw [show n + 1 + (m - n - 1) = m by omega, at_m] at there
  cases there
  exact Entry.width?_of_mem_tail (List.getElem_mem bound)

theorem Boundary.next {entries : Array Entry} {n w : Nat} {e : Entry} (h : Boundary entries n)
    (laid : Laid entries) (sealed : Sealed entries) (here : entries[n]? = some e)
    (width : e.width? = some w) : Boundary entries (n + w) := by
  intro m other v low at_m known
  by_cases before : m < n
  · have := h before at_m known
    omega
  by_cases eq : m = n
  · subst eq
    rw [here] at at_m
    cases at_m
    rw [width] at known
    cases known
    exact Nat.le_refl _
  · rw [sealed.width?_eq_none laid here width (by omega) low at_m] at known
    cases known

/-- What begins no run is no head. -/
theorem headsFrom_skip {entries : Array Entry} {n m : Nat} (le : n ≤ m)
    (none : ∀ {k e}, n ≤ k → k < m → entries[k]? = some e → e.width? = none) :
    Script.headsFrom n (entries.toList.drop n) = Script.headsFrom m (entries.toList.drop m) := by
  induction le with
  | refl => rfl
  | @step m le ih =>
    rw [ih fun low high => none low (by omega)]
    by_cases inside : m < entries.size
    · have later := none le (by omega) (Array.getElem?_eq_getElem inside)
      rw [List.drop_eq_getElem_cons (by simpa using inside), Script.headsFrom, Array.getElem_toList,
        later]
      rfl
    · rw [List.drop_eq_nil_of_le (by simp; omega), List.drop_eq_nil_of_le (by simp; omega)]
      rfl

/-- **The walk over a script that is laid and sealed** meets its heads. -/
theorem walk_heads {entries : Array Entry} (laid : Laid entries) (sealed : Sealed entries)
    {n : Nat} (le : n ≤ entries.size) (boundary : Boundary entries n) :
    Walk entries n ((Script.headsFrom n (entries.toList.drop n)).map Prod.fst) := by
  by_cases inside : n < entries.size
  · obtain ⟨e, w, here, width, pos, fits⟩ := boundary.head laid inside
    have more := walk_heads laid sealed fits (boundary.next laid sealed here width)
    have behind := @headsFrom_skip entries (n + 1) (n + w) (by omega)
      fun low high at_k => sealed.width?_eq_none laid here width (by omega) high at_k
    have first : entries[n] = e := (Array.getElem?_eq_some_iff.mp here).2
    rw [List.drop_eq_getElem_cons (by simpa using inside), Script.headsFrom, Array.getElem_toList,
      first, width, behind]
    exact .step here width pos more
  · have eq : n = entries.size := by omega
    subst eq
    rw [List.drop_eq_nil_of_le (by simp)]
    exact .done
termination_by entries.size - n

/-! ## Sealing the tables -/

theorem mem_headsFrom {entries : List Entry} {n k : Nat} {e : Entry}
    (at_k : entries[k]? = some e) (begins : e.width?.isSome = true) :
    (4 * (n + k), e) ∈ Script.headsFrom n entries := by
  induction entries generalizing n k with
  | nil => cases at_k
  | cons first rest ih =>
    rw [Script.headsFrom]
    cases k with
    | zero =>
      cases at_k
      rw [if_pos begins]
      exact List.mem_cons_self
    | succ k =>
      have more := ih (n := n + 1) (k := k) at_k
      rw [show n + 1 + k = n + (k + 1) by omega] at more
      split
      · exact List.mem_cons_of_mem _ more
      · exact more

theorem mem_tableHeads {script : Script} {n address : Nat} {labels : List String}
    (table : script.entries[n]? = some (.pointerTable address labels)) :
    4 * n ∈ script.tableHeads := by
  rw [Script.tableHeads, List.mem_filterMap]
  have head := @mem_headsFrom script.entries.toList 0 n _ (by simpa using table) rfl
  rw [Nat.zero_add] at head
  exact ⟨_, head, rfl⟩

/-- Every table but those at some heads is whole. -/
def SealedBut (heads : List Nat) (entries : Array Entry) : Prop :=
  ∀ {n address labels}, entries[n]? = some (.pointerTable address labels) →
    4 * n ∈ heads ∨ TailAt entries n (.pointerTable address labels)

theorem SealedBut.sealed {entries : Array Entry} (h : SealedBut [] entries)
    (laid : Laid entries) : Sealed entries := by
  intro n e at_n
  cases e with
  | pointerTable address labels => exact (h at_n).resolve_left (List.not_mem_nil)
  | _ => exact laid.solid at_n rfl

/-- Correcting a table seals it and opens no other. -/
theorem SealedBut.correctTable {script : Script} {head : Nat} {rest : List Nat}
    (laid : Laid script.entries) (h : SealedBut (head :: rest) script.entries) :
    SealedBut rest (script.correctTable head).entries := by
  intro n address labels at_n
  obtain ⟨same, none⟩ | ⟨m, old, keep, rfl, c⟩ := Script.correctTable_cases laid head
  · rw [same] at at_n ⊢
    rcases h at_n with pending | whole
    · exact .inl ((List.mem_cons.mp pending).resolve_left (none at_n))
    · exact .inr whole
  · rcases c.entries.cases_of_after at_n with ⟨rfl, eq⟩ | ⟨-, -, eq⟩ | eq | ⟨before, other, -⟩
    · rw [eq]
      exact .inr c.entries.whole
    · cases eq
    · cases eq
    · rcases h before with pending | whole
      · exact .inl ((List.mem_cons.mp pending).resolve_left (by omega))
      · exact .inr (c.entries.tailAt laid before other whole)

theorem correctTables_sealed {heads : List Nat} {script : Script} (laid : Laid script.entries)
    (h : SealedBut heads script.entries) :
    Sealed (heads.foldl Script.correctTable script).entries := by
  induction heads generalizing script with
  | nil => exact h.sealed laid
  | cons head rest ih => exact ih (Script.correctTable_laid laid head) (h.correctTable laid)

/-- **Correcting the tables seals every run.** -/
theorem correctOverruns_sealed {script : Script} (laid : Laid script.entries) :
    Sealed script.correctOverruns.entries :=
  correctTables_sealed laid fun table => .inl (mem_tableHeads table)

namespace Recovery

theorem exploreBranches_sealed {setting : Setting} {addresses : List Nat} {s t : Session}
    (explored : Explored setting.image s.script)
    (h : exploreBranches setting addresses s = .ok t) : Sealed t.script.entries := by
  rw [exploreBranches] at h
  split at h
  · cases h
  · rename_i u drained
    cases h
    exact correctOverruns_sealed ((drain_moves drained).1.explored explored).laid

theorem explore_sealed {setting : Setting} {stats : Stats} {s : Session}
    (h : explore setting stats = .ok s) : Sealed s.script.entries := by
  obtain ⟨script, u, rfl, first, more⟩ := explore_cases h
  have named := (named_moves setting.image setting.options.maxEntrypoints).explored
    (.blank setting.image)
  rcases more with rfl | more
  · exact exploreBranches_sealed named first
  · exact exploreBranches_sealed ((exploreBranches_moves first).1.explored named) more

theorem layText_sealed {image : Image} {script : Script} (address : Nat) (bound : Option Nat)
    (h : Sealed script.entries) : Sealed (layText image script address bound).entries := by
  rcases layText_cases image script address bound with same | noted | ⟨text, rfl, found, laid⟩
  · rw [same]
    exact h
  · rw [noted]
    exact h
  · rw [laid]
    exact found.claims.sealed h (found.claims.solid rfl)

/-- What is recovered of an image: a laid script in which every run is whole,
no slot is free, and what is said of the image is so. -/
structure Recovered (image : Image) (script : Script) : Prop where
  explored : Explored image script
  sealed : Sealed script.entries
  settled : ∀ n : Nat, script.entries[n]? ≠ some .unset

/-- **A recovered script is laid and sealed.** -/
theorem disassemble_recovered {catalogue : Catalogue} {options : Options} {image : Image}
    {script : Script} (h : disassemble catalogue options image = .ok script) :
    Recovered image script := by
  refine ⟨(disassemble_moves h).explored (.blank image), ?_, ?_⟩
  · obtain ⟨s, explored, rfl⟩ := disassemble_cases h
    have answered := @answers_induction image (fun script => Sealed script.entries)
      (fun address bound => layText_sealed address bound) s.requests _ (explore_sealed explored)
    intro n e at_n
    rcases fillData_cases at_n with ⟨-, rfl⟩ | ⟨old, -⟩
    · intro k t tail
      cases tail
    · exact fillData_tailAt (answered n e old)
  · obtain ⟨s, -, rfl⟩ := disassemble_cases h
    intro n at_n
    rcases fillData_cases at_n with ⟨-, eq⟩ | ⟨-, claimed⟩
    · cases eq
    · exact claimed rfl

/-- Each slot behind the header belongs to the operand whose words cover it. -/
theorem ReadAll.covered {image : Image} {diagnostics : List Diagnostic} {header cursor : Nat}
    {operands : List Operand} (h : ReadAll image diagnostics header cursor operands)
    (owner index : Nat) {k : Nat} (bound : k < Operand.widthOfAll operands) :
    ∃ j operand, operands[j]? = some operand ∧ operand.address ≤ cursor + 4 * k ∧
      cursor + 4 * k < operand.address + 4 * operand.width ∧
      (operandSlots owner index operands)[k]? = some (.operandSlot owner (index + j)) := by
  induction h generalizing index k with
  | nil => exact absurd bound (Nat.not_lt_zero _)
  | @cons cursor operand rest first _ ih =>
    have address := first.address
    have total : Operand.widthOfAll (operand :: rest) =
        operand.width + Operand.widthOfAll rest := rfl
    rw [operandSlots]
    by_cases here : k < operand.width
    · refine ⟨0, operand, rfl, by omega, by omega, ?_⟩
      rw [List.getElem?_append_left (by simpa using here), List.getElem?_replicate, if_pos here,
        Nat.add_zero]
    · obtain ⟨j, other, at_j, low, high, slot⟩ :=
        @ih (index + 1) (k - operand.width) (by omega)
      refine ⟨j + 1, other, at_j, by omega, by omega, ?_⟩
      rw [List.getElem?_append_right (by simpa using here), List.length_replicate, slot,
        show index + 1 + j = index + (j + 1) by omega]

end Recovery

/-! ## The classification -/

/-- Every slot of a script of the image is classified, and only once. -/
structure Classified (image : Image) (script : Script) : Prop where
  size : script.entries.size = image.size
  settled : ∀ n : Nat, script.entries[n]? ≠ some .unset
  /-- Going by the widths meets exactly the heads, without gap or overlap. -/
  walk : Walk script.entries 0 (script.heads.map Prod.fst)
  home : ∀ {n : Nat} {e : Entry}, script.entries[n]? = some e → e.width?.isSome = true →
    e.home? = some (4 * n)
  operands : ∀ {n k : Nat} {decoded : Instruction},
    script.entries[n]? = some (.instruction decoded) → 0 < k → k < decoded.width →
    ∃ index operand, decoded.operands[index]? = some operand ∧
      operand.address ≤ 4 * (n + k) ∧ 4 * (n + k) < operand.address + 4 * operand.width ∧
      script.entries[n + k]? = some (.operandSlot (4 * n) index)
  continuations : ∀ {n k w : Nat} {e : Entry}, script.entries[n]? = some e →
    e.continues = true → e.width? = some w → 0 < k → k < w →
    script.entries[n + k]? = some (.continuation (4 * n))
  /-- Operand slots stand nowhere else. -/
  operandSlot : ∀ {m header index : Nat},
    script.entries[m]? = some (.operandSlot header index) →
    ∃ n decoded, header = 4 * n ∧ script.entries[n]? = some (.instruction decoded) ∧
      n < m ∧ m < n + decoded.width
  /-- Continuations stand nowhere else. -/
  continuation : ∀ {m head : Nat}, script.entries[m]? = some (.continuation head) →
    ∃ n e w, head = 4 * n ∧ script.entries[n]? = some e ∧ e.continues = true ∧
      e.width? = some w ∧ n < m ∧ m < n + w

/-- The head that owns a slot, and how far it reaches. -/
theorem Laid.owner {entries : Array Entry} (laid : Laid entries) {m : Nat} {t : Entry}
    (at_m : entries[m]? = some t) (later : t.width? = none) :
    ∃ n e w, entries[n]? = some e ∧ t ∈ e.tail ∧ e.width? = some w ∧ n < m ∧ m < n + w := by
  obtain ⟨n, e, k, at_n, tail, rfl⟩ := laid.owned at_m later
  cases width : e.width? with
  | none =>
    rw [(Entry.home?_tail_of_width? width).2] at tail
    cases tail
  | some w =>
    have length := Entry.length_tail width (laid.room at_n width).1
    obtain ⟨bound, -⟩ := List.getElem?_eq_some_iff.mp tail
    exact ⟨n, e, w, at_n, List.mem_of_getElem? tail, width, by omega, by omega⟩

namespace Recovery

/-- **Every slot is classified exactly once**: the heads of a recovered script
tile it, each says where it stands, and every other slot says which run it
belongs to. -/
theorem disassemble_classified {catalogue : Catalogue} {options : Options} {image : Image}
    {script : Script} (h : disassemble catalogue options image = .ok script) :
    Classified image script := by
  obtain ⟨⟨size, laid, faithful⟩, sealed, settled⟩ := disassemble_recovered h
  refine ⟨size, settled, ?_, ?_, ?_, ?_, ?_, ?_⟩
  · have walk := walk_heads laid sealed (Nat.zero_le _) (Boundary.zero _)
    rwa [List.drop_zero] at walk
  · intro n e at_n begins
    cases home : e.home? with
    | some a => rw [laid.home at_n home]
    | none =>
      cases e with
      | unset => exact absurd at_n (settled n)
      | operandSlot | continuation => cases begins
      | _ => cases home
  · intro n k decoded at_n pos bound
    have home : decoded.address = 4 * n := laid.home at_n rfl
    obtain ⟨-, read⟩ := faithful at_n
    rw [Instruction.width] at bound
    obtain ⟨j, operand, at_j, low, high, slot⟩ :=
      read.covered decoded.address 0 (show k - 1 < Operand.widthOfAll decoded.operands by omega)
    have there := sealed n _ at_n slot
    rw [show n + 1 + (k - 1) = n + k by omega, home, Nat.zero_add] at there
    exact ⟨j, operand, at_j, by omega, by omega, there⟩
  · intro n k w e at_n continues width pos bound
    have length := Entry.length_tail width (laid.room at_n width).1
    have inTail : k - 1 < e.tail.length := by omega
    have there := sealed n e at_n (List.getElem?_eq_getElem inTail)
    rw [show n + 1 + (k - 1) = n + k by omega] at there
    rcases Entry.mem_tail_cases (List.getElem_mem inTail) with
      ⟨decoded, _, rfl, _⟩ | ⟨-, head, home, eq⟩
    · cases continues
    · rw [there, eq, laid.home at_n home]
  · intro m header index at_m
    obtain ⟨n, e, w, at_n, mem, width, low, high⟩ := laid.owner at_m rfl
    rcases Entry.mem_tail_cases mem with ⟨decoded, _, rfl, eq⟩ | ⟨-, _, -, eq⟩
    · cases eq
      cases width
      exact ⟨n, decoded, laid.home at_n rfl, at_n, low, high⟩
    · cases eq
  · intro m head at_m
    obtain ⟨n, e, w, at_n, mem, width, low, high⟩ := laid.owner at_m rfl
    rcases Entry.mem_tail_cases mem with ⟨_, _, -, eq⟩ | ⟨continues, _, home, eq⟩
    · cases eq
    · cases eq
      exact ⟨n, e, w, laid.home at_n home, at_n, continues, width, low, high⟩

/-- In the sample the slot behind the call is that of its operand, and the slot behind the
head of the table belongs to the table. -/
theorem disassemble_classified_sample :
    ∃ script, disassemble sampleCatalogue {} sampleImage = .ok script ∧
      Classified sampleImage script ∧
      script.entries[10]? = some (.instruction sampleGosub) ∧
      script.entries[11]? = some (.operandSlot 40 0) ∧
      script.entries[4]? = some (.pointerTable 16 ["LABEL_2", "LABEL_3"]) ∧
      script.entries[5]? = some (.continuation 16) := by
  obtain ⟨script, h, at_four, at_ten, -⟩ := sample_disassembles
  have classified := disassemble_classified h
  obtain ⟨index, operand, at_index, -, -, slot⟩ :=
    classified.operands at_ten (k := 1) (by decide) (by decide)
  obtain rfl : index = 0 := by
    have := (List.getElem?_eq_some_iff.mp at_index).1
    exact Nat.lt_one_iff.mp this
  exact ⟨script, h, classified, at_ten, slot, at_four,
    classified.continuations at_four rfl rfl Nat.one_pos Nat.one_lt_two⟩

end Recovery
end EventScript
