/-
How entries lie in a script. An entry that begins a run owns the slots behind
it, and says what stands there (`Entry.tail`). While exploration goes on, the
later slots of a pointer table are still open: others may claim them, and the
table is cut then. So what every move keeps is weaker than what a recovered
script has in the end:

* `Laid`: every run fits, all runs but tables are whole, and every slot that
  says it is owned is owned;
* `Sealed`: tables are whole too.

There are two kinds of change. `Claims` puts an entry on free slots, and
`Recut` cuts a table and seals what is left of it. Both keep scripts laid, and
neither touches the run of another entry.
-/
import EventScript.Script

namespace EventScript

namespace Script

/-! ## Setting slots -/

@[simp] theorem size_setEntry (script : Script) (address : Nat) (e : Entry) :
    (script.setEntry address e).entries.size = script.entries.size := by
  simp [setEntry]

theorem getElem?_setEntry (script : Script) (address m : Nat) (e : Entry) :
    (script.setEntry address e).entries[m]? =
      if m = address / 4 ∧ m < script.entries.size then some e else script.entries[m]? := by
  simp only [setEntry, Array.getElem?_setIfInBounds]
  by_cases eq : address / 4 = m
  · subst eq
    by_cases bound : address / 4 < script.entries.size
    · simp [bound]
    · simp [bound]
  · simp [eq, Ne.symm eq]

theorem fill_eq (script : Script) (address : Nat) (e : Entry) (count : Nat) :
    script.fill address e count =
      { script with entries := (script.fill address e count).entries } := by
  induction count generalizing script address with
  | zero => rfl
  | succ count ih =>
    rw [fill, ih]
    rfl

theorem labels_fill (script : Script) (address : Nat) (e : Entry) (count : Nat) :
    (script.fill address e count).labels = script.labels := by
  rw [fill_eq]

theorem diagnostics_fill (script : Script) (address : Nat) (e : Entry) (count : Nat) :
    (script.fill address e count).diagnostics = script.diagnostics := by
  rw [fill_eq]

@[simp] theorem size_fill (script : Script) (address : Nat) (e : Entry) (count : Nat) :
    (script.fill address e count).entries.size = script.entries.size := by
  induction count generalizing script address with
  | zero => rfl
  | succ count ih => simp [fill, ih]

theorem getElem?_fill (script : Script) (address m : Nat) (e : Entry) (count : Nat) :
    (script.fill address e count).entries[m]? =
      if address / 4 ≤ m ∧ m < address / 4 + count ∧ m < script.entries.size then some e
      else script.entries[m]? := by
  induction count generalizing script address with
  | zero =>
    rw [fill, if_neg]
    omega
  | succ count ih =>
    rw [fill, ih, getElem?_setEntry, size_setEntry]
    by_cases first : m = address / 4 ∧ m < script.entries.size
    · rw [if_neg (by omega), if_pos first, if_pos (by omega)]
    · rw [if_neg first]
      congr 1
      simp only [eq_iff_iff]
      omega

theorem entryAt?_eq_some {script : Script} {address : Nat} {e : Entry}
    (h : script.entryAt? address = some e) :
    address = 4 * (address / 4) ∧ script.entries[address / 4]? = some e := by
  rw [entryAt?] at h
  split at h
  · exact ⟨by omega, h⟩
  · cases h

theorem entryAt?_of_slot {script : Script} {address : Nat} {e : Entry}
    (aligned : address = 4 * (address / 4)) (h : script.entries[address / 4]? = some e) :
    script.entryAt? address = some e := by
  rw [entryAt?, if_pos (by omega), h]

theorem entryAt?_slot (script : Script) (n : Nat) :
    script.entryAt? (4 * n) = script.entries[n]? := by
  rw [entryAt?, if_pos (by omega), show 4 * n / 4 = n by omega]

theorem entryAt?_of_isUnset {script : Script} {address : Nat} (h : script.isUnset address = true) :
    script.entryAt? address = some .unset := by
  rw [isUnset, Option.any_eq_true] at h
  obtain ⟨e, at_address, unset⟩ := h
  cases e <;> simp_all [Entry.isUnset]

/-- An unset address is that of a slot. -/
theorem slot_of_isUnset {script : Script} {address : Nat} (h : script.isUnset address = true) :
    address = 4 * (address / 4) ∧ script.entries[address / 4]? = some .unset :=
  entryAt?_eq_some (entryAt?_of_isUnset h)

end Script

/-! ## Runs -/

namespace Entry

/-- Where an entry that begins a run says it stands. -/
def home? : Entry → Option Nat
  | .entrypoint address _ | .pointerTable address _ | .rawData address _ => some address
  | .instruction decoded => some decoded.address
  | .encodedString text => some text.address
  | .unset | .operandSlot .. | .continuation _ => none

/-- The head that a later slot of a run names. -/
def owner? : Entry → Option Nat
  | .operandSlot header _ => some header
  | .continuation head => some head
  | _ => none

/-- Whether the later slots of an entry are continuations. -/
def continues : Entry → Bool
  | .pointerTable .. | .encodedString _ => true
  | _ => false

/-- Whether an entry is the head of a pointer table. -/
def isTable : Entry → Bool
  | .pointerTable .. => true
  | _ => false

end Entry

/-- The slots of operands, the first of which has number `index`. -/
def operandSlots (header : Nat) : (index : Nat) → List Operand → List Entry
  | _, [] => []
  | index, operand :: rest =>
    List.replicate operand.width (.operandSlot header index) ++
      operandSlots header (index + 1) rest

namespace Entry

/-- What stands in the slots behind the first of a run. -/
def tail : Entry → List Entry
  | .instruction decoded => operandSlots decoded.address 0 decoded.operands
  | .pointerTable address labels => List.replicate (labels.length - 1) (.continuation address)
  | .encodedString text => List.replicate (text.width - 1) (.continuation text.address)
  | _ => []

end Entry

theorem length_operandSlots (header index : Nat) (operands : List Operand) :
    (operandSlots header index operands).length = Operand.widthOfAll operands := by
  induction operands generalizing index with
  | nil => rfl
  | cons operand rest ih => simp [operandSlots, Operand.widthOfAll, ih]

theorem mem_operandSlots {header index : Nat} {operands : List Operand} {e : Entry}
    (h : e ∈ operandSlots header index operands) : ∃ j, e = .operandSlot header j := by
  induction operands generalizing index with
  | nil => cases h
  | cons operand rest ih =>
    rcases List.mem_append.mp h with h | h
    · exact ⟨index, List.eq_of_mem_replicate h⟩
    · exact ih h

namespace Entry

theorem width?_eq_none_iff {e : Entry} : e.width? = none ↔ e.owner?.isSome = true := by
  cases e <;> simp [width?, owner?]

/-- A later slot is an operand's if its head is an instruction, and else a continuation. -/
theorem mem_tail_cases {e t : Entry} (h : t ∈ e.tail) :
    (∃ decoded index, e = .instruction decoded ∧ t = .operandSlot decoded.address index) ∨
      (e.continues = true ∧ ∃ head, e.home? = some head ∧ t = .continuation head) := by
  cases e with
  | instruction decoded =>
    obtain ⟨index, eq⟩ := mem_operandSlots h
    exact .inl ⟨decoded, index, rfl, eq⟩
  | pointerTable address labels => exact .inr ⟨rfl, address, rfl, List.eq_of_mem_replicate h⟩
  | encodedString text => exact .inr ⟨rfl, text.address, rfl, List.eq_of_mem_replicate h⟩
  | _ => cases h

theorem owner?_of_mem_tail {e t : Entry} (h : t ∈ e.tail) :
    t.owner?.isSome = true ∧ t.owner? = e.home? := by
  rcases mem_tail_cases h with ⟨decoded, index, rfl, rfl⟩ | ⟨-, head, home, rfl⟩
  · exact ⟨rfl, rfl⟩
  · exact ⟨rfl, home.symm⟩

/-- A later slot of a run begins nothing. -/
theorem home?_tail_of_width? {e : Entry} (h : e.width? = none) : e.home? = none ∧ e.tail = [] := by
  cases e <;> simp_all [width?, home?, tail]

theorem width?_of_mem_tail {e t : Entry} (h : t ∈ e.tail) : t.width? = none :=
  width?_eq_none_iff.mpr (owner?_of_mem_tail h).1

/-- A run is its first slot and its tail. -/
theorem length_tail {e : Entry} {w : Nat} (h : e.width? = some w) (pos : 0 < w) :
    e.tail.length + 1 = w := by
  cases e with
  | instruction decoded =>
    cases h
    simp only [tail, length_operandSlots, Instruction.width]
    omega
  | pointerTable address labels =>
    cases h
    simp only [tail, List.length_replicate]
    omega
  | encodedString text =>
    cases h
    simp only [tail, List.length_replicate]
    omega
  | operandSlot | continuation => cases h
  | unset | entrypoint | rawData =>
    cases h
    rfl

end Entry

/-- The slots behind slot `n` hold what the entry there says. -/
def TailAt (entries : Array Entry) (n : Nat) (e : Entry) : Prop :=
  ∀ {k t}, e.tail[k]? = some t → entries[n + 1 + k]? = some t

/-- What the entries of a script keep while it is explored. -/
structure Laid (entries : Array Entry) : Prop where
  home : ∀ {n e a}, entries[n]? = some e → e.home? = some a → a = 4 * n
  room : ∀ {n e w}, entries[n]? = some e → e.width? = some w → 0 < w ∧ n + w ≤ entries.size
  solid : ∀ {n e}, entries[n]? = some e → e.isTable = false → TailAt entries n e
  owned : ∀ {m e}, entries[m]? = some e → e.width? = none →
    ∃ n head k, entries[n]? = some head ∧ head.tail[k]? = some e ∧ m = n + 1 + k

/-- Every run is whole. -/
def Sealed (entries : Array Entry) : Prop :=
  ∀ n e, entries[n]? = some e → TailAt entries n e

theorem Laid.blank (size : Nat) : Laid (Array.replicate size .unset) := by
  have unset : ∀ {n e}, (Array.replicate size Entry.unset)[n]? = some e →
      e = .unset ∧ n < size := fun {n e} h => by
    rw [Array.getElem?_replicate] at h
    split at h
    · rename_i lt
      cases h
      exact ⟨rfl, lt⟩
    · cases h
  refine ⟨?_, ?_, ?_, ?_⟩
  · intro n e a at_n home
    obtain ⟨rfl, -⟩ := unset at_n
    cases home
  · intro n e w at_n width
    obtain ⟨rfl, lt⟩ := unset at_n
    cases width
    simp only [Array.size_replicate]
    omega
  · intro n e at_n _ k t tail
    obtain ⟨rfl, -⟩ := unset at_n
    cases tail
  · intro m e at_m width
    obtain ⟨rfl, -⟩ := unset at_m
    cases width

/-! ## Claiming free slots -/

/-- The entry `e` is put at slot `n`, and what it says stands behind it in some
of the free slots there, all of them unless it is a table. -/
structure Claims (before : Array Entry) (n : Nat) (e : Entry) (after : Array Entry) : Prop where
  size : after.size = before.size
  free : before[n]? = some .unset
  head : after[n]? = some e
  home : e.home? = some (4 * n)
  room : ∃ w, e.width? = some w ∧ 0 < w ∧ n + w ≤ before.size
  rest : ∀ {m}, m ≠ n → after[m]? = before[m]? ∨
    before[m]? = some .unset ∧ ∃ k t, m = n + 1 + k ∧ e.tail[k]? = some t ∧ after[m]? = some t
  solid : e.isTable = false → TailAt after n e

namespace Claims

variable {before after : Array Entry} {n : Nat} {e : Entry}

/-- What is claimed stays as it is. -/
theorem stays (c : Claims before n e after) {m : Nat} {old : Entry} (at_m : before[m]? = some old)
    (claimed : old ≠ .unset) : after[m]? = some old := by
  have other : m ≠ n := by
    rintro rfl
    rw [c.free] at at_m
    cases at_m
    exact claimed rfl
  rcases c.rest other with same | ⟨free, -⟩
  · rw [same, at_m]
  · rw [free] at at_m
    cases at_m
    exact absurd rfl claimed

/-- What stands somewhere afterwards stood there, is the entry, or belongs to it. -/
theorem cases_of_after (c : Claims before n e after) {m : Nat} {new : Entry}
    (at_m : after[m]? = some new) :
    before[m]? = some new ∨ (m = n ∧ new = e) ∨
      ∃ k, m = n + 1 + k ∧ e.tail[k]? = some new := by
  by_cases eq : m = n
  · subst eq
    rw [c.head] at at_m
    cases at_m
    exact .inr (.inl ⟨rfl, rfl⟩)
  · rcases c.rest eq with same | ⟨-, k, t, rfl, tail, at_k⟩
    · exact .inl (same ▸ at_m)
    · rw [at_k] at at_m
      cases at_m
      exact .inr (.inr ⟨k, rfl, tail⟩)

/-- The runs of others are not touched. -/
theorem tailAt (c : Claims before n e after) {m : Nat} {other : Entry}
    (h : TailAt before m other) : TailAt after m other := by
  intro k t tail
  refine c.stays (h tail) ?_
  rintro rfl
  have := Entry.width?_of_mem_tail (List.mem_of_getElem? tail)
  cases this

theorem laid (c : Claims before n e after) (h : Laid before) : Laid after := by
  have later : ∀ {t : Entry} {k : Nat}, e.tail[k]? = some t → t.width? = none :=
    fun tail => Entry.width?_of_mem_tail (List.mem_of_getElem? tail)
  refine ⟨?_, ?_, ?_, ?_⟩
  · intro m new a at_m home
    rcases c.cases_of_after at_m with old | ⟨rfl, rfl⟩ | ⟨k, rfl, tail⟩
    · exact h.home old home
    · rw [c.home] at home
      cases home
      rfl
    · rw [(Entry.home?_tail_of_width? (later tail)).1] at home
      cases home
  · intro m new w at_m width
    rw [c.size]
    rcases c.cases_of_after at_m with old | ⟨rfl, rfl⟩ | ⟨k, rfl, tail⟩
    · exact h.room old width
    · obtain ⟨v, known, pos, fits⟩ := c.room
      rw [known] at width
      cases width
      exact ⟨pos, fits⟩
    · rw [later tail] at width
      cases width
  · intro m new at_m open_
    rcases c.cases_of_after at_m with old | ⟨rfl, rfl⟩ | ⟨k, rfl, tail⟩
    · exact c.tailAt (h.solid old open_)
    · exact c.solid open_
    · intro j t inner
      rw [(Entry.home?_tail_of_width? (later tail)).2] at inner
      cases inner
  · intro m new at_m width
    rcases c.cases_of_after at_m with old | ⟨rfl, rfl⟩ | ⟨k, rfl, tail⟩
    · obtain ⟨p, head, k, at_p, tail, rfl⟩ := h.owned old width
      refine ⟨p, head, k, c.stays at_p ?_, tail, rfl⟩
      rintro rfl
      simp [Entry.tail] at tail
    · obtain ⟨v, known, -⟩ := c.room
      rw [known] at width
      cases width
    · exact ⟨n, e, k, c.head, tail, rfl⟩

theorem sealed (c : Claims before n e after) (h : Sealed before) (whole : TailAt after n e) :
    Sealed after := by
  intro m new at_m
  rcases c.cases_of_after at_m with old | ⟨rfl, rfl⟩ | ⟨k, rfl, tail⟩
  · exact c.tailAt (h m new old)
  · exact whole
  · intro j t inner
    have later := Entry.width?_of_mem_tail (List.mem_of_getElem? tail)
    rw [(Entry.home?_tail_of_width? later).2] at inner
    cases inner

end Claims

/-! ## Cutting and sealing a table -/

/-- What a table may seal: a slot that is free or its own. -/
def Entry.Loose (head : Nat) (e : Entry) : Prop :=
  e = .unset ∨ e = .continuation head ∨ ∃ address value, e = .rawData address value

/-- The table at slot `n` is cut down to its first `keep` labels, the slots it
keeps are sealed, and those it had sealed before and does not keep are freed. -/
structure Recut (before : Array Entry) (n : Nat) (labels : List String) (keep : Nat)
    (after : Array Entry) : Prop where
  size : after.size = before.size
  old : before[n]? = some (.pointerTable (4 * n) labels)
  new : after[n]? = some (.pointerTable (4 * n) (labels.take keep))
  pos : 0 < keep
  le : keep ≤ labels.length
  kept : ∀ {m}, n < m → m < n + keep → after[m]? = some (.continuation (4 * n)) ∧
    ∃ e, before[m]? = some e ∧ e.Loose (4 * n)
  freed : ∀ {m}, n + keep ≤ m → m < n + labels.length →
    before[m]? = some (.continuation (4 * n)) → after[m]? = some .unset
  rest : ∀ {m}, m ≠ n → ¬ (n < m ∧ m < n + keep) →
    ¬ (n + keep ≤ m ∧ m < n + labels.length ∧ before[m]? = some (.continuation (4 * n))) →
    after[m]? = before[m]?

namespace Recut

variable {before after : Array Entry} {n keep : Nat} {labels : List String}

/-- An entry that is not loose stays as it is. -/
theorem stays (c : Recut before n labels keep after) {m : Nat} {e : Entry}
    (at_m : before[m]? = some e) (other : m ≠ n) (fast : ¬ e.Loose (4 * n)) :
    after[m]? = some e := by
  rw [c.rest other, at_m]
  · rintro ⟨low, high⟩
    obtain ⟨-, e', at_m', loose⟩ := c.kept low high
    rw [at_m] at at_m'
    cases at_m'
    exact fast loose
  · rintro ⟨-, -, own⟩
    rw [at_m] at own
    cases own
    exact fast (.inr (.inl rfl))

theorem cases_of_after (c : Recut before n labels keep after) {m : Nat} {e : Entry}
    (at_m : after[m]? = some e) :
    (m = n ∧ e = .pointerTable (4 * n) (labels.take keep)) ∨
      (n < m ∧ m < n + keep ∧ e = .continuation (4 * n)) ∨ e = .unset ∨
      (before[m]? = some e ∧ m ≠ n ∧ ¬ (n < m ∧ m < n + keep) ∧
        ¬ (n + keep ≤ m ∧ m < n + labels.length ∧ e = .continuation (4 * n))) := by
  by_cases eq : m = n
  · subst eq
    rw [c.new] at at_m
    cases at_m
    exact .inl ⟨rfl, rfl⟩
  by_cases inner : n < m ∧ m < n + keep
  · rw [(c.kept inner.1 inner.2).1] at at_m
    cases at_m
    exact .inr (.inl ⟨inner.1, inner.2, rfl⟩)
  by_cases free : n + keep ≤ m ∧ m < n + labels.length ∧ before[m]? = some (.continuation (4 * n))
  · rw [c.freed free.1 free.2.1 free.2.2] at at_m
    cases at_m
    exact .inr (.inr (.inl rfl))
  · rw [c.rest eq inner free] at at_m
    refine .inr (.inr (.inr ⟨at_m, eq, inner, ?_⟩))
    rintro ⟨low, high, rfl⟩
    exact free ⟨low, high, at_m⟩

/-- What the cut table holds is whole. -/
theorem whole (c : Recut before n labels keep after) :
    TailAt after n (.pointerTable (4 * n) (labels.take keep)) := by
  intro k t tail
  have le := c.le
  obtain ⟨bound, rfl⟩ := List.getElem?_eq_some_iff.mp tail
  simp only [Entry.tail, List.length_replicate, List.length_take, Nat.min_eq_left le] at bound
  simp only [Entry.tail, List.getElem_replicate]
  exact (c.kept (by omega) (by omega)).1

/-- The runs of others are not touched. -/
theorem tailAt (c : Recut before n labels keep after) (h : Laid before) {m : Nat} {e : Entry}
    (at_m : before[m]? = some e) (other : m ≠ n) (whole : TailAt before m e) :
    TailAt after m e := by
  intro k t tail
  obtain ⟨owned, owner⟩ := Entry.owner?_of_mem_tail (List.mem_of_getElem? tail)
  obtain ⟨a, home⟩ := Option.isSome_iff_exists.mp (owner ▸ owned)
  have eq := h.home at_m home
  have fast : ¬ t.Loose (4 * n) := by
    rintro (rfl | rfl | ⟨_, _, rfl⟩)
    · cases owned
    · rw [home] at owner
      cases owner
      omega
    · cases owned
  by_cases at_n : m + 1 + k = n
  · -- The head of the table is nobody's tail.
    have := whole tail
    rw [at_n, c.old] at this
    cases this
    cases owned
  · exact c.stays (whole tail) at_n fast

theorem laid (c : Recut before n labels keep after) (h : Laid before) : Laid after := by
  have pos := c.pos
  have le := c.le
  have fits := (h.room c.old rfl).2
  refine ⟨?_, ?_, ?_, ?_⟩
  · intro m e a at_m home
    rcases c.cases_of_after at_m with ⟨rfl, rfl⟩ | ⟨-, -, rfl⟩ | rfl | ⟨old, -⟩
    · cases home
      rfl
    · cases home
    · cases home
    · exact h.home old home
  · intro m e w at_m width
    rw [c.size]
    rcases c.cases_of_after at_m with ⟨rfl, rfl⟩ | ⟨-, -, rfl⟩ | rfl | ⟨old, -⟩
    · cases width
      simp only [List.length_take]
      omega
    · cases width
    · cases width
      have := (Array.getElem?_eq_some_iff.mp at_m).1
      rw [c.size] at this
      omega
    · exact h.room old width
  · intro m e at_m open_
    rcases c.cases_of_after at_m with ⟨rfl, rfl⟩ | ⟨-, -, rfl⟩ | rfl | ⟨old, other, -⟩
    · cases open_
    · intro k t tail
      cases tail
    · intro k t tail
      cases tail
    · exact c.tailAt h old other (h.solid old open_)
  · intro m e at_m width
    rcases c.cases_of_after at_m with ⟨rfl, rfl⟩ | ⟨low, high, rfl⟩ | rfl | ⟨old, other, out, gone⟩
    · cases width
    · refine ⟨n, _, m - n - 1, c.new, ?_, by omega⟩
      rw [Entry.tail, List.getElem?_replicate, if_pos]
      simp only [List.length_take]
      omega
    · cases width
    · obtain ⟨p, head, k, at_p, tail, rfl⟩ := h.owned old width
      by_cases eq : p = n
      · -- What the table itself owned is sealed again or was freed.
        subst eq
        rw [c.old] at at_p
        cases at_p
        obtain ⟨bound, rfl⟩ := List.getElem?_eq_some_iff.mp tail
        simp only [Entry.tail, List.length_replicate] at bound
        exact absurd ⟨by omega, by omega, by simp [Entry.tail]⟩ gone
      · refine ⟨p, head, k, c.stays at_p eq ?_, tail, rfl⟩
        rintro (rfl | rfl | ⟨_, _, rfl⟩) <;> cases tail

end Recut
end EventScript
