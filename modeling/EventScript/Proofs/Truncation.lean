/-
What one correction of the tables does to a script.

Each table keeps a prefix of its labels, and is cut only at a slot that belonged
to something else before any table was corrected (`Prunes.tables`). That takes
the ascending order of the correction. To seal a slot of one table may claim it
for another; but a table that begins inside another is met by that other first,
which is then cut at its head, so what a correction seals lies behind the head of
no later table (`Corrected.claimed_later`). Cuts take labels away and add none.

Whatever the worklist led to, the tables are then sealed, no label names a slot
inside one, and a name is left where it stood as long as an entry mentions it.
-/
import EventScript.Proofs.ClosedListing

namespace EventScript

/-! ## What a correction leaves alone -/

/-- Entry points and instructions with their operands. -/
def Entry.IsCode : Entry → Prop
  | .entrypoint .. | .instruction _ | .operandSlot .. => True
  | _ => False

theorem Entry.IsCode.fast {e : Entry} (h : e.IsCode) (head : Nat) : ¬ e.Loose head := by
  rintro (rfl | rfl | ⟨_, _, rfl⟩)
  · exact h
  · exact h
  · exact h

theorem Entry.fast_pointerTable (address : Nat) (labels : List String) (head : Nat) :
    ¬ (Entry.pointerTable address labels).Loose head := by
  rintro (eq | eq | ⟨_, _, eq⟩)
  · cases eq
  · cases eq
  · cases eq

/-- An entry that no table may seal stands where it stood. -/
theorem Recut.fast_iff {before after : Array Entry} {n keep m : Nat} {labels : List String}
    (c : Recut before n labels keep after) {e : Entry} (fast : ∀ head, ¬ e.Loose head)
    (other : m ≠ n) : after[m]? = some e ↔ before[m]? = some e := by
  constructor
  · intro at_m
    rcases c.cases_of_after at_m with ⟨eq, -⟩ | ⟨-, -, rfl⟩ | rfl | ⟨same, -⟩
    · exact absurd eq other
    · exact absurd (.inr (.inl rfl)) (fast (4 * n))
    · exact absurd (.inl rfl) (fast 0)
    · exact same
  · intro at_m
    exact c.stays at_m other (fast _)

theorem Recut.table_iff {before after : Array Entry} {n keep m : Nat} {labels : List String}
    (c : Recut before n labels keep after) (other : m ≠ n) {address : Nat} {former : List String} :
    after[m]? = some (.pointerTable address former) ↔
      before[m]? = some (.pointerTable address former) :=
  c.fast_iff (Entry.fast_pointerTable address former) other

namespace Script

/-- Correcting a table claims no slot of a table further on. -/
theorem Corrected.claimed_later {before after : Script} {n keep : Nat} {labels : List String}
    (c : Corrected before n labels keep after) (sound : before.labels.Sound) {k m address : Nat}
    {later : List String} (table : before.entries[k]? = some (.pointerTable address later))
    (above : n < k) (behind : k < m) (claimed : after.claimedFrom (4 * k) (4 * m) = true) :
    before.claimedFrom (4 * k) (4 * m) = true := by
  rw [claimedFrom, entryAt?_slot, Bool.or_eq_true] at claimed ⊢
  rcases claimed with owned | named
  · left
    cases at_m : after.entries[m]? with
    | none =>
      rw [Array.getElem?_eq_none_iff, c.entries.size, ← Array.getElem?_eq_none_iff] at at_m
      rw [at_m]
    | some e =>
      rw [at_m] at owned
      rcases c.entries.cases_of_after at_m with ⟨rfl, -⟩ | ⟨-, high, -⟩ | rfl | ⟨same, -⟩
      · omega
      · -- the later table would begin at a slot that this one sealed
        obtain ⟨-, e', at_k, loose⟩ := c.entries.kept above (by omega)
        rw [table] at at_k
        cases at_k
        exact absurd loose (Entry.fast_pointerTable address later _)
      · cases owned
      · rw [same]
        exact owned
  · right
    by_contra unnamed
    rw [(c.gives sound).unnamed sound (by simpa using unnamed)] at named
    cases named

/-! ## Correcting some tables -/

/-- The table at slot `n` was cut: `kept` of its labels stay, `dropped` do not. -/
def Shortened (before after : Script) (n kept dropped : Nat) : Prop :=
  ∃ address labels, before.entries[n]? = some (.pointerTable address labels) ∧
    after.entries[n]? = some (.pointerTable address (labels.take kept)) ∧
    kept + dropped = labels.length ∧ 0 < dropped

theorem Shortened.changed {before after : Script} {n kept dropped : Nat}
    (h : Shortened before after n kept dropped) : after.entries[n]? ≠ before.entries[n]? := by
  obtain ⟨address, labels, old, new, sum, pos⟩ := h
  rw [old, new]
  intro same
  simp only [Option.some.injEq, Entry.pointerTable.injEq, true_and] at same
  have lengths := congrArg List.length same
  rw [List.length_take] at lengths
  omega

/-- What correcting the tables at some heads does. -/
structure Prunes (heads : List Nat) (before after : Script) : Prop where
  /-- A table keeps a prefix of its labels, and is cut only where it ran into
  something else. -/
  tables : ∀ {n address : Nat} {labels : List String},
    before.entries[n]? = some (.pointerTable address labels) →
    ∃ kept, 0 < kept ∧ kept ≤ labels.length ∧
      after.entries[n]? = some (.pointerTable address (labels.take kept)) ∧
      (kept < labels.length →
        4 * n ∈ heads ∧ before.claimedFrom (4 * n) (4 * (n + kept)) = true)
  /-- No table begins where none began. -/
  begins : ∀ {n address : Nat} {labels : List String},
    after.entries[n]? = some (.pointerTable address labels) →
    ∃ former, before.entries[n]? = some (.pointerTable address former)
  code : ∀ {n : Nat} {e : Entry}, e.IsCode →
    (after.entries[n]? = some e ↔ before.entries[n]? = some e)
  names : ∀ {name : String} {address : Nat}, name ∈ after.labels.namesAt address →
    name ∈ before.labels.namesAt address
  /-- The cuts are noted, each once and in ascending order. -/
  notes : ∃ added, after.diagnostics = before.diagnostics ++ added ∧
    added.Pairwise (fun a b => a.address < b.address) ∧
    ∀ note, note ∈ added ↔ ∃ n kept dropped, Shortened before after n kept dropped ∧
      note = ⟨4 * n, .tableOverrun kept dropped⟩

/-- Where nothing is corrected nothing changes. -/
theorem Prunes.none {heads : List Nat} {script : Script} (laid : Laid script.entries) :
    Prunes heads script script where
  tables := by
    intro n address labels table
    refine ⟨labels.length, (laid.room table rfl).1, Nat.le_refl _, ?_, ?_⟩
    · rw [List.take_length, table]
    · intro lt
      exact absurd lt (Nat.lt_irrefl _)
  begins := fun table => ⟨_, table⟩
  code := fun _ => Iff.rfl
  names := id
  notes := by
    refine ⟨[], by simp, .nil, fun note => ?_⟩
    simp only [List.not_mem_nil, false_iff]
    rintro ⟨n, kept, dropped, short, -⟩
    exact short.changed rfl

/-- Tables at other heads are not touched. -/
theorem Prunes.untouched {heads : List Nat} {before after : Script} (h : Prunes heads before after)
    {n address : Nat} (out : 4 * n ∉ heads) {labels : List String} :
    after.entries[n]? = some (.pointerTable address labels) ↔
      before.entries[n]? = some (.pointerTable address labels) := by
  have whole : ∀ {former : List String},
      before.entries[n]? = some (.pointerTable address former) →
      after.entries[n]? = some (.pointerTable address former) := by
    intro former table
    obtain ⟨kept, -, le, new, cut⟩ := h.tables table
    by_cases short : kept < former.length
    · exact absurd (cut short).1 out
    · rw [new, List.take_of_length_le (by omega)]
  constructor
  · intro new
    obtain ⟨former, table⟩ := h.begins new
    rw [whole table] at new
    cases new
    exact table
  · exact whole

theorem Shortened.mem_heads {heads : List Nat} {before after : Script} {n kept dropped : Nat}
    (short : Shortened before after n kept dropped) (h : Prunes heads before after) :
    4 * n ∈ heads := by
  by_contra out
  obtain ⟨address, labels, old, -⟩ := id short
  exact short.changed (((h.untouched out).mpr old).trans old.symm)

/-- Correcting a table shortens that table or none. -/
theorem Corrected.shortened_iff {before after : Script} {n keep : Nat} {labels : List String}
    (c : Corrected before n labels keep after) {m kept dropped : Nat} :
    Shortened before after m kept dropped ↔
      m = n ∧ keep < labels.length ∧ kept = keep ∧ dropped = labels.length - keep := by
  have le := c.entries.le
  constructor
  · intro short
    have eq : m = n := by
      by_contra other
      obtain ⟨address, former, table, -⟩ := id short
      exact short.changed (((c.entries.table_iff other).mpr table).trans table.symm)
    subst eq
    obtain ⟨address, former, table, cut, sum, pos⟩ := short
    rw [c.entries.old] at table
    cases table
    rw [c.entries.new] at cut
    simp only [Option.some.injEq, Entry.pointerTable.injEq, true_and] at cut
    have lengths := congrArg List.length cut
    rw [List.length_take, List.length_take] at lengths
    omega
  · rintro ⟨rfl, short, rfl, rfl⟩
    exact ⟨_, labels, c.entries.old, c.entries.new, by omega, by omega⟩

/-- **Correcting one table.** -/
theorem Corrected.prunes {before after : Script} {n keep : Nat} {labels : List String}
    (c : Corrected before n labels keep after) (laid : Laid before.entries)
    (sound : before.labels.Sound)
    (claimed : keep < labels.length → before.claimedFrom (4 * n) (4 * (n + keep)) = true) :
    Prunes [4 * n] before after := by
  have old := c.entries.old
  have new := c.entries.new
  refine ⟨?_, ?_, ?_, ?_, ?_⟩
  · intro m address former table
    by_cases eq : m = n
    · subst eq
      rw [old] at table
      cases table
      exact ⟨keep, c.entries.pos, c.entries.le, new, fun short => ⟨by simp, claimed short⟩⟩
    · refine ⟨former.length, (laid.room table rfl).1, Nat.le_refl _, ?_, ?_⟩
      · rw [List.take_length, c.entries.table_iff eq, table]
      · intro lt
        exact absurd lt (Nat.lt_irrefl _)
  · intro m address former table
    by_cases eq : m = n
    · subst eq
      rw [new] at table
      cases table
      exact ⟨labels, old⟩
    · exact ⟨former, (c.entries.table_iff eq).mp table⟩
  · intro m e code
    by_cases eq : m = n
    · subst eq
      have table : ∀ {other : List String}, some (.pointerTable (4 * m) other) ≠ some e := by
        intro other same
        cases same
        exact code
      rw [old, new]
      exact iff_of_false table table
    · exact c.entries.fast_iff code.fast eq
  · intro name address mem
    exact (((c.gives sound).kept name address).mp mem).1
  · refine ⟨_, c.diagnostics, ?_, ?_⟩
    · split
      · exact List.pairwise_singleton ..
      · exact .nil
    · intro note
      by_cases short : keep < labels.length
      · simp [c.shortened_iff, short]
      · simp [c.shortened_iff, short]

/-- One table is corrected, and then others further on. -/
theorem Prunes.cons {head : Nat} {rest : List Nat} {before middle after : Script}
    (first : Prunes [head] before middle) (more : Prunes rest middle after)
    (above : ∀ other ∈ rest, head < other)
    (later : ∀ {n m address : Nat} {labels : List String},
      before.entries[n]? = some (.pointerTable address labels) → head < 4 * n → n < m →
      middle.claimedFrom (4 * n) (4 * m) = true → before.claimedFrom (4 * n) (4 * m) = true) :
    Prunes (head :: rest) before after := by
  have done : head ∉ rest := by
    intro mem
    exact absurd (above head mem) (Nat.lt_irrefl _)
  refine ⟨?_, ?_, ?_, ?_, ?_⟩
  · intro n address labels table
    by_cases eq : 4 * n = head
    · obtain ⟨kept, pos, le, at_n, cut⟩ := first.tables table
      refine ⟨kept, pos, le, (more.untouched (eq ▸ done)).mpr at_n, ?_⟩
      intro short
      exact ⟨by simp [eq], (cut short).2⟩
    · have at_n := (first.untouched (by simpa using eq)).mpr table
      obtain ⟨kept, pos, le, at_n, cut⟩ := more.tables at_n
      refine ⟨kept, pos, le, at_n, ?_⟩
      intro short
      obtain ⟨mem, claimed⟩ := cut short
      exact ⟨List.mem_cons_of_mem _ mem, later table (above _ mem) (by omega) claimed⟩
  · intro n address labels table
    obtain ⟨_, at_n⟩ := more.begins table
    exact first.begins at_n
  · intro n e code
    exact (more.code code).trans (first.code code)
  · intro name address mem
    exact first.names (more.names mem)
  · obtain ⟨added, grown, sorted, noted⟩ := first.notes
    obtain ⟨extra, grown', sorted', noted'⟩ := more.notes
    refine ⟨added ++ extra, by rw [grown', grown, List.append_assoc], ?_, ?_⟩
    · refine List.pairwise_append.mpr ⟨sorted, sorted', ?_⟩
      intro a mem b mem'
      obtain ⟨n, _, _, short, rfl⟩ := (noted a).mp mem
      obtain ⟨m, _, _, short', rfl⟩ := (noted' b).mp mem'
      have eq : 4 * n = head := List.mem_singleton.mp (short.mem_heads first)
      have lt := above _ (short'.mem_heads more)
      simp only
      omega
    · intro note
      rw [List.mem_append, noted, noted']
      constructor
      · rintro (⟨n, kept, dropped, short, rfl⟩ | ⟨n, kept, dropped, short, rfl⟩)
        · have eq : 4 * n = head := List.mem_singleton.mp (short.mem_heads first)
          obtain ⟨address, labels, old, new, sum⟩ := short
          have new := (more.untouched (eq ▸ done)).mpr new
          exact ⟨n, kept, dropped, ⟨address, labels, old, new, sum⟩, rfl⟩
        · have lt := above _ (short.mem_heads more)
          obtain ⟨address, labels, old, new, sum⟩ := short
          have old := (first.untouched (by simp; omega)).mp old
          exact ⟨n, kept, dropped, ⟨address, labels, old, new, sum⟩, rfl⟩
      · rintro ⟨n, kept, dropped, ⟨address, labels, old, new, sum⟩, rfl⟩
        by_cases eq : 4 * n = head
        · have new := (more.untouched (eq ▸ done)).mp new
          exact .inl ⟨n, kept, dropped, ⟨address, labels, old, new, sum⟩, rfl⟩
        · have old := (first.untouched (by simpa using eq)).mpr old
          exact .inr ⟨n, kept, dropped, ⟨address, labels, old, new, sum⟩, rfl⟩

/-- **Correcting tables in ascending order.** -/
theorem correctTables_prunes {heads : List Nat} {script : Script} (laid : Laid script.entries)
    (sound : script.labels.Sound) (ascending : heads.Pairwise (· < ·)) :
    Prunes heads script (heads.foldl correctTable script) := by
  induction heads generalizing script with
  | nil => exact .none laid
  | cons head rest ih =>
    obtain ⟨above, sorted⟩ := List.pairwise_cons.mp ascending
    have laid' := correctTable_laid laid head
    obtain ⟨same, -⟩ | ⟨n, labels, _, rfl, c⟩ := correctTable_cases laid head
    · rw [List.foldl_cons, same]
      exact (Prunes.none laid).cons (ih laid sound sorted) above fun _ _ _ claimed => claimed
    · replace c := correctTable_corrected laid c.entries.old
      have sound' := (c.gives sound).sound
      refine (c.prunes laid sound ?_).cons (ih laid' sound' sorted) above ?_
      · intro short
        rw [Nat.mul_add]
        exact ownSlots_claimed (by omega)
      · intro k m address later table lt behind claimed
        exact c.claimed_later sound table (by omega) behind claimed

theorem tableHeads_ascending (script : Script) : script.tableHeads.Pairwise (· < ·) := by
  refine List.Pairwise.filterMap _ ?_ (headsFrom_ascending script.entries.toList 0)
  rintro ⟨a, e⟩ ⟨b, e'⟩ lt x mem y mem'
  split at mem
  · split at mem'
    · simp_all
    · cases mem'
  · cases mem

/-! ## Correcting every table -/

/-- What correcting every table of a script does. Besides, the tables are then
sealed, no label names a slot inside one, and a name is left where it stood just
if an entry still mentions it. -/
structure Corrects (before after : Script) : Prop extends
    Prunes before.tableHeads before after where
  inside : ∀ {n m address : Nat} {labels : List String},
    after.entries[n]? = some (.pointerTable address labels) → n < m → m < n + labels.length →
    after.entries[m]? = some (.continuation address) ∧ after.labels.contains (4 * m) = false
  mentioned : ∀ name address, name ∈ after.labels.namesAt address ↔
    name ∈ before.labels.namesAt address ∧
      ∃ (m : Nat) (e : Entry), after.entries[m]? = some e ∧ name ∈ e.names

end Script

theorem Balanced.mentioned_iff {image : Image} {script : Script} (h : Balanced image script)
    {name : String} : (∃ address, name ∈ script.labels.namesAt address) ↔
      ∃ (n : Nat) (e : Entry), script.entries[n]? = some e ∧ name ∈ e.names := by
  rw [← h.sound.counted, h.counted, Script.mentions, List.count_pos_iff, List.mem_flatMap]
  simp only [Array.mem_toList_iff, Array.mem_iff_getElem?]
  constructor
  · rintro ⟨e, ⟨n, at_n⟩, mem⟩
    exact ⟨n, e, at_n, mem⟩
  · rintro ⟨n, e, at_n, mem⟩
    exact ⟨e, ⟨n, at_n⟩, mem⟩

namespace Recovery

/-- **Correcting the tables** of whatever moves lead to. -/
theorem Moves.corrects {image : Image} {script : Script}
    (moves : Moves image (.blank image.size) script) : script.Corrects script.correctOverruns := by
  have explored := moves.explored (.blank image)
  have balanced := moves.balanced (.blank image) (.blank image _)
  have prunes := Script.correctTables_prunes explored.laid balanced.sound
    script.tableHeads_ascending
  have settled := correctOverruns_settled explored.laid balanced.sound
  have corrected : Moves image (.blank image.size) script.correctOverruns :=
    moves.trans (correctOverruns_moves image script)
  have balanced' := corrected.balanced (.blank image) (.blank image _)
  refine ⟨prunes, ?_, ?_⟩
  · intro n m address labels table low high
    refine ⟨?_, settled.clear table low high⟩
    have own : (Entry.pointerTable address labels).tail[m - (n + 1)]? =
        some (.continuation address) := by
      rw [Entry.tail, List.getElem?_replicate, if_pos (by omega)]
    have at_m := settled.sealed n _ table own
    rwa [show n + 1 + (m - (n + 1)) = m by omega] at at_m
  · intro name address
    constructor
    · intro mem
      exact ⟨prunes.names mem, balanced'.mentioned_iff.mp ⟨address, mem⟩⟩
    · rintro ⟨mem, mentioned⟩
      obtain ⟨other, mem'⟩ := balanced'.mentioned_iff.mpr mentioned
      rw [balanced.sound.unique mem (prunes.names mem')]
      exact mem'

/-! ## Runs -/

/-- A session of a run whose worklist was just worked off: that of the entry
points, or that of the extra branches. -/
inductive Drained (setting : Setting) (stats : Stats) : Session → Prop
  | entrypoints {s : Session}
      (drained : drain setting ((Session.named setting stats).ask
        (Session.named setting stats).script.entrypoints) = .ok s) : Drained setting stats s
  | extraBranches {s t : Session}
      (first : drain setting ((Session.named setting stats).ask
        (Session.named setting stats).script.entrypoints) = .ok s)
      (extra : setting.options.extraBranches ≠ [])
      (drained : drain setting (s.correct.ask setting.options.extraBranches) = .ok t) :
      Drained setting stats t

theorem Drained.moves {setting : Setting} {stats : Stats} {s : Session}
    (h : Drained setting stats s) : Moves setting.image (.blank setting.image.size) s.script := by
  have named := named_moves setting.image setting.options.maxEntrypoints
  cases h with
  | entrypoints drained => exact named.trans (drain_moves drained).1
  | extraBranches first _ drained =>
    have found := named.trans (drain_moves first).1
    exact (found.trans (correctOverruns_moves _ _)).trans (drain_moves drained).1

theorem drained_within (setting : Setting) (stats : Stats) (fuel : Nat) (p : Session → Prop)
    [DecidablePred p]
    (ends : (drainWithin setting fuel ((Session.named setting stats).ask
      (Session.named setting stats).script.entrypoints)).any fun s => decide (p s)) :
    ∃ s, Drained setting stats s ∧ p s := by
  obtain ⟨s, drained, holds⟩ := (Option.any_eq_true ..).mp ends
  exact ⟨s, .entrypoints (drain_of_drainWithin drained), of_decide_eq_true holds⟩

theorem exploreBranches_ok {setting : Setting} {addresses : List Nat} {s t : Session}
    (h : exploreBranches setting addresses s = .ok t) :
    ∃ u, drain setting (s.ask addresses) = .ok u ∧ t = u.correct := by
  rw [exploreBranches, pushAll_branches] at h
  split at h
  · cases h
  · rename_i u drained
    cases h
    exact ⟨u, drained, rfl⟩

/-- Exploration ends with a correction of the tables. -/
theorem explore_drained {setting : Setting} {stats : Stats} {t : Session}
    (h : explore setting stats = .ok t) : ∃ s, Drained setting stats s ∧ t = s.correct := by
  rw [explore] at h
  split at h
  · cases h
  rename_i u first
  obtain ⟨s, drained, rfl⟩ := exploreBranches_ok first
  split at h
  · cases h
    exact ⟨s, .entrypoints drained, rfl⟩
  · rename_i extra
    obtain ⟨v, again, rfl⟩ := exploreBranches_ok h
    exact ⟨v, .extraBranches drained (by simpa using extra) again, rfl⟩

/-- **Overrun correction.** Whenever the worklist was worked off, correcting the
tables cuts each at what it ran into, if anything, notes the cuts, and leaves the
code and the names that are still mentioned. So no label of a recovered script
points inside a table. -/
theorem correctOverruns_corrects (catalogue : Catalogue) (options : Options) (image : Image) :
    (∀ stats s, Drained ⟨image, catalogue, options⟩ stats s →
      s.script.Corrects s.script.correctOverruns) ∧
    ∀ script, disassemble catalogue options image = .ok script →
      ∀ (n address : Nat) (labels : List String),
        script.entries[n]? = some (.pointerTable address labels) →
        ∀ label, address < label → label < address + 4 * labels.length →
          script.labels.contains label = false := by
  refine ⟨fun stats s drained => Moves.corrects drained.moves, ?_⟩
  intro script h n address labels table label low high
  have moves := disassemble_moves h
  have home : address = 4 * n := (moves.explored (.blank image)).laid.home table rfl
  have balanced := moves.balanced (.blank image) (.blank image _)
  obtain ⟨t, explored, rfl⟩ := disassemble_cases h
  obtain ⟨s, drained, rfl⟩ := explore_drained explored
  by_contra named
  rw [Bool.not_eq_false] at named
  obtain ⟨name, mem⟩ := List.exists_mem_of_ne_nil _ ((balanced.sound.listed label).mp named)
  -- a label stands at a slot, and no slot inside the table has one
  have aligned := (balanced.landed mem).1
  obtain ⟨m, rfl⟩ : ∃ m, label = 4 * m := ⟨label / 4, by omega⟩
  have above : n < m := by omega
  obtain ⟨-, clear⟩ := (Moves.corrects drained.moves).inside (settle_found table id) above
    (by omega)
  rw [settle_eq] at named
  exact absurd named (by simpa [Session.correct] using clear)

/-- An entry point; a `gosub_table` through the table of four behind the code,
whose first and third entry name one return; a `mov` that points at the third;
the three returns. -/
def overrunImage : Image := #[
  0x00000004,
  0x0000024a, 0x02000000, 0x09000007,
  0x00000208, 0x09000006, 0x02000001,
  0x00000049,
  0x00000004, 0x00000005, 0x00000004, 0x00000006,
  0x00000049, 0x00000049, 0x00000049]

theorem correctOverruns_corrects_overrun :
    (∃ s, Drained ⟨overrunImage, {}, {}⟩ {} s ∧ s.script.Corrects s.script.correctOverruns ∧
      s.script.Shortened s.script.correctOverruns 8 2 2) ∧
    ∃ script, disassemble {} {} overrunImage = .ok script ∧
      script.entries[8]? = some (.pointerTable 32 ["LABEL_2", "LABEL_3"]) ∧
      script.labels.contains 36 = false := by
  obtain ⟨corrects, clear⟩ := correctOverruns_corrects {} {} overrunImage
  constructor
  · obtain ⟨s, drained, old, new⟩ := drained_within ⟨overrunImage, {}, {}⟩ {} 16
      (fun s => s.script.entries[8]? =
          some (.pointerTable 32 ["LABEL_2", "LABEL_3", "LABEL_2", "LABEL_4"]) ∧
        s.script.correctOverruns.entries[8]? = some (.pointerTable 32 ["LABEL_2", "LABEL_3"]))
      (by decide +kernel)
    exact ⟨s, drained, corrects {} s drained, 32, _, old, new, rfl, by decide⟩
  · obtain ⟨script, h, table⟩ := disassemble_within_holds {} {} overrunImage 16
      (fun script => script.entries[8]? = some (.pointerTable 32 ["LABEL_2", "LABEL_3"]))
      (by decide +kernel)
    exact ⟨script, h, table, clear script h 8 32 _ table 36 (by decide) (by decide)⟩

end Recovery

end EventScript
