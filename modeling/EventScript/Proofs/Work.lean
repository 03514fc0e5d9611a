/-
How much work a recovery is. Every probe that does anything visits an address
for the first time, every instruction is decoded once, and a header is read in
vain at most once a branch; so the counters say how many addresses were visited,
and the image and the extra branches bound them (`Worked`).

The worklist grows while it is worked off. What ends the work is a measure of
where exploration stands (`Point.rest`): the addresses still unvisited, then
what is left of the image behind the cursor, then what is queued. Each step of
the machine lowers it.
-/
import Mathlib.Data.Prod.Lex
import Mathlib.Data.Finset.Card
import Mathlib.Order.WellFounded
import EventScript.Proofs.Independence
import EventScript.Proofs.Successor

namespace EventScript

/-! ## Counting instructions -/

/-- The slots where instructions begin. -/
def Script.codeSlots (script : Script) : Finset Nat :=
  (script.entries.toList.findIdxs fun e => e matches .instruction _).toFinset

theorem mem_codeSlots {script : Script} {n : Nat} :
    n ∈ script.codeSlots ↔ ∃ decoded, script.entries[n]? = some (.instruction decoded) := by
  rw [Script.codeSlots, List.mem_toFinset, List.mem_findIdxs_iff_exists_getElem_pos]
  constructor
  · rintro ⟨inside, isCode⟩
    split at isCode
    · rename_i decoded eq
      refine ⟨decoded, ?_⟩
      rw [← eq, ← Array.getElem?_toList, List.getElem?_eq_getElem inside]
    · cases isCode
  · rintro ⟨decoded, at_n⟩
    rw [← Array.getElem?_toList] at at_n
    obtain ⟨inside, eq⟩ := List.getElem?_eq_some_iff.mp at_n
    exact ⟨inside, by rw [eq]⟩

/-- There are as many instructions as slots where one begins. -/
theorem card_codeSlots (script : Script) :
    script.codeSlots.card = script.instructions.length := by
  rw [Script.codeSlots, List.toFinset_card_of_nodup List.nodup_findIdxs, List.length_findIdxs,
    Script.instructions, List.length_filterMap_eq_countP]
  refine List.countP_congr fun e _ => ?_
  cases e <;> simp

namespace Recovery

/-- A script with the same instructions has as many. -/
theorem length_instructions_congr {s t : Script}
    (kept : ∀ {n : Nat} {decoded : Instruction},
      s.entries[n]? = some (.instruction decoded) → t.entries[n]? = some (.instruction decoded))
    (found : ∀ {n : Nat} {decoded : Instruction},
      t.entries[n]? = some (.instruction decoded) → s.entries[n]? = some (.instruction decoded)) :
    t.instructions.length = s.instructions.length := by
  rw [← card_codeSlots, ← card_codeSlots]
  congr 1
  ext n
  rw [mem_codeSlots, mem_codeSlots]
  exact ⟨fun ⟨decoded, at_n⟩ => ⟨decoded, found at_n⟩, fun ⟨decoded, at_n⟩ => ⟨decoded, kept at_n⟩⟩

/-- Taking an instruction makes one more. -/
theorem takeInstruction_length {setting : Setting} {read : Instruction} {next : Nat} {flow : Flow}
    {s t : Session} (explored : Explored setting.image s.script)
    (readable : Readable setting.image s.script read)
    (taken : takeInstruction setting read next s = .ok (flow, t)) :
    t.script.instructions.length = s.script.instructions.length + 1 := by
  obtain ⟨there, cases_of⟩ := takeInstruction_instructions explored readable taken
  have grows := (takeInstruction_moves readable taken).grows explored
  have new : read.address / 4 ∉ s.script.codeSlots := by
    rw [mem_codeSlots]
    rintro ⟨decoded, at_n⟩
    rw [(Script.entryAt?_eq_some readable.free).2] at at_n
    cases at_n
  rw [← card_codeSlots, ← card_codeSlots, ← Finset.card_insert_of_notMem new]
  congr 1
  ext n
  rw [Finset.mem_insert, mem_codeSlots, mem_codeSlots]
  constructor
  · rintro ⟨decoded, at_n⟩
    rcases cases_of at_n with old | ⟨rfl, -⟩
    · exact .inr ⟨decoded, old⟩
    · exact .inl rfl
  · rintro (rfl | ⟨decoded, at_n⟩)
    · exact ⟨_, there⟩
    · exact ⟨decoded, grows.instructions at_n⟩

/-! ## What steps do to the counters -/

theorem size_insert_of_notMem {visited : AddressSet} {a : Nat} (new : a ∉ visited) :
    (visited.insert a).size = visited.size + 1 := by
  rw [Std.ExtTreeSet.size_insert, if_neg (by simpa using new)]

/-- Reading an instruction counts a header, and may note problems. -/
theorem readInstruction_counts {setting : Setting} {cursor : Nat} {found : Option Instruction}
    {s t : Session} (h : readInstruction setting cursor s = .ok (found, t)) :
    ∃ noted, t = { s with
      script.diagnostics := s.script.diagnostics ++ noted
      stats.headersDecoded := s.stats.headersDecoded + 1 } := by
  rw [readInstruction] at h
  simp only at h
  split at h
  · cases h
    exact ⟨_, rfl⟩
  rename_i header _
  split at h
  · cases h
  split at h
  · rename_i problem _
    cases h
    refine ⟨(readOperands setting.image s.script.entries cursor header.operandCount
      (cursor + 4)).1 ++ [⟨cursor, problem⟩], ?_⟩
    rw [← List.append_assoc]
    rfl
  · cases h
    exact ⟨_, rfl⟩

/-- What the things on the side of an instruction do to the counters. -/
structure Tallies (s t : Session) : Prop where
  headers : t.stats.headersDecoded = s.stats.headersDecoded
  branches : t.stats.branchesProbed = s.stats.branchesProbed
  tables : t.stats.tablesProbed + s.script.tableAddresses.size =
    s.stats.tablesProbed + t.script.tableAddresses.size

theorem Tallies.rfl {s : Session} : Tallies s s := ⟨Eq.refl _, Eq.refl _, Eq.refl _⟩

theorem Tallies.trans {s t u : Session} (h : Tallies s t) (k : Tallies t u) : Tallies s u where
  headers := k.headers.trans h.headers
  branches := k.branches.trans h.branches
  tables := by
    have := h.tables
    have := k.tables
    omega

/-- A table that is scanned was not before, and is counted. -/
theorem probeTable_tallies {setting : Setting} {a : Nat} {kind : TableKind} {role : Role}
    {s t : Session} (h : probeTable setting a kind role s = .ok t) : Tallies s t := by
  obtain ⟨-, rfl⟩ | ⟨destinations, scans⟩ := probeTable_cases h
  · exact .rfl
  · refine ⟨by rw [scans.stats], by rw [scans.stats], ?_⟩
    rw [scans.stats, scans.tables, size_insert_of_notMem scans.new]
    simp only
    omega

theorem probeData_tallies (setting : Setting) (a : Nat) (texts : Bool) (s : Session) :
    Tallies s (probeData setting a texts s) := by
  rw [probeData]
  split
  · simp only
    split
    · exact ⟨rfl, rfl, rfl⟩
    · split <;> exact ⟨rfl, rfl, rfl⟩
  · exact .rfl

theorem Side.tallies {setting : Setting} {s t : Session} (h : Side setting s t) :
    Tallies s t := by
  cases h with
  | note => exact ⟨rfl, rfl, rfl⟩
  | record role a => cases role <;> exact ⟨rfl, rfl, rfl⟩
  | queue => exact ⟨rfl, rfl, rfl⟩
  | request => exact ⟨rfl, rfl, rfl⟩
  | table scanned => exact probeTable_tallies scanned
  | data => exact probeData_tallies ..

theorem Sides.tallies {setting : Setting} {s t : Session} (h : Sides setting s t) :
    Tallies s t := by
  induction h with
  | refl => exact .rfl
  | tail _ side ih => exact ih.trans side.tallies

/-! ## What the counters count -/

/-- How many headers may still be read in vain before the next branch. -/
def Stage.open : Stage → Nat
  | .idle => 0
  | .decoding .. => 1

/-- The counters say what was visited, and the headers what was decoded: a
header is read for each instruction, and at most one more for each branch. -/
structure Counted (p : Point) : Prop where
  branches : p.session.stats.branchesProbed = p.session.script.branches.size
  tables : p.session.stats.tablesProbed = p.session.script.tableAddresses.size
  decoded : p.session.script.instructions.length ≤ p.session.stats.headersDecoded
  inVain : p.session.stats.headersDecoded + p.stage.open ≤
    p.session.script.instructions.length + p.session.stats.branchesProbed

/-- Whatever leaves the branches and the instructions, and scans some tables. -/
theorem Counted.quiet {p : Point} (h : Counted p) {stage : Stage} {t : Session}
    (tallies : Tallies p.session t) (branches : t.script.branches = p.session.script.branches)
    (instructions : t.script.instructions.length = p.session.script.instructions.length)
    (left : stage.open ≤ p.stage.open) : Counted ⟨stage, t⟩ := by
  obtain ⟨headers, probed, tables⟩ := tallies
  obtain ⟨counted, scanned, decoded, inVain⟩ := h
  refine ⟨?_, ?_, ?_, ?_⟩
  · rw [probed, branches, counted]
  · rw [scanned] at tables
    simp only
    omega
  · rw [instructions, headers]
    exact decoded
  · simp only
    rw [instructions, headers, probed]
    omega

theorem Step.counted {setting : Setting} {p q : Point} (step : Step setting p q)
    (explored : Explored setting.image p.session.script) (h : Counted p) : Counted q := by
  have grows := step.moves.grows explored
  cases step with
  | seen => exact h.quiet ⟨rfl, rfl, rfl⟩ rfl rfl (Nat.le_refl _)
  | @begun s a rest pending new =>
    obtain ⟨counted, scanned, decoded, inVain⟩ := h
    refine ⟨?_, scanned, decoded, Nat.succ_le_succ inVain⟩
    simp only [Session.enter, size_insert_of_notMem new]
    exact congrArg (· + 1) counted
  | table _ scanned =>
    have adds := probeTable_adds scanned
    obtain ⟨headers, probed, tables⟩ := probeTable_tallies scanned
    exact h.quiet ⟨headers, probed, tables⟩ adds.branches
      (length_instructions_congr grows.instructions adds.script.instructions) (Nat.le_refl _)
  | out => exact h.quiet .rfl rfl rfl (Nat.zero_le _)
  | joined => exact h.quiet .rfl rfl rfl (Nat.zero_le _)
  | blocked => exact h.quiet ⟨rfl, rfl, rfl⟩ rfl rfl (Nat.zero_le _)
  | unread _ _ read =>
    obtain ⟨noted, rfl⟩ := readInstruction_counts read
    obtain ⟨counted, scanned, decoded, inVain⟩ := h
    exact ⟨counted, scanned, Nat.le_succ_of_le decoded, inVain⟩
  | @taken start cursor s t u read flow inside free found taken =>
    have adds := (takeInstruction_sides taken).adds
    obtain ⟨headers, probed, tables⟩ := (takeInstruction_sides taken).tallies
    obtain ⟨rfl, readable⟩ := readInstruction_readable found free
    have more := takeInstruction_length
      ((readInstruction_adds found).script.moves.explored explored) readable taken
    obtain ⟨noted, rfl⟩ := readInstruction_counts found
    obtain ⟨counted, scanned, decoded, inVain⟩ := h
    have branches := adds.branches.trans (placeInstruction_branches ..)
    have stage : (flow.stage start (read.address + 4 * read.width)).open ≤ 1 := by
      cases flow <;> simp [Flow.stage, Stage.open]
    have more : u.script.instructions.length = s.script.instructions.length + 1 := more
    have inVain : s.stats.headersDecoded + 1 ≤
        s.script.instructions.length + s.stats.branchesProbed := inVain
    simp only [placeInstruction_tableAddresses] at headers probed tables counted scanned decoded
    refine ⟨?_, ?_, ?_, ?_⟩
    · rw [probed, branches, counted]
    · simp only
      omega
    · simp only
      omega
    · simp only
      omega

theorem correctOverruns_still {image : Image} {script : Script}
    (explored : Explored image script) :
    script.correctOverruns.branches = script.branches ∧
      script.correctOverruns.tableAddresses = script.tableAddresses := by
  rw [Script.correctOverruns]
  generalize script.tableHeads = heads
  induction heads generalizing script with
  | nil => exact ⟨rfl, rfl⟩
  | cons head rest ih =>
    obtain ⟨branches, tables⟩ := ih (explored.move (@Move.correct _ _ _ head rfl))
    obtain ⟨same, -⟩ | ⟨n, labels, keep, -, c⟩ := Script.correctTable_cases explored.laid head
    · rw [same] at branches tables
      rw [List.foldl_cons, same]
      exact ⟨branches, tables⟩
    · exact ⟨branches.trans c.branches, tables.trans c.tables⟩

theorem explore_counted (setting : Setting) :
    Exploring setting {} fun s => Counted ⟨.idle, s⟩ where
  named := by
    obtain ⟨branches, tables, none⟩ :=
      named_unexplored setting.image setting.options.maxEntrypoints
    have empty : (Session.named setting {}).script.instructions.length = 0 := by
      rw [← card_codeSlots, Finset.card_eq_zero, Finset.eq_empty_iff_forall_notMem]
      intro n mem
      obtain ⟨decoded, at_n⟩ := mem_codeSlots.mp mem
      exact none at_n
    refine ⟨?_, ?_, ?_, ?_⟩
    · simp [Session.named, branches]
    · simp [Session.named, tables]
    · simp only [empty]
      exact Nat.zero_le _
    · simp [Session.named, Stage.open]
  ask := fun _ h => ⟨h.branches, h.tables, h.decoded, h.inVain⟩
  run := fun explored steps h => Steps.invariant Step.counted steps explored h
  correct := fun {s} explored h => by
    obtain ⟨branches, tables⟩ := correctOverruns_still explored
    have grows := (correctOverruns_moves setting.image s.script).grows explored
    refine h.quiet ⟨rfl, rfl, ?_⟩ branches ?_ (Nat.le_refl _)
    · simp [Session.correct, tables]
    · exact length_instructions_congr grows.instructions (correctOverruns_instructions explored)

/-! ## What was probed -/

/-- Code is only looked for where it can stand, or where it was asked for. -/
structure Aimed (setting : Setting) (s : Session) : Prop where
  queued : ∀ a, .branch a ∈ s.worklist →
    Target setting.image a ∨ a ∈ setting.options.extraBranches
  probed : ∀ a ∈ s.script.branches, Target setting.image a ∨ a ∈ setting.options.extraBranches

/-- A branch table leads to targets only. -/
theorem Scans.target {setting : Setting} {address : Nat} {kind : TableKind} {role : Role}
    {destinations : List Nat} {s t : Session}
    (scans : s.Scans setting address kind role destinations t) {d : Nat}
    (mem : d ∈ destinations) : Target setting.image d := by
  obtain ⟨k, at_k⟩ := List.getElem?_of_mem mem
  have aligned := scans.found.aligned
  have named := scans.found.named at_k
  have inside := scans.found.inside d mem
  rw [tableDestination] at named
  exact ⟨by omega, scans.low d mem, by omega⟩

theorem probeTable_aims {setting : Setting} {address : Nat} {kind : TableKind} {role : Role}
    {s t : Session} (h : probeTable setting address kind role s = .ok t) {a : Nat}
    (mem : .branch a ∈ t.worklist) : .branch a ∈ s.worklist ∨ Target setting.image a := by
  obtain ⟨-, rfl⟩ | ⟨destinations, scans⟩ := probeTable_cases h
  · exact .inl mem
  · rw [scans.worklist, List.mem_append, List.mem_reverse, List.mem_map] at mem
    rcases mem with ⟨d, found, eq⟩ | mem
    · cases kind with
      | branches =>
        cases eq
        exact .inr (Scans.target scans (mem_ascending.mp found))
      | tables => cases eq
    · exact .inl mem

theorem probeData_worklist (setting : Setting) (address : Nat) (texts : Bool) (s : Session) :
    (probeData setting address texts s).worklist = s.worklist := by
  rw [probeData]
  split
  · simp only
    split
    · rfl
    · split <;> rfl
  · rfl

theorem Side.aims {setting : Setting} {s t : Session} (h : Side setting s t) {a : Nat}
    (mem : .branch a ∈ t.worklist) : .branch a ∈ s.worklist ∨ Target setting.image a := by
  cases h with
  | note | record | request => exact .inl mem
  | queue target =>
    rcases List.mem_cons.mp mem with eq | mem
    · cases eq
      exact .inr target
    · exact .inl mem
  | table scanned => exact probeTable_aims scanned mem
  | data a texts =>
    rw [probeData_worklist] at mem
    exact .inl mem

theorem Sides.aims {setting : Setting} {s t : Session} (h : Sides setting s t) {a : Nat}
    (mem : .branch a ∈ t.worklist) : .branch a ∈ s.worklist ∨ Target setting.image a := by
  induction h with
  | refl => exact .inl mem
  | tail _ side ih =>
    rcases side.aims mem with mem | target
    · exact ih mem
    · exact .inr target

theorem Step.aimed {setting : Setting} {p q : Point} (step : Step setting p q)
    (h : Aimed setting p.session) : Aimed setting q.session := by
  obtain ⟨queued, probed⟩ := h
  cases step with
  | seen pending =>
    refine ⟨fun a mem => queued a ?_, probed⟩
    simp only [pending]
    exact List.mem_cons_of_mem _ mem
  | @begun s a rest pending new =>
    simp only [pending] at queued
    refine ⟨fun b mem => queued b (List.mem_cons_of_mem _ mem), fun b mem => ?_⟩
    simp only [Session.enter, Std.ExtTreeSet.mem_insert, Nat.compare_eq_eq] at mem
    rcases mem with rfl | mem
    · exact queued a List.mem_cons_self
    · exact probed b mem
  | table pending scanned =>
    simp only [pending] at queued
    refine ⟨fun a mem => ?_, fun a mem => probed a ((probeTable_adds scanned).branches ▸ mem)⟩
    rcases probeTable_aims scanned mem with mem | target
    · exact queued a (List.mem_cons_of_mem _ mem)
    · exact .inl target
  | out => exact ⟨queued, probed⟩
  | joined => exact ⟨queued, probed⟩
  | blocked => exact ⟨queued, probed⟩
  | unread _ _ read =>
    obtain ⟨noted, rfl⟩ := readInstruction_counts read
    exact ⟨queued, probed⟩
  | taken _ _ found taken =>
    obtain ⟨noted, rfl⟩ := readInstruction_counts found
    have sides := takeInstruction_sides taken
    refine ⟨fun a mem => ?_, fun a mem => probed a ?_⟩
    · rcases sides.aims mem with mem | target
      · exact queued a mem
      · exact .inl target
    · rw [sides.adds.branches, placeInstruction_branches] at mem
      exact mem

/-- Entry points are targets. -/
theorem findEntrypoints_targets {image : Image} {room n : Nat} {script : Script}
    (start : ∀ a ∈ script.entrypoints, Target image a) :
    ∀ a ∈ (findEntrypoints image room n script).entrypoints, Target image a := by
  induction room generalizing n script with
  | zero => exact start
  | succ room ih =>
    rw [findEntrypoints]
    split
    · exact start
    simp only
    split
    · rename_i word _ valid
      refine ih fun a mem => ?_
      rcases List.mem_append.mp mem with old | new
      · exact start a old
      · cases List.mem_singleton.mp new
        obtain ⟨aligned, inside⟩ := landed_of_isValidOp valid
        rw [Likelihood.isValidOp, Bool.and_eq_true] at valid
        exact ⟨aligned, by simpa using valid.1, inside⟩
    · exact start

theorem explore_aimed (setting : Setting) (stats : Stats) :
    Exploring setting stats (Aimed setting) where
  named := by
    obtain ⟨branches, -, -⟩ := named_unexplored setting.image setting.options.maxEntrypoints
    refine ⟨fun a mem => absurd mem List.not_mem_nil, fun a mem => ?_⟩
    simp [Session.named, branches] at mem
  ask := fun {s addresses} which h => by
    refine ⟨fun a mem => ?_, h.probed⟩
    simp only [Session.ask, List.mem_append, List.mem_map] at mem
    rcases mem with ⟨b, mem, eq⟩ | mem
    · cases eq
      rcases which with rfl | rfl
      · exact .inl (findEntrypoints_targets (by simp [Script.blank]) _ mem)
      · exact .inr mem
    · exact h.queued a mem
  run := fun explored steps h =>
    Steps.invariant (P := fun p => Aimed setting p.session) (fun step _ h => step.aimed h) steps
      explored h
  correct := fun explored h =>
    ⟨h.queued, fun a mem => h.probed a ((correctOverruns_still explored).1 ▸ mem)⟩

/-! ## How many addresses there are -/

/-- A set of addresses is no larger than a list that holds them all. -/
theorem size_le_length {visited : AddressSet} {addresses : List Nat}
    (all : ∀ a ∈ visited, a ∈ addresses) : visited.size ≤ addresses.length := by
  have nodup : visited.toList.Nodup :=
    Std.ExtTreeSet.distinct_toList.imp fun distinct eq => distinct (Nat.compare_eq_eq.mpr eq)
  rw [← Std.ExtTreeSet.length_toList]
  refine (List.subperm_of_subset nodup fun a mem => all a ?_).length_le
  exact Std.ExtTreeSet.mem_toList.mp mem

theorem size_tables_le {image : Image} {visited : AddressSet}
    (slots : ∀ a ∈ visited, a = 4 * (a / 4) ∧ a / 4 < image.size) : visited.size ≤ image.size := by
  have := @size_le_length visited ((List.range image.size).map (4 * ·)) fun a mem => by
    obtain ⟨aligned, inside⟩ := slots a mem
    exact List.mem_map.mpr ⟨a / 4, List.mem_range.mpr inside, aligned.symm⟩
  simpa using this

theorem size_branches_le {image : Image} {extra : List Nat} {visited : AddressSet}
    (aimed : ∀ a ∈ visited, Target image a ∨ a ∈ extra) :
    visited.size ≤ image.size - 1 + extra.length := by
  have := @size_le_length visited ((List.range (image.size - 1)).map (4 * · + 4) ++ extra)
    fun a mem => by
      rcases aimed a mem with ⟨aligned, low, inside⟩ | asked
      · rw [Image.byteLength] at inside
        refine List.mem_append_left _ (List.mem_map.mpr ⟨a / 4 - 1, ?_, ?_⟩)
        · exact List.mem_range.mpr (by omega)
        · omega
      · exact List.mem_append_right _ asked
  simpa using this

/-! ## Why the work ends -/

/-- What is left of the image behind the cursor of a branch. -/
def Stage.ahead (image : Image) : Stage → Nat
  | .idle => 0
  | .decoding _ cursor => 4 * image.size - cursor

/-- What is left to do: the addresses still unvisited; then what is left of the
branch; then what is queued; and last the branch itself, which may be past the
image. -/
def Point.rest (setting : Setting) (p : Point) : ℕ ×ₗ ℕ ×ₗ ℕ ×ₗ ℕ :=
  toLex (p.session.unvisited setting, toLex (p.stage.ahead setting.image,
    toLex (p.session.worklist.length, p.stage.open)))

theorem Point.rest_lt_iff {setting : Setting} {p q : Point} :
    q.rest setting < p.rest setting ↔
      q.session.unvisited setting ≤ p.session.unvisited setting ∧
      (q.session.unvisited setting = p.session.unvisited setting →
        q.stage.ahead setting.image ≤ p.stage.ahead setting.image ∧
        (q.stage.ahead setting.image = p.stage.ahead setting.image →
          q.session.worklist.length ≤ p.session.worklist.length ∧
          (q.session.worklist.length = p.session.worklist.length →
            q.stage.open < p.stage.open))) := by
  simp only [Point.rest, Prod.Lex.toLex_lt_toLex']

/-- A branch that is left inside the image. -/
theorem Point.rest_lt_of_leave {setting : Setting} {start cursor : Nat} {s t : Session}
    (inside : cursor / 4 < setting.image.size) (extends_ : t.Extends s) :
    Point.rest setting ⟨.idle, t⟩ < Point.rest setting ⟨.decoding start cursor, s⟩ := by
  refine Point.rest_lt_iff.mpr ⟨extends_.unvisited_le, fun _ => ⟨Nat.zero_le _, fun same => ?_⟩⟩
  simp only [Stage.ahead] at same
  omega

/-- **Every step leaves less to do.** -/
theorem Step.rest_lt {setting : Setting} {p q : Point} (step : Step setting p q) :
    q.rest setting < p.rest setting := by
  cases step with
  | @seen s a rest pending =>
    refine Point.rest_lt_iff.mpr ⟨Nat.le_refl _, fun _ => ⟨Nat.le_refl _, fun _ => ?_⟩⟩
    simp only [pending, List.length_cons]
    omega
  | @begun s a rest pending new =>
    have visits : a ∈ (Session.enter { s with worklist := rest } a).script.branches := by
      simp [Session.enter]
    have grown : (Session.enter { s with worklist := rest } a).Extends s :=
      ⟨fun b mem => by simp [Session.enter, mem], fun b mem => mem⟩
    by_cases inside : a < setting.image.byteLength
    · have fewer := grown.unvisited_lt_of_branch inside new visits
      exact Point.rest_lt_iff.mpr ⟨Nat.le_of_lt fewer, fun same => absurd same (Nat.ne_of_lt fewer)⟩
    · rw [Image.byteLength] at inside
      refine Point.rest_lt_iff.mpr ⟨grown.unvisited_le, fun _ => ⟨?_, fun _ => ?_⟩⟩
      · simp only [Stage.ahead]
        omega
      · simp only [Session.enter, pending, List.length_cons]
        omega
  | @table s t a role rest pending scanned =>
    have same : ({ s with worklist := rest } : Session).unvisited setting = s.unvisited setting :=
      rfl
    rcases probeTable_nearer scanned with fewer | ⟨noMore, shorter⟩
    · rw [same] at fewer
      exact Point.rest_lt_iff.mpr ⟨Nat.le_of_lt fewer, fun same => absurd same (Nat.ne_of_lt fewer)⟩
    · rw [same] at noMore
      refine Point.rest_lt_iff.mpr ⟨noMore, fun _ => ⟨Nat.le_refl _, fun _ => ?_⟩⟩
      simp only [shorter, pending, List.length_cons]
      omega
  | out out =>
    refine Point.rest_lt_iff.mpr ⟨Nat.le_refl _, fun _ => ⟨Nat.zero_le _, fun _ => ?_⟩⟩
    exact ⟨Nat.le_refl _, fun _ => Nat.zero_lt_one⟩
  | joined inside => exact Point.rest_lt_of_leave inside .rfl
  | blocked inside => exact Point.rest_lt_of_leave inside (.of_eq rfl rfl)
  | unread inside _ read => exact Point.rest_lt_of_leave inside (readInstruction_extends read)
  | @taken start cursor s t u read flow inside _ found taken =>
    have grown := (takeInstruction_extends taken).trans (readInstruction_extends found)
    have wide : 0 < read.width := by
      simp only [Instruction.width]
      omega
    cases flow with
    | stop => exact Point.rest_lt_of_leave inside grown
    | goOn =>
      refine Point.rest_lt_iff.mpr ⟨grown.unvisited_le, fun _ => ⟨?_, fun same => ?_⟩⟩
      · simp only [Flow.stage, Stage.ahead]
        omega
      · simp only [Flow.stage, Stage.ahead] at same
        omega

theorem step_wellFounded (setting : Setting) :
    WellFounded fun q p : Point => Step setting p q :=
  Subrelation.wf (fun step => Step.rest_lt step)
    (InvImage.wf (Point.rest setting) wellFounded_lt)

/-! ## One image after another -/

instance : Zero Stats := ⟨{}⟩

/-- The work of a recovery, whether or not it ends with a script. -/
def work (setting : Setting) : Stats :=
  match recover setting {} with
  | .ok (_, stats) => stats
  | .error halt => halt.stats

/-- Recovers one image after another, counting on: the answers, and how the
counters stand in the end. -/
def recoverEach (catalogue : Catalogue) (options : Options) (stats : Stats) :
    List Image → List (Except Fault Script) × Stats
  | [] => ([], stats)
  | image :: rest =>
    match recover ⟨image, catalogue, options⟩ stats with
    | .ok (script, stats) =>
      let (answers, stats) := recoverEach catalogue options stats rest
      (.ok script :: answers, stats)
    | .error halt =>
      let (answers, stats) := recoverEach catalogue options halt.stats rest
      (.error halt.fault :: answers, stats)

theorem Stats.add_assoc (a b c : Stats) : a + b + c = a + (b + c) := by
  show Stats.mk _ _ _ = Stats.mk _ _ _
  congr 1 <;> exact Nat.add_assoc ..

/-- What was counted before stands on top, and changes nothing else. -/
theorem recover_counting (setting : Setting) (stats : Stats) :
    recover setting stats = counted stats (Prod.map id (stats + ·)) (recover setting {}) :=
  recover_vary (c := setting.catalogue) rfl {}

theorem recoverEach_eq (catalogue : Catalogue) (options : Options) (stats : Stats)
    (images : List Image) :
    recoverEach catalogue options stats images =
      (images.map (disassemble catalogue options),
        stats + (images.map fun image => work ⟨image, catalogue, options⟩).sum) := by
  induction images generalizing stats with
  | nil => rfl
  | cons image rest ih =>
    rw [recoverEach, recover_counting]
    simp only [List.map_cons, List.sum_cons, disassemble, work]
    cases recover ⟨image, catalogue, options⟩ {} with
    | error halt =>
      simp only [counted, ih, Halt.counting, Stats.add_assoc]
      rfl
    | ok answer =>
      simp only [counted, ih, Prod.map, id, Stats.add_assoc]
      rfl

/-! ## The end of a recovery -/

/-- Settling visits nothing. -/
theorem settle_still (image : Image) (s : Session) :
    (settle image s).branches = s.script.branches ∧
      (settle image s).tableAddresses = s.script.tableAddresses := by
  refine @answers_induction image (fun script => script.branches = s.script.branches ∧
    script.tableAddresses = s.script.tableAddresses) ?_ s.requests s.script ⟨rfl, rfl⟩
  intro script address bound same
  rcases layText_cases image script address bound with eq | noted | ⟨text, -, -, laid⟩
  · rwa [eq]
  · rwa [noted]
  · rw [laid, fill_branches, fill_tableAddresses]
    exact same

end Recovery

/-- The counters of a recovery that began with none, and the bounds on its work. -/
structure Worked (image : Image) (options : Recovery.Options) (script : Script)
    (stats : Recovery.Stats) : Prop where
  branches : stats.branchesProbed = script.branches.size
  tables : stats.tablesProbed = script.tableAddresses.size
  tables_le : script.tableAddresses.size ≤ image.size
  /-- A header is read for each instruction, and at most one in vain a branch. -/
  decoded : script.instructions.length ≤ stats.headersDecoded
  inVain : stats.headersDecoded ≤ script.instructions.length + stats.branchesProbed
  /-- What was not asked for is the address of a slot other than the first. -/
  aimed : ∀ a ∈ script.branches, a ∉ options.extraBranches →
    a % 4 = 0 ∧ 4 ≤ a ∧ a < image.byteLength
  branches_le : stats.branchesProbed ≤ image.size - 1 + options.extraBranches.length

namespace Recovery

theorem recover_worked {catalogue : Catalogue} {options : Options} {image : Image}
    {script : Script} {stats : Stats}
    (h : recover ⟨image, catalogue, options⟩ {} = .ok (script, stats)) :
    Worked image options script stats := by
  have answer : disassemble catalogue options image = .ok script := by
    rw [disassemble, h]
  have tracked := disassemble_tracked answer
  rw [recover] at h
  split at h
  · cases h
  rename_i s explored
  cases h
  obtain ⟨laid, counted⟩ := (explore_counted _).explored explored
  obtain ⟨-, aimed⟩ := (explore_aimed _ _).explored explored
  obtain ⟨branches, tables⟩ := settle_still image s
  have instructions : (settle image s).instructions.length = s.script.instructions.length :=
    length_instructions_congr ((settle_moves image s).grows laid).instructions
      fun at_n => settle_found at_n id
  refine ⟨?_, ?_, size_tables_le fun a mem => ?_, ?_, ?_, fun a mem other => ?_, ?_⟩
  · rw [branches, counted.branches]
  · rw [tables, counted.tables]
  · obtain ⟨labels, there, -⟩ := tracked.tables a mem
    obtain ⟨aligned, slot⟩ := Script.entryAt?_eq_some there
    have inside := (Array.getElem?_eq_some_iff.mp slot).1
    rw [tracked.explored.size] at inside
    exact ⟨aligned, inside⟩
  · rw [instructions]
    exact counted.decoded
  · rw [instructions]
    exact counted.inVain
  · rw [branches] at mem
    exact (aimed.probed a mem).resolve_right other
  · rw [counted.branches]
    exact size_branches_le aimed.probed

/-- **The work of a recovery is bounded.** No run of exploration goes on for
ever; what a recovery that succeeds has counted is bounded by the image and the
extra branches; and counting on from image to image only adds up. -/
theorem recovery_bounded (catalogue : Catalogue) (options : Options) (image : Image) :
    (WellFounded fun q p : Point => Step ⟨image, catalogue, options⟩ p q) ∧
      (∀ s, Ends ⟨image, catalogue, options⟩ ⟨.idle, s⟩
        (drain ⟨image, catalogue, options⟩ s)) ∧
      (∀ script stats, recover ⟨image, catalogue, options⟩ {} = .ok (script, stats) →
        Worked image options script stats) ∧
      ∀ images stats, recoverEach catalogue options stats images =
        (images.map (disassemble catalogue options),
          stats + (images.map fun image => work ⟨image, catalogue, options⟩).sum) :=
  ⟨step_wellFounded _, drain_ends _, fun _ _ => recover_worked,
    fun images stats => recoverEach_eq catalogue options stats images⟩

/-- In the sample, as many branches and tables are counted as stand below; a header is read
for each of its six instructions, and at most four in vain. -/
theorem recovery_bounded_sample :
    ∃ script stats, recover ⟨sampleImage, sampleCatalogue, {}⟩ {} = .ok (script, stats) ∧
      Worked sampleImage {} script stats ∧
      script.entries[10]? = some (.instruction sampleGosub) ∧
      script.branches.toList = [4, 24, 48, 52] ∧ stats.branchesProbed = 4 ∧
      script.tableAddresses.toList = [16] ∧ stats.tablesProbed = 1 ∧
      6 ≤ stats.headersDecoded ∧ stats.headersDecoded ≤ 10 ∧
      recoverEach sampleCatalogue {} {} [sampleImage, sampleImage] =
        ([.ok script, .ok script], {} + [stats, stats].sum) := by
  obtain ⟨-, -, worked, each⟩ := recovery_bounded sampleCatalogue {} sampleImage
  obtain ⟨script, h, at_ten, branches, tables, instructions⟩ :=
    disassemble_within_holds sampleCatalogue {} sampleImage 8
      (fun script => script.entries[10]? = some (.instruction sampleGosub) ∧
        script.branches.toList = [4, 24, 48, 52] ∧ script.tableAddresses.toList = [16] ∧
        script.instructions.length = 6) (by decide +kernel)
  cases answer : recover ⟨sampleImage, sampleCatalogue, {}⟩ {} with
  | error halt => simp [disassemble, answer] at h
  | ok result =>
    obtain ⟨other, stats⟩ := result
    obtain rfl : other = script := by simpa [disassemble, answer] using h
    have bounds := worked _ _ answer
    have probed : stats.branchesProbed = 4 := by
      rw [bounds.branches, ← Std.ExtTreeSet.length_toList, branches]
      rfl
    have scanned : stats.tablesProbed = 1 := by
      rw [bounds.tables, ← Std.ExtTreeSet.length_toList, tables]
      rfl
    have decoded := bounds.decoded
    have inVain := bounds.inVain
    refine ⟨other, stats, rfl, bounds, at_ten, branches, probed, tables, scanned, by omega,
      by omega, ?_⟩
    simp [each, disassemble, work, answer]

end Recovery
end EventScript
