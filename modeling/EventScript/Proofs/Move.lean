/-
A recovery as a sequence of moves. Whatever exploration does to a script is one
of a few moves: it notes something, names an entry point, places an instruction
it has read or a table it has found, cuts and seals a table, lays out a text,
or takes the rest for data. `Move` says once what each of them may rely on and
what it changes; `disassemble_moves` says that a recovery is made of nothing
else. What every move keeps, every recovered script has.

The moves that only accompany an instruction, `Aside`, place no code of their
own, and push on the worklist without taking anything off it (`Session.Adds`).
What following the operands of an instruction and transferring control do to a
session is a sequence of a few such things, `Side`.
-/
import Mathlib.Logic.Relation
import EventScript.Proofs.LabelTable
import EventScript.Proofs.Reading

namespace EventScript.Recovery

/-- What was noted on `s`, and what it visited, stands on `t` too. -/
structure Keeps (s t : Script) : Prop where
  diagnostics : ∀ d ∈ s.diagnostics, d ∈ t.diagnostics
  branches : ∀ a ∈ s.branches, a ∈ t.branches
  tables : ∀ a ∈ s.tableAddresses, a ∈ t.tableAddresses

theorem Keeps.rfl {s : Script} : Keeps s s := ⟨fun _ h => h, fun _ h => h, fun _ h => h⟩

theorem Keeps.trans {s t u : Script} (h : Keeps s t) (k : Keeps t u) : Keeps s u :=
  ⟨fun d m => k.diagnostics d (h.diagnostics d m), fun a m => k.branches a (h.branches a m),
    fun a m => k.tables a (h.tables a m)⟩

/-- Scripts that visited the same, of which the second may hold more diagnostics. -/
theorem Keeps.of_visited {s t : Script} (more : ∀ d ∈ s.diagnostics, d ∈ t.diagnostics)
    (branches : t.branches = s.branches) (tables : t.tableAddresses = s.tableAddresses) :
    Keeps s t :=
  ⟨more, fun _ m => branches ▸ m, fun _ m => tables ▸ m⟩

/-- An instruction has the header that stands in the image. -/
def Headed (image : Image) (read : Instruction) : Prop :=
  ∃ header, Header.decode (image.wordAt read.address) = some header ∧
    read.opcode = header.opcode ∧ read.parameter = header.parameter ∧
    read.operands.length = header.operandCount

/-- An instruction that can be placed: the image holds its header and operands,
nothing is labelled yet, and all its slots are free. -/
structure Readable (image : Image) (script : Script) (read : Instruction) : Prop where
  free : script.entryAt? read.address = some .unset
  header : Headed image read
  operands : ReadAll image script.diagnostics read.address (read.address + 4) read.operands
  unlabelled : ∀ operand ∈ read.operands, operand.label = none
  room : ∀ k, k < Operand.widthOfAll read.operands → ∀ e,
    script.entries[read.address / 4 + 1 + k]? = some e → e = .unset

/-- A move that places no code. -/
inductive Aside (image : Image) (s t : Script) : Prop
  | note (keeps : Keeps s t) (entries : t.entries = s.entries) (labels : t.labels = s.labels)
  | table {address : Nat} {destinations : List Nat} (keeps : Keeps s t)
      (found : Tabled image s address destinations)
      (entries : t.entries = s.entries.setIfInBounds (address / 4)
        (.pointerTable address (s.labels.addAll destinations).1))
      (labels : t.labels = (s.labels.addAll destinations).2)

/-- One thing recovery does to a script. -/
inductive Move (image : Image) (s t : Script) : Prop
  | aside (aside : Aside image s t)
  | entrypoint {n : Nat} {word : Word} (word_at : image[n]? = some word)
      (valid : Likelihood.isValidOp image word.toNat = true)
      (free : s.entries[n]? = some .unset)
      (named : t = { s with
        labels := (s.labels.addUnique word.toNat).2
        entrypoints := s.entrypoints ++ [word.toNat] }.setEntry (4 * n)
          (.entrypoint (4 * n) (s.labels.addUnique word.toNat).1))
  | instruction {read : Instruction} (readable : Readable image s read)
      (placed : t = (placeInstruction s read).2)
  | correct {head : Nat} (corrected : t = s.correctTable head)
  | text {text : EncodedString} (found : Texted image s text)
      (laid : t = (s.setEntry text.address (.encodedString text)).fill (text.address + 4)
        (.continuation text.address) (text.width - 1))
  | data (filled : t = fillData image s)

/-- Any number of moves that place no code. -/
abbrev Asides (image : Image) : Script → Script → Prop := Relation.ReflTransGen (Aside image)

/-- Any number of moves. -/
abbrev Moves (image : Image) : Script → Script → Prop := Relation.ReflTransGen (Move image)

theorem Asides.moves {image : Image} {s t : Script} (h : Asides image s t) :
    Moves image s t := by
  induction h with
  | refl => exact .refl
  | tail _ aside ih => exact ih.tail (.aside aside)

/-- What every move keeps, any number of moves keeps. -/
theorem Moves.invariant {image : Image} {P : Script → Prop}
    (step : ∀ {s t}, Move image s t → P s → P t) {s t : Script} (h : Moves image s t)
    (start : P s) : P t := by
  induction h with
  | refl => exact start
  | tail _ move ih => exact step move ih

/-! ## What moves do not lose -/

/-- Whatever was found in `s` is found in `t`, but tables may have been cut. -/
structure Grows (s t : Script) : Prop extends Keeps s t where
  entrypoints : ∀ {n address : Nat} {name : String},
    s.entries[n]? = some (.entrypoint address name) →
    t.entries[n]? = some (.entrypoint address name)
  instructions : ∀ {n : Nat} {decoded : Instruction},
    s.entries[n]? = some (.instruction decoded) → t.entries[n]? = some (.instruction decoded)
  pointerTables : ∀ {n address : Nat} {labels : List String},
    s.entries[n]? = some (.pointerTable address labels) →
    ∃ keep, t.entries[n]? = some (.pointerTable address (labels.take keep))

namespace Grows

/-- Claimed slots stay as they are. -/
theorem of_stays {s t : Script} (keeps : Keeps s t)
    (stays : ∀ {n : Nat} {e : Entry}, s.entries[n]? = some e → e ≠ .unset →
      t.entries[n]? = some e) : Grows s t where
  toKeeps := keeps
  entrypoints := fun at_n => stays at_n (by simp)
  instructions := fun at_n => stays at_n (by simp)
  pointerTables := fun {n address labels} at_n =>
    ⟨labels.length, by rw [List.take_length]; exact stays at_n (by simp)⟩

theorem rfl {s : Script} : Grows s s :=
  of_stays .rfl fun at_n _ => at_n

theorem trans {s t u : Script} (h : Grows s t) (k : Grows t u) : Grows s u where
  toKeeps := h.toKeeps.trans k.toKeeps
  entrypoints := fun at_n => k.entrypoints (h.entrypoints at_n)
  instructions := fun at_n => k.instructions (h.instructions at_n)
  pointerTables := fun at_n => by
    obtain ⟨keep, there⟩ := h.pointerTables at_n
    obtain ⟨again, there⟩ := k.pointerTables there
    rw [List.take_take] at there
    exact ⟨_, there⟩

end Grows

theorem Aside.grows {image : Image} {s t : Script} (h : Aside image s t) : Grows s t := by
  cases h with
  | note keeps entries => exact .of_stays keeps fun at_n _ => entries ▸ at_n
  | @table address destinations keeps found entries =>
    refine .of_stays keeps fun {n e} at_n claimed => ?_
    have first := found.unset (List.length_pos_iff.mpr found.nonempty)
    rw [Nat.add_zero] at first
    have other : address / 4 ≠ n := by
      rintro rfl
      rw [first] at at_n
      cases at_n
      exact claimed rfl
    rw [entries, Array.getElem?_setIfInBounds_ne other, at_n]

theorem Asides.grows {image : Image} {s t : Script} (h : Asides image s t) : Grows s t := by
  induction h with
  | refl => exact .rfl
  | tail _ aside ih => exact ih.trans aside.grows

theorem Asides.instructions {image : Image} {s t : Script} (h : Asides image s t) {n : Nat}
    {decoded : Instruction} (at_n : t.entries[n]? = some (.instruction decoded)) :
    s.entries[n]? = some (.instruction decoded) := by
  induction h with
  | refl => exact at_n
  | tail _ aside ih =>
    refine ih ?_
    cases aside with
    | note _ entries => rwa [entries] at at_n
    | @table address _ _ _ entries =>
      rw [entries, Array.getElem?_setIfInBounds] at at_n
      split at at_n
      · split at at_n <;> cases at_n
      · exact at_n

/-! ## Work that is done or queued -/

/-- The work of a probe is done or queued. -/
def Covers (script : Script) (queue : List Probe) : Probe → Prop
  | .branch a => a ∈ script.branches ∨ .branch a ∈ queue
  | .table a role => a ∈ script.tableAddresses ∨ .table a role ∈ queue

/-- An address was probed or scanned, or is going to be. -/
def Reaches (script : Script) (queue : List Probe) (a : Nat) : Prop :=
  Covers script queue (.branch a) ∨ ∃ role, Covers script queue (.table a role)

/-- A table stands at `a`, and every address its words name is reached. -/
def Leads (image : Image) (script : Script) (queue : List Probe) (a : Nat) : Prop :=
  ∃ labels, script.entryAt? a = some (.pointerTable a labels) ∧
    ∀ k, k < labels.length → ∃ target : Nat,
      tableDestination a (image.wordAt (a + 4 * k)) = target ∧ Reaches script queue target

theorem Covers.mono {s t : Script} {old new : List Probe} {probe : Probe} (grows : Grows s t)
    (more : ∀ p ∈ old, p ∈ new) (h : Covers s old probe) : Covers t new probe := by
  cases probe with
  | branch a => exact h.imp (grows.branches a) (more _)
  | table a role => exact h.imp (grows.tables a) (more _)

theorem Reaches.mono {s t : Script} {old new : List Probe} {a : Nat} (grows : Grows s t)
    (more : ∀ p ∈ old, p ∈ new) (h : Reaches s old a) : Reaches t new a :=
  h.imp (Covers.mono grows more) fun ⟨role, covers⟩ => ⟨role, covers.mono grows more⟩

theorem Leads.mono {image : Image} {s t : Script} {old new : List Probe} {a : Nat}
    (grows : Grows s t) (more : ∀ p ∈ old, p ∈ new) (h : Leads image s old a) :
    Leads image t new a := by
  obtain ⟨labels, at_a, leads⟩ := h
  obtain ⟨aligned, slot⟩ := Script.entryAt?_eq_some at_a
  obtain ⟨keep, there⟩ := grows.pointerTables slot
  refine ⟨labels.take keep, Script.entryAt?_of_slot aligned there, fun k bound => ?_⟩
  rw [List.length_take] at bound
  obtain ⟨target, named, reached⟩ := leads k (by omega)
  exact ⟨target, named, reached.mono grows more⟩

/-! ## What accompanies an instruction -/

/-- A step that places no code and only pushes on the worklist. What a table it
scans leads to is queued. -/
structure Session.Adds (image : Image) (s t : Session) : Prop where
  script : Asides image s.script t.script
  worklist : s.worklist <:+ t.worklist
  branches : t.script.branches = s.script.branches
  tables : ∀ a ∈ t.script.tableAddresses,
    a ∈ s.script.tableAddresses ∨ Leads image t.script t.worklist a

namespace Session.Adds

theorem rfl {image : Image} {s : Session} : s.Adds image s :=
  ⟨.refl, List.suffix_refl _, Eq.refl _, fun _ m => .inl m⟩

theorem trans {image : Image} {s t u : Session} (h : s.Adds image t) (k : t.Adds image u) :
    s.Adds image u := by
  refine ⟨h.script.trans k.script, h.worklist.trans k.worklist, k.branches.trans h.branches, ?_⟩
  intro a m
  rcases k.tables a m with m | leads
  · refine (h.tables a m).imp id fun leads => ?_
    exact leads.mono k.script.grows fun p m => k.worklist.subset m
  · exact .inr leads

/-- A step that only notes something. -/
theorem note {image : Image} {s t : Session}
    (diagnostics : ∀ d ∈ s.script.diagnostics, d ∈ t.script.diagnostics)
    (entries : t.script.entries = s.script.entries) (labels : t.script.labels = s.script.labels)
    (branches : t.script.branches = s.script.branches)
    (tables : t.script.tableAddresses = s.script.tableAddresses)
    (worklist : s.worklist <:+ t.worklist) : s.Adds image t :=
  ⟨.single (.note (.of_visited diagnostics branches tables) entries labels), worklist, branches,
    fun _ m => .inl (tables ▸ m)⟩

theorem diagnose {image : Image} (s : Session) (address : Nat) (problem : Problem) :
    s.Adds image (s.diagnose address problem) :=
  note (fun _ m => List.mem_append_left _ m) (Eq.refl _) (Eq.refl _) (Eq.refl _) (Eq.refl _)
    (List.suffix_refl _)

end Session.Adds

theorem record_aside (image : Image) (s : Session) (role : Role) (destination : Nat) :
    s.Adds image { s with script := s.script.record role destination } := by
  cases role <;> exact .note (fun _ m => m) rfl rfl rfl rfl (List.suffix_refl _)

/-- The probe a table asks for at each of its destinations. -/
def TableKind.probe (kind : TableKind) (role : Role) (destination : Nat) : Probe :=
  match kind with
  | .branches => .branch destination
  | .tables => .table destination role

/-- The table at an address is scanned: it is placed with the labels of what it
names, and its destinations are queued. -/
structure Session.Scans (setting : Setting) (address : Nat) (kind : TableKind) (role : Role)
    (destinations : List Nat) (s t : Session) : Prop where
  new : address ∉ s.script.tableAddresses
  found : Tabled setting.image s.script address destinations
  low : ∀ d ∈ destinations, 4 ≤ d
  entries : t.script.entries = s.script.entries.setIfInBounds (address / 4)
    (.pointerTable address (s.script.labels.addAll destinations).1)
  labels : t.script.labels = (s.script.labels.addAll destinations).2
  tables : t.script.tableAddresses = s.script.tableAddresses.insert address
  diagnostics : t.script.diagnostics = s.script.diagnostics
  branches : t.script.branches = s.script.branches
  worklist : t.worklist = ((ascending destinations).map (kind.probe role)).reverse ++ s.worklist
  stats : t.stats = { s.stats with tablesProbed := s.stats.tablesProbed + 1 }

/-- A table probe that does not halt was done before, or scans the table. -/
theorem probeTable_cases {setting : Setting} {address : Nat} {kind : TableKind} {role : Role}
    {s t : Session} (h : probeTable setting address kind role s = .ok t) :
    (address ∈ s.script.tableAddresses ∧ t = s) ∨
      ∃ destinations, s.Scans setting address kind role destinations t := by
  rw [probeTable] at h
  split at h
  · rename_i seen
    cases h
    exact .inl ⟨by simpa using seen, rfl⟩
  rename_i new
  simp only at h
  generalize scan : scanBranches setting kind role address (slotsFrom setting.image address)
    address (.start setting.image) { s.script with
      tableAddresses := s.script.tableAddresses.insert address } = answer at h
  obtain ⟨found, script⟩ := answer
  obtain ⟨slots, scanned⟩ := scanBranches_found scan
  have slots : Entries setting.image s.script address address (found.map (·.1)) := slots
  have visited := scanBranches_visited setting kind role address (slotsFrom setting.image address)
    address (.start setting.image) { s.script with
      tableAddresses := s.script.tableAddresses.insert address }
  rw [scan] at visited
  obtain ⟨branches, tables⟩ := visited
  have labels := scanned.labels
  simp only at h branches tables labels
  split at h
  · cases h
  rename_i nonempty
  cases h
  refine .inr ⟨found.map (·.1), ?_⟩
  constructor
  · simpa using new
  · exact slots.tabled (by simpa using nonempty)
  · exact scanBranches_low scan
  · simp [Session.pushAll, Script.setEntry, scanned.entries, labels]
  · simp [Session.pushAll, Script.setEntry, labels]
  · exact tables
  · exact scanned.diagnostics
  · exact branches
  · rfl
  · rfl

theorem mem_ascending {addresses : List Nat} {a : Nat} :
    a ∈ ascending addresses ↔ a ∈ addresses := by
  simp [ascending]

theorem pairwise_ascending (addresses : List Nat) : (ascending addresses).Pairwise (· < ·) :=
  Std.ExtTreeSet.ordered_toList.imp Nat.compare_eq_lt.mp

/-- A table probe queues what the table leads to. -/
theorem probeTable_adds {setting : Setting} {address : Nat} {kind : TableKind} {role : Role}
    {s t : Session} (h : probeTable setting address kind role s = .ok t) :
    s.Adds setting.image t := by
  obtain ⟨-, rfl⟩ | ⟨destinations, scans⟩ := probeTable_cases h
  · exact .rfl
  have keeps : Keeps s.script t.script :=
    ⟨fun _ m => scans.diagnostics ▸ m, fun _ m => scans.branches ▸ m,
      fun _ m => by simp [scans.tables, m]⟩
  refine ⟨.single (.table keeps scans.found scans.entries scans.labels), ?_, scans.branches, ?_⟩
  · rw [scans.worklist]
    exact List.suffix_append _ _
  intro a mem
  rw [scans.tables, Std.ExtTreeSet.mem_insert, Nat.compare_eq_eq] at mem
  rcases mem with rfl | mem
  · have first := scans.found.unset (List.length_pos_iff.mpr scans.found.nonempty)
    rw [Nat.add_zero] at first
    have inside := (Array.getElem?_eq_some_iff.mp first).1
    refine .inr ⟨(s.script.labels.addAll destinations).1, ?_, fun k bound => ?_⟩
    · refine Script.entryAt?_of_slot scans.found.aligned ?_
      rw [scans.entries, Array.getElem?_setIfInBounds, if_pos rfl, if_pos inside]
    · rw [LabelTable.length_addAll] at bound
      refine ⟨destinations[k], scans.found.named (List.getElem?_eq_getElem bound), ?_⟩
      have queued : kind.probe role destinations[k] ∈ t.worklist := by
        rw [scans.worklist, List.mem_append, List.mem_reverse, List.mem_map]
        exact .inl ⟨_, mem_ascending.mpr (List.getElem_mem bound), rfl⟩
      cases kind with
      | branches => exact .inl (.inr queued)
      | tables => exact .inr ⟨role, .inr queued⟩
  · exact .inl mem

theorem probeData_adds (setting : Setting) (address : Nat) (texts : Bool) (s : Session) :
    s.Adds setting.image (probeData setting address texts s) := by
  rw [probeData]
  split
  · simp only
    split
    · exact .diagnose ..
    rename_i nonempty
    have found := (scanData_found setting s.script texts address
      (slotsFrom setting.image address) address (.start setting.image)).tabled
      (by simpa using nonempty)
    split
    · exact ⟨.single (.table (.of_visited (fun _ m => m) rfl rfl) found rfl rfl),
        List.suffix_refl _, rfl, fun _ m => .inl m⟩
    · exact ⟨.single (.table (.of_visited (fun _ m => m) rfl rfl) found rfl rfl),
        List.suffix_refl _, rfl, fun _ m => .inl m⟩
  · exact .rfl

/-- An address at which code can be looked for: that of a slot other than the first. -/
def Target (image : Image) (a : Nat) : Prop := a % 4 = 0 ∧ 4 ≤ a ∧ a < image.byteLength

/-- A problem that keeps no instruction from being read; where a branch target is
refused, no code can be looked for. -/
def Mild (image : Image) : Problem → Prop
  | .invalidHeader _ | .unsupportedMode _ | .truncatedInstruction | .overlappingCode => False
  | .invalidBranchTarget a => ¬ Target image a
  | _ => True

/-- One thing done on the side of an instruction. -/
inductive Side (setting : Setting) (s : Session) : Session → Prop
  | note (address : Nat) {problem : Problem} (mild : Mild setting.image problem) :
      Side setting s (s.diagnose address problem)
  | record (role : Role) (a : Nat) : Side setting s { s with script := s.script.record role a }
  | queue {a : Nat} (target : Target setting.image a) : Side setting s (s.push (.branch a))
  | request (a : Nat) : Side setting s (s.request (.single a))
  | table {t : Session} {a : Nat} {kind : TableKind} {role : Role}
      (scanned : probeTable setting a kind role s = .ok t) : Side setting s t
  | data (a : Nat) (texts : Bool) : Side setting s (probeData setting a texts s)

/-- Any number of things done on the side. -/
abbrev Sides (setting : Setting) : Session → Session → Prop := Relation.ReflTransGen (Side setting)

theorem Side.adds {setting : Setting} {s t : Session} (h : Side setting s t) :
    s.Adds setting.image t := by
  cases h with
  | note => exact .diagnose ..
  | record role a => exact record_aside ..
  | queue => exact .note (fun _ m => m) rfl rfl rfl rfl (List.suffix_cons _ _)
  | request => exact .note (fun _ m => m) rfl rfl rfl rfl (List.suffix_refl _)
  | table scanned => exact probeTable_adds scanned
  | data => exact probeData_adds ..

theorem Sides.adds {setting : Setting} {s t : Session} (h : Sides setting s t) :
    s.Adds setting.image t := by
  induction h with
  | refl => exact .rfl
  | tail _ side ih => exact ih.trans side.adds

theorem enqueue_sides (s : Session) (setting : Setting) (origin target : Nat) :
    Sides setting s (s.enqueue setting origin target).2 := by
  rw [Session.enqueue]
  split
  · rename_i valid
    exact .single (.queue valid)
  · rename_i invalid
    exact .single (.note _ invalid)

theorem transferTo_sides (setting : Setting) (address target : Nat) (role : Option Role)
    (s : Session) : Sides setting s (transferTo setting address target role s) := by
  have queued := enqueue_sides s setting address target
  rw [transferTo]
  simp only
  split
  · split
    · exact queued.tail (.record ..)
    · exact queued
  · exact queued

theorem transferOperand_sides (setting : Setting) (instruction : Instruction) (index : Nat)
    (role : Option Role) (s : Session) :
    Sides setting s (transferOperand setting instruction index role s) := by
  rw [transferOperand]
  split
  · exact transferTo_sides ..
  · exact .single (.note _ trivial)

theorem transferCall_sides (setting : Setting) (address : Nat) (parameters : List Parameter)
    (operands : List Operand) (s : Session) :
    Sides setting s (transferCall setting address parameters operands s) := by
  fun_induction transferCall setting address parameters operands s with
  | case1 parameter parameters operand operands s t ih =>
    refine Relation.ReflTransGen.trans ?_ ih
    show Sides setting s t
    simp only [t]
    split
    · exact .refl
    · split
      · exact transferTo_sides ..
      · exact .single (.note _ trivial)
  | case2 => exact .refl

theorem transferMethod_sides (setting : Setting) (instruction : Instruction) (method : Method)
    (s : Session) : Sides setting s (transferMethod setting instruction method s) := by
  rw [transferMethod]
  refine Relation.ReflTransGen.trans ?_ (transferCall_sides ..)
  split
  · exact .refl
  · exact .single (.note _ trivial)

theorem followOperand_sides {setting : Setting} {opcode : Opcode} {operand : Operand}
    {parameter : Option Parameter} {s t : Session}
    (h : followOperand setting opcode operand parameter s = .ok t) : Sides setting s t := by
  rw [followOperand] at h
  split at h
  · cases h
    exact .refl
  simp only at h
  split at h
  · cases h
    exact .refl
  split at h
  · split at h
    · exact .single (.table h)
    · cases h
      exact .single (.data ..)
  · split at h
    · cases h
      exact .single (.request ..)
    · cases h
      exact .refl

theorem followOperands_sides {setting : Setting} {opcode : Opcode} {operands : List Operand}
    {parameters : List Parameter} {s t : Session}
    (h : followOperands setting opcode operands parameters s = .ok t) : Sides setting s t := by
  induction operands generalizing parameters s with
  | nil =>
    cases h
    exact .refl
  | cons operand rest ih =>
    rw [followOperands] at h
    split at h
    · cases h
    · rename_i u hu
      exact (followOperand_sides hu).trans (ih h)

theorem transferTable_sides {setting : Setting} {instruction : Instruction} {role : Role}
    {s t : Session} (h : transferTable setting instruction role s = .ok t) :
    Sides setting s t := by
  rw [transferTable] at h
  split at h
  · cases h
    exact .single (.note _ trivial)
  split at h
  · cases h
    exact .single (.note _ trivial)
  split at h
  · cases h
    exact .refl
  · exact .single (.table h)

theorem transfer_sides {setting : Setting} {instruction : Instruction} {next : Nat}
    {flow : Flow} {s t : Session} (h : transfer setting instruction next s = .ok (flow, t)) :
    Sides setting s t := by
  have table {role : Role} {answer : Flow}
      (k : (transferTable setting instruction role s).map (answer, ·) = .ok (flow, t)) :
      Sides setting s t := by
    cases e : transferTable setting instruction role s with
    | error halt => rw [e] at k; cases k
    | ok u =>
      rw [e] at k
      cases k
      exact transferTable_sides e
  rw [transfer] at h
  simp only at h
  split at h
  · split at h
    · cases h
      exact transferMethod_sides ..
    · cases h
      exact .refl
  · split at h
    · cases h
      exact enqueue_sides ..
    · cases h
      exact .single (.note _ trivial)
  · split at h
    · cases h
      exact (enqueue_sides ..).trans (enqueue_sides ..)
    · cases h
      exact .single (.note _ trivial)
  · split at h
    · cases h
      exact (enqueue_sides ..).trans (enqueue_sides ..)
    · cases h
      exact .single (.note _ trivial)
  · exact table h
  · exact table h
  · cases h
    exact transferOperand_sides ..
  · cases h
    exact transferOperand_sides ..
  · cases h
    exact transferOperand_sides ..
  · cases h
    exact .refl

/-! ## Exploration -/

theorem readInstruction_adds {setting : Setting} {cursor : Nat} {found : Option Instruction}
    {s t : Session} (h : readInstruction setting cursor s = .ok (found, t)) :
    s.Adds setting.image t := by
  have counted : s.Adds setting.image { s with
      stats.headersDecoded := s.stats.headersDecoded + 1 } :=
    .note (fun _ m => m) rfl rfl rfl rfl (List.suffix_refl _)
  rw [readInstruction] at h
  simp only at h
  split at h
  · cases h
    exact counted.trans (.diagnose ..)
  split at h
  · cases h
  have noted : ∀ diagnostics : List Diagnostic, s.Adds setting.image { s with
      script.diagnostics := s.script.diagnostics ++ diagnostics
      stats.headersDecoded := s.stats.headersDecoded + 1 } := fun diagnostics =>
    .note (fun _ m => List.mem_append_left _ m) rfl rfl rfl rfl (List.suffix_refl _)
  split at h
  · cases h
    exact (noted _).trans (.diagnose ..)
  · cases h
    exact noted _

/-- An instruction that was read at a free slot can be placed. -/
theorem readInstruction_readable {setting : Setting} {cursor : Nat} {read : Instruction}
    {s t : Session} (h : readInstruction setting cursor s = .ok (some read, t))
    (free : s.script.entryAt? cursor = some .unset) :
    read.address = cursor ∧ Readable setting.image t.script read := by
  rw [readInstruction] at h
  simp only at h
  split at h
  · cases h
  rename_i header decoded
  split at h
  · cases h
  split at h
  · cases h
  rename_i operands eq
  cases h
  obtain ⟨count, all, unlabelled, room⟩ := readOperands_ok (Prod.ext rfl eq)
  refine ⟨rfl, free, ⟨header, decoded, rfl, rfl, count⟩, ?_, unlabelled, ?_⟩
  · exact all.mono fun d mem => List.mem_append_right _ mem
  · intro k bound e at_k
    refine room k bound e ?_
    rwa [show (cursor + 4) / 4 + k = cursor / 4 + 1 + k by omega]

/-- Taking an instruction places it, follows its operands and transfers control. -/
theorem takeInstruction_cases {setting : Setting} {read : Instruction} {next : Nat} {flow : Flow}
    {s t : Session} (h : takeInstruction setting read next s = .ok (flow, t)) :
    ∃ u, Sides setting { s with script := (placeInstruction s.script read).2 } u ∧
      transfer setting (placeInstruction s.script read).1 next u = .ok (flow, t) := by
  rw [takeInstruction] at h
  simp only at h
  split at h
  · cases h
  · rename_i u followed
    exact ⟨u, followOperands_sides followed, h⟩

theorem takeInstruction_sides {setting : Setting} {read : Instruction} {next : Nat} {flow : Flow}
    {s t : Session} (h : takeInstruction setting read next s = .ok (flow, t)) :
    Sides setting { s with script := (placeInstruction s.script read).2 } t := by
  obtain ⟨u, followed, transferred⟩ := takeInstruction_cases h
  exact followed.trans (transfer_sides transferred)

theorem takeInstruction_moves {setting : Setting} {read : Instruction} {next : Nat} {flow : Flow}
    {s t : Session} (readable : Readable setting.image s.script read)
    (h : takeInstruction setting read next s = .ok (flow, t)) :
    Moves setting.image s.script t.script := by
  have placed : Moves setting.image s.script (placeInstruction s.script read).2 :=
    .single (.instruction readable rfl)
  exact placed.trans (takeInstruction_sides h).adds.script.moves

theorem decodeFrom_moves {setting : Setting} {start cursor : Nat} {s t : Session}
    (h : decodeFrom setting start cursor s = .ok t) : Moves setting.image s.script t.script := by
  fun_induction decodeFrom setting start cursor s with
  | case1 => cases h; exact .refl
  | case2 => cases h; exact .refl
  | case3 => cases h
  | case4 cursor s _ _ _ u read =>
    cases h
    exact (readInstruction_adds read).script.moves
  | case5 => cases h
  | case6 cursor s _ _ free instruction u read next v taken =>
    cases h
    obtain ⟨-, readable⟩ := readInstruction_readable read free
    exact (readInstruction_adds read).script.moves.trans (takeInstruction_moves readable taken)
  | case7 cursor s _ _ free instruction u read next v taken ih =>
    obtain ⟨-, readable⟩ := readInstruction_readable read free
    have first := (readInstruction_adds read).script.moves
    exact (first.trans (takeInstruction_moves readable taken)).trans (ih h)
  | case8 =>
    cases h
    exact (Session.Adds.diagnose ..).script.moves
  | case9 => cases h; exact .refl

/-- Probing a branch starts with a note that it is probed. -/
theorem insertBranch_aside (image : Image) (script : Script) (address : Nat) :
    Aside image script { script with branches := script.branches.insert address } :=
  .note ⟨fun _ m => m, fun a m => by simp [m], fun _ m => m⟩ rfl rfl

theorem runProbe_moves {setting : Setting} {probe : Probe} {s t : Session}
    (h : runProbe setting probe s = .ok t) : Moves setting.image s.script t.script := by
  cases probe with
  | branch address =>
    rw [runProbe, probeBranch] at h
    split at h
    · cases h
      exact .refl
    · exact .head (.aside (insertBranch_aside ..)) (decodeFrom_moves h)
  | table address role => exact (probeTable_adds h).script.moves

theorem drain_moves {setting : Setting} {s t : Session} (h : drain setting s = .ok t) :
    Moves setting.image s.script t.script ∧ t.worklist = [] := by
  fun_induction drain setting s with
  | case1 s empty =>
    cases h
    exact ⟨.refl, empty⟩
  | case2 => cases h
  | case3 s probe rest pending u ran ih =>
    obtain ⟨moves, empty⟩ := ih h
    exact ⟨(runProbe_moves ran).trans moves, empty⟩

theorem correctOverruns_moves (image : Image) (script : Script) :
    Moves image script script.correctOverruns := by
  rw [Script.correctOverruns]
  generalize script.tableHeads = heads
  induction heads generalizing script with
  | nil => exact .refl
  | cons head rest ih => exact .head (.correct rfl) (ih (script.correctTable head))

theorem exploreBranches_moves {setting : Setting} {addresses : List Nat} {s t : Session}
    (h : exploreBranches setting addresses s = .ok t) :
    Moves setting.image s.script t.script ∧ t.worklist = [] := by
  rw [exploreBranches] at h
  split at h
  · cases h
  · rename_i u drained
    cases h
    obtain ⟨moves, empty⟩ := drain_moves drained
    exact ⟨moves.trans (correctOverruns_moves ..), empty⟩

theorem findEntrypoints_moves {image : Image} (room n : Nat) {script : Script}
    (free : ∀ m, n ≤ m → m < image.size → script.entries[m]? = some .unset) :
    Moves image script (findEntrypoints image room n script) := by
  induction room generalizing n script with
  | zero => exact .refl
  | succ room ih =>
    rw [findEntrypoints]
    split
    · exact .refl
    rename_i word word_at
    simp only
    split
    · rename_i valid
      obtain ⟨inside, -⟩ := Array.getElem?_eq_some_iff.mp word_at
      refine .head (.entrypoint word_at valid (free n (Nat.le_refl n) inside) rfl) (ih (n + 1) ?_)
      intro m after bound
      have other : n ≠ m := by omega
      simpa [Script.setEntry, Array.getElem?_setIfInBounds_ne other] using free m (by omega) bound
    · exact .refl

/-- The script named from a blank one. -/
theorem named_moves (image : Image) (room : Nat) :
    Moves image (.blank image.size) (findEntrypoints image room 0 (.blank image.size)) := by
  refine findEntrypoints_moves room 0 fun m _ bound => ?_
  simp [Script.blank, bound]

theorem explore_cases {setting : Setting} {stats : Stats} {s : Session}
    (h : explore setting stats = .ok s) :
    ∃ script u, script = findEntrypoints setting.image setting.options.maxEntrypoints 0
        (.blank setting.image.size) ∧
      exploreBranches setting script.entrypoints { script, stats } = .ok u ∧
      (s = u ∨ exploreBranches setting setting.options.extraBranches u = .ok s) := by
  rw [explore] at h
  split at h
  · cases h
  rename_i u explored
  refine ⟨_, u, rfl, explored, ?_⟩
  split at h
  · cases h
    exact .inl rfl
  · exact .inr h

theorem explore_moves {setting : Setting} {stats : Stats} {s : Session}
    (h : explore setting stats = .ok s) :
    Moves setting.image (.blank setting.image.size) s.script ∧ s.worklist = [] := by
  obtain ⟨script, u, rfl, explored, more⟩ := explore_cases h
  obtain ⟨moves, empty⟩ := exploreBranches_moves explored
  have first := (named_moves setting.image setting.options.maxEntrypoints).trans moves
  rcases more with rfl | more
  · exact ⟨first, empty⟩
  · obtain ⟨moves, empty⟩ := exploreBranches_moves more
    exact ⟨first.trans moves, empty⟩

/-! ## The end of a recovery -/

theorem layText_moves (image : Image) (script : Script) (address : Nat) (bound : Option Nat) :
    Moves image script (layText image script address bound) := by
  rcases layText_cases image script address bound with same | noted | ⟨text, rfl, found, laid⟩
  · rw [same]
  · rw [noted]
    exact .single (.aside (.note (.of_visited (fun _ m => List.mem_append_left _ m) rfl rfl)
      rfl rfl))
  · exact .single (.text found laid)

/-- What laying out one text keeps, laying out all that were asked for keeps. -/
theorem answers_induction {image : Image} {P : Script → Prop}
    (step : ∀ {script} address bound, P script → P (layText image script address bound))
    (requests : List TextRequest) {script : Script} (start : P script) :
    P (requests.foldl (answer image) script) := by
  have texts : ∀ {script} addresses, P script → P (layTexts image script addresses) := by
    intro script addresses start
    fun_induction layTexts image script addresses with
    | case1 => exact start
    | case2 => exact step _ _ start
    | case3 script address next rest ih => exact ih (step _ _ start)
  induction requests generalizing script with
  | nil => exact start
  | cons request rest ih =>
    refine ih ?_
    cases request with
    | single address => exact step _ _ start
    | table head destinations => exact texts _ start

theorem answers_moves (image : Image) (script : Script) (requests : List TextRequest) :
    Moves image script (requests.foldl (answer image) script) :=
  answers_induction (P := Moves image script)
    (fun address bound moves => moves.trans (layText_moves image _ address bound)) requests .refl

/-- The script of a successful recovery is that of an exploration, settled. -/
theorem disassemble_cases {catalogue : Catalogue} {options : Options} {image : Image}
    {script : Script} (h : disassemble catalogue options image = .ok script) :
    ∃ s, explore ⟨image, catalogue, options⟩ {} = .ok s ∧ script = settle image s := by
  rw [disassemble, recover] at h
  split at h
  · cases h
  · rename_i recovered
    cases h
    split at recovered
    · cases recovered
    · rename_i s explored
      cases recovered
      exact ⟨s, explored, rfl⟩

/-- **A recovery is a sequence of moves** from the blank script. -/
theorem disassemble_moves {catalogue : Catalogue} {options : Options} {image : Image}
    {script : Script} (h : disassemble catalogue options image = .ok script) :
    Moves image (.blank image.size) script := by
  obtain ⟨s, explored, rfl⟩ := disassemble_cases h
  have answered := answers_moves image s.script s.requests
  exact ((explore_moves explored).1.trans answered).tail (.data rfl)

end EventScript.Recovery
