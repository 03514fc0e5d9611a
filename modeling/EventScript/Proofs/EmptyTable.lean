/-
Branch tables without an entry. A branch table is scanned once; a table that was laid
down for an instruction that reads it as data was not scanned, but its slots are taken.
If such a table is probed for branches after all, the probe finds no entry and halts the
recovery, as if the table were empty (`disassemble_emptyTable`, `data_table_halts`). The
other way round nothing happens: a table that was scanned is not probed again.
-/
import EventScript.Proofs.Assignment
import EventScript.Proofs.Moments
import EventScript.Proofs.Safety

namespace EventScript

open Recovery

/-- An instruction reads a table at an address as data: an operand goes through it, and
its parameter, if there is one, is no branch. -/
def Instruction.ReadsTable (catalogue : Catalogue) (instruction : Instruction) (a : Nat) : Prop :=
  instruction.opcode ≠ .jmpTable ∧ instruction.opcode ≠ .gosubTable ∧
    ∃ (k : Nat) (operand : Operand), instruction.operands[k]? = some operand ∧
      operand.mode.isTable = true ∧ operand.resolved = some a ∧
      ∀ (method : Method) (parameter : Parameter), instruction.opcode = .call →
        catalogue.method? instruction.parameter = some method →
        method.parameters[k]? = some parameter → Role.ofBranch? parameter.branch = none

/-- An instruction of the script reads a table at an address as data. -/
def Script.ReadsTable (catalogue : Catalogue) (script : Script) (a : Nat) : Prop :=
  ∃ (n : Nat) (decoded : Instruction), script.entries[n]? = some (.instruction decoded) ∧
    decoded.ReadsTable catalogue a

theorem Script.ReadsTable.mono {catalogue : Catalogue} {s t : Script} (grows : Grows s t) {a : Nat}
    (h : s.ReadsTable catalogue a) : t.ReadsTable catalogue a := by
  obtain ⟨n, decoded, there, reads⟩ := h
  exact ⟨n, decoded, grows.instructions there, reads⟩

theorem Mode.isInline_of_isTable {mode : Mode} (h : mode.isTable = true) :
    mode.isInline = true := by
  cases mode <;> first | rfl | cases h

namespace Recovery

/-! ## Which table is probed -/

/-- The branch table that is probed when an operand is followed. -/
def followedTable? (opcode : Opcode) (operand : Operand) (parameter : Option Parameter) :
    Option (TableKind × Role × Nat) :=
  if operand.mode.isTable ∧ opcode ≠ .jmpTable ∧ opcode ≠ .gosubTable then
    (parameter.bind fun p => Role.ofBranch? p.branch).bind fun role =>
      operand.resolved.map fun table => (.branches, role, table)
  else none

/-- The branch table that is probed when control is transferred. -/
def transferredTable? (instruction : Instruction) : Option (TableKind × Role × Nat) :=
  match instruction.opcode with
  | .jmpTable => instruction.operands[1]?.bind (Operand.branchTable? .jumpDestination)
  | .gosubTable => instruction.operands[1]?.bind (Operand.branchTable? .subroutine)
  | _ => none

/-- The branch table that is probed at a moment. -/
def Moment.table? : Moment → Option (TableKind × Role × Nat)
  | ⟨.idle, s⟩ =>
    match s.worklist with
    | .table a role :: _ => some (.branches, role, a)
    | _ => none
  | ⟨.following _ _ instruction (operand :: _) parameters, _⟩ =>
    followedTable? instruction.opcode operand parameters.head?
  | ⟨.leaving _ _ instruction, _⟩ => transferredTable? instruction
  | _ => none

variable {setting : Setting} {kind : TableKind} {role : Role} {a : Nat} {opcode : Opcode}
  {operand : Operand} {parameter : Option Parameter} {instruction : Instruction}

theorem followOperand_of_table
    (h : followedTable? opcode operand parameter = some (kind, role, a)) (s : Session) :
    followOperand setting opcode operand parameter s = probeTable setting a kind role s := by
  rw [followedTable?] at h
  obtain ⟨⟨isTable, plain⟩, h⟩ := Option.ite_none_right_eq_some.mp h
  obtain ⟨given, known, h⟩ := Option.bind_eq_some_iff.mp h
  obtain ⟨table, resolved, h⟩ := Option.map_eq_some_iff.mp h
  cases h
  simp [followOperand, resolved, Mode.isInline_of_isTable isTable, isTable, plain, known]

/-- Without a branch table, following an operand does not fail, and it leaves the script
as it is unless it comes by a data table. -/
theorem followOperand_of_none (h : followedTable? opcode operand parameter = none) (s : Session) :
    ∃ t, followOperand setting opcode operand parameter s = .ok t ∧ (t.script = s.script ∨
      ∃ a texts, operand.mode.isTable = true ∧ opcode ≠ .jmpTable ∧ opcode ≠ .gosubTable ∧
        operand.resolved = some a ∧ (parameter.bind fun p => Role.ofBranch? p.branch) = none ∧
        t = probeData setting a texts s) := by
  rw [followOperand]
  split
  · exact ⟨_, rfl, .inl rfl⟩
  rename_i target resolved
  simp only
  split
  · exact ⟨_, rfl, .inl rfl⟩
  split
  · rename_i table
    simp only [Bool.and_eq_true, decide_eq_true_eq, and_assoc] at table
    rw [followedTable?, if_pos table] at h
    cases given : parameter.bind fun p => Role.ofBranch? p.branch with
    | some role => simp [given, resolved] at h
    | none => exact ⟨_, rfl, .inr ⟨target, _, table.1, table.2.1, table.2.2, resolved, rfl, rfl⟩⟩
  · split
    all_goals exact ⟨_, rfl, .inl rfl⟩

theorem transfer_of_table (h : transferredTable? instruction = some (kind, role, a)) :
    ∃ flow, ∀ next s, transfer setting instruction next s =
      (probeTable setting a kind role s).map (flow, ·) := by
  have table : ∀ {given : Role}, instruction.operands[1]?.bind (Operand.branchTable? given) =
      some (kind, role, a) → ∀ s, transferTable setting instruction given s =
        probeTable setting a kind role s := by
    intro given h s
    obtain ⟨operand, there, h⟩ := Option.bind_eq_some_iff.mp h
    obtain ⟨target, resolved, h⟩ := Option.bind_eq_some_iff.mp h
    obtain ⟨some, h⟩ := Option.ite_none_left_eq_some.mp h
    cases h
    simp [transferTable, there, resolved, some]
  rw [transferredTable?] at h
  split at h
  · rename_i opcode
    exact ⟨.stop, fun next s => by rw [transfer]; simp only [opcode, table h]⟩
  · rename_i opcode
    exact ⟨.goOn, fun next s => by rw [transfer]; simp only [opcode, table h]⟩
  · cases h

/-- Neither an entry nor a visit of a table tells the sessions apart. -/
structure Session.Still (s t : Session) : Prop where
  entries : t.script.entries = s.script.entries
  tables : t.script.tableAddresses = s.script.tableAddresses

namespace Session.Still

variable {s t u : Session}

theorem rfl : s.Still s := ⟨Eq.refl _, Eq.refl _⟩

theorem trans (h : s.Still t) (k : t.Still u) : s.Still u :=
  ⟨k.entries.trans h.entries, k.tables.trans h.tables⟩

end Session.Still

theorem enqueue_still (s : Session) (origin target : Nat) :
    s.Still (s.enqueue setting origin target).2 := by
  rw [Session.enqueue]
  split <;> exact ⟨rfl, rfl⟩

theorem transferTo_still (address target : Nat) (given : Option Role) (s : Session) :
    s.Still (transferTo setting address target given s) := by
  have queued := @enqueue_still setting s address target
  rw [transferTo]
  simp only
  split
  · rename_i role
    split
    · exact queued.trans (by cases role <;> exact ⟨rfl, rfl⟩)
    · exact queued
  · exact queued

theorem transferOperand_still (index : Nat) (given : Option Role) (s : Session) :
    s.Still (transferOperand setting instruction index given s) := by
  rw [transferOperand]
  split
  · exact transferTo_still ..
  · exact ⟨rfl, rfl⟩

theorem transferCall_still (address : Nat) (parameters : List Parameter)
    (operands : List Operand) (s : Session) :
    s.Still (transferCall setting address parameters operands s) := by
  fun_induction transferCall setting address parameters operands s with
  | case1 parameter parameters operand operands s t ih =>
    refine Session.Still.trans ?_ ih
    show s.Still t
    simp only [t]
    split
    · exact .rfl
    · split
      · exact transferTo_still ..
      · exact ⟨rfl, rfl⟩
  | case2 => exact .rfl

theorem transferMethod_still (method : Method) (s : Session) :
    s.Still (transferMethod setting instruction method s) := by
  rw [transferMethod]
  refine Session.Still.trans ?_ (transferCall_still ..)
  split
  · exact .rfl
  · exact ⟨rfl, rfl⟩

/-- Without a branch table, transferring control does not fail, and places nothing. -/
theorem transfer_of_none (h : transferredTable? instruction = none) (next : Nat) (s : Session) :
    ∃ flow t, transfer setting instruction next s = .ok (flow, t) ∧ s.Still t := by
  have table : ∀ {given : Role}, instruction.operands[1]?.bind (Operand.branchTable? given) = none →
      ∃ t, transferTable setting instruction given s = .ok t ∧ s.Still t := by
    intro given h
    rw [transferTable]
    split
    · exact ⟨_, rfl, rfl, rfl⟩
    rename_i operand there
    split
    · exact ⟨_, rfl, rfl, rfl⟩
    rename_i target resolved
    simp only [there, Option.bind_some, Operand.branchTable?, resolved, ite_eq_left_iff,
      reduceCtorEq, imp_false, Decidable.not_not] at h
    rw [if_pos h]
    exact ⟨_, rfl, .rfl⟩
  rw [transferredTable?] at h
  rw [transfer]
  simp only
  split at h
  · rename_i opcode
    obtain ⟨t, answer, still⟩ := table h
    exact ⟨.stop, t, by simp only [opcode, answer]; rfl, still⟩
  · rename_i opcode
    obtain ⟨t, answer, still⟩ := table h
    exact ⟨.goOn, t, by simp only [opcode, answer]; rfl, still⟩
  · rename_i noJump noGosub
    split
    · split
      · exact ⟨_, _, rfl, transferMethod_still ..⟩
      · exact ⟨_, _, rfl, .rfl⟩
    · split
      · exact ⟨_, _, rfl, enqueue_still ..⟩
      · exact ⟨_, _, rfl, rfl, rfl⟩
    · split
      · exact ⟨_, _, rfl, (enqueue_still ..).trans (enqueue_still ..)⟩
      · exact ⟨_, _, rfl, rfl, rfl⟩
    · split
      · exact ⟨_, _, rfl, (enqueue_still ..).trans (enqueue_still ..)⟩
      · exact ⟨_, _, rfl, rfl, rfl⟩
    · rename_i opcode
      exact (noJump opcode).elim
    · rename_i opcode
      exact (noGosub opcode).elim
    · exact ⟨_, _, rfl, transferOperand_still ..⟩
    · exact ⟨_, _, rfl, transferOperand_still ..⟩
    · exact ⟨_, _, rfl, transferOperand_still ..⟩
    · exact ⟨_, _, rfl, .rfl⟩

/-! ## Where a probe fails -/

/-- The slot at an address does not pass for the first entry of a branch table there. -/
def NoEntry (setting : Setting) (script : Script) (kind : TableKind) (a : Nat) : Prop :=
  setting.image.size ≤ a / 4 ∨
    branchEntry? setting script kind a a (.start setting.image) = none

theorem scanBranches_eq_nil_iff {table room entry : Nat} {window : Window} {script : Script} :
    (scanBranches setting kind role table room entry window script).1 = [] ↔
      room = 0 ∨ branchEntry? setting script kind table entry window = none := by
  cases room with
  | zero => exact iff_of_true rfl (.inl rfl)
  | succ room =>
    rw [scanBranches]
    cases branchEntry? setting script kind table entry window with
    | none => exact iff_of_true rfl (.inr rfl)
    | some destination => simp

/-- What passes for an entry does not depend on which tables were scanned. -/
theorem branchEntry?_tables (script : Script) (visited : AddressSet) (table entry : Nat)
    (window : Window) :
    branchEntry? setting { script with tableAddresses := visited } kind table entry window =
      branchEntry? setting script kind table entry window := by
  have unset : ({ script with tableAddresses := visited } : Script).isUnset entry =
    script.isUnset entry := rfl
  have likely : ∀ address, setting.isProbablyOp { script with tableAddresses := visited } address =
    setting.isProbablyOp script address := fun _ => rfl
  simp only [ branchEntry?, unset, likely]

/-- A table probe fails just if the table was not scanned before and has no entry. -/
theorem probeTable_error_iff {s : Session} :
    (∃ halt, probeTable setting a kind role s = .error halt) ↔
      a ∉ s.script.tableAddresses ∧ NoEntry setting s.script kind a := by
  rw [probeTable, ← Std.ExtTreeSet.contains_iff_mem]
  split
  · rename_i seen
    refine iff_of_false ?_ fun h => h.1 seen
    rintro ⟨halt, ⟨⟩⟩
  rename_i new
  have empty := @scanBranches_eq_nil_iff setting kind role a (slotsFrom setting.image a) a
    (.start setting.image)
    { s.script with tableAddresses := s.script.tableAddresses.insert a }
  have none : NoEntry setting s.script kind a ↔ (scanBranches setting kind role a
      (slotsFrom setting.image a) a (.start setting.image)
      { s.script with tableAddresses := s.script.tableAddresses.insert a }).1 = [] := by
    rw [empty, slotsFrom, Nat.sub_eq_zero_iff_le, branchEntry?_tables, NoEntry]
  rw [none, ← List.isEmpty_iff]
  simp only
  split
  · rename_i isEmpty
    exact iff_of_true ⟨_, rfl⟩ ⟨new, isEmpty⟩
  · rename_i some
    refine iff_of_false ?_ fun h => some h.2
    rintro ⟨halt, ⟨⟩⟩

/-- At a moment that probes a table, that is all that is done. -/
theorem Moment.advance_of_table {m : Moment} (h : m.table? = some (kind, role, a)) :
    ∃ (s : Session) (go : Session → Moment), s.script = m.session.script ∧
      (∀ t, (go t).session = t) ∧
      m.advance setting = (probeTable setting a kind role s).map go := by
  obtain ⟨phase, s⟩ := m
  cases phase with
  | idle =>
    rw [table?] at h
    split at h
    · rename_i rest pending
      cases h
      refine ⟨{ s with worklist := rest }, (⟨.idle, ·⟩), rfl, fun _ => rfl, ?_⟩
      rw [advance]
      simp only [pending]
    · cases h
  | decoding => cases h
  | following start next instruction operands parameters =>
    cases operands with
    | nil => cases h
    | cons operand rest =>
      refine ⟨s, (⟨.following start next instruction rest parameters.tail, ·⟩), rfl,
        fun _ => rfl, ?_⟩
      rw [advance, followOperand_of_table h]
  | leaving start next instruction =>
    obtain ⟨flow, transfers⟩ := @transfer_of_table setting _ _ _ _ h
    refine ⟨s, fun t => ⟨flow.phase start next, t⟩, rfl, fun _ => rfl, ?_⟩
    rw [advance, transfers]
    cases probeTable setting a kind role s <;> rfl

/-- Reading an instruction fails only at a call that is not known. -/
theorem readInstruction_unknown {cursor : Nat} {s : Session} {halt : Halt}
    (h : readInstruction setting cursor s = .error halt) :
    ∃ index, halt.fault = .unknownCall index cursor := by
  rw [readInstruction] at h
  simp only at h
  split at h
  · cases h
  split at h
  · cases h
    exact ⟨_, rfl⟩
  · split at h <;> cases h

/-- Where exploration halts at an empty table, it is that table it probes. -/
theorem Moment.table?_of_halts {m : Moment} {halt : Halt}
    (halts : m.advance setting = .error halt) (empty : halt.fault = .emptyTable a) :
    ∃ kind role, m.table? = some (kind, role, a) := by
  have same : ∀ {table : TableKind × Role × Nat}, m.table? = some table →
      ∃ kind role, m.table? = some (kind, role, a) := by
    rintro ⟨kind, role, b⟩ known
    obtain ⟨s, go, -, -, advances⟩ := @advance_of_table setting _ _ _ _ known
    rw [advances, map_eq_error_iff] at halts
    rw [probeTable_halts halts] at empty
    cases empty
    exact ⟨kind, role, known⟩
  cases known : m.table? with
  | some table => exact known ▸ same known
  | none =>
  obtain ⟨phase, s⟩ := m
  cases phase with
  | idle =>
    rw [advance] at halts
    rw [table?] at known
    split at halts
    · cases halts
    · simp only at halts
      split at halts <;> cases halts
    · rename_i pending
      simp [pending] at known
  | decoding start cursor =>
    rw [advance] at halts
    split at halts
    · split at halts
      · cases halts
      split at halts
      · cases halts
      · split at halts
        · rename_i halted
          cases halts
          obtain ⟨index, eq⟩ := readInstruction_unknown halted
          cases eq.symm.trans empty
        all_goals cases halts
      · cases halts
    · cases halts
  | following start next instruction operands parameters =>
    cases operands with
    | nil => cases halts
    | cons operand rest =>
      obtain ⟨t, followed, -⟩ := @followOperand_of_none setting _ _ _ known s
      rw [advance, followed] at halts
      cases halts
  | leaving start next instruction =>
    obtain ⟨flow, t, transfers, -⟩ := @transfer_of_none setting _ known next s
    rw [advance, transfers] at halts
    cases halts

/-! ## Where tables come from -/

/-- Every table was scanned for branches, or is read as data. -/
def Sourced (catalogue : Catalogue) (script : Script) : Prop :=
  ∀ (n address : Nat) (labels : List String),
    script.entries[n]? = some (.pointerTable address labels) →
    4 * n ∈ script.tableAddresses ∨ script.ReadsTable catalogue (4 * n)

/-- The operands that are still to be followed are the last ones of an instruction of
the script, with their parameters. -/
def Moment.Placed (setting : Setting) : Moment → Prop
  | ⟨.following _ _ instruction operands parameters, s⟩ =>
    (∃ n : Nat, s.script.entries[n]? = some (.instruction instruction)) ∧
      ∃ k, operands = instruction.operands.drop k ∧
        parameters = (setting.parametersOf instruction).drop k
  | _ => True

section

variable {catalogue : Catalogue} {s t : Session} {m n : Moment}

/-- What grows stays sourced, if every table that is new in it is sourced. -/
theorem Sourced.grows (h : Sourced catalogue s.script) (grows : Grows s.script t.script)
    (new : ∀ {n address : Nat} {labels : List String},
      t.script.entries[n]? = some (.pointerTable address labels) →
      (∃ old, s.script.entries[n]? = some (.pointerTable address old)) ∨
        4 * n ∈ t.script.tableAddresses ∨ t.script.ReadsTable catalogue (4 * n)) :
    Sourced catalogue t.script := by
  intro n address labels at_n
  rcases new at_n with ⟨old, before⟩ | sourced
  · exact (h _ _ _ before).imp (grows.tables _) (·.mono grows)
  · exact sourced

theorem Session.Still.sourced (still : s.Still t) (grows : Grows s.script t.script)
    (h : Sourced catalogue s.script) : Sourced catalogue t.script :=
  h.grows grows fun {_ _ labels} at_n => .inl ⟨labels, still.entries ▸ at_n⟩

theorem probeTable_sourced (h : probeTable setting a kind role s = .ok t)
    (sourced : Sourced catalogue s.script) : Sourced catalogue t.script := by
  refine sourced.grows (probeTable_adds h).script.grows fun {n address labels} at_n => ?_
  rcases probeTable_cases h with ⟨-, rfl⟩ | ⟨destinations, scans⟩
  · exact .inl ⟨labels, at_n⟩
  rw [scans.entries, Array.getElem?_setIfInBounds] at at_n
  split at at_n
  · rename_i here
    have aligned := scans.found.aligned
    refine .inr (.inl ?_)
    rw [scans.tables, Std.ExtTreeSet.mem_insert, Nat.compare_eq_eq]
    exact .inl (by omega)
  · exact .inl ⟨labels, at_n⟩

theorem probeData_sourced {texts : Bool} (reads : s.script.ReadsTable catalogue a)
    (sourced : Sourced catalogue s.script) :
    Sourced catalogue (probeData setting a texts s).script := by
  have grows := (probeData_adds setting a texts s).script.grows
  refine sourced.grows grows fun {n address labels} at_n => ?_
  have entries : (probeData setting a texts s).script.entries = s.script.entries ∨
      a = 4 * (a / 4) ∧ ∃ names, (probeData setting a texts s).script.entries =
        s.script.entries.setIfInBounds (a / 4) (.pointerTable a names) := by
    rw [probeData]
    split
    · rename_i free
      simp only
      split
      · exact .inl rfl
      · split <;> exact .inr ⟨(Script.slot_of_isUnset free).1, _, rfl⟩
    · exact .inl rfl
  rcases entries with same | ⟨aligned, names, laid⟩
  · exact .inl ⟨labels, same ▸ at_n⟩
  rw [laid, Array.getElem?_setIfInBounds] at at_n
  split at at_n
  · rename_i here
    rw [show 4 * n = a by omega]
    exact .inr (.inr (reads.mono grows))
  · exact .inl ⟨labels, at_n⟩

/-- **From one moment to the next** tables stay sourced. -/
theorem Goes.sourced (goes : Goes setting m n)
    (explored : Explored setting.image m.session.script) (placed : m.Placed setting)
    (h : Sourced setting.catalogue m.session.script) :
    n.Placed setting ∧ Sourced setting.catalogue n.session.script := by
  have grows := goes.moves.grows explored
  cases goes with
  | done => exact ⟨trivial, h⟩
  | seen => exact ⟨trivial, h⟩
  | begun =>
    refine ⟨trivial, Session.Still.sourced ?_ grows h⟩
    exact ⟨rfl, rfl⟩
  | table _ scanned => exact ⟨trivial, probeTable_sourced scanned h⟩
  | out => exact ⟨trivial, h⟩
  | joined => exact ⟨trivial, h⟩
  | blocked =>
    refine ⟨trivial, Session.Still.sourced ?_ grows h⟩
    exact ⟨rfl, rfl⟩
  | unread _ read =>
    obtain ⟨noted, rfl⟩ := readInstruction_counts read
    refine ⟨trivial, Session.Still.sourced ?_ grows h⟩
    exact ⟨rfl, rfl⟩
  | placed free found =>
    obtain ⟨-, readable⟩ := readInstruction_readable found free
    have size := (readInstruction_adds found).script.moves.explored explored |>.size
    obtain ⟨noted, rfl⟩ := readInstruction_counts found
    have claims := placeInstruction_claims readable size
    refine ⟨⟨⟨_, claims.head⟩, 0, rfl, rfl⟩, h.grows grows fun {k address labels} at_k => ?_⟩
    rcases claims.cases_of_after at_k with old | ⟨-, eq⟩ | ⟨_, -, tail⟩
    · exact .inl ⟨labels, old⟩
    · cases eq
    · cases Entry.width?_of_mem_tail (List.mem_of_getElem? tail)
  | @followed start next s t instruction operand rest parameters followed =>
    obtain ⟨⟨n, there⟩, k, ofOperands, ofParameters⟩ := placed
    have at_k : instruction.operands[k]? = some operand := by
      rw [← List.head?_drop, ← ofOperands]
      rfl
    refine ⟨⟨⟨n, grows.instructions there⟩, k + 1, ?_, ?_⟩, ?_⟩
    · rw [← List.tail_drop, ← ofOperands]
      rfl
    · rw [← List.tail_drop, ← ofParameters]
    cases table : followedTable? instruction.opcode operand parameters.head? with
    | some probed =>
      obtain ⟨kind, role, a⟩ := probed
      rw [followOperand_of_table table] at followed
      exact probeTable_sourced followed h
    | none =>
      obtain ⟨u, answer, plain⟩ := @followOperand_of_none setting _ _ _ table s
      cases followed.symm.trans answer
      rcases plain with same | ⟨a, texts, isTable, noJump, noGosub, resolved, given, rfl⟩
      · refine Session.Still.sourced ?_ grows h
        exact ⟨congrArg Script.entries same, congrArg Script.tableAddresses same⟩
      · refine probeData_sourced ⟨n, instruction, there, noJump, noGosub, k, operand, at_k,
          isTable, resolved, fun method parameter call known at_parameter => ?_⟩ h
        have own : setting.parametersOf instruction = method.parameters := by
          rw [Setting.parametersOf, Setting.methodOf?, if_pos call, known]
          rfl
        rwa [ofParameters, List.head?_drop, own, at_parameter] at given
  | all => exact ⟨trivial, h⟩
  | @left start next s t instruction flow left =>
    refine ⟨by cases flow <;> trivial, ?_⟩
    cases table : transferredTable? instruction with
    | some probed =>
      obtain ⟨kind, role, a⟩ := probed
      obtain ⟨given, transfers⟩ := @transfer_of_table setting _ _ _ _ table
      rw [transfers] at left
      obtain ⟨u, scanned, eq⟩ := map_eq_ok_iff.mp left
      cases eq
      exact probeTable_sourced scanned h
    | none =>
      obtain ⟨given, u, transfers, still⟩ := @transfer_of_none setting _ table next s
      cases left.symm.trans transfers
      exact still.sourced grows h

/-- Correcting the tables finds no table. -/
theorem correctOverruns_tables {image : Image} {script : Script} (explored : Explored image script)
    {n address : Nat} {labels : List String}
    (at_n : script.correctOverruns.entries[n]? = some (.pointerTable address labels)) :
    ∃ old, script.entries[n]? = some (.pointerTable address old) := by
  rw [Script.correctOverruns] at at_n
  revert at_n
  generalize script.tableHeads = heads
  induction heads generalizing script with
  | nil => exact fun at_n => ⟨labels, at_n⟩
  | cons table rest ih =>
    intro at_n
    obtain ⟨old, before⟩ := ih (explored.move (.correct rfl)) at_n
    obtain ⟨same, -⟩ | ⟨m, all, keep, -, c⟩ := Script.correctTable_cases explored.laid table
    · exact ⟨old, same ▸ before⟩
    · rcases c.entries.cases_of_after before with ⟨rfl, eq⟩ | ⟨-, -, eq⟩ | eq | ⟨there, -⟩
      · cases eq
        exact ⟨_, c.entries.old⟩
      · cases eq
      · cases eq
      · exact ⟨old, there⟩

theorem Sourced.correct (explored : Explored setting.image s.script)
    (h : Sourced catalogue s.script) : Sourced catalogue s.correct.script :=
  h.grows ((correctOverruns_moves setting.image s.script).grows explored) fun at_n =>
    .inl (correctOverruns_tables explored at_n)

variable {stats : Stats}

theorem Later.sourced (path : Later setting m n)
    (explored : Explored setting.image m.session.script) (placed : m.Placed setting)
    (h : Sourced setting.catalogue m.session.script) :
    Explored setting.image n.session.script ∧ n.Placed setting ∧
      Sourced setting.catalogue n.session.script := by
  induction path with
  | refl => exact ⟨explored, placed, h⟩
  | tail _ step ih =>
    obtain ⟨explored, placed, h⟩ := ih
    have goes := Moment.goes step
    exact ⟨goes.moves.explored explored, goes.sourced explored placed h⟩

theorem named_sourced : Sourced catalogue (Session.named setting stats).script := by
  intro n address labels at_n
  rcases findEntrypoints_entries at_n with ⟨_, _, eq⟩ | unset
  · cases eq
  · simp [Script.blank, Array.getElem?_replicate] at unset

/-- **Wherever exploration stands**, every table was scanned for branches or is read as
data. -/
theorem Arrives.sourced (arrives : Arrives setting stats m) :
    m.Placed setting ∧ Sourced setting.catalogue m.session.script := by
  induction arrives with
  | named => exact ⟨trivial, @named_sourced setting _ stats⟩
  | extra first _ =>
    rw [exploreBranches_eq] at first
    obtain ⟨u, drained, rfl⟩ := map_eq_ok_iff.mp first
    have path := @drain_comes setting
      ((Session.named setting stats).ask (Session.named setting stats).script.entrypoints)
    rw [drained] at path
    obtain ⟨explored, -, h⟩ := Later.sourced path (Exploring.named_explored setting stats) trivial
      (@named_sourced setting _ stats)
    exact ⟨trivial, Sourced.correct explored h⟩
  | step before step ih => exact (Moment.goes step).sourced before.explored ih.1 ih.2

end

/-! ## Whole recoveries -/

/-- A slot that holds a table does not pass for the entry of one. -/
theorem noEntry_of_table {script : Script} {address : Nat} {labels : List String}
    (there : script.entryAt? a = some (.pointerTable address labels)) :
    NoEntry setting script kind a := by
  refine .inr ?_
  have taken : script.isUnset a = false := by
    rw [Script.isUnset, there]
    rfl
  simp [ branchEntry?, taken]

end Recovery

variable {catalogue : Catalogue} {options : Options} {image : Image}

/-- A recovery fails as its exploration does. -/
theorem disassemble_error_iff {fault : Fault} :
    disassemble catalogue options image = .error fault ↔
      ∃ halt, explore ⟨image, catalogue, options⟩ {} = .error halt ∧ halt.fault = fault := by
  rw [disassemble, recover]
  cases explore ⟨image, catalogue, options⟩ {} with
  | error halt => simp
  | ok s => simp

/-- Where a table stands that was not scanned for branches, it is read as data. -/
theorem Recovery.Arrives.reads {setting : Setting} {stats : Stats} {m : Moment}
    (arrives : Arrives setting stats m) {a address : Nat} {labels : List String}
    (there : m.session.script.entryAt? a = some (.pointerTable address labels))
    (new : a ∉ m.session.script.tableAddresses) :
    address = a ∧ m.session.script.ReadsTable setting.catalogue a := by
  obtain ⟨aligned, slot⟩ := Script.entryAt?_eq_some there
  have home := arrives.explored.laid.home slot rfl
  rw [← aligned] at home
  refine ⟨home, ?_⟩
  rcases arrives.sourced.2 _ _ _ slot with scanned | reads
  · exact absurd (aligned ▸ scanned) new
  · exact aligned ▸ reads

/-- A probe of a new table without an entry ends the recovery. -/
theorem Recovery.Arrives.fails {m : Moment} {kind : TableKind} {role : Role} {a : Nat}
    (arrives : Arrives ⟨image, catalogue, options⟩ {} m) (table : m.table? = some (kind, role, a))
    (new : a ∉ m.session.script.tableAddresses)
    (empty : NoEntry ⟨image, catalogue, options⟩ m.session.script kind a) :
    disassemble catalogue options image = .error (.emptyTable a) := by
  obtain ⟨s, go, same, -, advances⟩ :=
    @Moment.advance_of_table ⟨image, catalogue, options⟩ _ _ _ _ table
  obtain ⟨halt, halted⟩ := (@probeTable_error_iff _ _ role _ s).mpr ⟨same ▸ new, same ▸ empty⟩
  rw [halted] at advances
  exact disassemble_error_iff.mpr
    ⟨halt, explore_error_iff.mpr ⟨m, arrives, advances⟩, probeTable_halts halted⟩

/-- **When a recovery fails at an empty table.** It does so just if exploration comes to
probe a branch table that was not scanned before, and either no table stands there and
its slot does not pass for an entry, or an instruction reads the table there as data.
So where a table stands already, the probe goes on, with nothing changed, if the table
was scanned for branches before, and else it ends the recovery. -/
theorem disassemble_emptyTable (catalogue : Catalogue) (options : Options) (image : Image)
    (a : Nat) :
    (disassemble catalogue options image = .error (.emptyTable a) ↔
      ∃ m kind role, Arrives ⟨image, catalogue, options⟩ {} m ∧
        m.table? = some (kind, role, a) ∧ a ∉ m.session.script.tableAddresses ∧
        ((∀ address labels,
            m.session.script.entryAt? a ≠ some (.pointerTable address labels)) ∧
          NoEntry ⟨image, catalogue, options⟩ m.session.script kind a ∨
        (∃ labels, m.session.script.entryAt? a = some (.pointerTable a labels)) ∧
          m.session.script.ReadsTable catalogue a)) ∧
    ∀ m kind role labels, Arrives ⟨image, catalogue, options⟩ {} m →
      m.table? = some (kind, role, a) →
      m.session.script.entryAt? a = some (.pointerTable a labels) →
      (a ∈ m.session.script.tableAddresses → ∃ n, m.advance ⟨image, catalogue, options⟩ = .ok n ∧
        n.session.script = m.session.script) ∧
      (a ∉ m.session.script.tableAddresses → m.session.script.ReadsTable catalogue a ∧
        disassemble catalogue options image = .error (.emptyTable a)) := by
  refine ⟨⟨fun failed => ?_, ?_⟩, fun m kind role labels arrives table there => ⟨fun seen => ?_,
    fun new => ⟨(arrives.reads there new).2, arrives.fails table new (noEntry_of_table there)⟩⟩⟩
  · obtain ⟨halt, halted, fault⟩ := disassemble_error_iff.mp failed
    obtain ⟨m, arrives, stops⟩ := explore_error_iff.mp halted
    obtain ⟨kind, role, table⟩ := Moment.table?_of_halts stops fault
    obtain ⟨s, go, same, -, advances⟩ :=
      @Moment.advance_of_table ⟨image, catalogue, options⟩ _ _ _ _ table
    rw [advances, map_eq_error_iff] at stops
    obtain ⟨new, empty⟩ := probeTable_error_iff.mp ⟨halt, stops⟩
    rw [same] at new empty
    refine ⟨m, kind, role, arrives, table, new, ?_⟩
    by_cases there : ∃ address labels,
      m.session.script.entryAt? a = some (.pointerTable address labels)
    · obtain ⟨address, labels, there⟩ := there
      obtain ⟨rfl, reads⟩ := arrives.reads there new
      exact .inr ⟨⟨labels, there⟩, reads⟩
    · exact .inl ⟨fun address labels stands => there ⟨address, labels, stands⟩, empty⟩
  · rintro ⟨m, kind, role, arrives, table, new, ⟨-, empty⟩ | ⟨⟨labels, there⟩, -⟩⟩
    · exact arrives.fails table new empty
    · exact arrives.fails table new (noEntry_of_table there)
  · obtain ⟨s, go, same, goes, advances⟩ :=
      @Moment.advance_of_table ⟨image, catalogue, options⟩ _ _ _ _ table
    have scanned : probeTable ⟨image, catalogue, options⟩ a kind role s = .ok s := by
      rw [probeTable, if_pos (Std.ExtTreeSet.contains_iff_mem.mpr (same ▸ seen))]
    exact ⟨go s, by rw [advances, scanned]; rfl, by rw [goes, same]⟩

/-- An entry point; a move that goes through the table behind the jump for data; a
`jmp_table` through the same table; the table, the one entry of which leads back to the
move. -/
def dataFirst : Image := #[
  0x00000004,
  0x00000208, 0x0b000006, 0x02000001,
  0x00000244, 0x02000000, 0x09000003,
  0xfffffffa]

/-- Exploration comes to jump through the table that the move before reads as data. -/
theorem dataFirst_shares :
    ∃ m, Arrives ⟨dataFirst, {}, {}⟩ {} m ∧
      m.table? = some (.branches, .jumpDestination, 28) ∧
      m.session.script.entryAt? 28 = some (.pointerTable 28 ["LABEL_0"]) ∧
      28 ∉ m.session.script.tableAddresses := by
  obtain ⟨m, arrives, holds⟩ := @Arrives.after_holds ⟨dataFirst, {}, {}⟩ {} 10
    (fun m => m.table? = some (.branches, .jumpDestination, 28) ∧
      m.session.script.entryAt? 28 = some (.pointerTable 28 ["LABEL_0"]) ∧
      28 ∉ m.session.script.tableAddresses) (by decide +kernel)
  exact ⟨m, arrives, of_decide_eq_true holds⟩

theorem disassemble_emptyTable_dataFirst :
    ∃ m, Arrives ⟨dataFirst, {}, {}⟩ {} m ∧
      m.table? = some (.branches, .jumpDestination, 28) ∧
      m.session.script.entryAt? 28 = some (.pointerTable 28 ["LABEL_0"]) ∧
      28 ∉ m.session.script.tableAddresses ∧ m.session.script.ReadsTable {} 28 ∧
      disassemble {} {} dataFirst = .error (.emptyTable 28) := by
  obtain ⟨m, arrives, table, there, new⟩ := dataFirst_shares
  exact ⟨m, arrives, table, there, new,
    ((disassemble_emptyTable {} {} dataFirst 28).2 m _ _ _ arrives table there).2 new⟩

/-- A recovery fails for an empty table where a table stands, which has an entry. -/
theorem data_table_halts :
    ∃ m, Arrives ⟨dataFirst, {}, {}⟩ {} m ∧
      m.table? = some (.branches, .jumpDestination, 28) ∧
      m.session.script.entryAt? 28 = some (.pointerTable 28 ["LABEL_0"]) ∧
      disassemble {} {} dataFirst = .error (.emptyTable 28) := by
  obtain ⟨m, arrives, table, there, new⟩ := dataFirst_shares
  exact ⟨m, arrives, table, there, arrives.fails table new (noEntry_of_table there)⟩

end EventScript
