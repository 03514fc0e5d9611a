/-
What instructions ask for: an instruction gives a role to what its operands point
at (`Instruction.roleOperands`), and has branch tables scanned, whose destinations
get a role (`Instruction.branchTables`).

Taking an instruction does all it asks for (`Served`), and nothing takes a role
away on the way. A table is scanned once, and filed for the use of whoever asked
first (`Session.Assigns`, `Filed`).
-/
import EventScript.Proofs.Work

namespace EventScript

open Recovery

/-- The addresses of a role. -/
def Script.roleSet (script : Script) : Role → AddressSet
  | .jumpDestination => script.jumpTableDestinations
  | .subroutine => script.subroutines
  | .reentry => script.reentryPoints

/-- The branch table an operand leads to, and what it is taken for, if its
destinations are to have a role; address zero means there is none. -/
def Operand.branchTable? (role : Role) (operand : Operand) : Option (TableKind × Role × Nat) :=
  operand.resolved.bind fun table =>
    if table = 0 then none
    else some (if operand.mode.isTable then .tables else .branches, role, table)

namespace Instruction

/-- The operands by which an instruction gives a role to what they point at. -/
def roleOperands (catalogue : Catalogue) (instruction : Instruction) : List (Role × Operand) :=
  match instruction.opcode with
  | .gosub => instruction.operands[0]?.toList.map (Role.subroutine, ·)
  | .fork => instruction.operands[1]?.toList.map (Role.reentry, ·)
  | .call =>
    match catalogue.method? instruction.parameter with
    | some method => (method.parameters.zip instruction.operands).filterMap fun (parameter, operand) =>
      if operand.mode.isTable then none else (callRole? parameter.branch).map (·, operand)
    | none => []
  | _ => []

/-- The branch tables an instruction leads to, each with what it is taken for
and the role of its destinations. -/
def branchTables (catalogue : Catalogue) (instruction : Instruction) :
    List (TableKind × Role × Nat) :=
  match instruction.opcode with
  | .jmpTable => (instruction.operands[1]?.bind (Operand.branchTable? .jumpDestination)).toList
  | .gosubTable => (instruction.operands[1]?.bind (Operand.branchTable? .subroutine)).toList
  | .call =>
    match catalogue.method? instruction.parameter with
    | some method => (method.parameters.zip instruction.operands).filterMap fun (parameter, operand) =>
      if operand.mode.isTable then
        (Role.ofBranch? parameter.branch).bind fun role =>
          operand.resolved.map fun table => (.branches, role, table)
      else none
    | none => []
  | _ => []

theorem mem_of_mem_roleOperands {catalogue : Catalogue} {instruction : Instruction} {role : Role}
    {operand : Operand} (h : (role, operand) ∈ instruction.roleOperands catalogue) :
    operand ∈ instruction.operands := by
  rw [roleOperands] at h
  split at h
  · obtain ⟨_, mem, eq⟩ := List.mem_map.mp h
    cases eq
    exact List.mem_of_getElem? (Option.mem_toList.mp mem)
  · obtain ⟨_, mem, eq⟩ := List.mem_map.mp h
    cases eq
    exact List.mem_of_getElem? (Option.mem_toList.mp mem)
  · split at h
    · obtain ⟨⟨parameter, other⟩, mem, eq⟩ := List.mem_filterMap.mp h
      simp only at eq
      split at eq
      · cases eq
      · obtain ⟨_, -, eq⟩ := Option.map_eq_some_iff.mp eq
        cases eq
        exact (List.of_mem_zip mem).2
    · cases h
  · cases h

end Instruction

theorem mem_roleSet_record {script : Script} {role other : Role} {a destination : Nat} :
    a ∈ (script.record role destination).roleSet other ↔
      a ∈ script.roleSet other ∨ other = role ∧ a = destination := by
  have mine {visited : AddressSet} :
      a ∈ visited.insert destination ↔ a ∈ visited ∨ a = destination := by
    rw [Std.ExtTreeSet.mem_insert, Nat.compare_eq_eq, or_comm, eq_comm]
  cases role <;> cases other <;> simp [Script.record, Script.roleSet, mine]

namespace Recovery

/-! ## What a session assigns -/

/-- The table at an address was scanned; if for branches, all its destinations
have the role. -/
def Filed (image : Image) (script : Script) (kind : TableKind) (role : Role) (table : Nat) :
    Prop :=
  ∃ labels, script.entryAt? table = some (.pointerTable table labels) ∧
    (kind = .branches → ∀ k a : Nat, k < labels.length →
      tableDestination table (image.wordAt (table + 4 * k)) = (a : Int) →
      a ∈ script.roleSet role)

/-- What a step does to roles and tables: roles are only given, and each table
that is scanned is one that `use` allows, and so is each that is queued. -/
structure Session.Assigns (image : Image) (use : TableKind → Role → Nat → Prop) (s t : Session) :
    Prop where
  grows : Grows s.script t.script
  roles : ∀ {role a}, a ∈ s.script.roleSet role → a ∈ t.script.roleSet role
  tables : ∀ a ∈ t.script.tableAddresses, a ∈ s.script.tableAddresses ∨
    ∃ kind role, use kind role a ∧ Filed image t.script kind role a
  queued : ∀ {role} {a : Nat}, .table a role ∈ t.worklist → .table a role ∈ s.worklist ∨
    ∃ outer k, use .tables role outer ∧
      tableDestination outer (image.wordAt (outer + 4 * k)) = a

theorem Filed.mono {image : Image} {s t : Script} (grows : Grows s t)
    (roles : ∀ {role a}, a ∈ s.roleSet role → a ∈ t.roleSet role) {kind : TableKind} {role : Role}
    {table : Nat} (h : Filed image s kind role table) : Filed image t kind role table := by
  obtain ⟨labels, there, filed⟩ := h
  obtain ⟨aligned, slot⟩ := Script.entryAt?_eq_some there
  obtain ⟨keep, still⟩ := grows.pointerTables slot
  refine ⟨labels.take keep, Script.entryAt?_of_slot aligned still,
    fun branches k a bound named => ?_⟩
  rw [List.length_take] at bound
  exact roles (filed branches k a (by omega) named)

namespace Session.Assigns

variable {image : Image} {use : TableKind → Role → Nat → Prop} {s t u : Session}

/-- A step that scans no table. -/
theorem quiet (grows : Grows s.script t.script)
    (roles : ∀ {role a}, a ∈ s.script.roleSet role → a ∈ t.script.roleSet role)
    (tables : t.script.tableAddresses = s.script.tableAddresses)
    (queued : ∀ {role a}, .table a role ∈ t.worklist → .table a role ∈ s.worklist) :
    s.Assigns image use t :=
  ⟨grows, roles, fun _ mem => .inl (tables ▸ mem), fun mem => .inl (queued mem)⟩

theorem rfl : s.Assigns image use s := quiet .rfl id (Eq.refl _) id

theorem trans (h : s.Assigns image use t) (k : t.Assigns image use u) : s.Assigns image use u where
  grows := h.grows.trans k.grows
  roles := fun mem => k.roles (h.roles mem)
  tables := fun a mem => by
    rcases k.tables a mem with mem | new
    · refine (h.tables a mem).imp_right ?_
      rintro ⟨kind, role, used, filed⟩
      exact ⟨kind, role, used, filed.mono k.grows k.roles⟩
    · exact .inr new
  queued := fun mem => by
    rcases k.queued mem with mem | new
    · exact h.queued mem
    · exact .inr new

theorem diagnose (s : Session) (address : Nat) (problem : Problem) :
    s.Assigns image use (s.diagnose address problem) :=
  quiet (@Session.Adds.diagnose image s address problem).script.grows
    (fun {role _} mem => by cases role <;> exact mem) (Eq.refl _) id

end Session.Assigns

section

variable {setting : Setting} {use : TableKind → Role → Nat → Prop}

/-- Scanning a branch table gives its destinations the role, and takes none. -/
theorem scanBranches_roles {kind : TableKind} {role : Role} {table room entry : Nat}
    {window : Window} {script after : Script} {found : List (Nat × String)}
    (h : scanBranches setting kind role table room entry window script = (found, after)) :
    (∀ {other a}, a ∈ script.roleSet other → a ∈ after.roleSet other) ∧
      (kind = .branches → ∀ d ∈ found.map (·.1), d ∈ after.roleSet role) := by
  induction room generalizing entry window script found after with
  | zero =>
    cases h
    exact ⟨id, fun _ _ mem => absurd mem List.not_mem_nil⟩
  | succ room ih =>
    rw [scanBranches] at h
    split at h
    · cases h
      exact ⟨id, fun _ _ mem => absurd mem List.not_mem_nil⟩
    rename_i destination first
    have noted : ∃ noted : Script,
        (∀ {other a}, a ∈ script.roleSet other → a ∈ noted.roleSet other) ∧
        (kind = .branches → destination ∈ noted.roleSet role) ∧
        ((destination, (noted.labels.add destination).1) ::
            (scanBranches setting kind role table room (entry + 4) (window.widen destination)
              { noted with labels := (noted.labels.add destination).2 }).1,
          (scanBranches setting kind role table room (entry + 4) (window.widen destination)
            { noted with labels := (noted.labels.add destination).2 }).2) = (found, after) := by
      cases kind with
      | branches =>
        exact ⟨script.record role destination, fun mem => mem_roleSet_record.mpr (.inl mem),
          fun _ => mem_roleSet_record.mpr (.inr ⟨rfl, rfl⟩), h⟩
      | tables => exact ⟨script, id, fun branches => absurd branches (by decide), h⟩
    obtain ⟨noted, kept, given, eq⟩ := noted
    cases eq
    obtain ⟨still, others⟩ :=
      @ih _ _ { noted with labels := (noted.labels.add destination).2 } _ _ rfl
    have still {other : Role} {a : Nat} (mem : a ∈ noted.roleSet other) := @still other a
      (by cases other <;> exact mem)
    exact ⟨fun mem => still (kept mem), fun branches =>
      List.forall_mem_cons.mpr ⟨still (given branches), others branches⟩⟩

/-- A table that is scanned gives its destinations the role. -/
theorem Session.Scans.roles {address : Nat} {kind : TableKind} {role : Role}
    {destinations : List Nat} {s t : Session}
    (scans : s.Scans setting address kind role destinations t)
    (h : probeTable setting address kind role s = .ok t) :
    (∀ {other a}, a ∈ s.script.roleSet other → a ∈ t.script.roleSet other) ∧
      (kind = .branches → ∀ d ∈ destinations, d ∈ t.script.roleSet role) := by
  rw [probeTable, if_neg (by simpa using scans.new)] at h
  simp only at h
  generalize scan : scanBranches setting kind role address (slotsFrom setting.image address)
    address (.start setting.image) { s.script with
      tableAddresses := s.script.tableAddresses.insert address } = answer at h
  obtain ⟨found, script⟩ := answer
  obtain ⟨slots, scanned⟩ := scanBranches_found scan
  obtain ⟨kept, given⟩ := scanBranches_roles scan
  split at h
  · cases h
  cases h
  have roles {other : Role} {a : Nat} (mem : a ∈ script.roleSet other) :
      a ∈ (Script.setEntry script address (.pointerTable address (found.map (·.2)))).roleSet
        other := by
    cases other <;> exact mem
  refine ⟨fun {other a} mem => roles (kept (by cases other <;> exact mem)),
    fun branches d mem => ?_⟩
  -- What the table names is what was found.
  have first := scans.found.unset (List.length_pos_iff.mpr scans.found.nonempty)
  rw [Nat.add_zero] at first
  have there := congrArg (·[address / 4]?) scans.entries
  simp only [Session.pushAll, Script.setEntry, scanned.entries, Array.getElem?_setIfInBounds,
    (Array.getElem?_eq_some_iff.mp first).1, if_true, Option.some.injEq, Entry.pointerTable.injEq,
    true_and] at there
  have length : found.length = destinations.length := by
    rw [← s.script.labels.length_addAll destinations, ← there, List.length_map]
  obtain ⟨k, at_k⟩ := List.getElem?_of_mem mem
  have bound := (List.getElem?_eq_some_iff.mp at_k).1
  have other := List.getElem?_eq_getElem (show k < (found.map (·.1)).length by
    rw [List.length_map]
    omega)
  have same := (slots k _ other).2.1.symm.trans (scans.found.named at_k)
  rw [← Int.ofNat_inj.mp same]
  exact roles (given branches _ (List.getElem_mem _))

/-- **Probing a table** files it for the one who asks, unless it was before. -/
theorem probeTable_assigns {address : Nat} {kind : TableKind} {role : Role} {s t : Session}
    (used : use kind role address) (h : probeTable setting address kind role s = .ok t) :
    s.Assigns setting.image use t := by
  have grows := (probeTable_adds h).script.grows
  rcases probeTable_cases h with ⟨-, rfl⟩ | ⟨destinations, scans⟩
  · exact .rfl
  obtain ⟨kept, given⟩ := scans.roles h
  refine ⟨grows, kept, fun a mem => ?_, fun {other a} mem => ?_⟩
  · rw [scans.tables, Std.ExtTreeSet.mem_insert, Nat.compare_eq_eq] at mem
    rcases mem with rfl | mem
    · have first := scans.found.unset (List.length_pos_iff.mpr scans.found.nonempty)
      rw [Nat.add_zero] at first
      have inside := (Array.getElem?_eq_some_iff.mp first).1
      refine .inr ⟨kind, role, used, (s.script.labels.addAll destinations).1, ?_, ?_⟩
      · refine Script.entryAt?_of_slot scans.found.aligned ?_
        rw [scans.entries, Array.getElem?_setIfInBounds, if_pos rfl, if_pos inside]
      · intro branches k a bound named
        rw [LabelTable.length_addAll] at bound
        have there := List.getElem?_eq_getElem bound
        have same := (scans.found.named there).symm.trans named
        rw [← Int.ofNat_inj.mp same]
        exact given branches _ (List.getElem_mem bound)
    · exact .inl mem
  · rw [scans.worklist, List.mem_append, List.mem_reverse, List.mem_map] at mem
    refine mem.symm.imp_right ?_
    rintro ⟨d, among, eq⟩
    cases kind with
    | branches => cases eq
    | tables =>
      cases eq
      obtain ⟨k, at_k⟩ := List.getElem?_of_mem (mem_ascending.mp among)
      exact ⟨address, k, used, scans.found.named at_k⟩

/-! ## Following operands -/

theorem probeData_assigns (address : Nat) (texts : Bool) (s : Session) :
    s.Assigns setting.image use (probeData setting address texts s) := by
  have still : (probeData setting address texts s).script.tableAddresses =
        s.script.tableAddresses ∧
      ∀ role, (probeData setting address texts s).script.roleSet role = s.script.roleSet role := by
    rw [probeData]
    split
    · simp only
      split
      · exact ⟨rfl, fun role => by cases role <;> rfl⟩
      · split
        all_goals exact ⟨rfl, fun role => by cases role <;> rfl⟩
    · exact ⟨rfl, fun _ => rfl⟩
  refine .quiet (probeData_adds setting address texts s).script.grows ?_ still.1 ?_
  · exact fun mem => still.2 _ ▸ mem
  · rw [probeData_worklist]
    exact id

/-- An operand has a table scanned only if its parameter gives a role. -/
theorem followOperand_assigns {opcode : Opcode} {operand : Operand} {parameter : Option Parameter}
    {s t : Session}
    (used : ∀ {role table}, operand.mode.isTable = true → operand.resolved = some table →
      (parameter.bind fun p => Role.ofBranch? p.branch) = some role → use .branches role table)
    (h : followOperand setting opcode operand parameter s = .ok t) :
    s.Assigns setting.image use t := by
  rw [followOperand] at h
  split at h
  · cases h
    exact .rfl
  rename_i target resolved
  simp only at h
  split at h
  · cases h
    exact .rfl
  split at h
  · rename_i table
    simp only [Bool.and_eq_true] at table
    split at h
    · rename_i role given
      exact probeTable_assigns (used table.1.1 resolved given) h
    · cases h
      exact probeData_assigns ..
  · split at h
    · cases h
      exact .quiet .rfl id rfl id
    · cases h
      exact .rfl

theorem followOperands_assigns {opcode : Opcode} {operands : List Operand}
    {parameters : List Parameter} {s t : Session}
    (used : ∀ {parameter operand role table}, (parameter, operand) ∈ parameters.zip operands →
      operand.mode.isTable = true → operand.resolved = some table →
      Role.ofBranch? parameter.branch = some role → use .branches role table)
    (h : followOperands setting opcode operands parameters s = .ok t) :
    s.Assigns setting.image use t := by
  induction operands generalizing parameters s with
  | nil =>
    cases h
    exact .rfl
  | cons operand rest ih =>
    rw [followOperands] at h
    split at h
    · cases h
    · rename_i u followed
      refine (followOperand_assigns (fun table resolved given => ?_) followed).trans
        (ih (fun mem => used ?_) h)
      · cases parameters with
        | nil => cases given
        | cons parameter parameters => exact used List.mem_cons_self table resolved given
      · cases parameters with
        | nil => cases mem
        | cons parameter parameters => exact List.mem_cons_of_mem _ mem

/-- The tables of a call are scanned. -/
theorem followOperands_visits {opcode : Opcode} (call : opcode = .call) {operands : List Operand}
    {parameters : List Parameter} {s t : Session}
    (h : followOperands setting opcode operands parameters s = .ok t)
    {parameter : Parameter} {operand : Operand} {role : Role} {table : Nat}
    (mem : (parameter, operand) ∈ parameters.zip operands)
    (isTable : operand.mode.isTable = true) (resolved : operand.resolved = some table)
    (given : Role.ofBranch? parameter.branch = some role) : table ∈ t.script.tableAddresses := by
  induction operands generalizing parameters s with
  | nil => simp at mem
  | cons first rest ih =>
    cases parameters with
    | nil => simp at mem
    | cons parameter' parameters =>
    rw [followOperands] at h
    split at h
    · cases h
    rename_i u followed
    rcases List.mem_cons.mp mem with eq | mem
    · cases eq
      have inline : operand.mode.isInline = true := by
        revert isTable
        cases operand.mode <;> simp [Mode.isTable, Mode.isInline]
      simp only [followOperand, resolved, inline, isTable, call, List.head?_cons, Option.bind_some,
        given] at followed
      exact (followOperands_sides h).adds.script.grows.tables _ (probeTable_visits followed)
    · exact ih h mem

/-! ## Transfers -/

theorem enqueue_assigns (s : Session) (origin target : Nat) :
    s.Assigns setting.image use (s.enqueue setting origin target).2 := by
  refine .quiet (enqueue_sides s setting origin target).adds.script.grows ?_ ?_ ?_
  all_goals rw [Session.enqueue]
  all_goals split
  · exact id
  · exact fun {role _} mem => by cases role <;> exact mem
  · rfl
  · rfl
  · exact fun mem => (List.mem_cons.mp mem).resolve_left fun eq => by cases eq
  · exact id

theorem transferTo_assigns (address target : Nat) (role : Option Role) (s : Session) :
    s.Assigns setting.image use (transferTo setting address target role s) := by
  have queued : s.Assigns setting.image use (s.enqueue setting address target).2 :=
    enqueue_assigns ..
  rw [transferTo]
  simp only
  split
  · rename_i role
    split
    · refine queued.trans (.quiet (record_aside setting.image _ role target).script.grows ?_ ?_ id)
      · exact fun mem => mem_roleSet_record.mpr (.inl mem)
      · cases role <;> rfl
    · exact queued
  · exact queued

/-- A target at which code can stand gets its role. -/
theorem transferTo_given (address : Nat) {target : Nat} (valid : Target setting.image target)
    (role : Role) (s : Session) :
    target ∈ (transferTo setting address target (some role) s).script.roleSet role := by
  have queued : s.enqueue setting address target = (true, s.push (.branch target)) := by
    rw [Session.enqueue]
    exact if_pos valid
  rw [transferTo, queued]
  exact mem_roleSet_record.mpr (.inr ⟨rfl, rfl⟩)

theorem transferOperand_assigns (instruction : Instruction) (index : Nat) (role : Option Role)
    (s : Session) :
    s.Assigns setting.image use (transferOperand setting instruction index role s) := by
  rw [transferOperand]
  split
  · exact transferTo_assigns ..
  · exact .diagnose ..

theorem transferCall_assigns (address : Nat) (parameters : List Parameter)
    (operands : List Operand) (s : Session) :
    s.Assigns setting.image use (transferCall setting address parameters operands s) := by
  fun_induction transferCall setting address parameters operands s with
  | case1 parameter parameters operand operands s t ih =>
    refine Session.Assigns.trans ?_ ih
    show s.Assigns setting.image use t
    simp only [t]
    split
    · exact .rfl
    · split
      · exact transferTo_assigns ..
      · exact .diagnose ..
  | case2 => exact .rfl

/-- **A call gives its targets the roles of its parameters.** -/
theorem transferCall_given {address : Nat} {parameters : List Parameter}
    {operands : List Operand} {s : Session} {parameter : Parameter} {operand : Operand}
    {role : Role} {target : Nat} (mem : (parameter, operand) ∈ parameters.zip operands)
    (plain : operand.mode.isTable = false) (given : callRole? parameter.branch = some role)
    (resolved : operand.resolved = some target) (valid : Target setting.image target) :
    target ∈ (transferCall setting address parameters operands s).script.roleSet role := by
  fun_induction transferCall setting address parameters operands s with
  | case1 first parameters second operands s t ih =>
    rcases List.mem_cons.mp mem with eq | mem
    · cases eq
      have branches : parameter.branch ≠ .none := by
        intro none
        rw [none] at given
        cases given
      have rest := @transferCall_assigns setting (fun _ _ _ => False) address parameters operands t
      refine rest.roles ?_
      simp only [t, branches, plain, resolved, given, decide_false, Bool.or_self,
        Bool.false_eq_true, if_false]
      exact transferTo_given address valid role s
    · exact ih mem
  | case2 parameters operands s short =>
    cases parameters with
    | nil => cases mem
    | cons first parameters =>
      cases operands with
      | nil => cases mem
      | cons second operands => exact absurd rfl (short first parameters second operands rfl)

theorem transferMethod_assigns (instruction : Instruction) (method : Method) (s : Session) :
    s.Assigns setting.image use (transferMethod setting instruction method s) := by
  rw [transferMethod]
  refine Session.Assigns.trans ?_ (transferCall_assigns ..)
  split
  · exact .rfl
  · exact .diagnose ..

/-- **A table jump files the table it leads to.** -/
theorem transferTable_assigns {instruction : Instruction} {role : Role} {s t : Session}
    (used : ∀ {kind given table}, (kind, given, table) ∈
      (instruction.operands[1]?.bind (Operand.branchTable? role)).toList → use kind given table)
    (h : transferTable setting instruction role s = .ok t) :
    s.Assigns setting.image use t ∧ ∀ {kind given table}, (kind, given, table) ∈
      (instruction.operands[1]?.bind (Operand.branchTable? role)).toList →
      table ∈ t.script.tableAddresses := by
  rw [transferTable] at h
  split at h
  · rename_i none
    cases h
    exact ⟨.diagnose .., by simp [none]⟩
  rename_i operand at_one
  split at h
  · rename_i unknown
    cases h
    exact ⟨.diagnose .., by simp [at_one, Operand.branchTable?, unknown]⟩
  rename_i table resolved
  split at h
  · rename_i zero
    cases h
    exact ⟨.rfl, by simp [at_one, Operand.branchTable?, resolved, zero]⟩
  · rename_i nonzero
    have leads : instruction.operands[1]?.bind (Operand.branchTable? role) =
        some (if operand.mode.isTable then .tables else .branches, role, table) := by
      simp [at_one, Operand.branchTable?, resolved, nonzero]
    rw [leads] at used ⊢
    refine ⟨probeTable_assigns (used List.mem_cons_self) h, fun mem => ?_⟩
    cases List.mem_singleton.mp mem
    exact probeTable_visits h

/-- A table jump has the table scanned that it leads to. -/
theorem transfer_visits {instruction : Instruction} {next : Nat} {flow : Flow} {s t : Session}
    (other : instruction.opcode ≠ .call) (h : transfer setting instruction next s = .ok (flow, t))
    {kind : TableKind} {role : Role} {table : Nat}
    (leads : (kind, role, table) ∈ instruction.branchTables setting.catalogue) :
    table ∈ t.script.tableAddresses := by
  have visits {given : Role} {answer : Flow}
      (k : (transferTable setting instruction given s).map (answer, ·) = .ok (flow, t))
      (mem : (kind, role, table) ∈
        (instruction.operands[1]?.bind (Operand.branchTable? given)).toList) :
      table ∈ t.script.tableAddresses := by
    cases scanned : transferTable setting instruction given s with
    | error halt =>
      rw [scanned] at k
      cases k
    | ok u =>
      rw [scanned] at k
      cases k
      exact (@transferTable_assigns _ (fun _ _ _ => True) _ _ _ _ (fun _ => trivial) scanned).2 mem
  rw [Instruction.branchTables] at leads
  split at leads
  · rename_i jump
    simp only [transfer, jump] at h
    exact visits h leads
  · rename_i gosub
    simp only [transfer, gosub] at h
    exact visits h leads
  · rename_i call
    exact absurd call other
  · cases leads

theorem transfer_assigns {instruction : Instruction} {next : Nat} {flow : Flow} {s t : Session}
    (used : ∀ {kind role table},
      (kind, role, table) ∈ instruction.branchTables setting.catalogue → use kind role table)
    (h : transfer setting instruction next s = .ok (flow, t)) : s.Assigns setting.image use t := by
  have table {role : Role} {answer : Flow}
      (leads : instruction.branchTables setting.catalogue =
        (instruction.operands[1]?.bind (Operand.branchTable? role)).toList)
      (k : (transferTable setting instruction role s).map (answer, ·) = .ok (flow, t)) :
      s.Assigns setting.image use t := by
    cases scanned : transferTable setting instruction role s with
    | error halt =>
      rw [scanned] at k
      cases k
    | ok u =>
      rw [scanned] at k
      cases k
      exact (transferTable_assigns (fun mem => used (leads ▸ mem)) scanned).1
  rw [transfer] at h
  simp only at h
  split at h
  · split at h
    · cases h
      exact transferMethod_assigns ..
    · cases h
      exact .rfl
  · split at h
    · cases h
      exact enqueue_assigns ..
    · cases h
      exact .diagnose ..
  · split at h
    · cases h
      exact (enqueue_assigns ..).trans (enqueue_assigns ..)
    · cases h
      exact .diagnose ..
  · split at h
    · cases h
      exact (enqueue_assigns ..).trans (enqueue_assigns ..)
    · cases h
      exact .diagnose ..
  · rename_i jump
    exact table (by rw [Instruction.branchTables, jump]) h
  · rename_i gosub
    exact table (by rw [Instruction.branchTables, gosub]) h
  · cases h
    exact transferOperand_assigns ..
  · cases h
    exact transferOperand_assigns ..
  · cases h
    exact transferOperand_assigns ..
  · cases h
    exact .rfl

/-- An operand that is transferred to gets its role. -/
theorem transferOperand_given {instruction : Instruction} {index : Nat} {operand : Operand}
    (at_index : instruction.operands[index]? = some operand) {target : Nat}
    (resolved : operand.resolved = some target) (valid : Target setting.image target) (role : Role)
    (s : Session) :
    target ∈ (transferOperand setting instruction index (some role) s).script.roleSet role := by
  simp only [transferOperand, at_index, Option.bind_some, resolved]
  exact transferTo_given instruction.address valid role s

/-- **A transfer gives its targets their roles.** -/
theorem transfer_given {instruction : Instruction} {next : Nat} {flow : Flow} {s t : Session}
    (h : transfer setting instruction next s = .ok (flow, t)) {role : Role} {operand : Operand}
    {target : Nat} (gives : (role, operand) ∈ instruction.roleOperands setting.catalogue)
    (resolved : operand.resolved = some target) (valid : Target setting.image target) :
    target ∈ t.script.roleSet role := by
  rw [Instruction.roleOperands] at gives
  split at gives
  · rename_i gosub
    obtain ⟨other, at_zero, eq⟩ := List.mem_map.mp gives
    cases eq
    simp only [transfer, gosub] at h
    cases h
    exact transferOperand_given (Option.mem_toList.mp at_zero) resolved valid _ s
  · rename_i fork
    obtain ⟨other, at_one, eq⟩ := List.mem_map.mp gives
    cases eq
    simp only [transfer, fork] at h
    cases h
    exact transferOperand_given (Option.mem_toList.mp at_one) resolved valid _ s
  · rename_i call
    split at gives
    · rename_i method known
      obtain ⟨⟨parameter, other⟩, mem, eq⟩ := List.mem_filterMap.mp gives
      simp only at eq
      split at eq
      · cases eq
      rename_i plain
      obtain ⟨given, role', eq⟩ := Option.map_eq_some_iff.mp eq
      cases eq
      simp only [transfer, call, known] at h
      cases h
      exact transferCall_given mem (by simpa using plain) role' resolved valid
    · cases gives
  · cases gives

/-- What an instruction asks for was done: the roles it gives are recorded, and
the tables it leads to scanned. -/
structure Served (setting : Setting) (script : Script) (decoded : Instruction) : Prop where
  targets : ∀ {role operand target}, (role, operand) ∈ decoded.roleOperands setting.catalogue →
    operand.resolved = some target → Target setting.image target →
    target ∈ script.roleSet role
  tables : ∀ {kind role table}, (kind, role, table) ∈ decoded.branchTables setting.catalogue →
    table ∈ script.tableAddresses

/-- The tables a call leads to are those its parameters give a role. -/
theorem mem_branchTables_call {decoded : Instruction} (call : decoded.opcode = .call)
    {kind : TableKind} {role : Role} {table : Nat} :
    (kind, role, table) ∈ decoded.branchTables setting.catalogue ↔
      kind = .branches ∧ ∃ parameter operand, (parameter, operand) ∈
          (((setting.methodOf? decoded.opcode decoded.parameter).map
            Method.parameters).getD []).zip decoded.operands ∧
        operand.mode.isTable = true ∧ operand.resolved = some table ∧
        Role.ofBranch? parameter.branch = some role := by
  rw [Instruction.branchTables, call]
  simp only [Setting.methodOf?, if_true]
  cases setting.catalogue.method? decoded.parameter with
  | none => simp
  | some method =>
    simp only [Option.map_some, Option.getD_some, List.mem_filterMap, Prod.exists]
    constructor
    · rintro ⟨parameter, operand, mem, eq⟩
      split at eq
      · rename_i isTable
        obtain ⟨given, gives, eq⟩ := Option.bind_eq_some_iff.mp eq
        obtain ⟨resolved, known, eq⟩ := Option.map_eq_some_iff.mp eq
        cases eq
        exact ⟨rfl, parameter, operand, mem, isTable, known, gives⟩
      · cases eq
    · rintro ⟨rfl, parameter, operand, mem, isTable, known, gives⟩
      exact ⟨parameter, operand, mem, by simp [isTable, known, gives]⟩

/-- **An instruction that is taken is served**, and has no table scanned but
those it leads to. -/
theorem takeInstruction_served {read : Instruction} {next : Nat} {flow : Flow} {s t : Session}
    (h : takeInstruction setting read next s = .ok (flow, t))
    (used : ∀ {kind role table}, (kind, role, table) ∈
      (placeInstruction s.script read).1.branchTables setting.catalogue → use kind role table) :
    Session.Assigns setting.image use
        { s with script := (placeInstruction s.script read).2 } t ∧
      Served setting t.script (placeInstruction s.script read).1 := by
  rw [takeInstruction] at h
  simp only at h
  generalize (placeInstruction s.script read).1 = decoded at *
  split at h
  · cases h
  rename_i u followed
  have transferred := transfer_assigns used h
  refine ⟨(followOperands_assigns ?_ followed).trans transferred, transfer_given h, ?_⟩
  · intro parameter operand role table mem isTable resolved given
    by_cases call : decoded.opcode = .call
    · exact used ((mem_branchTables_call call).mpr
        ⟨rfl, parameter, operand, mem, isTable, resolved, given⟩)
    · simp [Setting.methodOf?, call] at mem
  · intro kind role table leads
    by_cases call : decoded.opcode = .call
    · obtain ⟨-, parameter, operand, mem, isTable, resolved, given⟩ :=
        (mem_branchTables_call call).mp leads
      exact transferred.grows.tables _
        (followOperands_visits call followed mem isTable resolved given)
    · exact transfer_visits call h leads

end

end Recovery
end EventScript
