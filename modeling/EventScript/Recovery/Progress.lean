/-
Exploration never forgets what it has visited: the probed branches and the
scanned tables only grow. As every new probe but the extra ones lies inside
the image, this bounds the work: the addresses of the image that are still
unvisited get fewer with each probe that does anything.
-/
import EventScript.Recovery.Branch

namespace EventScript.Recovery

/-- All that `s` has visited is visited in `t`. -/
structure Session.Extends (t s : Session) : Prop where
  branches : ∀ a, a ∈ s.script.branches → a ∈ t.script.branches
  tables : ∀ a, a ∈ s.script.tableAddresses → a ∈ t.script.tableAddresses

namespace Session.Extends

theorem rfl {s : Session} : s.Extends s := ⟨fun _ h => h, fun _ h => h⟩

theorem trans {s t u : Session} (h : u.Extends t) (k : t.Extends s) : u.Extends s :=
  ⟨fun a m => h.branches a (k.branches a m), fun a m => h.tables a (k.tables a m)⟩

/-- Sessions that agree on what was visited. -/
theorem of_eq {s t : Session} (h : t.script.branches = s.script.branches)
    (k : t.script.tableAddresses = s.script.tableAddresses) : t.Extends s :=
  ⟨fun _ m => h ▸ m, fun _ m => k ▸ m⟩

end Session.Extends

theorem fill_branches (entry : Entry) (count : Nat) (script : Script) (address : Nat) :
    (script.fill address entry count).branches = script.branches := by
  induction count generalizing script address with
  | zero => rfl
  | succ n ih => simp [Script.fill, ih, Script.setEntry]

theorem fill_tableAddresses (entry : Entry) (count : Nat) (script : Script) (address : Nat) :
    (script.fill address entry count).tableAddresses = script.tableAddresses := by
  induction count generalizing script address with
  | zero => rfl
  | succ n ih => simp [Script.fill, ih, Script.setEntry]

theorem claimOperands_branches (header : Nat) (operands : List Operand) (script : Script)
    (index : Nat) : (claimOperands script header index operands).branches = script.branches := by
  induction operands generalizing script index with
  | nil => rfl
  | cons operand rest ih => simp [claimOperands, ih, fill_branches]

theorem claimOperands_tableAddresses (header : Nat) (operands : List Operand) (script : Script)
    (index : Nat) :
    (claimOperands script header index operands).tableAddresses = script.tableAddresses := by
  induction operands generalizing script index with
  | nil => rfl
  | cons operand rest ih => simp [claimOperands, ih, fill_tableAddresses]

theorem placeInstruction_branches (script : Script) (instruction : Instruction) :
    (placeInstruction script instruction).2.branches = script.branches := by
  simp [placeInstruction, Script.setEntry, claimOperands_branches]

theorem placeInstruction_tableAddresses (script : Script) (instruction : Instruction) :
    (placeInstruction script instruction).2.tableAddresses = script.tableAddresses := by
  simp [placeInstruction, Script.setEntry, claimOperands_tableAddresses]

theorem record_branches (script : Script) (role : Role) (destination : Nat) :
    (script.record role destination).branches = script.branches := by
  cases role <;> rfl

theorem record_tableAddresses (script : Script) (role : Role) (destination : Nat) :
    (script.record role destination).tableAddresses = script.tableAddresses := by
  cases role <;> rfl

theorem scanBranches_visited (setting : Setting) (kind : TableKind) (role : Role)
    (table room entry : Nat) (window : Window) (script : Script) :
    (scanBranches setting kind role table room entry window script).2.branches =
        script.branches ∧
      (scanBranches setting kind role table room entry window script).2.tableAddresses =
        script.tableAddresses := by
  induction room generalizing entry window script with
  | zero => exact ⟨rfl, rfl⟩
  | succ room ih =>
    rw [scanBranches]
    split
    · exact ⟨rfl, rfl⟩
    · cases kind <;> simp [ih, record_branches, record_tableAddresses]

/-- A table probe keeps what was visited. -/
theorem probeTable_extends {setting : Setting} {address : Nat} {kind : TableKind} {role : Role}
    {s t : Session} (h : probeTable setting address kind role s = .ok t) : t.Extends s := by
  rw [probeTable] at h
  split at h
  · cases h
    exact .rfl
  · simp only at h
    split at h
    · cases h
    · cases h
      constructor
      · intro a m
        simpa [Session.pushAll, Script.setEntry, scanBranches_visited] using m
      · intro a m
        simp [Session.pushAll, Script.setEntry, scanBranches_visited, m]

/-- The table itself is visited afterwards. -/
theorem probeTable_visits {setting : Setting} {address : Nat} {kind : TableKind} {role : Role}
    {s t : Session} (h : probeTable setting address kind role s = .ok t) :
    address ∈ t.script.tableAddresses := by
  rw [probeTable] at h
  split at h
  · rename_i seen
    cases h
    exact Std.ExtTreeSet.contains_iff_mem.mp seen
  · simp only at h
    split at h
    · cases h
    · cases h
      simp [Session.pushAll, Script.setEntry, scanBranches_visited]

theorem probeData_extends (setting : Setting) (address : Nat) (texts : Bool) (s : Session) :
    (probeData setting address texts s).Extends s := by
  rw [probeData]
  split
  · simp only
    split
    · exact .of_eq rfl rfl
    · split
      · exact .of_eq rfl rfl
      · exact .of_eq rfl rfl
  · exact .rfl

theorem followOperand_extends {setting : Setting} {opcode : Opcode} {operand : Operand}
    {parameter : Option Parameter} {s t : Session}
    (h : followOperand setting opcode operand parameter s = .ok t) : t.Extends s := by
  rw [followOperand] at h
  split at h
  · cases h
    exact .rfl
  · simp only at h
    split at h
    · cases h
      exact .rfl
    · split at h
      · split at h
        · exact probeTable_extends h
        · cases h
          exact probeData_extends ..
      · split at h
        · cases h
          exact .of_eq rfl rfl
        · cases h
          exact .rfl

theorem followOperands_extends {setting : Setting} {opcode : Opcode} {operands : List Operand}
    {parameters : List Parameter} {s t : Session}
    (h : followOperands setting opcode operands parameters s = .ok t) : t.Extends s := by
  induction operands generalizing parameters s with
  | nil =>
    cases h
    exact .rfl
  | cons operand rest ih =>
    rw [followOperands] at h
    split at h
    · cases h
    · rename_i u hu
      exact (ih h).trans (followOperand_extends hu)

theorem enqueue_extends (s : Session) (setting : Setting) (origin target : Nat) :
    (s.enqueue setting origin target).2.Extends s := by
  rw [Session.enqueue]
  split <;> exact .of_eq rfl rfl

theorem transferTo_extends (setting : Setting) (address target : Nat) (role : Option Role)
    (s : Session) : (transferTo setting address target role s).Extends s := by
  have base := enqueue_extends s setting address target
  rw [transferTo]
  simp only
  split
  · split
    · exact .trans (.of_eq (record_branches ..) (record_tableAddresses ..)) base
    · exact base
  · exact base

theorem transferOperand_extends (setting : Setting) (instruction : Instruction) (index : Nat)
    (role : Option Role) (s : Session) :
    (transferOperand setting instruction index role s).Extends s := by
  rw [transferOperand]
  split
  · exact transferTo_extends ..
  · exact .of_eq rfl rfl

theorem transferCall_extends (setting : Setting) (address : Nat) (parameters : List Parameter)
    (operands : List Operand) (s : Session) :
    (transferCall setting address parameters operands s).Extends s := by
  fun_induction transferCall setting address parameters operands s with
  | case1 parameter parameters operand operands s t ih =>
    refine ih.trans ?_
    show Session.Extends t s
    simp only [t]
    split
    · exact .rfl
    · split
      · exact transferTo_extends ..
      · exact .of_eq rfl rfl
  | case2 => exact .rfl

theorem transferMethod_extends (setting : Setting) (instruction : Instruction) (method : Method)
    (s : Session) : (transferMethod setting instruction method s).Extends s := by
  rw [transferMethod]
  refine (transferCall_extends ..).trans ?_
  split
  · exact .rfl
  · exact .of_eq rfl rfl

theorem transferTable_extends {setting : Setting} {instruction : Instruction} {role : Role}
    {s t : Session} (h : transferTable setting instruction role s = .ok t) : t.Extends s := by
  rw [transferTable] at h
  split at h
  · cases h
    exact .of_eq rfl rfl
  · split at h
    · cases h
      exact .of_eq rfl rfl
    · split at h
      · cases h
        exact .rfl
      · exact probeTable_extends h

theorem transfer_extends {setting : Setting} {instruction : Instruction} {next : Nat}
    {flow : Flow} {s t : Session} (h : transfer setting instruction next s = .ok (flow, t)) :
    t.Extends s := by
  have table {role : Role} {answer : Flow}
      (k : (transferTable setting instruction role s).map (answer, ·) = .ok (flow, t)) :
      t.Extends s := by
    cases e : transferTable setting instruction role s with
    | error halt => rw [e] at k; cases k
    | ok u =>
      rw [e] at k
      cases k
      exact transferTable_extends e
  rw [transfer] at h
  simp only at h
  split at h
  · split at h
    · cases h
      exact transferMethod_extends ..
    · cases h
      exact .rfl
  · split at h
    · cases h
      exact enqueue_extends ..
    · cases h
      exact .of_eq rfl rfl
  · split at h
    · cases h
      exact (enqueue_extends ..).trans (enqueue_extends ..)
    · cases h
      exact .of_eq rfl rfl
  · split at h
    · cases h
      exact (enqueue_extends ..).trans (enqueue_extends ..)
    · cases h
      exact .of_eq rfl rfl
  · exact table h
  · exact table h
  · cases h
    exact transferOperand_extends ..
  · cases h
    exact transferOperand_extends ..
  · cases h
    exact transferOperand_extends ..
  · cases h
    exact .rfl

theorem readInstruction_extends {setting : Setting} {cursor : Nat} {found : Option Instruction}
    {s t : Session} (h : readInstruction setting cursor s = .ok (found, t)) : t.Extends s := by
  rw [readInstruction] at h
  simp only at h
  split at h
  · cases h
    exact .of_eq rfl rfl
  · split at h
    · cases h
    · split at h
      · cases h
        exact .of_eq rfl rfl
      · cases h
        exact .of_eq rfl rfl

theorem takeInstruction_extends {setting : Setting} {instruction : Instruction} {next : Nat}
    {flow : Flow} {s t : Session}
    (h : takeInstruction setting instruction next s = .ok (flow, t)) : t.Extends s := by
  rw [takeInstruction] at h
  simp only at h
  split at h
  · cases h
  · rename_i u hu
    refine (transfer_extends h).trans ((followOperands_extends hu).trans ?_)
    exact .of_eq (placeInstruction_branches ..) (placeInstruction_tableAddresses ..)

theorem decodeFrom_extends {setting : Setting} {start cursor : Nat} {s t : Session}
    (h : decodeFrom setting start cursor s = .ok t) : t.Extends s := by
  fun_induction decodeFrom setting start cursor s with
  | case1 => cases h; exact .rfl
  | case2 => cases h; exact .rfl
  | case3 => cases h
  | case4 cursor s _ _ _ u read =>
    cases h
    exact readInstruction_extends read
  | case5 => cases h
  | case6 cursor s _ _ _ instruction u read next v taken =>
    cases h
    exact (takeInstruction_extends taken).trans (readInstruction_extends read)
  | case7 cursor s _ _ _ instruction u read next v taken ih =>
    exact (ih h).trans ((takeInstruction_extends taken).trans (readInstruction_extends read))
  | case8 => cases h; exact .of_eq rfl rfl
  | case9 => cases h; exact .rfl

/-- A branch probe keeps what was visited. -/
theorem probeBranch_extends {setting : Setting} {address : Nat} {s t : Session}
    (h : probeBranch setting address s = .ok t) : t.Extends s := by
  rw [probeBranch] at h
  split at h
  · cases h
    exact .rfl
  · refine (decodeFrom_extends h).trans ⟨fun a m => ?_, fun a m => m⟩
    simp [m]

/-- The branch itself is visited afterwards. -/
theorem probeBranch_visits {setting : Setting} {address : Nat} {s t : Session}
    (h : probeBranch setting address s = .ok t) : address ∈ t.script.branches := by
  rw [probeBranch] at h
  split at h
  · rename_i seen
    cases h
    exact Std.ExtTreeSet.contains_iff_mem.mp seen
  · exact (decodeFrom_extends h).branches _ (by simp)

end EventScript.Recovery
