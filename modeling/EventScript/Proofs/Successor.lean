/-
No successor of an instruction is lost. Whatever an instruction transfers
control to is queued when the instruction is taken, or it is noted why it
cannot be followed. The worklist is worked off from its top, and what a probe
asks for is visited once the probe was run; so when nothing is queued any more,
all that was ever asked for is visited.

`Tracked` is what holds between two probes. While a branch is decoded it holds
up to the cursor: the address ahead need not be met yet, and neither need the
branch itself before its first instruction. Decoding closes both gaps on every
way out (`decodeFrom_tracked`).
-/
import EventScript.Proofs.Accounting
import EventScript.Proofs.Exploration

namespace EventScript

/-! ## Where control goes -/

/-- Whether a problem says why no instruction stands at its address. -/
def Problem.isObstacle : Problem → Bool
  | .invalidHeader _ | .unsupportedMode _ | .truncatedInstruction | .overlappingCode => true
  | _ => false

/-- An instruction stands at the address, or it is noted why none does. -/
def Script.Met (script : Script) (address : Nat) : Prop :=
  (∃ decoded, script.entryAt? address = some (.instruction decoded)) ∨
    ∃ problem, problem.isObstacle = true ∧ ⟨address, problem⟩ ∈ script.diagnostics

namespace Instruction

/-- The address behind an instruction. -/
def next (instruction : Instruction) : Nat := instruction.address + 4 * instruction.width

/-- Where an instruction transfers control to, tables apart; an operand that is
only known at run time gives `none`. -/
def transfers (catalogue : Catalogue) (instruction : Instruction) : List (Option Nat) :=
  match instruction.opcode with
  | .call =>
    match catalogue.method? instruction.parameter with
    | some method => (method.parameters.zip instruction.operands).filterMap fun (parameter, operand) =>
      if parameter.branch = .none || operand.mode.isTable then none else some operand.resolved
    | none => []
  | .jmp | .gosub => [instruction.operands[0]?.bind Operand.resolved]
  | .jmpCmp | .jmpCmp0 =>
    match instruction.operands.getLast?.bind Operand.resolved with
    | some target => [some target, some instruction.next]
    | none => [none]
  | .fork | .whileLoop => [instruction.operands[1]?.bind Operand.resolved]
  | _ => []

/-- Whether decoding goes on behind an instruction. -/
def goesOn (instruction : Instruction) : Bool :=
  match instruction.opcode with
  | .jmp => (instruction.operands[0]?.bind Operand.resolved).isNone
  | .jmpCmp | .jmpCmp0 | .jmpTable => false
  | opcode => !opcode.isTerminal

end Instruction

namespace Recovery

theorem Met.mono {s t : Script} (grows : Grows s t) {address : Nat} (h : s.Met address) :
    t.Met address := by
  rcases h with ⟨decoded, at_address⟩ | ⟨problem, obstacle, noted⟩
  · obtain ⟨aligned, slot⟩ := Script.entryAt?_eq_some at_address
    exact .inl ⟨decoded, Script.entryAt?_of_slot aligned (grows.instructions slot)⟩
  · exact .inr ⟨problem, obstacle, grows.diagnostics _ noted⟩

/-- A transfer is followed or queued, or it is noted why it cannot be. -/
def Answered (script : Script) (queue : List Probe) (instruction : Instruction) :
    Option Nat → Prop
  | some target => Covers script queue (.branch target) ∨
      ⟨instruction.address, .invalidBranchTarget target⟩ ∈ script.diagnostics
  | none => ⟨instruction.address, .unknowableOperand instruction.opcode.mnemonic⟩ ∈
      script.diagnostics

theorem Answered.mono {s t : Script} {old new : List Probe} {instruction : Instruction}
    {target : Option Nat} (grows : Grows s t) (more : ∀ p ∈ old, p ∈ new)
    (h : Answered s old instruction target) : Answered t new instruction target := by
  cases target with
  | none => exact grows.diagnostics _ h
  | some target => exact h.imp (Covers.mono grows more) (grows.diagnostics _)

theorem Answered.adds {image : Image} {s t : Session} {instruction : Instruction}
    {target : Option Nat} (adds : s.Adds image t)
    (h : Answered s.script s.worklist instruction target) :
    Answered t.script t.worklist instruction target :=
  h.mono adds.script.grows fun _ m => adds.worklist.subset m

/-! ## Transfers -/

theorem enqueue_answered (s : Session) (setting : Setting) (instruction : Instruction)
    (target : Nat) :
    Answered (s.enqueue setting instruction.address target).2.script
      (s.enqueue setting instruction.address target).2.worklist instruction (some target) := by
  rw [Session.enqueue]
  split
  · exact .inl (.inr List.mem_cons_self)
  · exact .inr (List.mem_append_right _ (List.mem_singleton.mpr rfl))

theorem unknowable_answered (s : Session) (instruction : Instruction) :
    Answered (s.unknowable instruction.address instruction.opcode).script
      (s.unknowable instruction.address instruction.opcode).worklist instruction none :=
  List.mem_append_right _ (List.mem_singleton.mpr rfl)

theorem transferTo_answered (setting : Setting) (instruction : Instruction) (target : Nat)
    (role : Option Role) (s : Session) :
    Answered (transferTo setting instruction.address target role s).script
      (transferTo setting instruction.address target role s).worklist instruction
      (some target) := by
  have queued := enqueue_answered s setting instruction target
  rw [transferTo]
  simp only
  split
  · split
    · exact queued.adds (record_aside setting.image _ _ _)
    · exact queued
  · exact queued

theorem transferOperand_answered (setting : Setting) (instruction : Instruction) (index : Nat)
    (role : Option Role) (s : Session) :
    Answered (transferOperand setting instruction index role s).script
      (transferOperand setting instruction index role s).worklist instruction
      (instruction.operands[index]?.bind Operand.resolved) := by
  rw [transferOperand]
  split
  · rename_i target resolved
    rw [resolved]
    exact transferTo_answered ..
  · rename_i unknown
    rw [unknown]
    exact unknowable_answered ..

theorem transferCall_answered {setting : Setting} {instruction : Instruction}
    (call : instruction.opcode = .call) {parameters : List Parameter} {operands : List Operand}
    {s : Session} {parameter : Parameter} {operand : Operand}
    (mem : (parameter, operand) ∈ parameters.zip operands)
    (branches : ¬ (parameter.branch = .none || operand.mode.isTable) = true) :
    Answered (transferCall setting instruction.address parameters operands s).script
      (transferCall setting instruction.address parameters operands s).worklist instruction
      operand.resolved := by
  fun_induction transferCall setting instruction.address parameters operands s with
  | case1 first parameters second operands s t ih =>
    rcases List.mem_cons.mp mem with eq | mem
    · cases eq
      refine Answered.adds (transferCall_sides setting _ parameters operands t).adds ?_
      simp only [t]
      rw [if_neg branches]
      split
      · rename_i target resolved
        rw [resolved]
        exact transferTo_answered ..
      · rename_i unknown
        rw [unknown, ← call]
        exact unknowable_answered ..
    · exact ih mem
  | case2 parameters operands s short =>
    cases parameters with
    | nil => cases mem
    | cons first parameters =>
      cases operands with
      | nil => cases mem
      | cons second operands => exact absurd rfl (short first parameters second operands rfl)

theorem transferMethod_answered {setting : Setting} {instruction : Instruction}
    (call : instruction.opcode = .call) {method : Method}
    (known : setting.catalogue.method? instruction.parameter = some method) (s : Session)
    {target : Option Nat} (mem : target ∈ instruction.transfers setting.catalogue) :
    Answered (transferMethod setting instruction method s).script
      (transferMethod setting instruction method s).worklist instruction target := by
  simp only [Instruction.transfers, call, known] at mem
  obtain ⟨⟨parameter, operand⟩, there, eq⟩ := List.mem_filterMap.mp mem
  simp only at eq
  split at eq
  · cases eq
  · rename_i branches
    cases eq
    exact transferCall_answered call there branches

/-- A conditional jump queues its target, and behind it the way straight on. -/
theorem conditional_answered {setting : Setting} {instruction : Instruction} {flow : Flow}
    {s t : Session} {target : Option Nat}
    (mem : target ∈ match instruction.operands.getLast?.bind Operand.resolved with
      | some target => [some target, some instruction.next]
      | none => [none])
    (h : (match instruction.operands.getLast?.bind Operand.resolved with
      | some target => Except.ok (.stop, ((s.enqueue setting instruction.address target).2.enqueue
          setting instruction.address instruction.next).2)
      | none => .ok (.stop, s.unknowable instruction.address instruction.opcode)) =
        (.ok (flow, t) : Except Halt (Flow × Session))) :
    Answered t.script t.worklist instruction target := by
  split at h
  · rename_i jump resolved
    rw [resolved] at mem
    cases h
    rcases List.mem_cons.mp mem with rfl | mem
    · exact (enqueue_answered s setting instruction jump).adds (enqueue_sides ..).adds
    · cases List.mem_singleton.mp mem
      exact enqueue_answered ..
  · rename_i unknown
    rw [unknown] at mem
    cases h
    cases List.mem_singleton.mp mem
    exact unknowable_answered ..

/-- **Every transfer of an instruction is answered.** -/
theorem transfer_answered {setting : Setting} {instruction : Instruction} {flow : Flow}
    {s t : Session} (h : transfer setting instruction instruction.next s = .ok (flow, t))
    {target : Option Nat} (mem : target ∈ instruction.transfers setting.catalogue) :
    Answered t.script t.worklist instruction target := by
  rw [transfer] at h
  simp only at h
  split at h
  · rename_i call
    split at h
    · rename_i method known
      cases h
      exact transferMethod_answered call known s mem
    · rename_i unknown
      simp [Instruction.transfers, call, unknown] at mem
  · rename_i jump
    simp only [Instruction.transfers, jump, List.mem_singleton] at mem
    subst mem
    split at h
    · rename_i target resolved
      cases h
      rw [resolved]
      exact enqueue_answered ..
    · rename_i unknown
      cases h
      rw [unknown, ← jump]
      exact unknowable_answered ..
  · rename_i compare
    rw [Instruction.transfers, compare] at mem
    exact conditional_answered mem h
  · rename_i compare
    rw [Instruction.transfers, compare] at mem
    exact conditional_answered mem h
  · rename_i table
    simp [Instruction.transfers, table] at mem
  · rename_i table
    simp [Instruction.transfers, table] at mem
  · rename_i gosub
    simp only [Instruction.transfers, gosub, List.mem_singleton] at mem
    subst mem
    cases h
    exact transferOperand_answered ..
  · rename_i fork
    simp only [Instruction.transfers, fork, List.mem_singleton] at mem
    subst mem
    cases h
    exact transferOperand_answered ..
  · rename_i loop
    simp only [Instruction.transfers, loop, List.mem_singleton] at mem
    subst mem
    cases h
    exact transferOperand_answered ..
  · -- What is left transfers nothing.
    rw [Instruction.transfers] at mem
    split at mem
    all_goals contradiction

/-- Decoding goes on exactly behind the instructions that say so. -/
theorem transfer_flow {setting : Setting} {instruction : Instruction} {next : Nat} {flow : Flow}
    {s t : Session} (h : transfer setting instruction next s = .ok (flow, t)) :
    instruction.goesOn = true ↔ flow = .goOn := by
  have table {role : Role} {answer : Flow}
      (k : (transferTable setting instruction role s).map (answer, ·) = .ok (flow, t)) :
      flow = answer := by
    cases scanned : transferTable setting instruction role s with
    | error halt =>
      rw [scanned] at k
      cases k
    | ok u =>
      rw [scanned] at k
      cases k
      rfl
  rw [transfer] at h
  simp only at h
  split at h
  · rename_i call
    split at h <;> cases h <;> simp [Instruction.goesOn, call, Opcode.isTerminal]
  · rename_i jump
    split at h
    · rename_i resolved
      cases h
      simp [Instruction.goesOn, jump, resolved]
    · rename_i unknown
      cases h
      simp [Instruction.goesOn, jump, unknown]
  · rename_i compare
    split at h <;> cases h <;> simp [Instruction.goesOn, compare]
  · rename_i compare
    split at h <;> cases h <;> simp [Instruction.goesOn, compare]
  · rename_i jump
    rw [table h]
    simp [Instruction.goesOn, jump]
  · rename_i gosub
    rw [table h]
    simp [Instruction.goesOn, gosub, Opcode.isTerminal]
  · rename_i gosub
    cases h
    simp [Instruction.goesOn, gosub, Opcode.isTerminal]
  · rename_i fork
    cases h
    simp [Instruction.goesOn, fork, Opcode.isTerminal]
  · rename_i loop
    cases h
    simp [Instruction.goesOn, loop, Opcode.isTerminal]
  · cases h
    rw [Instruction.goesOn]
    split
    all_goals first
      | contradiction
      | cases terminal : instruction.opcode.isTerminal <;> simp_all

/-! ## Instructions that cannot be read -/

theorem readOperand_error {image : Image} {entries : Array Entry} {header cursor : Nat}
    {problem : Problem} (h : readOperand image entries header cursor = .error problem) :
    problem.isObstacle = true := by
  simp only [readOperand] at h
  split at h
  · cases h
    rfl
  split at h
  · cases h
    rfl
  split at h
  · cases h
    rfl
  split at h
  · cases h
    rfl
  split at h <;> cases h

theorem readOperands_error {image : Image} {entries : Array Entry} {header count cursor : Nat}
    {problem : Problem} (h : (readOperands image entries header count cursor).2 = .error problem) :
    problem.isObstacle = true := by
  induction count generalizing cursor with
  | zero => cases h
  | succ count ih =>
    rw [readOperands] at h
    split at h
    · rename_i other read
      cases h
      exact readOperand_error read
    · rename_i operand noted read
      simp only at h
      cases more : (readOperands image entries header count (cursor + 4 * operand.width)).2 with
      | error fault =>
        rw [more] at h
        cases h
        exact ih more
      | ok rest =>
        rw [more] at h
        cases h

/-- Where no instruction can be read, it is noted why. -/
theorem readInstruction_met {setting : Setting} {cursor : Nat} {s t : Session}
    (h : readInstruction setting cursor s = .ok (none, t)) : t.script.Met cursor := by
  rw [readInstruction] at h
  simp only at h
  split at h
  · cases h
    exact .inr ⟨_, rfl, List.mem_append_right _ (List.mem_singleton.mpr rfl)⟩
  split at h
  · cases h
  split at h
  · rename_i problem failed
    cases h
    exact .inr ⟨problem, readOperands_error failed,
      List.mem_append_right _ (List.mem_singleton.mpr rfl)⟩
  · cases h

/-! ## What holds between two probes -/

/-- What is known of a script while `queue` is still to be probed. Branches may
be `unmet`, and what an instruction goes on to may be `ahead`, only while the
branch they belong to is decoded. -/
structure Tracked (setting : Setting) (unmet ahead : Nat → Prop) (script : Script)
    (queue : List Probe) : Prop where
  explored : Explored setting.image script
  branches : ∀ a ∈ script.branches, a < setting.image.byteLength → script.Met a ∨ unmet a
  tables : ∀ a ∈ script.tableAddresses, Leads setting.image script queue a
  transfers : ∀ {n : Nat} {decoded : Instruction},
    script.entries[n]? = some (.instruction decoded) →
    ∀ target ∈ decoded.transfers setting.catalogue, Answered script queue decoded target
  onward : ∀ {n : Nat} {decoded : Instruction},
    script.entries[n]? = some (.instruction decoded) → decoded.goesOn = true →
    setting.image.byteLength ≤ decoded.next ∨ script.Met decoded.next ∨ ahead decoded.next

/-- No address. -/
def Nowhere (_ : Nat) : Prop := False

namespace Tracked

variable {setting : Setting} {unmet ahead : Nat → Prop} {s t : Script} {old new : List Probe}

/-- Moves that place no instruction and probe no branch. -/
theorem quiet (h : Tracked setting unmet ahead s old) (moves : Moves setting.image s t)
    (more : ∀ p ∈ old, p ∈ new) (branches : t.branches = s.branches)
    (tables : ∀ a ∈ t.tableAddresses, a ∈ s.tableAddresses ∨ Leads setting.image t new a)
    (instructions : ∀ {n : Nat} {decoded : Instruction},
      t.entries[n]? = some (.instruction decoded) → s.entries[n]? = some (.instruction decoded)) :
    Tracked setting unmet ahead t new := by
  have grows := moves.grows h.explored
  refine ⟨moves.explored h.explored, ?_, ?_, ?_, ?_⟩
  · intro a m inside
    exact (h.branches a (branches ▸ m) inside).imp (Met.mono grows) id
  · intro a m
    rcases tables a m with m | leads
    · exact (h.tables a m).mono grows more
    · exact leads
  · intro n decoded at_n target mem
    exact (h.transfers (instructions at_n) target mem).mono grows more
  · intro n decoded at_n goes
    exact (h.onward (instructions at_n) goes).imp id (Or.imp (Met.mono grows) id)

/-- Gaps that are closed, or still open. -/
theorem close (h : Tracked setting unmet ahead s old) {unmet' ahead' : Nat → Prop}
    (met : ∀ a, unmet a → a < setting.image.byteLength → s.Met a ∨ unmet' a)
    (passed : ∀ a, ahead a → setting.image.byteLength ≤ a ∨ s.Met a ∨ ahead' a) :
    Tracked setting unmet' ahead' s old where
  explored := h.explored
  branches := fun a m inside => by
    rcases h.branches a m inside with there | gap
    · exact .inl there
    · exact met a gap inside
  tables := h.tables
  transfers := h.transfers
  onward := fun at_n goes => by
    rcases h.onward at_n goes with out | there | gap
    · exact .inl out
    · exact .inr (.inl there)
    · exact passed _ gap

end Tracked

theorem Tracked.adds {setting : Setting} {unmet ahead : Nat → Prop} {s t : Session}
    (pending : List Probe)
    (h : Tracked setting unmet ahead s.script (pending ++ s.worklist))
    (adds : s.Adds setting.image t) :
    Tracked setting unmet ahead t.script (pending ++ t.worklist) := by
  have more : ∀ p ∈ pending ++ s.worklist, p ∈ pending ++ t.worklist := fun p m =>
    List.mem_append.mpr ((List.mem_append.mp m).imp id fun m => adds.worklist.subset m)
  refine h.quiet adds.script.moves more adds.branches ?_ adds.script.instructions
  intro a m
  exact (adds.tables a m).imp id
    (Leads.mono .rfl fun p m => List.mem_append_right _ m)

/-! ## Decoding a branch -/

theorem next_placeInstruction (script : Script) (read : Instruction) :
    (placeInstruction script read).1.next = read.address + 4 * read.width := by
  have width := widthOfAll_labelOperands script.labels read.operands
  simp only [Instruction.next, Instruction.width, placeInstruction, width]

/-- Taking an instruction answers its transfers, and leaves open only what it
goes on to. -/
theorem takeInstruction_tracked {setting : Setting} {unmet ahead : Nat → Prop} {s t : Session}
    (pending : List Probe)
    (h : Tracked setting unmet ahead s.script (pending ++ s.worklist)) {read : Instruction}
    (readable : Readable setting.image s.script read) {flow : Flow}
    (taken : takeInstruction setting read (read.address + 4 * read.width) s = .ok (flow, t)) :
    t.script.Met read.address ∧
      Tracked setting unmet
        (fun a => ahead a ∨ flow = .goOn ∧ a = read.address + 4 * read.width) t.script
        (pending ++ t.worklist) := by
  have placed : Moves setting.image s.script (placeInstruction s.script read).2 :=
    .single (.instruction readable rfl)
  have behind := next_placeInstruction s.script read
  obtain ⟨there, cases_of⟩ := takeInstruction_instructions h.explored readable taken
  obtain ⟨u, -, transferred⟩ := takeInstruction_cases taken
  rw [← behind] at transferred
  have adds := (takeInstruction_sides taken).adds
  have moves : Moves setting.image s.script t.script := placed.trans adds.script.moves
  have grows := moves.grows h.explored
  have more : ∀ p ∈ pending ++ s.worklist, p ∈ pending ++ t.worklist := fun p m =>
    List.mem_append.mpr ((List.mem_append.mp m).imp id fun m => adds.worklist.subset m)
  have mine : ∀ p ∈ t.worklist, p ∈ pending ++ t.worklist := fun p m =>
    List.mem_append_right _ m
  refine ⟨?_, moves.explored h.explored, ?_, ?_, ?_, ?_⟩
  · have aligned := (Script.entryAt?_eq_some readable.free).1
    exact .inl ⟨_, Script.entryAt?_of_slot aligned there⟩
  · intro a m inside
    rw [adds.branches] at m
    exact (h.branches a (placeInstruction_branches .. ▸ m) inside).imp (Met.mono grows) id
  · intro a m
    rcases adds.tables a m with m | leads
    · exact (h.tables a (placeInstruction_tableAddresses .. ▸ m)).mono grows more
    · exact leads.mono .rfl mine
  · intro n decoded at_n target mem
    rcases cases_of at_n with old | ⟨-, rfl⟩
    · exact (h.transfers old target mem).mono grows more
    · exact (transfer_answered transferred mem).mono .rfl mine
  · intro n decoded at_n goes
    rcases cases_of at_n with old | ⟨-, rfl⟩
    · exact (h.onward old goes).imp id (Or.imp (Met.mono grows) .inl)
    · exact .inr (.inr (.inr ⟨(transfer_flow transferred).mp goes, behind⟩))

/-- What is open while the branch at `start` is decoded: the cursor. -/
abbrev Decoding (setting : Setting) (start cursor : Nat) : Script → List Probe → Prop :=
  Tracked setting (fun a => a = start ∧ cursor = start) (· = cursor)

/-- Once the cursor is met, nothing is open any more. -/
theorem Tracked.done {setting : Setting} {start cursor : Nat} {script : Script}
    {queue : List Probe} (h : Decoding setting start cursor script queue)
    (met : script.Met cursor) : Tracked setting Nowhere Nowhere script queue := by
  refine h.close ?_ ?_
  · rintro a ⟨rfl, rfl⟩ _
    exact .inl met
  · rintro a rfl
    exact .inr (.inl met)

/-- **Decoding a branch** meets the branch, and what each of its instructions
goes on to. -/
theorem decodeFrom_tracked {setting : Setting} {start cursor : Nat} {s t : Session}
    (pending : List Probe)
    (h : Decoding setting start cursor s.script (pending ++ s.worklist))
    (decoded : decodeFrom setting start cursor s = .ok t) :
    Tracked setting Nowhere Nowhere t.script (pending ++ t.worklist) := by
  fun_induction decodeFrom setting start cursor s with
  | case1 cursor s inside known =>
    -- A branch other than this one was met when it was decoded.
    cases decoded
    obtain met | ⟨-, eq⟩ := h.branches cursor (by simpa using known.2)
      (by rw [Image.byteLength]; omega)
    · exact h.done met
    · exact absurd eq known.1
  | case2 cursor s _ _ instruction there =>
    cases decoded
    exact h.done (.inl ⟨instruction, there⟩)
  | case3 => cases decoded
  | case4 cursor s _ _ _ u read =>
    cases decoded
    exact Tracked.done (h.adds pending (readInstruction_adds read)) (readInstruction_met read)
  | case5 => cases decoded
  | case6 cursor s _ _ free instruction u read next v taken =>
    cases decoded
    obtain ⟨rfl, readable⟩ := readInstruction_readable read free
    obtain ⟨met, tracked⟩ := takeInstruction_tracked pending
      (h.adds pending (readInstruction_adds read)) readable taken
    refine tracked.close ?_ ?_
    · rintro a ⟨rfl, eq⟩ _
      exact .inl (eq ▸ met)
    · rintro a (rfl | ⟨stopped, -⟩)
      · exact .inr (.inl met)
      · cases stopped
  | case7 cursor s _ _ free instruction u read next v taken ih =>
    obtain ⟨rfl, readable⟩ := readInstruction_readable read free
    obtain ⟨met, tracked⟩ := takeInstruction_tracked pending
      (h.adds pending (readInstruction_adds read)) readable taken
    refine ih (tracked.close ?_ ?_) decoded
    · rintro a ⟨rfl, eq⟩ _
      exact .inl (eq ▸ met)
    · rintro a (rfl | ⟨-, rfl⟩)
      · exact .inr (.inl met)
      · exact .inr (.inr rfl)
  | case8 cursor s _ _ _ =>
    cases decoded
    refine Tracked.done (h.adds pending (.diagnose s cursor .overlappingCode)) ?_
    exact .inr ⟨.overlappingCode, rfl, List.mem_append_right _ (List.mem_singleton.mpr rfl)⟩
  | case9 cursor s out =>
    cases decoded
    have past : setting.image.byteLength ≤ cursor := by
      rw [Image.byteLength]
      omega
    refine h.close ?_ ?_
    · rintro a ⟨rfl, rfl⟩ inside
      omega
    · rintro a rfl
      exact .inl past

/-! ## Working off the worklist -/

/-- What was asked for by a probe that is done needs the probe no longer. -/
theorem Covers.done {script : Script} {probe other : Probe} {queue : List Probe}
    (visited : Covers script [] probe) (h : Covers script (probe :: queue) other) :
    Covers script queue other := by
  have found : ∀ {P : Prop}, P ∨ other ∈ probe :: queue → (other = probe → P) →
      P ∨ other ∈ queue := fun either same => by
    rcases either with there | mem
    · exact .inl there
    · rcases List.mem_cons.mp mem with eq | mem
      · exact .inl (same eq)
      · exact .inr mem
  cases other with
  | branch a =>
    refine found h ?_
    rintro rfl
    exact visited.resolve_right List.not_mem_nil
  | table a role =>
    refine found h ?_
    rintro rfl
    exact visited.resolve_right List.not_mem_nil

theorem Tracked.visited {setting : Setting} {unmet ahead : Nat → Prop} {script : Script}
    {probe : Probe} {queue : List Probe} (visited : Covers script [] probe)
    (h : Tracked setting unmet ahead script (probe :: queue)) :
    Tracked setting unmet ahead script queue where
  explored := h.explored
  branches := h.branches
  tables := fun a m => by
    obtain ⟨labels, there, leads⟩ := h.tables a m
    refine ⟨labels, there, fun k bound => ?_⟩
    obtain ⟨target, named, reached⟩ := leads k bound
    refine ⟨target, named, reached.imp (Covers.done visited) ?_⟩
    exact fun ⟨role, covers⟩ => ⟨role, visited.done covers⟩
  transfers := fun at_n target mem => by
    have answered := h.transfers at_n target mem
    cases target with
    | none => exact answered
    | some target => exact answered.imp (Covers.done visited) id
  onward := h.onward

theorem probeBranch_tracked {setting : Setting} {address : Nat} {s t : Session}
    (pending : List Probe)
    (h : Tracked setting Nowhere Nowhere s.script (pending ++ s.worklist))
    (probed : probeBranch setting address s = .ok t) :
    Tracked setting Nowhere Nowhere t.script (pending ++ t.worklist) := by
  rw [probeBranch] at probed
  split at probed
  · cases probed
    exact h
  refine decodeFrom_tracked pending ?_ probed
  have moves : Moves setting.image s.script { s.script with
      branches := s.script.branches.insert address } :=
    .single (.aside (insertBranch_aside ..))
  have grows := moves.grows h.explored
  refine ⟨moves.explored h.explored, ?_, ?_, ?_, ?_⟩
  · intro a m inside
    rw [Std.ExtTreeSet.mem_insert, Nat.compare_eq_eq] at m
    rcases m with rfl | m
    · exact .inr ⟨rfl, rfl⟩
    · exact (h.branches a m inside).imp (Met.mono grows) False.elim
  · exact fun a m => (h.tables a m).mono grows fun _ m => m
  · exact fun at_n target mem => (h.transfers at_n target mem).mono grows fun _ m => m
  · exact fun at_n goes => (h.onward at_n goes).imp id (Or.imp (Met.mono grows) False.elim)

/-- **Running a probe** does what it was queued for, and queues what it finds. -/
theorem runProbe_tracked {setting : Setting} {probe : Probe} {s t : Session}
    (h : Tracked setting Nowhere Nowhere s.script (probe :: s.worklist))
    (ran : runProbe setting probe s = .ok t) :
    Tracked setting Nowhere Nowhere t.script t.worklist := by
  cases probe with
  | branch address =>
    have visited : Covers t.script [] (.branch address) := .inl (probeBranch_visits ran)
    exact (probeBranch_tracked [.branch address] h ran).visited visited
  | table address role =>
    have visited : Covers t.script [] (.table address role) := .inl (probeTable_visits ran)
    exact (Tracked.adds [.table address role] h (probeTable_adds ran)).visited visited

theorem drain_tracked {setting : Setting} {s t : Session}
    (h : Tracked setting Nowhere Nowhere s.script s.worklist) (drained : drain setting s = .ok t) :
    Tracked setting Nowhere Nowhere t.script t.worklist := by
  fun_induction drain setting s with
  | case1 s empty =>
    cases drained
    exact h
  | case2 => cases drained
  | case3 s probe rest pending u ran ih =>
    rw [pending] at h
    exact ih (runProbe_tracked h ran) drained

/-! ## The end of a recovery -/

theorem correctTable_tracked {setting : Setting} {script : Script} {queue : List Probe}
    (h : Tracked setting Nowhere Nowhere script queue) (head : Nat) :
    Tracked setting Nowhere Nowhere (script.correctTable head) queue := by
  obtain ⟨same, -⟩ | ⟨n, labels, keep, -, c⟩ := Script.correctTable_cases h.explored.laid head
  · rwa [same]
  · refine h.quiet (.single (.correct rfl)) (fun _ m => m) c.branches
      (fun a m => .inl (c.tables ▸ m)) fun at_m => ?_
    rcases c.entries.cases_of_after at_m with ⟨-, eq⟩ | ⟨-, -, eq⟩ | eq | ⟨old, -⟩
    · cases eq
    · cases eq
    · cases eq
    · exact old

theorem correctOverruns_tracked {setting : Setting} {script : Script} {queue : List Probe}
    (h : Tracked setting Nowhere Nowhere script queue) :
    Tracked setting Nowhere Nowhere script.correctOverruns queue := by
  rw [Script.correctOverruns]
  generalize script.tableHeads = heads
  induction heads generalizing script with
  | nil => exact h
  | cons head rest ih => exact ih (correctTable_tracked h head)

theorem exploreBranches_tracked {setting : Setting} {addresses : List Nat} {s t : Session}
    (h : Tracked setting Nowhere Nowhere s.script s.worklist)
    (explored : exploreBranches setting addresses s = .ok t) :
    Tracked setting Nowhere Nowhere t.script t.worklist := by
  rw [exploreBranches] at explored
  split at explored
  · cases explored
  · rename_i u drained
    cases explored
    refine correctOverruns_tracked (drain_tracked ?_ drained)
    exact h.quiet .refl (fun _ m => List.mem_append_right _ m) rfl (fun _ m => .inl m) id

/-- Before anything is explored there is nothing to follow. -/
theorem named_tracked (setting : Setting) (room : Nat) :
    Tracked setting Nowhere Nowhere
      (findEntrypoints setting.image room 0 (.blank setting.image.size)) [] := by
  obtain ⟨branches, tables, none⟩ := named_unexplored setting.image room
  refine ⟨(named_moves setting.image room).explored (.blank setting.image), ?_, ?_, ?_, ?_⟩
  · intro a m
    rw [branches] at m
    simp at m
  · intro a m
    rw [tables] at m
    simp at m
  · exact fun at_n => absurd at_n none
  · exact fun at_n => absurd at_n none

theorem explore_tracked {setting : Setting} {stats : Stats} {s : Session}
    (h : explore setting stats = .ok s) : Tracked setting Nowhere Nowhere s.script [] := by
  obtain ⟨script, u, rfl, first, more⟩ := explore_cases h
  have tracked := exploreBranches_tracked
    (named_tracked setting setting.options.maxEntrypoints) first
  rcases more with rfl | more
  · rwa [(exploreBranches_moves first).2] at tracked
  · have again := exploreBranches_tracked tracked more
    rwa [(exploreBranches_moves more).2] at again

theorem layText_tracked {setting : Setting} {script : Script} {queue : List Probe}
    (address : Nat) (bound : Option Nat) (h : Tracked setting Nowhere Nowhere script queue) :
    Tracked setting Nowhere Nowhere (layText setting.image script address bound) queue := by
  have moves := layText_moves setting.image script address bound
  rcases layText_cases setting.image script address bound with
    same | noted | ⟨text, rfl, found, laid⟩
  · rwa [same]
  · rw [noted] at moves ⊢
    exact h.quiet moves (fun _ m => m) rfl (fun _ m => .inl m) id
  · rw [laid] at moves ⊢
    refine h.quiet moves (fun _ m => m) (fill_branches ..) (fun a m => .inl ?_) fun at_m => ?_
    · rwa [fill_tableAddresses] at m
    · rcases found.claims.cases_of_after at_m with old | ⟨-, eq⟩ | ⟨k, -, tail⟩
      · exact old
      · cases eq
      · cases Entry.width?_of_mem_tail (List.mem_of_getElem? tail)

/-- Nothing is left to follow in a recovered script. -/
theorem disassemble_tracked {catalogue : Catalogue} {options : Options} {image : Image}
    {script : Script} (h : disassemble catalogue options image = .ok script) :
    Tracked ⟨image, catalogue, options⟩ Nowhere Nowhere script [] := by
  obtain ⟨s, explored, rfl⟩ := disassemble_cases h
  have answered := @answers_induction image
    (fun script => Tracked ⟨image, catalogue, options⟩ Nowhere Nowhere script [])
    (fun address bound tracked => layText_tracked address bound tracked) s.requests _
    (explore_tracked explored)
  refine answered.quiet (.single (.data rfl)) (fun _ m => m) rfl (fun _ m => .inl m) fun at_m => ?_
  rcases fillData_cases at_m with ⟨-, eq⟩ | ⟨old, -⟩
  · cases eq
  · exact old

end Recovery

/-- No successor of an instruction is lost in a script of the image. -/
structure Followed (catalogue : Catalogue) (image : Image) (script : Script) : Prop where
  /-- A known target was probed, or noted to be none. -/
  transfers : ∀ {n target : Nat} {decoded : Instruction},
    script.entries[n]? = some (.instruction decoded) →
    some target ∈ decoded.transfers catalogue →
    target ∈ script.branches ∨
      ⟨decoded.address, .invalidBranchTarget target⟩ ∈ script.diagnostics
  /-- A target only known at run time was noted. -/
  unknowable : ∀ {n : Nat} {decoded : Instruction},
    script.entries[n]? = some (.instruction decoded) → none ∈ decoded.transfers catalogue →
    ⟨decoded.address, .unknowableOperand decoded.opcode.mnemonic⟩ ∈ script.diagnostics
  onward : ∀ {n : Nat} {decoded : Instruction},
    script.entries[n]? = some (.instruction decoded) → decoded.goesOn = true →
    image.byteLength ≤ decoded.next ∨ script.Met decoded.next
  branches : ∀ a ∈ script.branches, a < image.byteLength → script.Met a
  /-- A table is there, and what each label it kept stands for was probed. -/
  tables : ∀ a ∈ script.tableAddresses, ∃ labels,
    script.entryAt? a = some (.pointerTable a labels) ∧ labels ≠ [] ∧
    ∀ (k : Nat) (name : String), labels[k]? = some name → ∃ target : Nat,
      tableDestination a (image.wordAt (a + 4 * k)) = target ∧
      script.labels.addressOf? name = some target ∧
      (target ∈ script.branches ∨ target ∈ script.tableAddresses)

namespace Recovery

/-- **No successor is lost**: when a recovery ends, whatever an instruction or a
table leads to was followed, or it is noted why not. -/
theorem disassemble_followed {catalogue : Catalogue} {options : Options} {image : Image}
    {script : Script} (h : disassemble catalogue options image = .ok script) :
    Followed catalogue image script := by
  have tracked := disassemble_tracked h
  have balanced := (disassemble_moves h).balanced (.blank image) (.blank image image.size)
  have visited : ∀ {a : Nat}, Covers script [] (.branch a) → a ∈ script.branches :=
    fun covers => covers.resolve_right List.not_mem_nil
  refine ⟨?_, ?_, ?_, ?_, ?_⟩
  · intro n target decoded at_n mem
    exact (tracked.transfers at_n _ mem).imp visited id
  · intro n decoded at_n mem
    exact tracked.transfers at_n _ mem
  · intro n decoded at_n goes
    exact (tracked.onward at_n goes).imp id fun met => met.resolve_right False.elim
  · intro a m inside
    exact (tracked.branches a m inside).resolve_right False.elim
  · intro a m
    obtain ⟨labels, there, leads⟩ := tracked.tables a m
    have slot := (Script.entryAt?_eq_some there).2
    have nonempty := (tracked.explored.laid.room slot rfl).1
    refine ⟨labels, there, List.length_pos_iff.mp nonempty, fun k name label => ?_⟩
    obtain ⟨target, named, reached⟩ := leads k (List.getElem?_eq_some_iff.mp label).1
    obtain ⟨address, named', found⟩ := balanced.accounted.found slot k name label
    have eq : address = target := by
      rw [named] at named'
      omega
    subst eq
    refine ⟨address, named, found, reached.imp visited fun ⟨role, covers⟩ => ?_⟩
    exact covers.resolve_right List.not_mem_nil

/-- In the sample the target of the call is probed, what stands behind the call is met,
and so is what the second label of the table stands for. -/
theorem disassemble_followed_sample :
    ∃ script, disassemble sampleCatalogue {} sampleImage = .ok script ∧
      Followed sampleCatalogue sampleImage script ∧
      script.entries[10]? = some (.instruction sampleGosub) ∧
      52 ∈ script.branches ∧ script.Met 48 ∧
      script.entries[4]? = some (.pointerTable 16 ["LABEL_2", "LABEL_3"]) ∧
      script.labels.addressOf? "LABEL_3" = some 48 ∧
      (48 ∈ script.branches ∨ 48 ∈ script.tableAddresses) := by
  obtain ⟨script, h, at_four, at_ten, table, diagnostics⟩ := sample_disassembles
  have followed := disassemble_followed h
  have probed : 52 ∈ script.branches := by
    refine (followed.transfers at_ten List.mem_cons_self).resolve_right ?_
    rw [diagnostics]
    decide
  have behind : script.Met 48 := (followed.onward at_ten rfl).resolve_left (by decide)
  obtain ⟨labels, there, -, leads⟩ := followed.tables 16 table
  rw [Script.entryAt?_slot (n := 4), at_four] at there
  cases there
  obtain ⟨target, named, stands, reached⟩ := leads 1 "LABEL_3" rfl
  obtain rfl : target = 48 := Int.ofNat_inj.mp (named.symm.trans (by decide))
  exact ⟨script, h, followed, at_ten, probed, behind, at_four, stands, reached⟩

end Recovery
end EventScript
