/-
What a recovery does not depend on. Of the catalogue it reads how many
parameters a method has and the effect of each of them; the counters it only
adds to; and the extra branches it looks at once the rest is explored. So two
explorations that differ in nothing else go in lock step: they end alike, and
what the one had counted before it began stands on top (`exploreBranches_vary`,
`recover_vary`). A disassembler that is used for one image after another is
therefore as good as a fresh one for each, and what a catalogue says in words
has no influence on what is recovered (`recover_alike`).
-/
import Mathlib.Data.List.Forall2
import EventScript.Proofs.Bounded
import EventScript.Proofs.Exploration

namespace EventScript

/-- What a recovery reads of a parameter. -/
def Parameter.effect (parameter : Parameter) : BranchKind × Bool :=
  (parameter.branch, parameter.isString)

/-- What a recovery reads of a catalogue. -/
def Catalogue.effects (catalogue : Catalogue) : List (List (BranchKind × Bool)) :=
  catalogue.methods.map fun method => method.parameters.map Parameter.effect

/-- Two catalogues are alike if they describe as many methods with as many
parameters each, and parameters in the same place do the same with control flow
and both point at packed text or both do not. -/
def Catalogue.Alike (c c' : Catalogue) : Prop :=
  List.Forall₂ (fun m m' : Method => List.Forall₂ (fun p p' : Parameter =>
    p.branch = p'.branch ∧ p.isString = p'.isString) m.parameters m'.parameters)
    c.methods c'.methods

theorem Catalogue.alike_iff {c c' : Catalogue} : c.Alike c' ↔ c.effects = c'.effects := by
  have parameters : ∀ p p' : Parameter,
      p.effect = p'.effect ↔ p.branch = p'.branch ∧ p.isString = p'.isString :=
    fun _ _ => Prod.mk.injEq .. ▸ Iff.rfl
  simp only [Alike, effects, ← List.forall₂_eq_eq_eq, List.forall₂_map_left_iff,
    List.forall₂_map_right_iff, parameters]

instance (c c' : Catalogue) : Decidable (c.Alike c') :=
  decidable_of_iff _ Catalogue.alike_iff.symm

theorem Catalogue.method?_effects {c c' : Catalogue} (same : c.effects = c'.effects)
    (index : UInt16) :
    (c.method? index).map (fun method => method.parameters.map Parameter.effect) =
      (c'.method? index).map fun method => method.parameters.map Parameter.effect := by
  simpa [Catalogue.effects, Catalogue.method?] using congrArg (·[index.toNat]?) same

namespace Recovery

/-! ## Two explorations side by side -/

instance : Add Stats where
  add a b := ⟨a.headersDecoded + b.headersDecoded, a.branchesProbed + b.branchesProbed,
    a.tablesProbed + b.tablesProbed⟩

/-- The setting with another catalogue and other extra branches. -/
def Setting.vary (setting : Setting) (catalogue : Catalogue) (extra : List Nat) : Setting :=
  { setting with catalogue, options.extraBranches := extra }

@[simp] theorem Setting.vary_extra (setting : Setting) (catalogue : Catalogue)
    (extra : List Nat) : (setting.vary catalogue extra).options.extraBranches = extra := rfl

/-- The session that had counted `d` before it began. -/
def Session.counting (d : Stats) (s : Session) : Session := { s with stats := d + s.stats }

@[simp] theorem Session.counting_script (d : Stats) (s : Session) :
    (s.counting d).script = s.script := rfl

/-- The halt of a session that had counted `d` before it began. -/
def Halt.counting (d : Stats) (halt : Halt) : Halt := { halt with stats := d + halt.stats }

/-- The answer of a session that had counted `d` before it began, given what
that does to a result. -/
def counted {α : Type} (d : Stats) (shift : α → α) : Except Halt α → Except Halt α
  | .ok result => .ok (shift result)
  | .error halt => .error (halt.counting d)

variable {setting : Setting} {c : Catalogue} {e : List Nat} {d : Stats} {s : Session}

/-! ## Tables -/

theorem scanBranches_vary (kind : TableKind) (role : Role) (table room entry : Nat)
    (window : Window) (script : Script) :
    scanBranches (setting.vary c e) kind role table room entry window script =
      scanBranches setting kind role table room entry window script := by
  induction room generalizing entry window script with
  | zero => rfl
  | succ room ih =>
    simp only [scanBranches, ih]
    rfl

theorem scanData_vary (script : Script) (texts : Bool) (table room entry : Nat)
    (window : Window) :
    scanData (setting.vary c e) script texts table room entry window =
      scanData setting script texts table room entry window := by
  induction room generalizing entry window with
  | zero => rfl
  | succ room ih =>
    simp only [scanData, ih]
    rfl

theorem probeTable_vary (address : Nat) (kind : TableKind) (role : Role) :
    probeTable (setting.vary c e) address kind role (s.counting d) =
      counted d (Session.counting d) (probeTable setting address kind role s) := by
  simp only [probeTable, scanBranches_vary, apply_ite (counted d _)]
  rfl

theorem probeData_vary (address : Nat) (texts : Bool) :
    probeData (setting.vary c e) address texts (s.counting d) =
      (probeData setting address texts s).counting d := by
  simp only [probeData, scanData_vary, apply_ite (Session.counting d)]
  rfl

/-! ## Instructions -/

theorem followOperand_vary (opcode : Opcode) (operand : Operand) {p q : Option Parameter}
    (same : p.map Parameter.effect = q.map Parameter.effect) :
    followOperand (setting.vary c e) opcode operand p (s.counting d) =
      counted d (Session.counting d) (followOperand setting opcode operand q s) := by
  have texts : p.any Parameter.isString = q.any Parameter.isString := by
    simpa [Option.any_map, Function.comp_def, Parameter.effect] using
      congrArg (Option.any Prod.snd) same
  have role : (p.bind fun p => Role.ofBranch? p.branch) =
      q.bind fun p => Role.ofBranch? p.branch := by
    simpa [Option.bind_map, Function.comp_def, Parameter.effect] using
      congrArg (Option.bind · fun p => Role.ofBranch? p.1) same
  rw [followOperand, followOperand, texts, role]
  cases operand.resolved with
  | none => rfl
  | some target =>
    cases q.bind fun p => Role.ofBranch? p.branch with
    | none =>
      simp only [probeData_vary, apply_ite (counted d _)]
      rfl
    | some role =>
      simp only [probeTable_vary, apply_ite (counted d _)]
      rfl

theorem followOperands_vary (opcode : Opcode) (operands : List Operand) {p q : List Parameter}
    (same : p.map Parameter.effect = q.map Parameter.effect) :
    followOperands (setting.vary c e) opcode operands p (s.counting d) =
      counted d (Session.counting d) (followOperands setting opcode operands q s) := by
  induction operands generalizing p q s with
  | nil => rfl
  | cons operand rest ih =>
    have head : p.head?.map Parameter.effect = q.head?.map Parameter.effect := by
      simpa using congrArg List.head? same
    have tail : p.tail.map Parameter.effect = q.tail.map Parameter.effect := by
      simpa using congrArg List.tail same
    rw [followOperands, followOperands, followOperand_vary opcode operand head]
    cases followOperand setting opcode operand q.head? s with
    | error halt => rfl
    | ok t => exact ih tail

theorem enqueue_vary (origin target : Nat) :
    (s.counting d).enqueue (setting.vary c e) origin target =
      ((s.enqueue setting origin target).1, (s.enqueue setting origin target).2.counting d) := by
  simp only [Session.enqueue]
  split
  · rw [if_pos ‹_›]
    rfl
  · rw [if_neg ‹_›]
    rfl

theorem transferTo_vary (address target : Nat) (role : Option Role) :
    transferTo (setting.vary c e) address target role (s.counting d) =
      (transferTo setting address target role s).counting d := by
  rw [transferTo, transferTo, enqueue_vary]
  cases role with
  | none => rfl
  | some role =>
    simp only [apply_ite (Session.counting d)]
    rfl

theorem transferOperand_vary (instruction : Instruction) (index : Nat) (role : Option Role) :
    transferOperand (setting.vary c e) instruction index role (s.counting d) =
      (transferOperand setting instruction index role s).counting d := by
  rw [transferOperand, transferOperand]
  cases instruction.operands[index]?.bind Operand.resolved with
  | none => rfl
  | some target => exact transferTo_vary ..

theorem transferCall_vary (address : Nat) {p q : List Parameter} (operands : List Operand)
    (same : p.map Parameter.effect = q.map Parameter.effect) :
    transferCall (setting.vary c e) address p operands (s.counting d) =
      (transferCall setting address q operands s).counting d := by
  induction p generalizing q operands s with
  | nil =>
    cases q with
    | nil => cases operands <;> rfl
    | cons => cases same
  | cons p ps ih =>
    cases q with
    | nil => cases same
    | cons q qs =>
      obtain ⟨first, rest⟩ := List.cons.inj same
      cases operands with
      | nil => rfl
      | cons operand operands =>
        have branch : p.branch = q.branch := congrArg Prod.fst first
        rw [transferCall, transferCall, ← ih _ rest, branch]
        congr 1
        cases operand.resolved with
        | none =>
          simp only [apply_ite (Session.counting d)]
          rfl
        | some target =>
          simp only [transferTo_vary, apply_ite (Session.counting d)]

theorem transferMethod_vary (instruction : Instruction) {m n : Method}
    (same : m.parameters.map Parameter.effect = n.parameters.map Parameter.effect) :
    transferMethod (setting.vary c e) instruction m (s.counting d) =
      (transferMethod setting instruction n s).counting d := by
  have length : m.parameters.length = n.parameters.length := by
    simpa using congrArg List.length same
  rw [transferMethod, transferMethod, length, ← transferCall_vary _ _ same]
  congr 1
  simp only [apply_ite (Session.counting d)]
  rfl

theorem transferTable_vary (instruction : Instruction) (role : Role) :
    transferTable (setting.vary c e) instruction role (s.counting d) =
      counted d (Session.counting d) (transferTable setting instruction role s) := by
  rw [transferTable, transferTable]
  cases instruction.operands[1]? with
  | none => rfl
  | some operand =>
    cases resolved : operand.resolved with
    | none =>
      simp only [resolved]
      rfl
    | some table =>
      simp only [resolved, probeTable_vary, apply_ite (counted d _)]
      rfl

theorem transfer_vary (same : c.effects = setting.catalogue.effects) (instruction : Instruction)
    (next : Nat) :
    transfer (setting.vary c e) instruction next (s.counting d) =
      counted d (Prod.map id (Session.counting d)) (transfer setting instruction next s) := by
  have table (role : Role) (flow : Flow) :
      (transferTable (setting.vary c e) instruction role (s.counting d)).map (flow, ·) =
        counted d (Prod.map id (Session.counting d))
          ((transferTable setting instruction role s).map (flow, ·)) := by
    rw [transferTable_vary]
    cases transferTable setting instruction role s <;> rfl
  have method := Catalogue.method?_effects same instruction.parameter
  rw [transfer, transfer]
  simp only
  split
  · rw [show (setting.vary c e).catalogue = c from rfl]
    cases known : c.method? instruction.parameter with
    | none =>
      have unknown : setting.catalogue.method? instruction.parameter = none := by
        simpa [known] using method.symm
      rw [unknown]
      rfl
    | some m =>
      rw [known] at method
      obtain ⟨n, known', effects⟩ := Option.map_eq_some_iff.mp method.symm
      rw [known']
      simp only [transferMethod_vary instruction effects.symm]
      rfl
  · cases instruction.operands[0]?.bind Operand.resolved with
    | none => rfl
    | some target =>
      simp only [enqueue_vary]
      rfl
  · cases instruction.operands.getLast?.bind Operand.resolved with
    | none => rfl
    | some target =>
      simp only [enqueue_vary]
      rfl
  · cases instruction.operands.getLast?.bind Operand.resolved with
    | none => rfl
    | some target =>
      simp only [enqueue_vary]
      rfl
  · exact table ..
  · exact table ..
  · rw [transferOperand_vary]
    rfl
  · rw [transferOperand_vary]
    rfl
  · rw [transferOperand_vary]
    rfl
  · rfl

theorem readInstruction_vary (same : c.effects = setting.catalogue.effects) (cursor : Nat) :
    readInstruction (setting.vary c e) cursor (s.counting d) =
      counted d (Prod.map id (Session.counting d)) (readInstruction setting cursor s) := by
  rw [readInstruction, readInstruction]
  simp only [Setting.vary]
  cases Header.decode (setting.image.wordAt cursor) with
  | none => rfl
  | some header =>
    have known : (c.method? header.parameter).isNone =
        (setting.catalogue.method? header.parameter).isNone := by
      simpa using congrArg Option.isNone (Catalogue.method?_effects same header.parameter)
    simp only [known, Session.counting_script, apply_ite (counted d _)]
    congr 1
    cases (readOperands setting.image s.script.entries cursor header.operandCount
        (cursor + 4)).2 <;>
      rfl

theorem methodOf?_effects (same : c.effects = setting.catalogue.effects) (opcode : Opcode)
    (parameter : UInt16) :
    ((((setting.vary c e).methodOf? opcode parameter).map Method.parameters).getD []).map
        Parameter.effect =
      (((setting.methodOf? opcode parameter).map Method.parameters).getD []).map
        Parameter.effect := by
  simp only [Setting.methodOf?]
  split
  · have method := Catalogue.method?_effects same parameter
    show (((c.method? parameter).map Method.parameters).getD []).map _ = _
    cases known : c.method? parameter <;>
      cases known' : setting.catalogue.method? parameter <;> simp_all
  · rfl

theorem takeInstruction_vary (same : c.effects = setting.catalogue.effects) (read : Instruction)
    (next : Nat) :
    takeInstruction (setting.vary c e) read next (s.counting d) =
      counted d (Prod.map id (Session.counting d)) (takeInstruction setting read next s) := by
  simp only [takeInstruction, Session.counting_script]
  generalize placeInstruction s.script read = placed
  obtain ⟨instruction, script⟩ := placed
  have followed := @followOperands_vary setting c e d { s with script } instruction.opcode
    instruction.operands _ _
    (methodOf?_effects (e := e) same instruction.opcode instruction.parameter)
  simp only [Session.counting] at followed ⊢
  rw [followed]
  cases followOperands setting instruction.opcode instruction.operands _ { s with script } with
  | error halt => rfl
  | ok t => exact transfer_vary same instruction next

/-! ## Branches and the worklist -/

theorem decodeFrom_vary (same : c.effects = setting.catalogue.effects) (start cursor : Nat) :
    decodeFrom (setting.vary c e) start cursor (s.counting d) =
      counted d (Session.counting d) (decodeFrom setting start cursor s) := by
  fun_induction decodeFrom setting start cursor s with
  | case1 cursor s inside known =>
    rw [decodeFrom, dif_pos (by exact inside), if_pos (by exact known)]
    rfl
  | case2 cursor s inside new decoded there =>
    rw [decodeFrom, dif_pos (by exact inside), if_neg (by exact new)]
    simp only [Session.counting_script, there]
    rfl
  | case3 cursor s inside new free halt halted =>
    rw [decodeFrom, dif_pos (by exact inside), if_neg (by exact new)]
    simp only [Session.counting_script, free, readInstruction_vary same, halted]
    rfl
  | case4 cursor s inside new free t read =>
    rw [decodeFrom, dif_pos (by exact inside), if_neg (by exact new)]
    simp only [Session.counting_script, free, readInstruction_vary same, read]
    rfl
  | case5 cursor s inside new free read t found next halt halted =>
    rw [decodeFrom, dif_pos (by exact inside), if_neg (by exact new)]
    simp only [Session.counting_script, free, readInstruction_vary same, found, counted,
      Prod.map, id]
    rw [takeInstruction_vary same, halted]
    rfl
  | case6 cursor s inside new free read t found next u taken =>
    rw [decodeFrom, dif_pos (by exact inside), if_neg (by exact new)]
    simp only [Session.counting_script, free, readInstruction_vary same, found, counted,
      Prod.map, id]
    rw [takeInstruction_vary same, taken]
    rfl
  | case7 cursor s inside new free read t found next u taken ih =>
    rw [decodeFrom, dif_pos (by exact inside), if_neg (by exact new)]
    simp only [Session.counting_script, free, readInstruction_vary same, found, counted,
      Prod.map, id]
    rw [takeInstruction_vary same, taken]
    exact ih
  | case8 cursor s inside new entry other =>
    rw [decodeFrom, dif_pos (by exact inside), if_neg (by exact new)]
    simp only [Session.counting_script]
    rfl
  | case9 cursor s out =>
    rw [decodeFrom, dif_neg (by exact out)]
    rfl

theorem runProbe_vary (same : c.effects = setting.catalogue.effects) (probe : Probe) :
    runProbe (setting.vary c e) probe (s.counting d) =
      counted d (Session.counting d) (runProbe setting probe s) := by
  cases probe with
  | branch address =>
    simp only [runProbe, probeBranch, Session.counting_script, apply_ite (counted d _)]
    rw [← decodeFrom_vary same]
    rfl
  | table address role => exact probeTable_vary ..

theorem drain_vary (same : c.effects = setting.catalogue.effects) :
    drain (setting.vary c e) (s.counting d) =
      counted d (Session.counting d) (drain setting s) := by
  fun_induction drain setting s with
  | case1 s empty => exact drain_nil empty
  | case2 s probe rest pending halt halted =>
    rw [drain_cons (s := s.counting d) pending]
    have ran := @runProbe_vary setting c e d { s with worklist := rest } same probe
    rw [halted] at ran
    exact congrArg (Except.bind · (drain (setting.vary c e))) ran
  | case3 s probe rest pending t ran ih =>
    rw [drain_cons (s := s.counting d) pending]
    have ran' := @runProbe_vary setting c e d { s with worklist := rest } same probe
    rw [ran] at ran'
    exact (congrArg (Except.bind · (drain (setting.vary c e))) ran').trans ih

/-- **Exploring some branches** goes the same way whatever was counted before,
whatever else the catalogue says and whatever is to be explored later. -/
theorem exploreBranches_vary (same : c.effects = setting.catalogue.effects)
    (addresses : List Nat) :
    exploreBranches (setting.vary c e) addresses (s.counting d) =
      counted d (Session.counting d) (exploreBranches setting addresses s) := by
  have drained := @drain_vary setting c e d (s.pushAll (addresses.reverse.map Probe.branch)) same
  rw [exploreBranches, exploreBranches,
    show (s.counting d).pushAll _ = (s.pushAll (addresses.reverse.map Probe.branch)).counting d
      from rfl, drained]
  cases drain setting (s.pushAll (addresses.reverse.map Probe.branch)) <;> rfl

theorem Stats.zero_add (stats : Stats) : {} + stats = stats := by
  show Stats.mk _ _ _ = _
  simp only [Nat.zero_add]

theorem Session.counting_none (s : Session) : s.counting {} = s := by
  simp only [Session.counting, Stats.zero_add]

theorem counted_none {α : Type} {shift : α → α} (same : ∀ result, shift result = result)
    (answer : Except Halt α) : counted {} shift answer = answer := by
  cases answer with
  | error halt => simp only [counted, Halt.counting, Stats.zero_add]
  | ok result => simp only [counted, same]

theorem exploreBranches_alike (same : c.effects = setting.catalogue.effects)
    (addresses : List Nat) :
    exploreBranches (setting.vary c e) addresses s = exploreBranches setting addresses s := by
  have shifted := @exploreBranches_vary setting c e {} s same addresses
  rwa [counted_none Session.counting_none, Session.counting_none] at shifted

/-! ## Whole recoveries -/

theorem named_vary (stats : Stats) :
    Session.named (setting.vary c e) (d + stats) = (Session.named setting stats).counting d := rfl

theorem explore_vary (same : c.effects = setting.catalogue.effects) (stats : Stats) :
    explore (setting.vary c setting.options.extraBranches) (d + stats) =
      counted d (Session.counting d) (explore setting stats) := by
  rw [explore_eq, explore_eq, named_vary, Session.counting_script, exploreBranches_vary same]
  cases exploreBranches setting _ (Session.named setting stats) with
  | error halt => rfl
  | ok s =>
    show ite _ _ _ = counted d _ (ite _ _ _)
    rw [Setting.vary_extra, exploreBranches_vary same, apply_ite (counted d _)]
    rfl

theorem recover_vary (same : c.effects = setting.catalogue.effects) (stats : Stats) :
    recover (setting.vary c setting.options.extraBranches) (d + stats) =
      counted d (Prod.map id (d + ·)) (recover setting stats) := by
  rw [recover, recover, explore_vary same]
  cases explore setting stats <;> rfl

/-- **What a catalogue says in words has no influence**: with catalogues that are
alike, the recovery of an image ends with the same script or the same fault, and
with the same counters. -/
theorem recover_alike {c c' : Catalogue} (alike : c.Alike c') (image : Image)
    (options : Options) (stats : Stats) :
    recover ⟨image, c, options⟩ stats = recover ⟨image, c', options⟩ stats := by
  have shifted := @recover_vary ⟨image, c', options⟩ c {} (Catalogue.alike_iff.mp alike) stats
  have same : ∀ result : Script × Stats, Prod.map id (({} : Stats) + ·) result = result :=
    fun (script, stats) => by rw [Prod.map, id, Stats.zero_add]
  rwa [Stats.zero_add, counted_none same] at shifted

/-- The sample's catalogue in other words: the method and its parameter have other
names, the type is spelled otherwise, and there is an enumeration. -/
def reworded : Catalogue where
  methods := [{
    name := "talk"
    description := "Opens a window."
    parameters := [{
      direction := "both", type := "STRING", name := "line", description := "What is said." }] }]
  enums := .ofList [("speaker", ["nobody", "hero"])]

theorem recover_alike_reworded :
    sampleCatalogue.Alike reworded ∧
      ∃ answer, recover ⟨sampleImage, sampleCatalogue, {}⟩ {} = .ok answer ∧
        recover ⟨sampleImage, reworded, {}⟩ {} = .ok answer := by
  have alike : sampleCatalogue.Alike reworded := by decide
  have same := recover_alike alike sampleImage {} {}
  obtain ⟨script, h, -⟩ := sample_disassembles
  cases answer : recover ⟨sampleImage, sampleCatalogue, {}⟩ {} with
  | error halt => simp [disassemble, answer] at h
  | ok result => exact ⟨alike, result, rfl, same ▸ answer⟩

end Recovery
end EventScript
