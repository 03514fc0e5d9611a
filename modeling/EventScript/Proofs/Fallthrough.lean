/-
Behind a conditional jump. Exploration is led to an address if that was probed
as a branch, or lies behind an instruction that decoding goes on from
(`Script.Led`). An instruction, or a note why there is none, stands at just
those addresses of the image (`disassemble_met_iff`): what is read is read at
the cursor, and exploration was led to the cursor (`Conducted`, which says more
than `Justified`: an instruction that decoding stops at leads nowhere).

A conditional jump queues the way straight on together with its target. If the
target is only known at run time it queues neither, and what lies behind it is
explored only if something else leads there (`disassemble_conditional`).
-/
import EventScript.Proofs.Grounds

namespace EventScript

/-- Exploration is led to an address: it was probed as a branch, or decoding went
on to it from the instruction before. -/
def Script.Led (script : Script) (address : Nat) : Prop :=
  address ∈ script.branches ∨ ∃ (n : Nat) (other : Instruction),
    script.entries[n]? = some (.instruction other) ∧ other.goesOn = true ∧ other.next = address

/-- Whether an instruction is a conditional jump. -/
def Instruction.isConditional (decoded : Instruction) : Bool :=
  decoded.opcode = .jmpCmp || decoded.opcode = .jmpCmp0

/-- The target of a conditional jump, if that is known: its last operand. -/
def Instruction.target? (decoded : Instruction) : Option Nat :=
  decoded.operands.getLast?.bind Operand.resolved

theorem Instruction.transfers_of_isConditional {decoded : Instruction}
    (conditional : decoded.isConditional = true) (catalogue : Catalogue) :
    decoded.transfers catalogue = match decoded.target? with
      | some target => [some target, some decoded.next]
      | none => [none] := by
  rw [isConditional, Bool.or_eq_true, decide_eq_true_eq, decide_eq_true_eq] at conditional
  rw [transfers, target?]
  cases decoded.operands.getLast?.bind Operand.resolved <;>
    rcases conditional with jump | jump <;> simp only [jump]

namespace Recovery

theorem Led.mono {s t : Script} (grows : Grows s t) {address : Nat} (h : s.Led address) :
    t.Led address := by
  rcases h with probed | ⟨n, other, at_n, goes, behind⟩
  · exact .inl (grows.branches _ probed)
  · exact .inr ⟨n, other, grows.instructions at_n, goes, behind⟩

/-! ## What is noted -/

/-- A problem is mild, or it says why no instruction stands at an address
exploration was led to. -/
def Warranted (image : Image) (script : Script) (d : Diagnostic) : Prop :=
  Mild image d.problem ∨ d.problem.isObstacle = true ∧ script.Led d.address

theorem Warranted.mono {image : Image} {s t : Script} {d : Diagnostic} (grows : Grows s t)
    (h : Warranted image s d) : Warranted image t d :=
  h.imp id (And.imp id (Led.mono grows))

theorem probeData_noted {setting : Setting} {address : Nat} {texts : Bool} {s : Session}
    {d : Diagnostic} (mem : d ∈ (probeData setting address texts s).script.diagnostics) :
    d ∈ s.script.diagnostics ∨ Mild setting.image d.problem := by
  rw [probeData] at mem
  split at mem
  · simp only at mem
    split at mem
    · rcases List.mem_append.mp mem with old | new
      · exact .inl old
      · cases List.mem_singleton.mp new
        exact .inr trivial
    · split at mem <;> exact .inl mem
  · exact .inl mem

theorem probeTable_noted {setting : Setting} {address : Nat} {kind : TableKind} {role : Role}
    {s t : Session} (h : probeTable setting address kind role s = .ok t) :
    t.script.diagnostics = s.script.diagnostics := by
  obtain ⟨-, rfl⟩ | ⟨destinations, scans⟩ := probeTable_cases h
  · rfl
  · exact scans.diagnostics

theorem placeInstruction_diagnostics (script : Script) (read : Instruction) :
    (placeInstruction script read).2.diagnostics = script.diagnostics := by
  simp only [placeInstruction, Script.setEntry]
  rw [claimOperands_eq]

theorem findEntrypoints_diagnostics (image : Image) (room n : Nat) (script : Script) :
    (findEntrypoints image room n script).diagnostics = script.diagnostics := by
  fun_induction findEntrypoints image room n script with
  | case1 => rfl
  | case2 => rfl
  | case3 _ _ _ _ _ _ _ _ _ _ _ ih => exact ih
  | case4 => rfl

theorem correctOverruns_noted {image : Image} {script : Script} (explored : Explored image script)
    {d : Diagnostic} (mem : d ∈ script.correctOverruns.diagnostics) :
    d ∈ script.diagnostics ∨ Mild image d.problem := by
  rw [Script.correctOverruns] at mem
  revert mem
  generalize script.tableHeads = heads
  induction heads generalizing script with
  | nil => exact .inl
  | cons head rest ih =>
    intro mem
    rcases ih (explored.move (.correct rfl)) mem with before | mild
    · obtain ⟨same, -⟩ | ⟨m, labels, keep, -, c⟩ := Script.correctTable_cases explored.laid head
      · exact .inl (same ▸ before)
      · rw [c.diagnostics] at before
        rcases List.mem_append.mp before with old | new
        · exact .inl old
        · split at new
          · cases List.mem_singleton.mp new
            exact .inr trivial
          · cases new
    · exact .inr mild

/-- What is noted on the side of an instruction is mild. -/
theorem Sides.noted {setting : Setting} {s t : Session} (h : Sides setting s t) {d : Diagnostic}
    (mem : d ∈ t.script.diagnostics) : d ∈ s.script.diagnostics ∨ Mild setting.image d.problem := by
  induction h with
  | refl => exact .inl mem
  | tail _ side ih =>
    cases side with
    | note address mild =>
      rcases List.mem_append.mp mem with old | new
      · exact ih old
      · cases List.mem_singleton.mp new
        exact .inr mild
    | record role a => exact ih (by cases role <;> exact mem)
    | queue | request => exact ih mem
    | table scanned => exact ih (probeTable_noted scanned ▸ mem)
    | data => exact (probeData_noted mem).elim ih .inr

theorem readOperand_noted {image : Image} {entries : Array Entry} {header cursor : Nat}
    {operand : Operand} {problem : Problem}
    (h : readOperand image entries header cursor = .ok (operand, some problem)) :
    Mild image problem := by
  simp only [readOperand] at h
  split at h
  · cases h
  split at h
  · cases h
  split at h
  · cases h
  split at h
  · cases h
  split at h
  · cases h
    exact trivial
  · cases h

theorem readOperands_noted {image : Image} {entries : Array Entry} {header count cursor : Nat}
    {d : Diagnostic} (mem : d ∈ (readOperands image entries header count cursor).1) :
    Mild image d.problem := by
  induction count generalizing cursor with
  | zero => cases mem
  | succ count ih =>
    rw [readOperands] at mem
    split at mem
    · cases mem
    · rename_i operand problem read
      rcases List.mem_append.mp mem with here | later
      · obtain ⟨noted, known, rfl⟩ := List.mem_map.mp (Option.toList_map .. ▸ here)
        exact readOperand_noted (Option.mem_toList.mp known ▸ read)
      · exact ih later

/-- What is noted when an instruction is read is mild, but for the one thing that
keeps it from being read. -/
theorem readInstruction_noted {setting : Setting} {cursor : Nat} {found : Option Instruction}
    {s t : Session} (h : readInstruction setting cursor s = .ok (found, t)) {d : Diagnostic}
    (mem : d ∈ t.script.diagnostics) :
    d ∈ s.script.diagnostics ∨ Mild setting.image d.problem ∨
      found = none ∧ d.problem.isObstacle = true ∧ d.address = cursor := by
  rw [readInstruction] at h
  simp only at h
  split at h
  · cases h
    rcases List.mem_append.mp mem with old | new
    · exact .inl old
    · cases List.mem_singleton.mp new
      exact .inr (.inr ⟨rfl, rfl, rfl⟩)
  split at h
  · cases h
  split at h
  · rename_i problem failed
    cases h
    rcases List.mem_append.mp mem with read | new
    · exact (List.mem_append.mp read).imp id fun noted => .inl (readOperands_noted noted)
    · cases List.mem_singleton.mp new
      exact .inr (.inr ⟨rfl, readOperands_error failed, rfl⟩)
  · cases h
    exact (List.mem_append.mp mem).imp id fun noted => .inl (readOperands_noted noted)

/-! ## Where exploration is led -/

/-- Whatever was read or noted was read or noted where exploration was led, and so
will be what is to be read next. -/
structure Conducted (setting : Setting) (p : Point) : Prop where
  instructions : ∀ {n : Nat} {decoded : Instruction},
    p.session.script.entries[n]? = some (.instruction decoded) →
    p.session.script.Led decoded.address
  noted : ∀ d ∈ p.session.script.diagnostics, Warranted setting.image p.session.script d
  cursor : ∀ {start cursor : Nat}, p.stage = .decoding start cursor → p.session.script.Led cursor

/-- A step that places no instruction and leaves the branch. -/
theorem Conducted.idle {setting : Setting} {p : Point} (h : Conducted setting p) {t : Session}
    (grows : Grows p.session.script t.script)
    (instructions : ∀ {n : Nat} {decoded : Instruction},
      t.script.entries[n]? = some (.instruction decoded) →
      p.session.script.entries[n]? = some (.instruction decoded))
    (noted : ∀ d ∈ t.script.diagnostics, d ∈ p.session.script.diagnostics ∨
      Warranted setting.image p.session.script d) :
    Conducted setting ⟨.idle, t⟩ where
  instructions := fun at_n => Led.mono grows (h.instructions (instructions at_n))
  noted := fun d mem => ((noted d mem).elim (h.noted d) id).mono grows
  cursor := fun stage => by cases stage

theorem Step.conducted {setting : Setting} {p q : Point} (step : Step setting p q)
    (explored : Explored setting.image p.session.script) (h : Conducted setting p) :
    Conducted setting q := by
  have grows := step.moves.grows explored
  cases step with
  | seen => exact h.idle grows id fun _ => .inl
  | begun =>
    refine ⟨fun at_n => Led.mono grows (h.instructions at_n),
      fun d mem => (h.noted d mem).mono grows, fun stage => ?_⟩
    cases stage
    exact .inl (by simp [Session.enter])
  | table _ scanned =>
    refine h.idle grows (probeTable_adds scanned).script.instructions fun d mem => .inl ?_
    rwa [probeTable_noted scanned] at mem
  | out => exact h.idle grows id fun _ => .inl
  | joined => exact h.idle grows id fun _ => .inl
  | @blocked start cursor s =>
    have led : s.script.Led cursor := h.cursor rfl
    refine h.idle grows id fun d mem => ?_
    rcases List.mem_append.mp mem with old | new
    · exact .inl old
    · cases List.mem_singleton.mp new
      exact .inr (.inr ⟨rfl, led⟩)
  | @unread start cursor s t _ _ read =>
    have led : s.script.Led cursor := h.cursor rfl
    refine h.idle grows (readInstruction_adds read).script.instructions fun d mem => ?_
    obtain old | mild | ⟨-, obstacle, here⟩ := readInstruction_noted read mem
    · exact .inl old
    · exact .inr (.inl mild)
    · exact .inr (.inr ⟨obstacle, here ▸ led⟩)
  | @taken start cursor s t u read flow inside free found taken =>
    have adds := readInstruction_adds found
    obtain ⟨rfl, readable⟩ := readInstruction_readable found free
    obtain ⟨there, cases_of⟩ :=
      takeInstruction_instructions (adds.script.moves.explored explored) readable taken
    have behind := next_placeInstruction t.script read
    refine ⟨fun at_n => ?_, fun d mem => ?_, fun stage => ?_⟩
    · rcases cases_of at_n with old | ⟨-, rfl⟩
      · exact Led.mono grows (h.instructions (adds.script.instructions old))
      · exact Led.mono grows (h.cursor rfl)
    · rcases (takeInstruction_sides taken).noted mem with placed | mild
      · rw [placeInstruction_diagnostics] at placed
        obtain old | mild | ⟨unread, -⟩ := readInstruction_noted found placed
        · exact (h.noted d old).mono grows
        · exact .inl mild
        · cases unread
      · exact .inl mild
    · obtain ⟨v, -, transferred⟩ := takeInstruction_cases taken
      have goes := transfer_flow transferred
      cases flow with
      | stop => cases stage
      | goOn =>
        cases stage
        exact .inr ⟨_, _, there, goes.mpr rfl, behind⟩

theorem explore_conducted (setting : Setting) (stats : Stats) :
    Exploring setting stats fun s => Conducted setting ⟨.idle, s⟩ where
  named := by
    obtain ⟨-, -, none⟩ := named_unexplored setting.image setting.options.maxEntrypoints
    refine ⟨fun at_n => absurd at_n none, fun d mem => ?_, fun stage => by cases stage⟩
    rw [Session.named, findEntrypoints_diagnostics] at mem
    cases mem
  ask := fun _ h => ⟨h.instructions, h.noted, fun stage => by cases stage⟩
  run := fun explored steps h => Steps.invariant Step.conducted steps explored h
  correct := fun explored h =>
    h.idle ((correctOverruns_moves ..).grows explored) (correctOverruns_instructions explored)
      fun _ mem => (correctOverruns_noted explored mem).imp id .inl

/-! ## The end of a recovery -/

theorem settle_noted {image : Image} {s : Session} {d : Diagnostic}
    (mem : d ∈ (settle image s).diagnostics) :
    d ∈ s.script.diagnostics ∨ Mild image d.problem := by
  refine @answers_induction image
    (fun script => ∀ d ∈ script.diagnostics, d ∈ s.script.diagnostics ∨ Mild image d.problem)
    ?_ s.requests s.script (fun _ => .inl) d mem
  intro script address bound before d mem
  rcases layText_cases image script address bound with same | noted | ⟨text, -, -, laid⟩
  · exact before d (same ▸ mem)
  · rw [noted] at mem
    rcases List.mem_append.mp mem with old | new
    · exact before d old
    · cases List.mem_singleton.mp new
      exact .inr trivial
  · rw [laid, Script.diagnostics_fill] at mem
    exact before d mem

variable {catalogue : Catalogue} {options : Options} {image : Image} {script : Script}

/-- What is noted in a recovered script is mild, or stands where exploration was led. -/
theorem disassemble_warranted (h : disassemble catalogue options image = .ok script)
    {d : Diagnostic} (mem : d ∈ script.diagnostics) : Warranted image script d := by
  obtain ⟨s, answer, rfl⟩ := disassemble_cases h
  obtain ⟨explored, conducted⟩ := (explore_conducted _ _).explored answer
  have grows := (settle_moves image s).grows explored
  rcases settle_noted mem with old | mild
  · exact (conducted.noted d old).mono grows
  · exact .inl mild

/-- A recovered instruction stands where exploration was led. -/
theorem disassemble_led (h : disassemble catalogue options image = .ok script) {n : Nat}
    {decoded : Instruction} (at_n : script.entries[n]? = some (.instruction decoded)) :
    script.Led decoded.address := by
  obtain ⟨s, answer, rfl⟩ := disassemble_cases h
  obtain ⟨explored, conducted⟩ := (explore_conducted _ _).explored answer
  have grows := (settle_moves image s).grows explored
  exact Led.mono grows (conducted.instructions (settle_found at_n id))

/-- **What exploration met**, it was led to; and of what it was led to it met all
that the image holds. -/
theorem disassemble_met_iff (h : disassemble catalogue options image = .ok script) {address : Nat}
    (inside : address < image.byteLength) : script.Met address ↔ script.Led address := by
  have tracked := disassemble_tracked h
  constructor
  · rintro (⟨decoded, there⟩ | ⟨problem, obstacle, noted⟩)
    · obtain ⟨aligned, slot⟩ := Script.entryAt?_eq_some there
      have home : decoded.address = 4 * (address / 4) := tracked.explored.laid.home slot rfl
      have led := disassemble_led h slot
      rwa [home, show 4 * (address / 4) = address by omega] at led
    · rcases disassemble_warranted h noted with mild | ⟨-, led⟩
      · cases problem <;> first | exact mild.elim | cases obstacle
      · exact led
  · rintro (probed | ⟨n, other, at_n, goes, rfl⟩)
    · exact (tracked.branches address probed inside).resolve_right False.elim
    · rcases tracked.onward at_n goes with out | met | gap
      · exact absurd out (Nat.not_le.mpr inside)
      · exact met
      · exact gap.elim

/-- A conditional jump whose target is known leads straight on as well. -/
theorem disassemble_straight_on (h : disassemble catalogue options image = .ok script) {n : Nat}
    {decoded : Instruction} (at_n : script.entries[n]? = some (.instruction decoded))
    (conditional : decoded.isConditional = true) (known : decoded.target?.isSome = true) :
    image.byteLength ≤ decoded.next ∨ script.Led decoded.next := by
  have tracked := disassemble_tracked h
  obtain ⟨target, known⟩ := Option.isSome_iff_exists.mp known
  have mem : some decoded.next ∈ decoded.transfers catalogue := by
    rw [Instruction.transfers_of_isConditional conditional, known]
    exact List.mem_cons_of_mem _ List.mem_cons_self
  rcases tracked.transfers at_n _ mem with covers | refused
  · exact .inr (.inl (covers.resolve_right List.not_mem_nil))
  · -- The way straight on is only refused where the image ends.
    rcases disassemble_warranted h refused with invalid | ⟨obstacle, -⟩
    · have home : decoded.address = 4 * n := tracked.explored.laid.home at_n rfl
      have next : decoded.next = 4 * n + 4 * decoded.width := by rw [Instruction.next, home]
      have pos : 0 < decoded.width := by
        rw [Instruction.width]
        omega
      refine .inl (Nat.le_of_not_lt fun inside => invalid ⟨?_, ?_, inside⟩) <;> omega
    · cases obstacle

/-- **Behind a conditional jump** something is met, or the image ends, just if its
target is known or something else leads there. A target only known at run time
is noted. -/
theorem disassemble_conditional (h : disassemble catalogue options image = .ok script) {n : Nat}
    {decoded : Instruction} (at_n : script.entries[n]? = some (.instruction decoded))
    (conditional : decoded.isConditional = true) :
    ((image.byteLength ≤ decoded.next ∨ script.Met decoded.next) ↔
      image.byteLength ≤ decoded.next ∨ decoded.target?.isSome = true ∨
        script.Led decoded.next) ∧
    (decoded.target? = none →
      ⟨decoded.address, .unknowableOperand decoded.opcode.mnemonic⟩ ∈ script.diagnostics) := by
  constructor
  · by_cases inside : image.byteLength ≤ decoded.next
    · exact iff_of_true (.inl inside) (.inl inside)
    rw [disassemble_met_iff h (Nat.not_le.mp inside), or_iff_right inside, or_iff_right inside]
    refine ⟨.inr, fun either => either.elim (fun known => ?_) id⟩
    exact (disassemble_straight_on h at_n conditional known).resolve_left inside
  · intro unknown
    have mem : none ∈ decoded.transfers catalogue := by
      rw [Instruction.transfers_of_isConditional conditional, unknown]
      exact List.mem_cons_self
    exact (disassemble_tracked h).transfers at_n _ mem

/-- A comparison with zero that jumps to a place only known at run time. -/
def blindJump (address : Nat) : Instruction where
  address
  opcode := .jmpCmp0
  parameter := 0
  operands := [⟨address + 4, .immediate, [0], some 0, none⟩,
    ⟨address + 8, .storage, [0x02000001], none, none⟩]

/-- What lies behind the blind jump is an entry point as well. -/
theorem disassemble_conditional_entered :
    ∃ script, disassemble {} {} #[8, 20, 0x242, 0, 0x02000001, 0x49] = .ok script ∧
      script.entries[2]? = some (.instruction (blindJump 8)) ∧ script.Met 20 ∧
      ⟨8, .unknowableOperand "jmp_cmp"⟩ ∈ script.diagnostics := by
  obtain ⟨script, h, at_two, probed⟩ := disassemble_within_holds {} {}
    #[8, 20, 0x242, 0, 0x02000001, 0x49] 4
    (fun script => script.entries[2]? = some (.instruction (blindJump 8)) ∧ 20 ∈ script.branches)
    (by decide +kernel)
  obtain ⟨behind, noted⟩ := disassemble_conditional h at_two rfl
  have met := (behind.mpr (.inr (.inr (.inl probed)))).resolve_left (by decide)
  exact ⟨script, h, at_two, met, noted rfl⟩

/-- Nothing else leads behind the blind jump: the return there is taken for data,
and no reason is noted. -/
theorem conditional_left_behind :
    ∃ script, disassemble {} {} #[4, 0x242, 0, 0x02000001, 0x49] = .ok script ∧
      script.entries[1]? = some (.instruction (blindJump 4)) ∧
      (blindJump 4).isConditional = true ∧
      ¬ (Image.byteLength #[4, 0x242, 0, 0x02000001, 0x49] ≤ (blindJump 4).next ∨
        script.Met (blindJump 4).next) := by
  obtain ⟨script, h, at_one, data, diagnostics⟩ := disassemble_within_holds {} {}
    #[4, 0x242, 0, 0x02000001, 0x49] 4
    (fun script => script.entries[1]? = some (.instruction (blindJump 4)) ∧
      script.entryAt? 16 = some (.rawData 16 0x49) ∧
      script.diagnostics = [⟨4, .unknowableOperand "jmp_cmp"⟩]) (by decide +kernel)
  refine ⟨script, h, at_one, rfl, ?_⟩
  rintro (out | ⟨decoded, there⟩ | ⟨problem, -, noted⟩)
  · exact absurd out (by decide)
  · cases data.symm.trans there
  · rw [diagnostics] at noted
    cases List.mem_singleton.mp noted

end Recovery
end EventScript
