/-
Every recovered instruction has its grounds. It is what the image encodes: its
header decodes from the word it stands at, and its operands follow one behind
the other, each as the mode of its first word reads it (`Encodes`). And nothing
is decoded at random: an instruction stands at a branch that was probed, or
right behind another instruction (`Script.Reached`).

The second is kept by every step of exploration, together with what it says of
the cursor (`Justified`).
-/
import EventScript.Proofs.Successor

namespace EventScript

namespace Mode

theorem width_pos (mode : Mode) (first : Word) : 0 < mode.width first := by
  cases mode <;> simp only [width, fixedWidth, identifierWidth, Option.getD] <;> omega

/-- An inline operand resolves to an address, wherever that lies. -/
theorem resolve_isSome {mode : Mode} (inline : mode.isInline = true) (header : Nat) (first : Word)
    (rest : List Word) : (mode.resolve header (first :: rest)).isSome = true := by
  cases mode <;> first | rfl | cases inline

/-- All else resolves to a value of a word, if to anything. -/
theorem resolve_nonneg {mode : Mode} (plain : mode.isInline = false) {header : Nat}
    {words : List Word} {value : Int} (h : mode.resolve header words = some value) :
    0 ≤ value := by
  obtain ⟨first, -, h⟩ := Option.bind_eq_some_iff.mp h
  cases mode with
  | immediate =>
    cases h
    exact Int.natCast_nonneg _
  | nextImmediate =>
    obtain ⟨second, -, rfl⟩ := Option.map_eq_some_iff.mp h
    exact Int.natCast_nonneg _
  | inline1 | inline2 | inline3 | inlineTable1 | inlineTable2 | inlineTable3 | inlineTable4 =>
    cases plain
  | _ => cases h

end Mode

namespace Recovery

/-! ## Operands -/

/-- The operand the image encodes at `cursor` for the instruction at `header`:
the words there as the mode of the first of them reads them, or a zero in their
place if they point outside the image. -/
inductive Encodes (image : Image) (header cursor : Nat) (operand : Operand) : Prop
  | kept {first : Word} (word : image[cursor / 4]? = some first)
      (address : operand.address = cursor)
      (width : operand.width = (Mode.ofWord first).width first)
      (rawWords : operand.rawWords = wordsOfOperand image cursor first)
      (mode : operand.mode = Mode.ofWord first) (supported : operand.mode.isSupported = true)
      (resolved : operand.resolved.map Int.ofNat = operand.mode.resolve header operand.rawWords)
      (inside : operand.mode.isInline = true →
        ∃ target, operand.resolved = some target ∧ target < image.byteLength)
  | zeroed {first : Word} {target : Int} (word : image[cursor / 4]? = some first)
      (width : operand.width = (Mode.ofWord first).width first)
      (inline : (Mode.ofWord first).isInline = true)
      (resolved : (Mode.ofWord first).resolve header (wordsOfOperand image cursor first) =
        some target)
      (outside : target < 0 ∨ (image.byteLength : Int) ≤ target)
      (zero : operand = .zeroed cursor (wordsOfOperand image cursor first))

theorem wordsOfOperand_cons {image : Image} {cursor : Nat} {first : Word}
    (word : image[cursor / 4]? = some first) :
    ∃ rest, wordsOfOperand image cursor first = first :: rest := by
  have pos := (Mode.ofWord first).width_pos first
  have head : (wordsOfOperand image cursor first)[0]? = some first := by
    rw [wordsOfOperand, Array.getElem?_toList, Array.getElem?_extract, if_pos]
    · rwa [Nat.add_zero]
    · have := (Array.getElem?_eq_some_iff.mp word).1
      omega
  cases words : wordsOfOperand image cursor first with
  | nil =>
    rw [words] at head
    cases head
  | cons other rest =>
    rw [words] at head
    cases head
    exact ⟨rest, rfl⟩

theorem Read.encodes {image : Image} {diagnostics : List Diagnostic} {header cursor : Nat}
    {operand : Operand} (h : Read image diagnostics header cursor operand) :
    Encodes image header cursor operand := by
  cases h with
  | @kept first label word supported inside near =>
    have length := length_wordsOfOperand inside
    have lossless : ∀ value, (Mode.ofWord first).resolve header
        (wordsOfOperand image cursor first) = some value → 0 ≤ value := fun value known => by
      cases inline : (Mode.ofWord first).isInline with
      | false => exact Mode.resolve_nonneg inline known
      | true =>
        have := near value known
        simp only [Astray, inline, true_and, not_or] at this
        omega
    refine .kept word rfl length rfl rfl supported ?_ fun inline => ?_
    · cases known : (Mode.ofWord first).resolve header (wordsOfOperand image cursor first) with
      | none => rfl
      | some value =>
        have := lossless value known
        simp only [Option.map_some, Option.some.injEq, Int.ofNat_eq_natCast]
        omega
    · obtain ⟨rest, words⟩ := wordsOfOperand_cons word
      have some := Mode.resolve_isSome inline header first rest
      rw [← words] at some
      obtain ⟨value, known⟩ := Option.isSome_iff_exists.mp some
      have := near value known
      simp only [Astray, inline, true_and, not_or] at this
      exact ⟨value.toNat, by rw [known]; rfl, by omega⟩
  | @zeroed first target word inside resolved astray noted =>
    refine .zeroed word ?_ astray.1 resolved astray.2 rfl
    rw [Operand.width, Operand.zeroed, List.length_modifyHead, length_wordsOfOperand inside]

/-- Where an operand stands: behind those before it. -/
theorem ReadAll.getElem? {image : Image} {diagnostics : List Diagnostic} {header cursor : Nat}
    {operands : List Operand} (h : ReadAll image diagnostics header cursor operands) {k : Nat}
    {operand : Operand} (at_k : operands[k]? = some operand) :
    Read image diagnostics header (cursor + 4 * Operand.widthOfAll (operands.take k))
      operand := by
  induction h generalizing k with
  | nil => cases at_k
  | @cons cursor first rest read _ ih =>
    cases k with
    | zero =>
      cases at_k
      exact read
    | succ k =>
      have later := ih (k := k) (by simpa using at_k)
      rwa [show cursor + 4 * first.width + 4 * Operand.widthOfAll (rest.take k) =
        cursor + 4 * Operand.widthOfAll ((first :: rest).take (k + 1)) by
          simp only [List.take_succ_cons, Operand.widthOfAll]; omega] at later

/-- Labelling the operands that were read labels exactly the inline ones. -/
theorem ReadAll.isSome_label {image : Image} {diagnostics : List Diagnostic}
    {header cursor : Nat} {operands : List Operand}
    (h : ReadAll image diagnostics header cursor operands)
    (unlabelled : ∀ operand ∈ operands, operand.label = none) (labels : LabelTable)
    {operand : Operand} (mem : operand ∈ (labelOperands labels operands).1) :
    operand.label.isSome = operand.mode.isInline := by
  induction h generalizing labels with
  | nil => cases mem
  | @cons cursor first rest read _ ih =>
    obtain ⟨none, others⟩ := List.forall_mem_cons.mp unlabelled
    rw [labelOperands] at mem
    rcases List.mem_cons.mp mem with rfl | mem
    · rw [labelOperand]
      split
      · rename_i inline
        split
        · simp [inline]
        · rename_i unknown
          cases read.encodes with
          | kept _ _ _ _ _ _ _ inside =>
            obtain ⟨target, resolved, -⟩ := inside inline
            rw [unknown] at resolved
            cases resolved
          | zeroed _ _ _ _ _ zero =>
            rw [zero] at inline
            cases inline
      · rename_i plain
        simp [none, plain]
    · exact ih others _ mem

/-! ## Instructions -/

/-- An instruction that stands somewhere stood there before the move, or was read
and placed by it. -/
theorem Move.instruction_cases {image : Image} {s t : Script} (move : Move image s t)
    (explored : Explored image s) {n : Nat} {decoded : Instruction}
    (at_n : t.entries[n]? = some (.instruction decoded)) :
    s.entries[n]? = some (.instruction decoded) ∨
      ∃ read, Readable image s read ∧ decoded = (placeInstruction s read).1 := by
  cases move with
  | aside aside => exact .inl (Asides.instructions (.single aside) at_n)
  | entrypoint _ _ free named =>
    subst named
    rcases (entrypoint_claims free).cases_of_after at_n with old | ⟨-, eq⟩ | ⟨k, -, tail⟩
    · exact .inl old
    · cases eq
    · cases tail
  | instruction readable placed =>
    subst placed
    have claims := placeInstruction_claims readable explored.size
    rcases claims.cases_of_after at_n with old | ⟨-, eq⟩ | ⟨k, -, tail⟩
    · exact .inl old
    · cases eq
      exact .inr ⟨_, readable, rfl⟩
    · cases Entry.width?_of_mem_tail (List.mem_of_getElem? tail)
  | @correct head corrected =>
    subst corrected
    obtain ⟨same, -⟩ | ⟨m, labels, keep, -, c⟩ := Script.correctTable_cases explored.laid head
    · exact .inl (same ▸ at_n)
    · rcases c.entries.cases_of_after at_n with ⟨-, eq⟩ | ⟨-, -, eq⟩ | eq | ⟨old, -⟩
      · cases eq
      · cases eq
      · cases eq
      · exact .inl old
  | text found laid =>
    subst laid
    rcases found.claims.cases_of_after at_n with old | ⟨-, eq⟩ | ⟨k, -, tail⟩
    · exact .inl old
    · cases eq
    · cases Entry.width?_of_mem_tail (List.mem_of_getElem? tail)
  | data filled =>
    subst filled
    rcases fillData_cases at_n with ⟨-, eq⟩ | ⟨old, -⟩
    · cases eq
    · exact .inl old

/-- Exactly the inline operands of an instruction carry a label. -/
def Labelled (decoded : Instruction) : Prop :=
  ∀ operand ∈ decoded.operands, operand.label.isSome = operand.mode.isInline

theorem Moves.labelled {image : Image} {s : Script} (h : Moves image (.blank image.size) s)
    {n : Nat} {decoded : Instruction} (at_n : s.entries[n]? = some (.instruction decoded)) :
    Labelled decoded := by
  have both := h.invariant (P := fun s => Explored image s ∧ ∀ {n : Nat} {decoded : Instruction},
    s.entries[n]? = some (.instruction decoded) → Labelled decoded) ?_ ⟨.blank image, ?_⟩
  · exact both.2 at_n
  · intro s t move held
    refine ⟨held.1.move move, fun at_n => ?_⟩
    rcases move.instruction_cases held.1 at_n with old | ⟨read, readable, rfl⟩
    · exact held.2 old
    · exact fun operand mem =>
        readable.operands.isSome_label readable.unlabelled s.labels mem
  · intro n decoded at_n
    simp [Script.blank, Array.getElem?_replicate] at at_n

end Recovery

/-- Exploration had a reason to look for an instruction at the address: it was
probed as a branch, or lies right behind an instruction. -/
def Script.Reached (script : Script) (address : Nat) : Prop :=
  address ∈ script.branches ∨ ∃ (n : Nat) (other : Instruction),
    script.entries[n]? = some (.instruction other) ∧ other.next = address

namespace Recovery

theorem Reached.mono {s t : Script} (grows : Grows s t) {address : Nat} (h : s.Reached address) :
    t.Reached address := by
  rcases h with probed | ⟨n, other, at_n, behind⟩
  · exact .inl (grows.branches _ probed)
  · exact .inr ⟨n, other, grows.instructions at_n, behind⟩

/-- Whatever was decoded was reached, and so was what is to be decoded next. -/
structure Justified (p : Point) : Prop where
  instructions : ∀ {n : Nat} {decoded : Instruction},
    p.session.script.entries[n]? = some (.instruction decoded) →
    p.session.script.Reached decoded.address
  cursor : ∀ {start cursor : Nat}, p.stage = .decoding start cursor →
    p.session.script.Reached cursor

/-- A step that places no instruction and leaves the branch. -/
theorem Justified.idle {p : Point} (h : Justified p) {t : Session}
    (grows : Grows p.session.script t.script)
    (instructions : ∀ {n : Nat} {decoded : Instruction},
      t.script.entries[n]? = some (.instruction decoded) →
      p.session.script.entries[n]? = some (.instruction decoded)) :
    Justified ⟨.idle, t⟩ where
  instructions := fun at_n => Reached.mono grows (h.instructions (instructions at_n))
  cursor := fun stage => by cases stage

theorem Step.justified {setting : Setting} {p q : Point} (step : Step setting p q)
    (explored : Explored setting.image p.session.script) (h : Justified p) : Justified q := by
  have grows := step.moves.grows explored
  cases step with
  | seen => exact h.idle grows id
  | begun =>
    refine ⟨fun at_n => Reached.mono grows (h.instructions at_n), fun stage => ?_⟩
    cases stage
    exact .inl (by simp [Session.enter])
  | table _ scanned => exact h.idle grows (probeTable_adds scanned).script.instructions
  | out => exact h.idle grows id
  | joined => exact h.idle grows id
  | blocked => exact h.idle grows id
  | unread _ _ read => exact h.idle grows (readInstruction_adds read).script.instructions
  | @taken start cursor s t u read flow inside free found taken =>
    have adds := readInstruction_adds found
    obtain ⟨rfl, readable⟩ := readInstruction_readable found free
    obtain ⟨there, cases_of⟩ :=
      takeInstruction_instructions (adds.script.moves.explored explored) readable taken
    have behind := next_placeInstruction t.script read
    refine ⟨fun at_n => ?_, fun stage => ?_⟩
    · rcases cases_of at_n with old | ⟨-, rfl⟩
      · exact Reached.mono grows (h.instructions (adds.script.instructions old))
      · exact Reached.mono grows (h.cursor rfl)
    · cases flow with
      | stop => cases stage
      | goOn =>
        cases stage
        exact .inr ⟨_, _, there, behind⟩

theorem explore_justified (setting : Setting) (stats : Stats) :
    Exploring setting stats fun s => Justified ⟨.idle, s⟩ where
  named := by
    obtain ⟨-, -, none⟩ := named_unexplored setting.image setting.options.maxEntrypoints
    exact ⟨fun at_n => absurd at_n none, fun stage => by cases stage⟩
  ask := fun _ h => ⟨h.instructions, fun stage => by cases stage⟩
  run := fun explored steps h => Steps.invariant Step.justified steps explored h
  correct := fun explored h =>
    h.idle ((correctOverruns_moves ..).grows explored) (correctOverruns_instructions explored)

end Recovery

/-- An instruction at slot `n` is what the image encodes there, and was reached. -/
structure Grounded (image : Image) (script : Script) (n : Nat) (decoded : Instruction) : Prop where
  address : decoded.address = 4 * n
  header : ∃ word header, image[n]? = some word ∧ Header.decode word = some header ∧
    decoded.opcode = header.opcode ∧ decoded.parameter = header.parameter ∧
    decoded.operands.length = header.operandCount
  /-- The operands follow the header, one behind the other. -/
  operands : ∀ {k : Nat} {operand : Operand}, decoded.operands[k]? = some operand →
    Recovery.Encodes image decoded.address
      (decoded.address + 4 * (1 + Operand.widthOfAll (decoded.operands.take k))) operand
  labelled : ∀ operand ∈ decoded.operands, operand.label.isSome = operand.mode.isInline
  /-- A label stands at the address its operand resolves to. -/
  named : ∀ operand ∈ decoded.operands, ∀ name, operand.label = some name →
    ∃ target, operand.resolved = some target ∧ script.labels.addressOf? name = some target
  reached : script.Reached decoded.address

namespace Recovery

/-- **Every recovered instruction has its grounds**: the image encodes it where
it stands, and exploration came there by a branch or from the instruction before. -/
theorem disassemble_grounded {catalogue : Catalogue} {options : Options} {image : Image}
    {script : Script} (h : disassemble catalogue options image = .ok script) {n : Nat}
    {decoded : Instruction} (at_n : script.entries[n]? = some (.instruction decoded)) :
    Grounded image script n decoded := by
  have moves := disassemble_moves h
  have explored := moves.explored (.blank image)
  have accounted := (moves.balanced (.blank image) (.blank image image.size)).accounted
  have home : decoded.address = 4 * n := explored.laid.home at_n rfl
  obtain ⟨⟨header, decodes, opcode, parameter, count⟩, read⟩ := explored.faithful at_n
  refine ⟨home, ?_, ?_, moves.labelled at_n, accounted.found at_n, ?_⟩
  · have inside := (Array.getElem?_eq_some_iff.mp at_n).1
    rw [explored.size] at inside
    refine ⟨image[n], header, Array.getElem?_eq_getElem inside, ?_, opcode, parameter, count⟩
    rw [← decodes, home, Image.wordAt, show 4 * n / 4 = n by omega,
      Array.getElem?_eq_getElem inside]
    rfl
  · intro k operand at_k
    have there := (read.getElem? at_k).encodes
    rwa [show decoded.address + 4 + 4 * Operand.widthOfAll (decoded.operands.take k) =
      decoded.address + 4 * (1 + Operand.widthOfAll (decoded.operands.take k)) by omega] at there
  · obtain ⟨s, answer, rfl⟩ := disassemble_cases h
    obtain ⟨laid, justified⟩ := (explore_justified _ _).explored answer
    have grows := (settle_moves image s).grows laid
    exact Reached.mono grows (justified.instructions (settle_found at_n id))

theorem disassemble_grounded_sample :
    ∃ script decoded, disassemble sampleCatalogue {} sampleImage = .ok script ∧
      script.entries[10]? = some (.instruction decoded) ∧
      Grounded sampleImage script 10 decoded := by
  obtain ⟨script, h, -, at_ten, -⟩ := sample_disassembles
  exact ⟨script, _, h, at_ten, disassemble_grounded h at_ten⟩

end Recovery
end EventScript
