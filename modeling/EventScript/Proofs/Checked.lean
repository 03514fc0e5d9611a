/-
Recovery in the numbers of a machine. Addresses are 32-bit numbers, indices and
counts 64-bit ones, scores and displacements signed 64-bit ones. Here every sum,
difference and product of addresses, cursors and scores is checked to stay in
its range, every signed address to fit where it is put, and every index to lie
in the array; where a check fails there is no answer. Loops run as long as their
conditions say. Those over addresses end because an address that grows leaves its
range at last; the one over the worklist has no answer either where a probe brings
it no nearer to its end.

What does no such arithmetic is taken from the recovery itself.
-/
import Mathlib.Algebra.Group.Int.Defs
import Mathlib.Algebra.Group.Nat.Defs
import EventScript.Recovery

namespace EventScript.Recovery.Checked

/-! ## Numbers -/

/-- A 32-bit number. -/
def nat32 (n : Nat) : Option Nat := if n < 2 ^ 32 then some n else none

/-- A 64-bit number. -/
def nat64 (n : Nat) : Option Nat := if n < 2 ^ 64 then some n else none

/-- A signed 64-bit number. -/
def int64 (n : Int) : Option Int := if -2 ^ 63 ≤ n ∧ n < 2 ^ 63 then some n else none

/-- The difference of two numbers of which the second is not larger. -/
def sub (a b : Nat) : Option Nat := if b ≤ a then some (a - b) else none

/-- A signed number as an address, without loss. -/
def narrow (n : Int) : Option Nat := if 0 ≤ n ∧ n < 2 ^ 32 then some n.toNat else none

/-- The items of an array from `start` up to `stop`. -/
def slice {α : Type} (items : Array α) (start stop : Nat) : Option (Array α) :=
  if start ≤ stop ∧ stop ≤ items.size then some (items.extract start stop) else none

/-- The address of a slot. -/
def slotAddress (n : Nat) : Option Nat := do nat32 (4 * (← nat32 n))

/-- The address `n` slots behind another. -/
def behind (address n : Nat) : Option Nat := do nat32 (address + (← slotAddress n))

theorem behind_bounds {address n next : Nat} (h : behind address n = some next) :
    next = address + 4 * n ∧ next < 2 ^ 32 := by
  simp only [behind, slotAddress, nat32, Option.bind_eq_bind, Option.bind_eq_some_iff,
    Option.ite_none_right_eq_some, Option.some.injEq] at h
  obtain ⟨_, ⟨_, ⟨-, rfl⟩, -, rfl⟩, small, rfl⟩ := h
  exact ⟨rfl, small⟩

/-- The length of an image in bytes. -/
def byteLength (image : Image) : Option Nat := slotAddress image.size

/-- The last address at which a word of an image can begin; negative if it has none. -/
def lastAddress (image : Image) : Option Int := do int64 ((← byteLength image) - 4)

/-! ## How much words look like code -/

/-- Adds the score of the next `count` operands to `score`. -/
def scoreOperands (image : Image) : (count cursor : Nat) → (score : Int) → Option (Int × Nat)
  | 0, cursor, score => some (score, cursor)
  | count + 1, cursor, score =>
    match image[cursor]? with
    | none => some (score, cursor)
    | some word => do
      let mode := Mode.ofWord word
      let score ← int64 (score + if mode = .immediate then 0 else 1)
      scoreOperands image count (← nat64 (cursor + mode.width word)) score

/-- Adds the score of `room` more instructions to `score`, `index` of the
`lookahead` being done. -/
def certaintyFrom (image : Image) (lookahead : Nat) :
    (room index cursor : Nat) → (score : Int) → Option Int
  | 0, _, _, score => some score
  | room + 1, index, cursor, score =>
    match image[cursor]?.bind Header.decode with
    | none => do int64 (score - (← int64 (← sub lookahead index)))
    | some header => do
      let score ← int64 (score + 1)
      let (score, cursor) ←
        scoreOperands image header.operandCount (← nat64 (cursor + 1)) score
      certaintyFrom image lookahead room (index + 1) cursor score

def isProbablyOp (setting : Setting) (script : Script) (address : Nat) : Option Bool :=
  if address % 4 ≠ 0 ∨ address < 4 ∨ setting.image.size ≤ address / 4 then some false
  else match script.entryAt? address with
    | some (.instruction _) => some true
    | _ => do
      let lookahead := setting.options.lookahead
      let certainty ← certaintyFrom setting.image lookahead lookahead 0 (address / 4) 0
      return decide (setting.options.threshold ≤ certainty)

/-- The first of `room` slots from `cursor` on that is claimed, or the slot behind them. -/
def firstClaimed (script : Script) : (room cursor : Nat) → Nat
  | 0, cursor => cursor
  | room + 1, cursor =>
    match script.entries[cursor]? with
    | some .unset => firstClaimed script room (cursor + 1)
    | _ => cursor

/-- How many bytes stand before the first terminator of some words. -/
def terminatorOffset : List Word → Option Nat
  | [] => none
  | word :: rest =>
    if word.low = sentinel then some 0
    else if word.high = sentinel then some 2
    else (terminatorOffset rest).map (· + 4)

def findTerminator (script : Script) (image : Image) (address room : Nat) :
    Option (Option Nat) := do
  let start := address / 4
  let stop := min (← nat64 (start + room)) image.size
  let claimed := firstClaimed script (stop - start) start
  if claimed ≤ start then some none
  else
    match terminatorOffset (← slice image start claimed).toList with
    | none => some none
    | some offset => (nat32 ((← slotAddress start) + (← nat32 offset))).map some

/-! ## Operands -/

def resolve (mode : Mode) (header : Nat) (words : List Word) : Option (Option Int) :=
  match words.head? with
  | none => some none
  | some first =>
    match mode with
    | .immediate => some (some first.toNat)
    | .nextImmediate => some (words[1]?.map fun second => (second.toNat : Int))
    | .inline1 | .inline2 | .inlineTable1 | .inlineTable2 | .inlineTable3 | .inlineTable4 => do
      some (some (← int64 (header + (← int64 (first.displacement * 4)))))
    | .inline3 => do
      let words ← int64 (first.displacement + first.p2.toNat)
      some (some (← int64 (header + (← int64 (words * 4)))))
    | _ => some none

def tableDestination (table : Nat) (entry : Word) : Option Int := do
  int64 (table + (← int64 (entry.signed * 4)))

def readOperand (image : Image) (entries : Array Entry) (header cursor : Nat) :
    Option (Except Problem (Operand × Option Problem)) := do
  let length ← byteLength image
  let slot := cursor / 4
  match image[slot]? with
  | none => some (.error .truncatedInstruction)
  | some first =>
    let mode := Mode.ofWord first
    if !mode.isSupported then some (.error (.unsupportedMode mode.tag))
    else
      let stop ← nat64 (slot + mode.width first)
      if image.size < stop then some (.error .truncatedInstruction)
      else if (← slice entries slot stop).any (!·.isUnset) then some (.error .overlappingCode)
      else
        let rawWords := (← slice image slot stop).toList
        let resolved ← resolve mode header rawWords
        let astray := resolved.filter fun target =>
          mode.isInline && (target < 0 || (length : Int) ≤ target)
        match astray with
        | some target =>
          some (.ok (.zeroed cursor rawWords, some (.pointerOutOfRange target)))
        | none =>
          let resolved ← match resolved with
            | some value => (narrow value).map some
            | none => some none
          some (.ok ({ address := cursor, mode, rawWords, resolved, label := none }, none))

def readOperands (image : Image) (entries : Array Entry) (header : Nat) :
    (count cursor : Nat) → Option (List Diagnostic × Except Problem (List Operand))
  | 0, _ => some ([], .ok [])
  | count + 1, cursor => do
    match ← readOperand image entries header cursor with
    | .error problem => some ([], .error problem)
    | .ok (operand, problem) =>
      let (diagnostics, operands) ←
        readOperands image entries header count (← behind cursor operand.width)
      some ((problem.map (Diagnostic.mk cursor)).toList ++ diagnostics,
        operands.map (operand :: ·))

def readInstruction (setting : Setting) (cursor : Nat) (s : Session) :
    Option (Except Halt (Option Instruction × Session)) :=
  let word := setting.image.wordAt cursor
  let s := { s with stats.headersDecoded := s.stats.headersDecoded + 1 }
  match Header.decode word with
  | none => some (.ok (none, s.diagnose cursor (.invalidHeader word)))
  | some header =>
    if header.opcode = .call ∧ (setting.catalogue.method? header.parameter).isNone then
      some (.error (s.halt (.unknownCall header.parameter cursor)))
    else do
      let (diagnostics, operands) ← readOperands setting.image s.script.entries cursor
        header.operandCount (← nat32 (cursor + 4))
      let s := { s with script.diagnostics := s.script.diagnostics ++ diagnostics }
      match operands with
      | .error problem => some (.ok (none, s.diagnose cursor problem))
      | .ok operands =>
        some (.ok (some ⟨cursor, header.opcode, header.parameter, operands⟩, s))

/-- Puts an entry in the slots of a run from its `n`th on, `count` of them. -/
def fill (script : Script) (base : Nat) (entry : Entry) : (count n : Nat) → Option Script
  | 0, _ => some script
  | count + 1, n => do
    fill (script.setEntry (← behind base n) entry) base entry count (n + 1)

def claimOperands (script : Script) (header : Nat) : (index : Nat) → List Operand → Option Script
  | _, [] => some script
  | index, operand :: rest => do
    claimOperands (← fill script operand.address (.operandSlot header index) operand.width 0)
      header (index + 1) rest

def placeInstruction (script : Script) (instruction : Instruction) :
    Option (Instruction × Script) := do
  let (operands, labels) := labelOperands script.labels instruction.operands
  let placed := { instruction with operands }
  let script ← claimOperands { script with labels } instruction.address 0 operands
  some (placed, script.setEntry instruction.address (.instruction placed))

/-! ## Tables -/

def branchDestination (setting : Setting) (script : Script) (kind : TableKind) (table entry : Nat)
    (window : Window) : Option (Option Nat) := do
  let word := setting.image.wordAt entry
  if script.isUnset entry && (entry == table || !script.labels.contains entry) &&
      window.admits entry word then
    let destination ← tableDestination table word
    if (4 : Int) ≤ destination && destination ≤ (← lastAddress setting.image) then
      let destination ← narrow destination
      let valid := Likelihood.isValidOp setting.image destination
      if (← isProbablyOp setting script entry) && !valid then some none
      else
        let accepted ← match kind with
          | .branches => some valid
          | .tables => (isProbablyOp setting script destination).map (!·)
        some (if accepted then some destination else none)
    else some none
  else some none

def scanBranches (setting : Setting) (kind : TableKind) (role : Role) (table entry : Nat)
    (window : Window) (script : Script) : Option (List (Nat × String) × Script) := do
  if entry ≤ (← lastAddress setting.image) then
    match ← branchDestination setting script kind table entry window with
    | none => some ([], script)
    | some destination =>
      let script := match kind with
        | .branches => script.record role destination
        | .tables => script
      let (name, labels) := script.labels.add destination
      if entry + 4 < 2 ^ 32 then
        let (rest, script) ← scanBranches setting kind role table (entry + 4)
          (window.widen destination) { script with labels }
        some ((destination, name) :: rest, script)
      else none
  else some ([], script)
termination_by 2 ^ 32 - entry

def probeTable (setting : Setting) (address : Nat) (kind : TableKind) (role : Role)
    (s : Session) : Option (Except Halt Session) :=
  if s.script.tableAddresses.contains address then some (.ok s)
  else do
    let s := { s with
      script.tableAddresses := s.script.tableAddresses.insert address
      stats.tablesProbed := s.stats.tablesProbed + 1 }
    let length ← byteLength setting.image
    let (entries, script) ←
      scanBranches setting kind role address address ⟨length, 0⟩ s.script
    if entries.isEmpty then some (.error (s.halt (.emptyTable address)))
    else
      let script := script.setEntry address (.pointerTable address (entries.map (·.2)))
      let probes := (ascending (entries.map (·.1))).map fun destination =>
        match kind with
        | .branches => Probe.branch destination
        | .tables => Probe.table destination role
      some (.ok ({ s with script }.pushAll probes))

def dataDestination (setting : Setting) (script : Script) (texts : Bool) (table entry : Nat)
    (window : Window) : Option (Option Nat) := do
  let word := setting.image.wordAt entry
  if script.isUnset entry && window.admits entry word then
    let destination ← tableDestination table word
    if (0 : Int) ≤ destination && destination < (← lastAddress setting.image) then
      let destination ← narrow destination
      if ← isProbablyOp setting script entry then
        if texts then
          let terminator ← findTerminator script setting.image destination
            setting.options.searchWords
          some (if terminator.isSome then some destination else none)
        else some none
      else some (some destination)
    else some none
  else some none

def scanData (setting : Setting) (script : Script) (texts : Bool) (table entry : Nat)
    (window : Window) : Option (List Nat) := do
  if entry ≤ (← lastAddress setting.image) then
    match ← dataDestination setting script texts table entry window with
    | none => some []
    | some destination =>
      if entry + 4 < 2 ^ 32 then
        let rest ← scanData setting script texts table (entry + 4) (window.widen destination)
        some (destination :: rest)
      else none
  else some []
termination_by 2 ^ 32 - entry

def probeData (setting : Setting) (address : Nat) (texts : Bool) (s : Session) :
    Option Session :=
  if s.script.isUnset address then do
    let length ← byteLength setting.image
    let destinations ← scanData setting s.script texts address address ⟨length, 0⟩
    if destinations.isEmpty then some (s.diagnose address .emptyDataTable)
    else
      let (names, labels) := s.script.labels.addAll destinations
      let script := { s.script with labels }.setEntry address (.pointerTable address names)
      let s := { s with script }
      some (if texts then s.request (.table address destinations) else s)
  else some s

/-! ## Transfers -/

def followOperand (setting : Setting) (opcode : Opcode) (operand : Operand)
    (parameter : Option Parameter) (s : Session) : Option (Except Halt Session) :=
  match operand.resolved with
  | none => some (.ok s)
  | some target =>
    let texts := parameter.any Parameter.isString
    if !operand.mode.isInline then some (.ok s)
    else if operand.mode.isTable && opcode ≠ .jmpTable && opcode ≠ .gosubTable then
      match parameter.bind fun p => Role.ofBranch? p.branch with
      | some role => probeTable setting target .branches role s
      | none => (probeData setting target texts s).map .ok
    else if texts then some (.ok (s.request (.single target)))
    else some (.ok s)

def followOperands (setting : Setting) (opcode : Opcode) :
    List Operand → List Parameter → Session → Option (Except Halt Session)
  | [], _, s => some (.ok s)
  | operand :: rest, parameters, s => do
    match ← followOperand setting opcode operand parameters.head? s with
    | .error halt => some (.error halt)
    | .ok s => followOperands setting opcode rest parameters.tail s

def transferTable (setting : Setting) (instruction : Instruction) (role : Role) (s : Session) :
    Option (Except Halt Session) :=
  match instruction.operands[1]? with
  | none => some (.ok (s.unknowable instruction.address instruction.opcode))
  | some operand =>
    match operand.resolved with
    | none => some (.ok (s.unknowable instruction.address instruction.opcode))
    | some table =>
      if table = 0 then some (.ok s)
      else probeTable setting table (if operand.mode.isTable then .tables else .branches) role s

def transfer (setting : Setting) (instruction : Instruction) (next : Nat) (s : Session) :
    Option (Except Halt (Flow × Session)) :=
  match instruction.opcode with
  | .jmpTable =>
    (transferTable setting instruction .jumpDestination s).map (·.map (.stop, ·))
  | .gosubTable => (transferTable setting instruction .subroutine s).map (·.map (.goOn, ·))
  | _ => some (Recovery.transfer setting instruction next s)

/-! ## Branches and the worklist -/

def takeInstruction (setting : Setting) (instruction : Instruction) (next : Nat)
    (s : Session) : Option (Except Halt (Flow × Session)) := do
  let (instruction, script) ← placeInstruction s.script instruction
  let parameters :=
    ((setting.methodOf? instruction.opcode instruction.parameter).map Method.parameters).getD []
  match ← followOperands setting instruction.opcode instruction.operands parameters
      { s with script } with
  | .error halt => some (.error halt)
  | .ok s => transfer setting instruction next s

def decodeFrom (setting : Setting) (start cursor : Nat) (s : Session) :
    Option (Except Halt Session) :=
  if cursor / 4 < setting.image.size then
    if cursor ≠ start ∧ s.script.branches.contains cursor then some (.ok s)
    else match s.script.entryAt? cursor with
      | some (.instruction _) => some (.ok s)
      | some .unset => do
        match ← readInstruction setting cursor s with
        | .error halt => some (.error halt)
        | .ok (none, s) => some (.ok s)
        | .ok (some instruction, s) =>
          match _further : behind cursor instruction.width with
          | none => none
          | some next =>
            match ← takeInstruction setting instruction next s with
            | .error halt => some (.error halt)
            | .ok (.stop, s) => some (.ok s)
            | .ok (.goOn, s) => decodeFrom setting start next s
      | _ => some (.ok (s.diagnose cursor .overlappingCode))
  else some (.ok s)
termination_by 2 ^ 32 - cursor
decreasing_by
  obtain ⟨rfl, small⟩ := behind_bounds _further
  simp only [Instruction.width] at small ⊢
  omega

def probeBranch (setting : Setting) (address : Nat) (s : Session) : Option (Except Halt Session) :=
  if s.script.branches.contains address then some (.ok s)
  else decodeFrom setting address address { s with
    script.branches := s.script.branches.insert address
    stats.branchesProbed := s.stats.branchesProbed + 1 }

def runProbe (setting : Setting) : Probe → Session → Option (Except Halt Session)
  | .branch address, s => probeBranch setting address s
  | .table address role, s => probeTable setting address .branches role s

def drain (setting : Setting) (s : Session) : Option (Except Halt Session) :=
  match _pending : s.worklist with
  | [] => some (.ok s)
  | probe :: rest => do
    match ← runProbe setting probe { s with worklist := rest } with
    | .error halt => some (.error halt)
    | .ok t =>
      if _nearer : t.Nearer setting { s with worklist := rest } then drain setting t else none
termination_by (s.unvisited setting, s.worklist.length)
decreasing_by exact _nearer.lex _pending

theorem drain_nil {setting : Setting} {s : Session} (empty : s.worklist = []) :
    drain setting s = some (.ok s) := by
  rw [drain]
  split
  · rfl
  · rename_i pending
    rw [empty] at pending
    cases pending

theorem drain_cons {setting : Setting} {s : Session} {probe : Probe} {rest : List Probe}
    (pending : s.worklist = probe :: rest) :
    drain setting s = (runProbe setting probe { s with worklist := rest }).bind fun
      | .error halt => some (.error halt)
      | .ok t => if t.Nearer setting { s with worklist := rest } then drain setting t else none := by
  rw [drain]
  split
  · rename_i empty
    rw [pending] at empty
    cases empty
  · rename_i same
    rw [pending] at same
    cases same
    rfl

/-! ## Tables that ran too far -/

def headsFrom (n : Nat) : List Entry → Option (List (Nat × Entry))
  | [] => some []
  | entry :: rest => do
    let heads ← headsFrom (n + 1) rest
    if entry.width?.isSome then some ((← slotAddress n, entry) :: heads)
    else some heads

def tableHeads (script : Script) : Option (List Nat) := do
  let heads ← headsFrom 0 script.entries.toList
  some (heads.filterMap fun
    | (address, .pointerTable ..) => some address
    | _ => none)

def ownSlots (script : Script) (head : Nat) : (room n : Nat) → Option Nat
  | 0, n => some n
  | room + 1, n => do
    if script.claimedFrom head (← behind head n) then some n
    else ownSlots script head room (n + 1)

def freeTail (script : Script) (head : Nat) : (count n : Nat) → Option Script
  | 0, _ => some script
  | count + 1, n => do
    let slot ← behind head n
    let script := match script.entryAt? slot with
      | some (.continuation owner) => if owner = head then script.setEntry slot .unset else script
      | _ => script
    freeTail script head count (n + 1)

def cutTable (script : Script) (head keep : Nat) (labels : List String) : Option Script := do
  -- Splitting the labels needs `keep` to lie in them, which `sub` sees to.
  let count ← sub labels.length keep
  let dropped := labels.drop keep
  let script := dropped.foldl Script.releaseEntry script
  let script ← freeTail script head count keep
  let script := script.diagnose head (.tableOverrun keep dropped.length)
  some (script.setEntry head (.pointerTable head (labels.take keep)))

def correctTable (script : Script) (head : Nat) : Option Script :=
  match script.entryAt? head with
  | some (.pointerTable _ labels) => do
    let keep ← ownSlots script head (labels.length - 1) 1
    let script ← if keep < labels.length then cutTable script head keep labels else some script
    fill script head (.continuation head) (keep - 1) 1
  | _ => some script

def correctOverruns (script : Script) : Option Script := do
  (← tableHeads script).foldlM correctTable script

/-! ## Texts and data -/

/-- Collects codes from half-word `half` on, up to half-word `limit`. -/
def collectCodes (image : Image) (script : Script) (address limit half : Nat) :
    Option (List UInt16 × Bool) :=
  if half < limit then do
    let slot ← behind address (half / 2)
    if image.size ≤ slot / 4 then some ([], false)
    else if half % 2 = 0 && !script.isUnset slot then some ([], false)
    else
      let word := image.wordAt slot
      let code := if half % 2 = 0 then word.low else word.high
      if code = sentinel then some ([], true)
      else
        if half + 1 < 2 ^ 64 then
          let (codes, terminated) ← collectCodes image script address limit (half + 1)
          some (code :: codes, terminated)
        else none
  else some ([], false)
termination_by limit - half

def layText (image : Image) (script : Script) (address : Nat) (bound : Option Nat) :
    Option Script :=
  if script.isUnset address then do
    let (codes, terminated) ← collectCodes image script address (bound.getD (2 ^ 64 - 1)) 0
    let text : EncodedString := ⟨address, codes, terminated⟩
    if text.storedLength = 0 then some script
    else
      let last ← sub text.width 1
      if text.storedLength % 2 = 1 && (image.wordAt (← behind address last)).high ≠ 0 then
        some (script.diagnose address .stringSkipped)
      else
        fill (script.setEntry address (.encodedString text)) address (.continuation address)
          last 1
  else some script

def layTexts (image : Image) (script : Script) : List Nat → Option Script
  | [] => some script
  | [address] => layText image script address none
  | address :: next :: rest => do
    let room ← sub next address
    layTexts image (← layText image script address (some (room / 2))) (next :: rest)

def answer (image : Image) (script : Script) : TextRequest → Option Script
  | .single address => layText image script address none
  | .table head destinations =>
    let count := match script.entryAt? head with
      | some (.pointerTable _ labels) => labels.length
      | _ => 0
    layTexts image script (ascending (destinations.take count))

/-- Makes raw words of the free slots from slot `n` on. -/
def fillData (image : Image) (script : Script) : (room n : Nat) → Option Script
  | 0, _ => some script
  | room + 1, n => do
    let address ← slotAddress n
    let script ← if script.isUnset address then
        image[n]?.map fun word => script.setEntry address (.rawData address word)
      else some script
    fillData image script room (n + 1)

def settle (image : Image) (s : Session) : Option Script := do
  fillData image (← s.requests.foldlM (answer image) s.script) image.size 0

/-! ## Whole recoveries -/

def findEntrypoints (image : Image) : (room n : Nat) → Script → Option Script
  | 0, _, script => some script
  | room + 1, n, script => do
    let destination := (← image[n]?).toNat
    if Likelihood.isValidOp image destination then
      let address ← slotAddress n
      let (name, labels) := script.labels.addUnique destination
      let script := { script with labels, entrypoints := script.entrypoints ++ [destination] }
      findEntrypoints image room (n + 1) (script.setEntry address (.entrypoint address name))
    else some script

def exploreBranches (setting : Setting) (addresses : List Nat) (s : Session) :
    Option (Except Halt Session) := do
  match ← drain setting (s.pushAll (addresses.reverse.map Probe.branch)) with
  | .error halt => some (.error halt)
  | .ok s => do
    let script ← correctOverruns s.script
    some (.ok { s with script })

def explore (setting : Setting) (stats : Stats) : Option (Except Halt Session) := do
  let script ← findEntrypoints setting.image
    (min setting.options.maxEntrypoints setting.image.size) 0 (.blank setting.image.size)
  match ← exploreBranches setting script.entrypoints { script, stats } with
  | .error halt => some (.error halt)
  | .ok s =>
    if setting.options.extraBranches.isEmpty then some (.ok s)
    else exploreBranches setting setting.options.extraBranches s

/-- Recovers the script of an image, if no check fails. -/
def disassemble (catalogue : Catalogue) (options : Options) (image : Image) :
    Option (Except Fault Script) := do
  match ← explore ⟨image, catalogue, options⟩ {} with
  | .error halt => some (.error halt.fault)
  | .ok s => do
    let script ← settle image s
    some (.ok script)

end EventScript.Recovery.Checked
