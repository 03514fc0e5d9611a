/-
Exploration as a machine. Between two probes it stands idle; while a branch is
decoded it stands at a cursor. `Step` says once what it may do next, and `Halts`
where it stops for good. The loops that explore an image are runs of this
machine (`drain_ends`), so what every step keeps holds wherever exploration
stands (`Steps.invariant`), and what is kept by a run, by queueing and by
correcting the tables holds when exploration ends (`Exploring.explored`) and
where it began the run that halts (`Exploring.halted`).
-/
import EventScript.Proofs.Placement

namespace EventScript.Recovery

/-! ## The machine -/

/-- Where exploration stands: between two probes, or on the branch at `start`
before the instruction at `cursor`. -/
inductive Stage where
  | idle
  | decoding (start cursor : Nat)

/-- Where exploration stands behind an instruction on the branch at `start`. -/
def Flow.stage (start next : Nat) : Flow → Stage
  | .goOn => .decoding start next
  | .stop => .idle

/-- The session in which the branch at an address is begun. -/
def Session.enter (s : Session) (address : Nat) : Session :=
  { s with
    script.branches := s.script.branches.insert address
    stats.branchesProbed := s.stats.branchesProbed + 1 }

/-- A stage and the session there. -/
structure Point where
  stage : Stage
  session : Session

/-- One step of exploration. -/
inductive Step (setting : Setting) : Point → Point → Prop
  | seen {s : Session} {a : Nat} {rest : List Probe}
      (pending : s.worklist = .branch a :: rest) (seen : a ∈ s.script.branches) :
      Step setting ⟨.idle, s⟩ ⟨.idle, { s with worklist := rest }⟩
  | begun {s : Session} {a : Nat} {rest : List Probe}
      (pending : s.worklist = .branch a :: rest) (new : a ∉ s.script.branches) :
      Step setting ⟨.idle, s⟩ ⟨.decoding a a, Session.enter { s with worklist := rest } a⟩
  | table {s t : Session} {a : Nat} {role : Role} {rest : List Probe}
      (pending : s.worklist = .table a role :: rest)
      (scanned : probeTable setting a .branches role { s with worklist := rest } = .ok t) :
      Step setting ⟨.idle, s⟩ ⟨.idle, t⟩
  | out {start cursor : Nat} {s : Session} (out : setting.image.size ≤ cursor / 4) :
      Step setting ⟨.decoding start cursor, s⟩ ⟨.idle, s⟩
  | joined {start cursor : Nat} {s : Session} (inside : cursor / 4 < setting.image.size)
      (joined : cursor ≠ start ∧ cursor ∈ s.script.branches ∨
        ∃ decoded, s.script.entryAt? cursor = some (.instruction decoded)) :
      Step setting ⟨.decoding start cursor, s⟩ ⟨.idle, s⟩
  | blocked {start cursor : Nat} {s : Session} (inside : cursor / 4 < setting.image.size)
      (taken : s.script.entryAt? cursor ≠ some .unset) :
      Step setting ⟨.decoding start cursor, s⟩ ⟨.idle, s.diagnose cursor .overlappingCode⟩
  | unread {start cursor : Nat} {s t : Session} (inside : cursor / 4 < setting.image.size)
      (free : s.script.entryAt? cursor = some .unset)
      (read : readInstruction setting cursor s = .ok (none, t)) :
      Step setting ⟨.decoding start cursor, s⟩ ⟨.idle, t⟩
  | taken {start cursor : Nat} {s t u : Session} {read : Instruction} {flow : Flow}
      (inside : cursor / 4 < setting.image.size)
      (free : s.script.entryAt? cursor = some .unset)
      (found : readInstruction setting cursor s = .ok (some read, t))
      (taken : takeInstruction setting read (cursor + 4 * read.width) t = .ok (flow, u)) :
      Step setting ⟨.decoding start cursor, s⟩ ⟨flow.stage start (cursor + 4 * read.width), u⟩

/-- Where exploration stops with a fault. -/
inductive Halts (setting : Setting) : Point → Halt → Prop
  | table {s : Session} {a : Nat} {role : Role} {rest : List Probe} {halt : Halt}
      (pending : s.worklist = .table a role :: rest)
      (halted : probeTable setting a .branches role { s with worklist := rest } = .error halt) :
      Halts setting ⟨.idle, s⟩ halt
  | read {start cursor : Nat} {s : Session} {halt : Halt}
      (inside : cursor / 4 < setting.image.size)
      (free : s.script.entryAt? cursor = some .unset)
      (halted : readInstruction setting cursor s = .error halt) :
      Halts setting ⟨.decoding start cursor, s⟩ halt
  | taken {start cursor : Nat} {s t : Session} {read : Instruction} {halt : Halt}
      (inside : cursor / 4 < setting.image.size)
      (free : s.script.entryAt? cursor = some .unset)
      (found : readInstruction setting cursor s = .ok (some read, t))
      (halted : takeInstruction setting read (cursor + 4 * read.width) t = .error halt) :
      Halts setting ⟨.decoding start cursor, s⟩ halt

/-- Any number of steps. -/
abbrev Steps (setting : Setting) : Point → Point → Prop := Relation.ReflTransGen (Step setting)

/-! ## The loops as runs -/

/-- A run from `p` ends as the answer says: idle with a session, or halted. -/
def Ends (setting : Setting) (p : Point) : Except Halt Session → Prop
  | .ok t => Steps setting p ⟨.idle, t⟩
  | .error halt => ∃ q, Steps setting p q ∧ Halts setting q halt

theorem Ends.head {setting : Setting} {p q : Point} {answer : Except Halt Session}
    (step : Step setting p q) (h : Ends setting q answer) : Ends setting p answer := by
  cases answer with
  | ok t => exact Relation.ReflTransGen.head step h
  | error halt =>
    obtain ⟨r, steps, halts⟩ := h
    exact ⟨r, .head step steps, halts⟩

theorem Ends.trans {setting : Setting} {p q : Point} {answer : Except Halt Session}
    (steps : Steps setting p q) (h : Ends setting q answer) : Ends setting p answer := by
  induction steps using Relation.ReflTransGen.head_induction_on with
  | refl => exact h
  | head step _ ih => exact ih.head step

theorem decodeFrom_ends (setting : Setting) (start cursor : Nat) (s : Session) :
    Ends setting ⟨.decoding start cursor, s⟩ (decodeFrom setting start cursor s) := by
  fun_induction decodeFrom setting start cursor s with
  | case1 cursor s inside known =>
    exact .single (.joined inside (.inl ⟨known.1, by simpa using known.2⟩))
  | case2 cursor s inside _ decoded there =>
    exact .single (.joined inside (.inr ⟨decoded, there⟩))
  | case3 cursor s inside _ free halt halted =>
    exact ⟨_, .refl, .read inside free halted⟩
  | case4 cursor s inside _ free t read => exact .single (.unread inside free read)
  | case5 cursor s inside _ free read t found _ halt halted =>
    exact ⟨_, .refl, .taken inside free found halted⟩
  | case6 cursor s inside _ free read t found _ u taken =>
    exact .single (.taken inside free found taken)
  | case7 cursor s inside _ free read t found _ u taken ih =>
    exact ih.head (.taken inside free found taken)
  | case8 cursor s inside _ entry other => exact .single (.blocked inside (by simpa using other))
  | case9 cursor s out => exact .single (.out (by omega))

/-- A probe that ran does what steps from the idle stage do. -/
theorem probe_ends {setting : Setting} {s : Session} {probe : Probe} {rest : List Probe}
    (pending : s.worklist = probe :: rest) :
    Ends setting ⟨.idle, s⟩ (runProbe setting probe { s with worklist := rest }) := by
  cases probe with
  | branch a =>
    rw [runProbe, probeBranch]
    split
    · rename_i seen
      exact .single (.seen pending (by simpa using seen))
    · rename_i new
      exact (decodeFrom_ends ..).head (.begun pending (by simpa using new))
  | table a role =>
    rw [runProbe]
    cases scanned : probeTable setting a .branches role { s with worklist := rest } with
    | ok t => exact .single (.table pending scanned)
    | error halt => exact ⟨_, .refl, .table pending scanned⟩

/-- **Working off the worklist is a run of the machine.** -/
theorem drain_ends (setting : Setting) (s : Session) :
    Ends setting ⟨.idle, s⟩ (drain setting s) := by
  fun_induction drain setting s with
  | case1 s empty => exact .refl
  | case2 s probe rest pending halt halted =>
    have ends : Ends setting ⟨.idle, s⟩ _ := probe_ends pending
    rwa [halted] at ends
  | case3 s probe rest pending t ran ih =>
    have ends : Ends setting ⟨.idle, s⟩ _ := probe_ends pending
    rw [ran] at ends
    exact ih.trans ends

/-! ## What steps keep -/

/-- A step moves the script. -/
theorem Step.moves {setting : Setting} {p q : Point} (h : Step setting p q) :
    Moves setting.image p.session.script q.session.script := by
  cases h with
  | seen => exact .refl
  | begun => exact .single (.aside (insertBranch_aside ..))
  | table _ scanned => exact (probeTable_adds scanned).script.moves
  | out => exact .refl
  | joined => exact .refl
  | blocked => exact (Session.Adds.diagnose ..).script.moves
  | unread _ _ read => exact (readInstruction_adds read).script.moves
  | taken _ free found taken =>
    obtain ⟨-, readable⟩ := readInstruction_readable found free
    exact (readInstruction_adds found).script.moves.trans (takeInstruction_moves readable taken)

theorem Steps.moves {setting : Setting} {p q : Point} (h : Steps setting p q) :
    Moves setting.image p.session.script q.session.script := by
  induction h with
  | refl => exact .refl
  | tail _ step ih => exact ih.trans step.moves

/-- What every step keeps, wherever it is taken, any number of steps keeps. -/
theorem Steps.invariant {setting : Setting} {P : Point → Prop}
    (step : ∀ {p q}, Step setting p q → Explored setting.image p.session.script → P p → P q)
    {p q : Point} (h : Steps setting p q) (explored : Explored setting.image p.session.script)
    (start : P p) : P q := by
  induction h with
  | refl => exact start
  | tail steps last ih => exact step last (Steps.moves steps |>.explored explored) ih

/-- What a session holds after an instruction was taken: that instruction at its
address, and no other that was not there before. -/
theorem takeInstruction_instructions {setting : Setting} {read : Instruction} {next : Nat}
    {flow : Flow} {s t : Session} (explored : Explored setting.image s.script)
    (readable : Readable setting.image s.script read)
    (taken : takeInstruction setting read next s = .ok (flow, t)) :
    t.script.entries[read.address / 4]? =
        some (.instruction (placeInstruction s.script read).1) ∧
      ∀ {n : Nat} {decoded : Instruction},
        t.script.entries[n]? = some (.instruction decoded) →
        s.script.entries[n]? = some (.instruction decoded) ∨
          n = read.address / 4 ∧ decoded = (placeInstruction s.script read).1 := by
  have claims := placeInstruction_claims readable explored.size
  have asides := (takeInstruction_sides taken).adds.script
  refine ⟨asides.grows.instructions claims.head, fun at_n => ?_⟩
  rcases claims.cases_of_after (asides.instructions at_n) with old | ⟨rfl, eq⟩ | ⟨k, -, tail⟩
  · exact .inl old
  · cases eq
    exact .inr ⟨rfl, rfl⟩
  · cases Entry.width?_of_mem_tail (List.mem_of_getElem? tail)

/-! ## From the entry points to the end -/

/-- The session in which exploration begins. -/
def Session.named (setting : Setting) (stats : Stats) : Session where
  script := findEntrypoints setting.image setting.options.maxEntrypoints 0
    (.blank setting.image.size)
  stats

/-- Naming the entry points puts nothing anywhere but entry points. -/
theorem findEntrypoints_entries {image : Image} {room n : Nat} {script : Script} {m : Nat}
    {e : Entry} (at_m : (findEntrypoints image room n script).entries[m]? = some e) :
    (∃ address name, e = .entrypoint address name) ∨ script.entries[m]? = some e := by
  induction room generalizing n script with
  | zero => exact .inr at_m
  | succ room ih =>
    rw [findEntrypoints] at at_m
    split at at_m
    · exact .inr at_m
    simp only at at_m
    split at at_m
    · rcases ih at_m with named | before
      · exact .inl named
      rw [Script.getElem?_setEntry] at before
      split at before
      · exact .inl ⟨_, _, (Option.some.inj before).symm⟩
      · exact .inr before
    · exact .inr at_m

/-- Naming the entry points visits nothing. -/
theorem findEntrypoints_still (image : Image) (room n : Nat) (script : Script) :
    (findEntrypoints image room n script).branches = script.branches ∧
      (findEntrypoints image room n script).tableAddresses = script.tableAddresses := by
  induction room generalizing n script with
  | zero => exact ⟨rfl, rfl⟩
  | succ room ih =>
    rw [findEntrypoints]
    split
    · exact ⟨rfl, rfl⟩
    simp only
    split
    · exact ih (n + 1) (Script.setEntry _ (4 * n) _)
    · exact ⟨rfl, rfl⟩

/-- Before anything is explored nothing was visited and no instruction is known. -/
theorem named_unexplored (image : Image) (room : Nat) :
    (findEntrypoints image room 0 (.blank image.size)).branches = ∅ ∧
      (findEntrypoints image room 0 (.blank image.size)).tableAddresses = ∅ ∧
      ∀ {m : Nat} {decoded : Instruction},
        (findEntrypoints image room 0 (.blank image.size)).entries[m]? ≠
          some (.instruction decoded) := by
  obtain ⟨branches, tables⟩ := findEntrypoints_still image room 0 (.blank image.size)
  refine ⟨branches, tables, fun at_m => ?_⟩
  rcases findEntrypoints_entries at_m with ⟨_, _, eq⟩ | unset
  · cases eq
  · simp [Script.blank, Array.getElem?_replicate] at unset

/-- The session in which branches were queued, the first on top. -/
def Session.ask (s : Session) (addresses : List Nat) : Session :=
  { s with worklist := addresses.map Probe.branch ++ s.worklist }

/-- The session in which the tables were corrected. -/
def Session.correct (s : Session) : Session := { s with script := s.script.correctOverruns }

theorem pushAll_branches (s : Session) (addresses : List Nat) :
    s.pushAll (addresses.reverse.map Probe.branch) = s.ask addresses := by
  simp [Session.pushAll, Session.ask]

theorem explore_eq (setting : Setting) (stats : Stats) :
    explore setting stats =
      (exploreBranches setting (Session.named setting stats).script.entrypoints
        (.named setting stats)).bind fun s =>
          if setting.options.extraBranches.isEmpty then .ok s
          else exploreBranches setting setting.options.extraBranches s := by
  simp only [explore, Session.named]
  split
  · rename_i halted
    rw [halted]
    rfl
  · rename_i explored
    rw [explored]
    rfl

/-- What holds of the session whenever the machine is started, has ended a run,
or the tables were corrected. -/
structure Exploring (setting : Setting) (stats : Stats) (P : Session → Prop) : Prop where
  named : P (.named setting stats)
  ask : ∀ {s addresses}, addresses = (Session.named setting stats).script.entrypoints ∨
    addresses = setting.options.extraBranches → P s → P (s.ask addresses)
  run : ∀ {s t}, Explored setting.image s.script → Steps setting ⟨.idle, s⟩ ⟨.idle, t⟩ →
    P s → P t
  correct : ∀ {s}, Explored setting.image s.script → P s → P s.correct

namespace Exploring

variable {setting : Setting} {stats : Stats} {P : Session → Prop} {addresses : List Nat}

theorem named_explored (setting : Setting) (stats : Stats) :
    Explored setting.image (Session.named setting stats).script :=
  (named_moves setting.image setting.options.maxEntrypoints).explored (.blank setting.image)

theorem branches (h : Exploring setting stats P)
    (which : addresses = (Session.named setting stats).script.entrypoints ∨
      addresses = setting.options.extraBranches) {s t : Session}
    (answer : exploreBranches setting addresses s = .ok t)
    (start : Explored setting.image s.script ∧ P s) :
    Explored setting.image t.script ∧ P t := by
  refine ⟨(exploreBranches_moves answer).1.explored start.1, ?_⟩
  rw [exploreBranches, pushAll_branches] at answer
  split at answer
  · cases answer
  · rename_i u drained
    cases answer
    have ends := drain_ends setting (s.ask addresses)
    rw [drained] at ends
    have explored := (drain_moves drained).1.explored start.1
    have asked : Explored setting.image (s.ask addresses).script := start.1
    exact h.correct explored (h.run asked ends (h.ask which start.2))

theorem branches_halted (h : Exploring setting stats P)
    (which : addresses = (Session.named setting stats).script.entrypoints ∨
      addresses = setting.options.extraBranches) {s : Session} {halt : Halt}
    (answer : exploreBranches setting addresses s = .error halt)
    (start : Explored setting.image s.script ∧ P s) :
    ∃ t p, Explored setting.image t.script ∧ P t ∧ Steps setting ⟨.idle, t⟩ p ∧
      Halts setting p halt := by
  rw [exploreBranches, pushAll_branches] at answer
  split at answer
  · rename_i stopped drained
    cases answer
    have ends := drain_ends setting (s.ask addresses)
    rw [drained] at ends
    obtain ⟨p, steps, halts⟩ := ends
    exact ⟨s.ask addresses, p, start.1, h.ask which start.2, steps, halts⟩
  · cases answer

/-- **What holds when exploration ends.** -/
theorem explored (h : Exploring setting stats P) {s : Session}
    (answer : explore setting stats = .ok s) : Explored setting.image s.script ∧ P s := by
  obtain ⟨script, u, rfl, first, more⟩ := explore_cases answer
  have once := h.branches (.inl rfl) first ⟨named_explored setting stats, h.named⟩
  rcases more with rfl | more
  · exact once
  · exact h.branches (.inr rfl) more once

/-- **What holds where the run began that halts.** -/
theorem halted (h : Exploring setting stats P) {halt : Halt}
    (answer : explore setting stats = .error halt) :
    ∃ t p, Explored setting.image t.script ∧ P t ∧ Steps setting ⟨.idle, t⟩ p ∧
      Halts setting p halt := by
  have start := And.intro (named_explored setting stats) h.named
  rw [explore] at answer
  split at answer
  · rename_i stopped first
    cases answer
    exact h.branches_halted (.inl rfl) first start
  · rename_i u first
    have once := h.branches (.inl rfl) first start
    split at answer
    · cases answer
    · exact h.branches_halted (.inr rfl) answer once

end Exploring

/-! ## What only exploration finds -/

/-- Correcting the tables puts nothing anywhere but tables, their later slots and
free slots. -/
theorem correctOverruns_old {image : Image} {script : Script} (explored : Explored image script)
    {n : Nat} {e : Entry} (at_n : script.correctOverruns.entries[n]? = some e)
    (claimed : e ≠ .unset) (head : e.width?.isSome = true) (other : e.isTable = false) :
    script.entries[n]? = some e := by
  rw [Script.correctOverruns] at at_n
  revert at_n
  generalize script.tableHeads = heads
  induction heads generalizing script with
  | nil => exact id
  | cons table rest ih =>
    intro at_n
    have before := ih (explored.move (.correct rfl)) at_n
    obtain ⟨same, -⟩ | ⟨m, labels, keep, -, c⟩ := Script.correctTable_cases explored.laid table
    · rwa [same] at before
    · rcases c.entries.cases_of_after before with ⟨-, rfl⟩ | ⟨-, -, rfl⟩ | rfl | ⟨old, -⟩
      · cases other
      · cases head
      · exact absurd rfl claimed
      · exact old

/-- Correcting the tables finds no instruction. -/
theorem correctOverruns_instructions {image : Image} {script : Script}
    (explored : Explored image script) {n : Nat} {decoded : Instruction}
    (at_n : script.correctOverruns.entries[n]? = some (.instruction decoded)) :
    script.entries[n]? = some (.instruction decoded) :=
  correctOverruns_old explored at_n (by simp) rfl rfl

/-- Whether an entry may stand where exploration found nothing: texts and data. -/
def Filler : Entry → Prop
  | .encodedString _ | .continuation _ | .rawData .. => True
  | _ => False

/-- Where neither text nor data stands in the end, exploration found what does. -/
theorem settle_found {image : Image} {s : Session} {n : Nat} {e : Entry}
    (at_n : (settle image s).entries[n]? = some e) (found : ¬ Filler e) :
    s.script.entries[n]? = some e := by
  have answered := @answers_induction image
    (fun script => ∀ {n : Nat} {e : Entry}, script.entries[n]? = some e → ¬ Filler e →
      s.script.entries[n]? = some e) ?_ s.requests s.script fun at_n _ => at_n
  · rcases fillData_cases at_n with ⟨-, rfl⟩ | ⟨old, -⟩
    · exact absurd trivial found
    · exact answered old found
  · intro script address bound before m other at_m found
    rcases layText_cases image script address bound with same | noted | ⟨text, rfl, there, laid⟩
    · rw [same] at at_m
      exact before at_m found
    · rw [noted] at at_m
      exact before at_m found
    · rw [laid] at at_m
      rcases there.claims.cases_of_after at_m with old | ⟨-, rfl⟩ | ⟨k, -, tail⟩
      · exact before old found
      · exact absurd trivial found
      · cases List.eq_of_mem_replicate (List.mem_of_getElem? tail)
        exact absurd trivial found

/-- What settling keeps of a session: all that exploration found. -/
theorem settle_moves (image : Image) (s : Session) :
    Moves image s.script (settle image s) :=
  (answers_moves image s.script s.requests).tail (.data rfl)

/-- Settling changes nothing but entries and diagnostics. -/
theorem settle_eq (image : Image) (s : Session) :
    settle image s = { s.script with
      entries := (settle image s).entries
      diagnostics := (settle image s).diagnostics } := by
  have answered := @answers_induction image (fun script => script = { s.script with
    entries := script.entries
    diagnostics := script.diagnostics }) ?_ s.requests s.script rfl
  · rw [settle, fillData, answered]
  · intro script address bound same
    rcases layText_cases image script address bound with eq | noted | ⟨text, -, -, laid⟩
    · rwa [eq]
    · rw [noted, Script.diagnose, same]
    · rw [laid, Script.fill_eq, Script.setEntry, same]

end EventScript.Recovery
