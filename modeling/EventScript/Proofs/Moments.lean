/-
Exploration moment by moment. `Step` bounds what exploration may do next; here what
comes next is a function (`Moment.advance`), in which the operands of an instruction
are followed one at a time. So each table is probed at a moment of its own, and no
moment does more than one thing that can fail. `Goes` lists what is done from one moment
to the next.

What exploration answers in the end is the same from each moment to the next
(`outcome_advance`), and the loops come by all the moments up to their end
(`drain_comes`). Together: exploration halts just if one of the moments it comes by has
no next one (`explore_error_iff`).
-/
import EventScript.Proofs.Exploration
import EventScript.Proofs.Results

namespace EventScript.Recovery

/-- The parameters of the method that an instruction calls. -/
def Setting.parametersOf (setting : Setting) (instruction : Instruction) : List Parameter :=
  ((setting.methodOf? instruction.opcode instruction.parameter).map Method.parameters).getD []

/-- Where exploration stands: between two probes; on the branch at `start` before the
instruction at `cursor`; at an instruction that was placed, of which some operands are
still to be followed, with their parameters; behind its operands, before the transfer. -/
inductive Phase where
  | idle
  | decoding (start cursor : Nat)
  | following (start next : Nat) (instruction : Instruction) (operands : List Operand)
      (parameters : List Parameter)
  | leaving (start next : Nat) (instruction : Instruction)

/-- Where exploration stands behind an instruction on the branch at `start`. -/
def Flow.phase (start next : Nat) : Flow → Phase
  | .goOn => .decoding start next
  | .stop => .idle

/-- A phase and the session there. -/
structure Moment where
  phase : Phase
  session : Session

namespace Moment

/-- The next moment, or why there is none. Without work left it is the same again. -/
def advance (setting : Setting) : Moment → Except Halt Moment
  | ⟨.idle, s⟩ =>
    match s.worklist with
    | [] => .ok ⟨.idle, s⟩
    | .branch a :: rest =>
      let s := { s with worklist := rest }
      if s.script.branches.contains a then .ok ⟨.idle, s⟩ else .ok ⟨.decoding a a, s.enter a⟩
    | .table a role :: rest =>
      (probeTable setting a .branches role { s with worklist := rest }).map (⟨.idle, ·⟩)
  | ⟨.decoding start cursor, s⟩ =>
    if cursor / 4 < setting.image.size then
      if cursor ≠ start ∧ s.script.branches.contains cursor then .ok ⟨.idle, s⟩
      else match s.script.entryAt? cursor with
        | some (.instruction _) => .ok ⟨.idle, s⟩
        | some .unset =>
          match readInstruction setting cursor s with
          | .error halt => .error halt
          | .ok (none, s) => .ok ⟨.idle, s⟩
          | .ok (some read, s) =>
            let (placed, script) := placeInstruction s.script read
            .ok ⟨.following start (cursor + 4 * read.width) placed placed.operands
              (setting.parametersOf placed), { s with script }⟩
        | _ => .ok ⟨.idle, s.diagnose cursor .overlappingCode⟩
    else .ok ⟨.idle, s⟩
  | ⟨.following start next instruction [] _, s⟩ => .ok ⟨.leaving start next instruction, s⟩
  | ⟨.following start next instruction (operand :: rest) parameters, s⟩ =>
    (followOperand setting instruction.opcode operand parameters.head? s).map
      (⟨.following start next instruction rest parameters.tail, ·⟩)
  | ⟨.leaving start next instruction, s⟩ =>
    (transfer setting instruction next s).map fun (flow, s) => ⟨flow.phase start next, s⟩

end Moment

/-- How exploration goes on behind an instruction. -/
def Flow.resume (setting : Setting) (start next : Nat) : Flow × Session → Except Halt Session
  | (.goOn, s) => (decodeFrom setting start next s).bind (drain setting)
  | (.stop, s) => drain setting s

namespace Moment

/-- What exploration answers when the worklist is worked off from a moment on. -/
def outcome (setting : Setting) : Moment → Except Halt Session
  | ⟨.idle, s⟩ => drain setting s
  | ⟨.decoding start cursor, s⟩ => (decodeFrom setting start cursor s).bind (drain setting)
  | ⟨.following start next instruction operands parameters, s⟩ =>
    ((followOperands setting instruction.opcode operands parameters s).bind
      (transfer setting instruction next)).bind (Flow.resume setting start next)
  | ⟨.leaving start next instruction, s⟩ =>
    (transfer setting instruction next s).bind (Flow.resume setting start next)

variable {setting : Setting}

theorem outcome_phase (start next : Nat) (answer : Except Halt (Flow × Session)) :
    (answer.map fun (flow, s) => (⟨flow.phase start next, s⟩ : Moment)).bind (outcome setting) =
      answer.bind (Flow.resume setting start next) := by
  rcases answer with halt | ⟨_ | _, s⟩ <;> rfl

theorem takeInstruction_eq (read : Instruction) (next : Nat) (s : Session) :
    takeInstruction setting read next s =
      (followOperands setting (placeInstruction s.script read).1.opcode
        (placeInstruction s.script read).1.operands
        (setting.parametersOf (placeInstruction s.script read).1)
        { s with script := (placeInstruction s.script read).2 }).bind
          (transfer setting (placeInstruction s.script read).1 next) := by
  rw [takeInstruction]
  simp only [Setting.parametersOf]
  split
  · rename_i halted
    rw [halted]
    rfl
  · rename_i followed
    rw [followed]
    rfl

/-- **The answer is the same from one moment to the next.** -/
theorem outcome_advance (m : Moment) :
    m.outcome setting = (m.advance setting).bind (outcome setting) := by
  obtain ⟨phase, s⟩ := m
  cases phase with
  | idle =>
    rw [advance]
    split
    · rfl
    · rename_i a rest pending
      rw [outcome, drain_cons pending, runProbe, probeBranch]
      simp only
      split <;> rfl
    · rename_i a role rest pending
      rw [outcome, drain_cons pending, runProbe]
      cases probeTable setting a .branches role { s with worklist := rest } <;> rfl
  | decoding start cursor =>
    rw [outcome, decodeFrom, advance]
    by_cases inside : cursor / 4 < setting.image.size
    · rw [dif_pos inside, if_pos inside]
      by_cases joined : cursor ≠ start ∧ s.script.branches.contains cursor = true
      · rw [if_pos joined, if_pos joined]
        rfl
      rw [if_neg joined, if_neg joined]
      cases s.script.entryAt? cursor with
      | none => rfl
      | some entry =>
      cases entry with
      | unset =>
        cases readInstruction setting cursor s with
        | error halt => rfl
        | ok answer =>
        obtain ⟨_ | read, t⟩ := answer
        · rfl
        · simp only
          change _ = ((followOperands _ _ _ _ _).bind _).bind _
          rw [← takeInstruction_eq]
          rcases takeInstruction setting read (cursor + 4 * read.width) t with
            halt | ⟨_ | _, u⟩ <;> rfl
      | _ => rfl
    · rw [dif_neg inside, if_neg inside]
      rfl
  | following start next instruction operands parameters =>
    cases operands with
    | nil => rfl
    | cons operand rest =>
      rw [outcome, followOperands, advance]
      cases followOperand setting instruction.opcode operand parameters.head? s <;> rfl
  | leaving start next instruction => rw [outcome, advance, outcome_phase]

end Moment

/-! ## The moments of a run -/

variable {setting : Setting}

/-- One moment comes some time behind another, or is the same. -/
abbrev Later (setting : Setting) : Moment → Moment → Prop :=
  Relation.ReflTransGen fun m n => m.advance setting = .ok n

/-- From a moment on, exploration comes to another, or to one that has no next. -/
def Comes (setting : Setting) (m : Moment) : Except Halt Moment → Prop
  | .ok n => Later setting m n
  | .error halt => ∃ n, Later setting m n ∧ n.advance setting = .error halt

namespace Comes

variable {m n : Moment} {answer : Except Halt Moment}

theorem later (path : Later setting m n) (h : Comes setting n answer) : Comes setting m answer := by
  cases answer with
  | ok last => exact path.trans h
  | error halt =>
    obtain ⟨last, more, stops⟩ := h
    exact ⟨last, path.trans more, stops⟩

theorem advance (m : Moment) : Comes setting m (m.advance setting) := by
  cases next : m.advance setting with
  | ok n => exact .single next
  | error halt => exact ⟨m, .refl, next⟩

theorem next (step : m.advance setting = .ok n) (h : Comes setting n answer) :
    Comes setting m answer :=
  later (.single step) h

end Comes

theorem followOperands_comes (start next : Nat) (instruction : Instruction)
    (operands : List Operand) (parameters : List Parameter) (s : Session) :
    Comes setting ⟨.following start next instruction operands parameters, s⟩
      ((followOperands setting instruction.opcode operands parameters s).map
        (⟨.leaving start next instruction, ·⟩)) := by
  induction operands generalizing parameters s with
  | nil => exact .single rfl
  | cons operand rest ih =>
    have first := @Comes.advance setting
      ⟨.following start next instruction (operand :: rest) parameters, s⟩
    rw [followOperands]
    rw [Moment.advance] at first
    cases followed : followOperand setting instruction.opcode operand parameters.head? s with
    | error halt =>
      rw [followed] at first
      exact first
    | ok t =>
      rw [followed] at first
      exact (ih parameters.tail t).later first

/-- Taking an instruction that was placed: its operands are followed, then control is
transferred. -/
theorem takeInstruction_comes (start next : Nat) (read : Instruction) (s : Session) :
    Comes setting ⟨.following start next (placeInstruction s.script read).1
        (placeInstruction s.script read).1.operands
        (setting.parametersOf (placeInstruction s.script read).1),
        { s with script := (placeInstruction s.script read).2 }⟩
      ((takeInstruction setting read next s).map fun (flow, t) => ⟨flow.phase start next, t⟩) := by
  rw [Moment.takeInstruction_eq]
  have followed := @followOperands_comes setting start next (placeInstruction s.script read).1
    (placeInstruction s.script read).1.operands
    (setting.parametersOf (placeInstruction s.script read).1)
    { s with script := (placeInstruction s.script read).2 }
  cases answer : followOperands setting (placeInstruction s.script read).1.opcode
    (placeInstruction s.script read).1.operands
    (setting.parametersOf (placeInstruction s.script read).1)
    { s with script := (placeInstruction s.script read).2 } with
  | error halt =>
    rw [answer] at followed
    exact followed
  | ok t =>
    rw [answer] at followed
    exact (Comes.advance ⟨.leaving start next (placeInstruction s.script read).1, t⟩).later followed

theorem decodeFrom_comes (start cursor : Nat) (s : Session) :
    Comes setting ⟨.decoding start cursor, s⟩
      ((decodeFrom setting start cursor s).map (⟨.idle, ·⟩)) := by
  fun_induction decodeFrom setting start cursor s with
  | case1 cursor s inside known =>
    exact .single (by rw [Moment.advance, if_pos inside, if_pos known])
  | case2 cursor s inside new decoded there =>
    exact .single (by simp only [Moment.advance, if_pos inside, if_neg new, there])
  | case3 cursor s inside new free halt halted =>
    exact ⟨_, .refl, by simp only [Moment.advance, if_pos inside, if_neg new, free, halted]⟩
  | case4 cursor s inside new free t read =>
    exact .single (by simp only [Moment.advance, if_pos inside, if_neg new, free, read])
  | case5 cursor s inside new free read t found next halt halted =>
    have follows := @takeInstruction_comes setting start next read t
    rw [halted] at follows
    exact follows.next (by simp only [Moment.advance, if_pos inside, if_neg new, free, found, next])
  | case6 cursor s inside new free read t found next u taken =>
    have follows := @takeInstruction_comes setting start next read t
    rw [taken] at follows
    exact follows.next (by simp only [Moment.advance, if_pos inside, if_neg new, free, found, next])
  | case7 cursor s inside new free read t found next u taken ih =>
    have follows := @takeInstruction_comes setting start next read t
    rw [taken] at follows
    refine (ih.later follows).next ?_
    simp only [Moment.advance, if_pos inside, if_neg new, free, found]
    rfl
  | case8 cursor s inside new =>
    exact .single (by simp only [Moment.advance, if_pos inside, if_neg new])
  | case9 cursor s out => exact .single (by rw [Moment.advance, if_neg out])

theorem runProbe_comes {s : Session} {probe : Probe} {rest : List Probe}
    (pending : s.worklist = probe :: rest) :
    Comes setting ⟨.idle, s⟩
      ((runProbe setting probe { s with worklist := rest }).map (⟨.idle, ·⟩)) := by
  have first := @Comes.advance setting ⟨.idle, s⟩
  simp only [Moment.advance, pending] at first
  cases probe with
  | branch a =>
    rw [runProbe, probeBranch]
    simp only at first ⊢
    split
    · rename_i seen
      rwa [if_pos seen] at first
    · rename_i new
      rw [if_neg new] at first
      exact (decodeFrom_comes ..).later first
  | table a role => exact first

/-- **Working off the worklist comes by every moment up to its end.** -/
theorem drain_comes (s : Session) :
    Comes setting ⟨.idle, s⟩ ((drain setting s).map (⟨.idle, ·⟩)) := by
  fun_induction drain setting s with
  | case1 s empty => exact .refl
  | case2 s probe rest pending halt halted =>
    have first := @runProbe_comes setting _ _ _ pending
    rwa [halted] at first
  | case3 s probe rest pending t ran ih =>
    have first := @runProbe_comes setting _ _ _ pending
    rw [ran] at first
    exact ih.later first

/-! ## The moments of an exploration -/

/-- The moments that exploration comes by. -/
inductive Arrives (setting : Setting) (stats : Stats) : Moment → Prop
  | named : Arrives setting stats
      ⟨.idle, (Session.named setting stats).ask (Session.named setting stats).script.entrypoints⟩
  | extra {s : Session}
      (first : exploreBranches setting (Session.named setting stats).script.entrypoints
        (.named setting stats) = .ok s)
      (more : setting.options.extraBranches.isEmpty = false) :
      Arrives setting stats ⟨.idle, s.ask setting.options.extraBranches⟩
  | step {m n : Moment} (before : Arrives setting stats m)
      (next : m.advance setting = .ok n) : Arrives setting stats n

variable {stats : Stats} {m n : Moment}

theorem Arrives.later (h : Arrives setting stats m) (path : Later setting m n) :
    Arrives setting stats n := by
  induction path with
  | refl => exact h
  | tail _ next ih => exact ih.step next

/-- The moment that comes a number of steps later. -/
def Moment.after (setting : Setting) : Nat → Moment → Except Halt Moment
  | 0, m => .ok m
  | count + 1, m => (m.advance setting).bind (after setting count)

theorem Arrives.after (h : Arrives setting stats m) {count : Nat}
    (later : m.after setting count = .ok n) : Arrives setting stats n := by
  induction count generalizing m with
  | zero =>
    cases later
    exact h
  | succ count ih =>
    obtain ⟨next, step, rest⟩ := bind_eq_ok_iff.mp later
    exact ih (h.step step) rest

/-- What can be checked of the moment that exploration comes by after some steps. -/
theorem Arrives.after_holds (count : Nat) {p : Moment → Bool}
    (holds : ((Moment.after setting count ⟨.idle, (Session.named setting stats).ask
      (Session.named setting stats).script.entrypoints⟩).toOption.any p) = true) :
    ∃ m, Arrives setting stats m ∧ p m = true := by
  obtain ⟨m, there, holds⟩ := (Option.any_eq_true ..).mp holds
  cases last : Moment.after setting count ⟨.idle, (Session.named setting stats).ask
      (Session.named setting stats).script.entrypoints⟩ with
  | error halt =>
    rw [last] at there
    cases there
  | ok n =>
    rw [last] at there
    cases there
    exact ⟨m, Arrives.named.after last, holds⟩

theorem exploreBranches_eq (addresses : List Nat) (s : Session) :
    exploreBranches setting addresses s =
      (drain setting (s.ask addresses)).map Session.correct := by
  rw [exploreBranches, pushAll_branches]
  cases drain setting (s.ask addresses) <;> rfl

/-- Where exploration comes by a moment from which it halts, it halts. -/
theorem Arrives.halts (h : Arrives setting stats m) {halt : Halt}
    (halts : m.outcome setting = .error halt) : explore setting stats = .error halt := by
  induction h with
  | named =>
    rw [explore_eq, exploreBranches_eq, show drain _ _ = _ from halts]
    rfl
  | extra first more =>
    rw [explore_eq, first]
    simp only [Except.bind, more]
    rw [exploreBranches_eq, show drain _ _ = _ from halts]
    rfl
  | step _ next ih => exact ih (by rw [Moment.outcome_advance, next]; exact halts)

/-- **Exploration halts just if it comes by a moment that has no next one.** -/
theorem explore_error_iff {halt : Halt} :
    explore setting stats = .error halt ↔
      ∃ m, Arrives setting stats m ∧ m.advance setting = .error halt := by
  constructor
  · intro answer
    have stops : ∀ {s : Session} {addresses : List Nat},
        Arrives setting stats ⟨.idle, s.ask addresses⟩ →
        exploreBranches setting addresses s = .error halt →
        ∃ m, Arrives setting stats m ∧ m.advance setting = .error halt := by
      intro s addresses begun halted
      have comes := @drain_comes setting (s.ask addresses)
      rw [exploreBranches_eq] at halted
      cases drained : drain setting (s.ask addresses) with
      | ok t =>
        rw [drained] at halted
        cases halted
      | error other =>
        rw [drained] at halted comes
        cases halted
        obtain ⟨m, path, last⟩ := comes
        exact ⟨m, begun.later path, last⟩
    rw [explore_eq] at answer
    cases first : exploreBranches setting (Session.named setting stats).script.entrypoints
      (.named setting stats) with
    | error other =>
      rw [first] at answer
      cases answer
      exact stops .named first
    | ok s =>
      rw [first] at answer
      simp only [Except.bind] at answer
      split at answer
      · cases answer
      · rename_i more
        exact stops (.extra first (by simpa using more)) answer
  · rintro ⟨m, arrives, stops⟩
    exact arrives.halts (by rw [Moment.outcome_advance, stops]; rfl)

/-! ## What a moment does -/

/-- What is done from one moment to the next. -/
inductive Goes (setting : Setting) : Moment → Moment → Prop
  | done {s : Session} (empty : s.worklist = []) : Goes setting ⟨.idle, s⟩ ⟨.idle, s⟩
  | seen {s : Session} {a : Nat} {rest : List Probe} (pending : s.worklist = .branch a :: rest)
      (seen : a ∈ s.script.branches) :
      Goes setting ⟨.idle, s⟩ ⟨.idle, { s with worklist := rest }⟩
  | begun {s : Session} {a : Nat} {rest : List Probe} (pending : s.worklist = .branch a :: rest)
      (new : a ∉ s.script.branches) :
      Goes setting ⟨.idle, s⟩ ⟨.decoding a a, Session.enter { s with worklist := rest } a⟩
  | table {s t : Session} {a : Nat} {role : Role} {rest : List Probe}
      (pending : s.worklist = .table a role :: rest)
      (scanned : probeTable setting a .branches role { s with worklist := rest } = .ok t) :
      Goes setting ⟨.idle, s⟩ ⟨.idle, t⟩
  | out {start cursor : Nat} {s : Session} (out : setting.image.size ≤ cursor / 4) :
      Goes setting ⟨.decoding start cursor, s⟩ ⟨.idle, s⟩
  | joined {start cursor : Nat} {s : Session}
      (joined : cursor ≠ start ∧ cursor ∈ s.script.branches ∨
        ∃ decoded, s.script.entryAt? cursor = some (.instruction decoded)) :
      Goes setting ⟨.decoding start cursor, s⟩ ⟨.idle, s⟩
  | blocked {start cursor : Nat} {s : Session}
      (taken : s.script.entryAt? cursor ≠ some .unset) :
      Goes setting ⟨.decoding start cursor, s⟩ ⟨.idle, s.diagnose cursor .overlappingCode⟩
  | unread {start cursor : Nat} {s t : Session} (free : s.script.entryAt? cursor = some .unset)
      (read : readInstruction setting cursor s = .ok (none, t)) :
      Goes setting ⟨.decoding start cursor, s⟩ ⟨.idle, t⟩
  | placed {start cursor : Nat} {s t : Session} {read : Instruction}
      (free : s.script.entryAt? cursor = some .unset)
      (found : readInstruction setting cursor s = .ok (some read, t)) :
      Goes setting ⟨.decoding start cursor, s⟩
        ⟨.following start (cursor + 4 * read.width) (placeInstruction t.script read).1
          (placeInstruction t.script read).1.operands
          (setting.parametersOf (placeInstruction t.script read).1),
          { t with script := (placeInstruction t.script read).2 }⟩
  | followed {start next : Nat} {s t : Session} {instruction : Instruction} {operand : Operand}
      {rest : List Operand} {parameters : List Parameter}
      (followed : followOperand setting instruction.opcode operand parameters.head? s = .ok t) :
      Goes setting ⟨.following start next instruction (operand :: rest) parameters, s⟩
        ⟨.following start next instruction rest parameters.tail, t⟩
  | all {start next : Nat} {s : Session} {instruction : Instruction}
      {parameters : List Parameter} :
      Goes setting ⟨.following start next instruction [] parameters, s⟩
        ⟨.leaving start next instruction, s⟩
  | left {start next : Nat} {s t : Session} {instruction : Instruction} {flow : Flow}
      (left : transfer setting instruction next s = .ok (flow, t)) :
      Goes setting ⟨.leaving start next instruction, s⟩ ⟨flow.phase start next, t⟩

theorem Moment.goes (step : m.advance setting = .ok n) : Goes setting m n := by
  obtain ⟨phase, s⟩ := m
  cases phase with
  | idle =>
    rw [advance] at step
    split at step
    · rename_i empty
      cases step
      exact .done empty
    · rename_i a rest pending
      simp only [Std.ExtTreeSet.contains_iff_mem] at step
      split at step
      · rename_i seen
        cases step
        exact .seen pending seen
      · rename_i new
        cases step
        exact .begun pending new
    · rename_i a role rest pending
      obtain ⟨t, scanned, rfl⟩ := map_eq_ok_iff.mp step
      exact .table pending scanned
  | decoding start cursor =>
    rw [advance] at step
    simp only [Std.ExtTreeSet.contains_iff_mem] at step
    split at step
    · split at step
      · rename_i known
        cases step
        exact .joined (.inl known)
      split at step
      · rename_i decoded there
        cases step
        exact .joined (.inr ⟨decoded, there⟩)
      · rename_i free
        split at step
        · cases step
        · rename_i t read
          cases step
          exact .unread free read
        · rename_i read t found
          cases step
          exact .placed free found
      · rename_i other
        cases step
        exact .blocked fun free => other free
    · rename_i out
      cases step
      exact .out (Nat.le_of_not_lt out)
  | following start next instruction operands parameters =>
    cases operands with
    | nil =>
      cases step
      exact .all
    | cons operand rest =>
      rw [advance] at step
      obtain ⟨t, followed, rfl⟩ := map_eq_ok_iff.mp step
      exact .followed followed
  | leaving start next instruction =>
    rw [advance] at step
    obtain ⟨⟨flow, t⟩, left, rfl⟩ := map_eq_ok_iff.mp step
    exact .left left

/-- From one moment to the next the script moves. -/
theorem Goes.moves (goes : Goes setting m n) :
    Moves setting.image m.session.script n.session.script := by
  cases goes with
  | done => exact .refl
  | seen => exact .refl
  | begun => exact .single (.aside (insertBranch_aside ..))
  | table _ scanned => exact (probeTable_adds scanned).script.moves
  | out => exact .refl
  | joined => exact .refl
  | blocked => exact (Session.Adds.diagnose ..).script.moves
  | unread _ read => exact (readInstruction_adds read).script.moves
  | placed free found =>
    obtain ⟨-, readable⟩ := readInstruction_readable found free
    exact (readInstruction_adds found).script.moves.tail (.instruction readable rfl)
  | followed followed => exact (followOperand_sides followed).adds.script.moves
  | all => exact .refl
  | left left => exact (transfer_sides left).adds.script.moves

theorem Arrives.explored (h : Arrives setting stats m) :
    Explored setting.image m.session.script := by
  induction h with
  | named => exact Exploring.named_explored setting stats
  | extra first _ =>
    exact (exploreBranches_moves first).1.explored (Exploring.named_explored setting stats)
  | step _ next ih => exact (Moment.goes next).moves.explored ih

end EventScript.Recovery
