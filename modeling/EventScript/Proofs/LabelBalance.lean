/-
The books of a label table. As long as every name is minted, none given from
outside, what is taken and what is given back add up (`run_balance`): the count
of a name is the number of times it was answered less the number of times it was
given back, and it goes with its last reference.

A name that went is spent (`Spent`): the counter is past it and it stands
nowhere, so nothing answers it again. A name that stays first of its address is
what the address answers.
-/
import EventScript.Proofs.LabelHistory

namespace EventScript.LabelTable

/-! ## What a history takes and gives back -/

namespace Operation

/-- Whether an operation gives no name of its own. -/
def IsAnonymous : Operation → Prop
  | .addNamed .. => False
  | .add _ | .addUnique _ | .release _ => True

/-- The name that an operation answers, with a reference on it. -/
def answer? (table : LabelTable) : Operation → Option String
  | .add address => some (table.add address).1
  | .addUnique address => some (table.addUnique address).1
  | .addNamed address name => some (table.addNamed address name).1
  | .release _ => none

/-- Whether an operation takes a name off the table. -/
def Removes (table : LabelTable) (operation : Operation) (name : String) : Prop :=
  operation = .release name ∧ (table.release name).1 = true

/-- Whether an operation gives a reference back on a name that is on the table. -/
def givesBack (name : String) (table : LabelTable) (operation : Operation) : Bool :=
  operation = .release name && (table.addressOf? name).isSome

end Operation

/-- The operations of a history, each with the table it found. -/
def steps (table : LabelTable) : List Operation → List (LabelTable × Operation)
  | [] => []
  | operation :: rest => (table, operation) :: steps (operation.apply table) rest

theorem steps_concat (table : LabelTable) (operations : List Operation) (last : Operation) :
    steps table (operations ++ [last]) =
      steps table operations ++ [(operations.foldl Operation.apply table, last)] := by
  induction operations generalizing table with
  | nil => rfl
  | cons operation rest ih => rw [List.cons_append, steps, ih]; rfl

/-- How often a history on an empty table answered a name. -/
def timesTaken (operations : List Operation) (name : String) : Nat :=
  (steps {} operations).countP fun step => step.2.answer? step.1 = some name

/-- How often a history on an empty table gave back a name that was there. -/
def timesGivenBack (operations : List Operation) (name : String) : Nat :=
  (steps {} operations).countP fun step => step.2.givesBack name step.1

theorem timesTaken_concat (operations : List Operation) (last : Operation) (name : String) :
    timesTaken (operations ++ [last]) name = timesTaken operations name +
      if last.answer? (run operations) = some name then 1 else 0 := by
  rw [timesTaken, steps_concat, List.countP_append, List.countP_singleton]
  simp only [decide_eq_true_eq]
  rfl

theorem timesGivenBack_concat (operations : List Operation) (last : Operation) (name : String) :
    timesGivenBack (operations ++ [last]) name = timesGivenBack operations name +
      if last.givesBack name (run operations) = true then 1 else 0 := by
  rw [timesGivenBack, steps_concat, List.countP_append, List.countP_singleton]
  rfl

/-! ## One operation -/

variable {table : LabelTable} {operation : Operation} {name : String} {address : Nat}

theorem Sound.apply (h : table.Sound) (anonymous : operation.IsAnonymous) :
    (operation.apply table).Sound := by
  cases operation with
  | add address => exact (h.takes_add address).sound
  | addUnique address => exact h.addUnique address
  | addNamed => exact anonymous.elim
  | release name => exact (h.gives_release name).sound

/-- A name is on the table as long as a reference is held on it. -/
theorem Sound.addressOf?_isSome_iff (h : table.Sound) :
    (table.addressOf? name).isSome = true ↔ 0 < table.refCount name := by
  rw [h.counted, Option.isSome_iff_exists]
  simp only [h.addressOf?_eq_some_iff]

/-- **One operation** changes the count of a name by what it takes and gives back. -/
theorem Sound.refCount_apply (h : table.Sound) (anonymous : operation.IsAnonymous)
    (name : String) :
    (operation.apply table).refCount name +
        (if operation.givesBack name table = true then 1 else 0) =
      table.refCount name + if operation.answer? table = some name then 1 else 0 := by
  have takes : ∀ {address answered after}, Takes table [(address, answered)] after →
      after.refCount name = table.refCount name + if some answered = some name then 1 else 0 := by
    intro address answered after taken
    rw [taken.counted, List.map_singleton, List.count_singleton]
    simp only [beq_iff_eq, Option.some.injEq]
  cases operation with
  | add address => exact takes (h.takes_add address)
  | addUnique address => exact takes (h.takes_addUnique address)
  | addNamed => exact anonymous.elim
  | release given =>
    have gives : (Operation.release given).givesBack name table = true ↔
        given = name ∧ 0 < table.refCount name := by
      rw [Operation.givesBack, Bool.and_eq_true, decide_eq_true_eq, Operation.release.injEq,
        h.addressOf?_isSome_iff]
    have answers : ¬ (Operation.release given).answer? table = some name := nofun
    rw [Operation.apply, refCount_release, if_neg answers]
    simp only [gives]
    by_cases same : given = name
    · simp only [same, true_and, if_true]
      split <;> omega
    · simp only [same, Ne.symm same, false_and, if_false, Nat.sub_zero]

/-- Giving back a reference takes the name off the table just with the last one. -/
theorem Backed.release_eq_true_iff (h : table.Backed) :
    (table.release name).1 = true ↔ table.refCount name = 1 := by
  rw [LabelTable.release, refCount]
  split
  · rename_i none
    simp [none]
  · rename_i count some
    have held := h.held some
    rw [some, Option.getD_some]
    split
    · simp
      omega
    · simp
      omega

/-- With the last reference the name goes from every address. -/
theorem Sound.addressOf?_release (h : table.Sound) (last : table.refCount name = 1) :
    (table.release name).2.addressOf? name = none := by
  rw [addressOf?_eq_none_iff]
  intro address mem
  have held := ((h.mem_namesAt_release name name address).mp mem).2
  rw [refCount_release, last, if_pos rfl] at held
  exact Nat.lt_irrefl _ held

/-- A minted name that stands nowhere any more. -/
structure Spent (table : LabelTable) (name : String) : Prop where
  minted : ∃ index, index < table.nextIndex ∧ name = mintedName index
  gone : ∀ address, name ∉ table.namesAt address

theorem Sound.spent_release (h : table.Sound) (last : table.refCount name = 1) :
    (table.release name).2.Spent name where
  minted := by
    obtain ⟨address, mem⟩ := (h.counted name).mp (last ▸ Nat.one_pos)
    rw [nextIndex_release]
    exact h.minted mem
  gone := addressOf?_eq_none_iff.mp (h.addressOf?_release last)

/-- A spent name is never minted again. -/
theorem Spent.ne_minted (h : table.Spent name) : mintedName table.nextIndex ≠ name := by
  obtain ⟨index, old, rfl⟩ := h.minted
  intro again
  rw [mintedName_injective again] at old
  exact Nat.lt_irrefl _ old

/-- Nothing answers a spent name. -/
theorem Spent.answer? (h : table.Spent name) (anonymous : operation.IsAnonymous) :
    operation.answer? table ≠ some name := by
  intro answered
  cases operation with
  | add address =>
    rw [Operation.answer?, Option.some.injEq, LabelTable.add] at answered
    cases named : table.nameAt? address with
    | some other =>
      rw [named] at answered
      subst answered
      exact h.gone address (List.mem_of_mem_head? named)
    | none =>
      rw [named] at answered
      exact h.ne_minted answered
  | addUnique address => exact h.ne_minted (Option.some.inj answered)
  | addNamed => exact anonymous.elim
  | release given => cases answered

/-- A spent name stays spent. -/
theorem Spent.apply (h : table.Spent name) (anonymous : operation.IsAnonymous) :
    (operation.apply table).Spent name := by
  have mint : ∀ address, (table.addUnique address).2.Spent name := fun address => by
    obtain ⟨index, old, eq⟩ := h.minted
    refine ⟨⟨index, Nat.lt_succ_of_lt old, eq⟩, fun other mem => ?_⟩
    rcases mem_namesAt_append.mp mem with mem | ⟨-, same⟩
    · exact h.gone other mem
    · exact h.ne_minted same.symm
  cases operation with
  | add address =>
    rw [Operation.apply, LabelTable.add]
    split
    · exact ⟨h.minted, h.gone⟩
    · exact mint address
  | addUnique address => exact mint address
  | addNamed => exact anonymous.elim
  | release given =>
    exact ⟨by rw [Operation.apply, nextIndex_release]; exact h.minted,
      fun address mem => h.gone address (mem_namesAt_of_release mem)⟩

/-- **The first name of an address** stays first, whatever is done but taking it off. -/
theorem Sound.nameAt?_apply (h : table.Sound) (anonymous : operation.IsAnonymous)
    (named : table.nameAt? address = some name) (stays : ¬ operation.Removes table name) :
    (operation.apply table).nameAt? address = some name := by
  obtain ⟨others, names⟩ := List.head?_eq_some_iff.mp named
  have mint : ∀ other, (table.addUnique other).2.nameAt? address = some name := fun other => by
    rw [nameAt?, namesAt_addUnique]
    split
    · rename_i same
      rw [← same, names]
      rfl
    · exact named
  cases operation with
  | add other =>
    rw [Operation.apply, LabelTable.add]
    split
    · exact named
    · exact mint other
  | addUnique other => exact mint other
  | addNamed => exact anonymous.elim
  | release given =>
    rw [Operation.apply, nameAt?, h.distinct.namesAt_release]
    split
    · rename_i removed
      have other : name ≠ given := fun same => stays ⟨same ▸ rfl, same ▸ removed⟩
      rw [names, List.filter_cons_of_pos (by simpa using other)]
      rfl
    · exact named

/-! ## Histories -/

variable {operations before after : List Operation}

theorem run_append (before after : List Operation) :
    run (before ++ after) = after.foldl Operation.apply (run before) :=
  List.foldl_append

theorem run_sound (anonymous : ∀ operation ∈ operations, operation.IsAnonymous) :
    (run operations).Sound := by
  induction operations using List.reverseRecOn with
  | nil => exact .empty
  | append_singleton operations last ih =>
    rw [List.forall_mem_append, List.forall_mem_singleton] at anonymous
    rw [run_concat]
    exact (ih anonymous.1).apply anonymous.2

theorem refCount_run (anonymous : ∀ operation ∈ operations, operation.IsAnonymous) :
    (run operations).refCount name + timesGivenBack operations name =
      timesTaken operations name := by
  induction operations using List.reverseRecOn with
  | nil => rfl
  | append_singleton operations last ih =>
    rw [List.forall_mem_append, List.forall_mem_singleton] at anonymous
    have step := (run_sound anonymous.1).refCount_apply anonymous.2 name
    rw [run_concat, timesTaken_concat, timesGivenBack_concat, ← ih anonymous.1]
    omega

theorem Spent.run (spent : (run before).Spent name)
    (anonymous : ∀ operation ∈ after, operation.IsAnonymous) :
    (run (before ++ after)).Spent name := by
  induction after using List.reverseRecOn with
  | nil => rwa [List.append_nil]
  | append_singleton after last ih =>
    rw [List.forall_mem_append, List.forall_mem_singleton] at anonymous
    rw [← List.append_assoc, run_concat]
    exact (ih anonymous.1).apply anonymous.2

theorem nameAt?_run (named : (run before).nameAt? address = some name)
    (anonymous : ∀ operation ∈ before ++ after, operation.IsAnonymous)
    (stays : ∀ step ∈ steps (run before) after, ¬ step.2.Removes step.1 name) :
    (run (before ++ after)).nameAt? address = some name := by
  induction after using List.reverseRecOn with
  | nil => rwa [List.append_nil]
  | append_singleton after last ih =>
    rw [← List.append_assoc, List.forall_mem_append, List.forall_mem_singleton] at anonymous
    rw [steps_concat, List.forall_mem_append, List.forall_mem_singleton, ← run_append] at stays
    rw [← List.append_assoc, run_concat]
    exact (run_sound anonymous.1).nameAt?_apply anonymous.2 (ih anonymous.1 stays.1) stays.2

theorem add_eq_of_nameAt? (named : table.nameAt? address = some name) :
    (table.add address).1 = name := by
  rw [LabelTable.add]
  split
  · rename_i other known
    exact Option.some.inj (known.symm.trans named)
  · rename_i unnamed
    cases unnamed.symm.trans named

/-- **The books of a label table** balance, after any operations on an empty one
that give no names of their own. The count of a name is how often it was taken
less how often it was given back while it was there; giving it back takes it off
just with the last reference; once off it is never answered again; and as long as
the first name of an address is not taken off, the address answers that name. -/
theorem run_balance (operations : List Operation)
    (anonymous : ∀ operation ∈ operations, operation.IsAnonymous) (name : String) :
    ((run operations).refCount name + timesGivenBack operations name =
      timesTaken operations name) ∧
    (((run operations).release name).1 = true ↔ (run operations).refCount name = 1) ∧
    (((run operations).release name).1 = true →
      ((run operations).release name).2.addressOf? name = none) ∧
    (∀ before after, operations = before ++ .release name :: after →
      ((run before).release name).1 = true →
        ∀ operation : Operation, operation.IsAnonymous →
          operation.answer? (run operations) ≠ some name) ∧
    ∀ before after address, operations = before ++ after →
      (run before).nameAt? address = some name →
      (∀ step ∈ steps (run before) after, ¬ step.2.Removes step.1 name) →
        (run operations).nameAt? address = some name ∧
          ((run operations).add address).1 = name := by
  have sound := run_sound anonymous
  have last : ∀ done, ((run done).release name).1 = true ↔ (run done).refCount name = 1 :=
    fun done => (run_backed done).release_eq_true_iff
  refine ⟨refCount_run anonymous, last operations, ?_, ?_, ?_⟩
  · exact fun removed => sound.addressOf?_release ((last operations).mp removed)
  · rintro before after rfl removed operation unnamed
    rw [List.append_cons] at anonymous ⊢
    have early := List.forall_mem_append.mp (List.forall_mem_append.mp anonymous).1
    have spent := (run_sound early.1).spent_release ((last before).mp removed)
    rw [← Operation.apply, ← run_concat] at spent
    exact (spent.run (List.forall_mem_append.mp anonymous).2).answer? unnamed
  · rintro before after address rfl named stays
    have first := nameAt?_run named anonymous stays
    exact ⟨first, add_eq_of_nameAt? first⟩

/-- A history in which the oldest of two names of an address goes, and the
address is labelled again by the other. -/
def turnover : List Operation :=
  [.add 16, .addUnique 16, .add 16, .release "LABEL_0", .release "LABEL_0", .add 16]

theorem run_balance_turnover :
    timesTaken turnover "LABEL_1" = 2 ∧ (run turnover).refCount "LABEL_1" = 2 ∧
      ((run turnover).add 32).1 ≠ "LABEL_0" ∧ ((run turnover).add 16).1 = "LABEL_1" := by
  have anonymous : ∀ operation ∈ turnover, operation.IsAnonymous := by
    simp [turnover, Operation.IsAnonymous]
  obtain ⟨books, -, -, -, stays⟩ := run_balance turnover anonymous "LABEL_1"
  obtain ⟨-, -, -, gone, -⟩ := run_balance turnover anonymous "LABEL_0"
  have taken : timesTaken turnover "LABEL_1" = 2 := by decide +kernel
  have given : timesGivenBack turnover "LABEL_1" = 0 := by decide +kernel
  refine ⟨taken, by omega, ?_, ?_⟩
  · have other := gone (turnover.take 4) [.add 16] rfl (by decide +kernel) (.add 32) trivial
    exact fun same => other (congrArg some same)
  · refine (stays (turnover.take 5) [.add 16] 16 rfl (by decide +kernel) ?_).2
    simp [steps, Operation.Removes]

end EventScript.LabelTable
