/-
What the exploration sets say of an address. The roles that instructions give are
recorded as they are taken, and a role goes only when a table is cut: an address
that one of the dropped entries named is forgotten if no label names it any more
(`Dropped`).

So an address keeps its roles as long as an entry mentions it. Two things can
still keep an instruction from finding the role it gave. An operand that carries
no label does not hold on to its target. And a table is scanned once: who asks
later, and for another role, finds the destinations under the role of the first
(`TableUse`).
-/
import EventScript.Proofs.Assignment
import EventScript.Proofs.Grounds

namespace EventScript

open Recovery

/-- The table at an address is used for something: an instruction leads to it,
or a table of tables names it. -/
inductive TableUse (catalogue : Catalogue) (image : Image) (script : Script) :
    TableKind → Role → (table : Nat) → Prop
  | direct {n table : Nat} {decoded : Instruction} {kind : TableKind} {role : Role}
      (there : script.entries[n]? = some (.instruction decoded))
      (leads : (kind, role, table) ∈ decoded.branchTables catalogue) :
      TableUse catalogue image script kind role table
  | nested {role : Role} {outer k table : Nat}
      (use : TableUse catalogue image script .tables role outer)
      (named : tableDestination outer (image.wordAt (outer + 4 * k)) = (table : Int)) :
      TableUse catalogue image script .branches role table

/-- An entry that named the address was cut off its table. -/
def Dropped (image : Image) (diagnostics : List Diagnostic) (a : Nat) : Prop :=
  ∃ head keep dropped k, ⟨head, .tableOverrun keep dropped⟩ ∈ diagnostics ∧ keep ≤ k ∧
    k < keep + dropped ∧ tableDestination head (image.wordAt (head + 4 * k)) = (a : Int)

theorem Dropped.mono {image : Image} {old new : List Diagnostic} {a : Nat}
    (more : ∀ d ∈ old, d ∈ new) (h : Dropped image old a) : Dropped image new a := by
  obtain ⟨head, keep, dropped, k, noted, rest⟩ := h
  exact ⟨head, keep, dropped, k, more _ noted, rest⟩

theorem TableUse.mono {catalogue : Catalogue} {image : Image} {s t : Script} (grows : Grows s t)
    {kind : TableKind} {role : Role} {table : Nat}
    (h : TableUse catalogue image s kind role table) :
    TableUse catalogue image t kind role table := by
  induction h with
  | direct there leads => exact .direct (grows.instructions there) leads
  | nested _ named ih => exact .nested ih named

/-! ## Forgetting -/

/-- An address is forgotten once no label names it. -/
theorem mem_roleSet_forget {script : Script} {role : Role} {a destination : Nat} :
    a ∈ (script.forget destination).roleSet role ↔
      a ∈ script.roleSet role ∧ (a = destination → script.labels.contains a = true) := by
  rw [Script.forget]
  split
  · rename_i labelled
    refine ⟨fun mem => ⟨mem, ?_⟩, And.left⟩
    rintro rfl
    exact labelled
  · rename_i unlabelled
    have other : (a = destination → script.labels.contains a = true) ↔ destination ≠ a := by
      constructor
      · rintro named rfl
        exact unlabelled (named rfl)
      · intro ne eq
        exact absurd eq.symm ne
    rw [other, and_comm]
    cases role <;> simp [Script.roleSet]

/-- Giving back references takes a role only from an address that one of the
names stood at and none does any more. -/
theorem releaseEntries_roles {script : Script} (sound : script.labels.Sound)
    {names : List String} {role : Role} {a : Nat} (mem : a ∈ script.roleSet role) :
    a ∈ (names.foldl Script.releaseEntry script).roleSet role ∨
      (names.foldl Script.releaseEntry script).labels.contains a = false ∧
        ∃ name ∈ names, name ∈ script.labels.namesAt a := by
  induction names generalizing script with
  | nil => exact .inl mem
  | cons name rest ih =>
    have gives := sound.gives_release name
    have labels : (script.releaseEntry name).labels = (script.labels.release name).2 :=
      (Script.releaseEntry_released script name).labels
    rw [List.foldl_cons]
    by_cases kept : a ∈ (script.releaseEntry name).roleSet role
    · refine (ih (labels ▸ gives.sound) kept).imp_right ?_
      rintro ⟨unlabelled, other, among, there⟩
      rw [labels] at there
      exact ⟨unlabelled, other, List.mem_cons_of_mem _ among, ((gives.kept _ _).mp there).1⟩
    · -- Forgotten with this name: nothing names it now, and nothing will.
      have gone : script.labels.addressOf? name = some a ∧
          (script.labels.release name).2.contains a = false := by
        rw [Script.releaseEntry] at kept
        split at kept
        · rename_i destination found
          rw [mem_roleSet_forget, not_and, Classical.not_imp] at kept
          obtain ⟨rfl, unlabelled⟩ := kept (by cases role <;> exact mem)
          exact ⟨found, by simpa using unlabelled⟩
        · exact absurd (by cases role <;> exact mem) kept
      have rest_gives := LabelTable.Sound.gives_releaseAll (labels ▸ gives.sound) rest
      rw [← (Script.releaseEntries_released (script.releaseEntry name) rest).labels] at rest_gives
      refine .inr ⟨rest_gives.unnamed (labels ▸ gives.sound) (labels ▸ gone.2), name,
        List.mem_cons_self, ?_⟩
      exact sound.addressOf?_eq_some_iff.mp gone.1

theorem roleSet_cutTable (script : Script) (head keep : Nat) (labels : List String) (role : Role) :
    (script.cutTable head keep labels).roleSet role =
      ((labels.drop keep).foldl Script.releaseEntry script).roleSet role := by
  rw [Script.cutTable]
  simp only [Script.setEntry, Script.diagnose]
  rw [Script.freeTail_eq]
  cases role <;> rfl

theorem roleSet_fill (script : Script) (address : Nat) (e : Entry) (count : Nat) (role : Role) :
    (script.fill address e count).roleSet role = script.roleSet role := by
  rw [Script.fill_eq]
  cases role <;> rfl

/-- An address has a role, or one of the entries that were dropped named it and
no label does. -/
def Script.Retains (image : Image) (script : Script) (role : Role) (a : Nat) : Prop :=
  a ∈ script.roleSet role ∨
    script.labels.contains a = false ∧ Dropped image script.diagnostics a

/-- **Correcting a table takes a role only from what it drops**, if that is not
labelled any more. -/
theorem correctTable_retains {image : Image} {script : Script} (balanced : Balanced image script)
    (explored : Explored image script) (head : Nat) {role : Role} {a : Nat}
    (h : script.Retains image role a) : (script.correctTable head).Retains image role a := by
  rcases h with mem | ⟨unlabelled, dropped⟩
  · rw [Script.Retains, Script.correctTable]
    split
    · rename_i address labels at_head
      obtain ⟨aligned, slot⟩ := Script.entryAt?_eq_some at_head
      obtain ⟨n, rfl⟩ : ∃ n, head = 4 * n := ⟨_, aligned⟩
      rw [show 4 * n / 4 = n by omega] at slot
      have home : address = 4 * n := explored.laid.home slot rfl
      subst home
      simp only [roleSet_fill, Script.labels_fill, Script.diagnostics_fill]
      generalize script.ownSlots (4 * n) (labels.length - 1) 1 = keep
      split
      · rename_i shorter
        have cut := Script.cutTable_cut (Array.getElem?_eq_some_iff.mp slot).1 shorter
        rw [roleSet_cutTable, cut.released, cut.diagnostics, if_pos shorter]
        rcases @releaseEntries_roles script balanced.sound (labels.drop keep) _ _ mem with
          kept | ⟨unlabelled, name, among, there⟩
        · exact .inl kept
        · rw [(Script.releaseEntries_released script _).labels] at unlabelled
          refine .inr ⟨unlabelled, ?_⟩
          -- The dropped entry that carries the name is one that names the address.
          obtain ⟨k, at_k⟩ := List.getElem?_of_mem among
          rw [List.getElem?_drop] at at_k
          obtain ⟨target, named, stands⟩ := balanced.bound slot (keep + k) name at_k
          have bound := (List.getElem?_eq_some_iff.mp at_k).1
          refine ⟨4 * n, keep, (labels.drop keep).length, keep + k, ?_, by omega, ?_, ?_⟩
          · exact List.mem_append_right _ (List.mem_singleton.mpr rfl)
          · rw [List.length_drop]
            omega
          · rw [named, balanced.sound.unique there stands]
      · exact .inl mem
    · exact .inl mem
  · obtain ⟨same, -⟩ | ⟨n, labels, keep, -, c⟩ := Script.correctTable_cases explored.laid head
    · rw [same]
      exact .inr ⟨unlabelled, dropped⟩
    · have gives := c.gives balanced.sound
      refine .inr ⟨gives.unnamed balanced.sound unlabelled, dropped.mono fun d mem => ?_⟩
      rw [c.diagnostics]
      exact List.mem_append_left _ mem

theorem correctOverruns_retains {image : Image} {script : Script}
    (balanced : Balanced image script) (explored : Explored image script) {role : Role} {a : Nat}
    (h : script.Retains image role a) : script.correctOverruns.Retains image role a := by
  rw [Script.correctOverruns]
  generalize script.tableHeads = heads
  induction heads generalizing script with
  | nil => exact h
  | cons head rest ih =>
    have move : Move image script (script.correctTable head) := .correct rfl
    exact ih (move.balanced explored balanced) (explored.move move)
      (correctTable_retains balanced explored head h)

namespace Recovery

/-! ## Roles over a whole exploration -/

/-- The roles that instructions gave are kept, but for those of dropped entries,
and every table was filed for someone who uses it. -/
structure Roled (setting : Setting) (s : Session) : Prop where
  targets : ∀ {n : Nat} {decoded : Instruction},
    s.script.entries[n]? = some (.instruction decoded) → ∀ {role operand target},
    (role, operand) ∈ decoded.roleOperands setting.catalogue →
    operand.resolved = some target → Target setting.image target →
    target ∈ s.script.roleSet role ∨
      operand.label = none ∧ Dropped setting.image s.script.diagnostics target
  visited : ∀ {n : Nat} {decoded : Instruction},
    s.script.entries[n]? = some (.instruction decoded) → ∀ {kind role table},
    (kind, role, table) ∈ decoded.branchTables setting.catalogue →
    table ∈ s.script.tableAddresses
  filed : ∀ table ∈ s.script.tableAddresses, ∃ kind role,
    TableUse setting.catalogue setting.image s.script kind role table ∧
      Filed setting.image s.script kind role table
  queued : ∀ {role table}, .table table role ∈ s.worklist →
    TableUse setting.catalogue setting.image s.script .branches role table

section

variable {setting : Setting} {use : TableKind → Role → Nat → Prop} {s t : Session}

/-- What a step assigns leaves the roles in order, if the instructions it places
are served and the tables it scans are used. -/
theorem Roled.assigns (h : Roled setting s) (assigns : s.Assigns setting.image use t)
    (used : ∀ {kind role table}, use kind role table →
      TableUse setting.catalogue setting.image t.script kind role table)
    (served : ∀ {n : Nat} {decoded : Instruction},
      t.script.entries[n]? = some (.instruction decoded) →
      s.script.entries[n]? = some (.instruction decoded) ∨ Served setting t.script decoded) :
    Roled setting t := by
  refine ⟨?_, ?_, ?_, ?_⟩
  · intro n decoded at_n role operand target gives resolved valid
    rcases served at_n with old | new
    · rcases h.targets old gives resolved valid with mem | ⟨none, dropped⟩
      · exact .inl (assigns.roles mem)
      · exact .inr ⟨none, dropped.mono assigns.grows.diagnostics⟩
    · exact .inl (new.targets gives resolved valid)
  · intro n decoded at_n kind role table leads
    rcases served at_n with old | new
    · exact assigns.grows.tables _ (h.visited old leads)
    · exact new.tables leads
  · intro table mem
    rcases assigns.tables table mem with mem | ⟨kind, role, allowed, filed⟩
    · obtain ⟨kind, role, use, filed⟩ := h.filed table mem
      exact ⟨kind, role, use.mono assigns.grows, filed.mono assigns.grows assigns.roles⟩
    · exact ⟨kind, role, used allowed, filed⟩
  · intro role table mem
    rcases assigns.queued mem with mem | ⟨outer, k, allowed, named⟩
    · exact (h.queued mem).mono assigns.grows
    · exact .nested (used allowed) named

/-- A step that places no instruction and scans no table. -/
theorem Roled.quiet (h : Roled setting s) (grows : Grows s.script t.script)
    (entries : t.script.entries = s.script.entries)
    (roles : ∀ role, t.script.roleSet role = s.script.roleSet role)
    (tables : t.script.tableAddresses = s.script.tableAddresses)
    (queued : ∀ {role a}, .table a role ∈ t.worklist → .table a role ∈ s.worklist) :
    Roled setting t := by
  refine @assigns _ (fun _ _ _ => False) _ _ h
    (.quiet grows (fun mem => roles _ ▸ mem) tables queued) False.elim fun at_n => ?_
  exact .inl (entries ▸ at_n)

end

/-- Placing an instruction gives no role and takes none. -/
theorem placeInstruction_assigns {image : Image} {use : TableKind → Role → Nat → Prop} {s : Session}
    {decoded : Instruction} (explored : Explored image s.script)
    (move : Move image s.script (placeInstruction s.script decoded).2) :
    s.Assigns image use { s with script := (placeInstruction s.script decoded).2 } := by
  refine .quiet (move.grows explored.laid explored.size) ?_ (placeInstruction_tableAddresses ..) id
  intro role a mem
  simp only [placeInstruction, Script.setEntry]
  rw [claimOperands_eq]
  cases role <;> exact mem

/-- **Every step leaves the roles in order.** -/
theorem Step.roled {setting : Setting} {p q : Point} (step : Step setting p q)
    (explored : Explored setting.image p.session.script) (h : Roled setting p.session) :
    Roled setting q.session := by
  cases step with
  | seen pending =>
    refine h.quiet .rfl rfl (fun _ => rfl) rfl fun mem => ?_
    rw [pending]
    exact List.mem_cons_of_mem _ mem
  | @begun s a rest pending =>
    refine h.quiet ⟨⟨fun _ mem => mem, fun b mem => ?_, fun _ mem => mem⟩, id, id, ?_⟩ rfl
      (fun role => by cases role <;> rfl) rfl fun mem => ?_
    · exact Std.ExtTreeSet.mem_insert.mpr (.inr mem)
    · exact fun {n address labels} at_n =>
        ⟨labels.length, at_n.trans (by rw [List.take_length])⟩
    · rw [pending]
      exact List.mem_cons_of_mem _ mem
  | @table s t a role rest pending scanned =>
    have popped : Roled setting { s with worklist := rest } :=
      h.quiet .rfl rfl (fun _ => rfl) rfl fun mem => by
        rw [pending]
        exact List.mem_cons_of_mem _ mem
    have use : TableUse setting.catalogue setting.image s.script .branches role a :=
      h.queued (pending ▸ List.mem_cons_self)
    have assigns := @probeTable_assigns setting (fun kind given b =>
      kind = .branches ∧ given = role ∧ b = a) _ _ _ _ _ ⟨rfl, rfl, rfl⟩ scanned
    refine popped.assigns assigns ?_ fun at_n => ?_
    · rintro kind given b ⟨rfl, rfl, rfl⟩
      exact use.mono assigns.grows
    · exact .inl ((probeTable_adds scanned).script.instructions at_n)
  | out => exact h
  | joined => exact h
  | @blocked start cursor s =>
    exact h.quiet (@Session.Adds.diagnose setting.image s cursor _).script.grows rfl
      (fun role => by cases role <;> rfl) rfl id
  | unread _ _ read =>
    have grows := (readInstruction_adds read).script.grows
    obtain ⟨noted, rfl⟩ := readInstruction_counts read
    exact h.quiet grows rfl (fun role => by cases role <;> rfl) rfl id
  | @taken start cursor s t u read flow inside free found taken =>
    obtain ⟨-, readable⟩ := readInstruction_readable found free
    have adds := readInstruction_adds found
    have explored := adds.script.moves.explored explored
    have noted : Roled setting t := by
      obtain ⟨noted, rfl⟩ := readInstruction_counts found
      exact h.quiet adds.script.grows rfl (fun role => by cases role <;> rfl) rfl id
    obtain ⟨assigns, served⟩ := @takeInstruction_served setting (fun kind role table =>
      (kind, role, table) ∈ (placeInstruction t.script read).1.branchTables setting.catalogue)
      _ _ _ _ _ taken id
    obtain ⟨there, others⟩ := takeInstruction_instructions explored readable taken
    have placed := (placeInstruction_assigns explored (.instruction readable rfl)).trans assigns
    refine noted.assigns placed (fun leads => .direct there leads) fun at_n => ?_
    rcases others at_n with old | ⟨-, rfl⟩
    · exact .inl old
    · exact .inr served

/-- **Correcting the tables leaves the roles in order**: what an entry still
mentions is labelled, so it is not forgotten. -/
theorem Roled.correct {setting : Setting} {s : Session}
    (explored : Explored setting.image s.script) (balanced : Balanced setting.image s.script)
    (h : Roled setting s) : Roled setting s.correct := by
  have moves := correctOverruns_moves setting.image s.script
  have grows := moves.grows explored
  have after := moves.balanced explored balanced
  have labelled : ∀ {name a}, name ∈ s.correct.script.labels.namesAt a →
      ∀ {role}, a ∈ s.script.roleSet role → a ∈ s.correct.script.roleSet role :=
    fun {name a} there {role} mem => by
      rcases correctOverruns_retains balanced explored (.inl mem) with kept | ⟨unlabelled, -⟩
      · exact kept
      · have listed := (after.sound.listed a).mpr (List.ne_nil_of_mem there)
        rw [unlabelled] at listed
        cases listed
  refine ⟨?_, ?_, ?_, fun mem => (h.queued mem).mono grows⟩
  · intro n decoded at_n role operand target gives resolved valid
    rcases h.targets (correctOverruns_instructions explored at_n) gives resolved valid with
      mem | ⟨none, dropped⟩
    · cases label : operand.label with
      | none =>
        rcases correctOverruns_retains balanced explored (.inl mem) with kept | ⟨-, dropped⟩
        · exact .inl kept
        · exact .inr ⟨rfl, dropped⟩
      | some name =>
        have among := Instruction.mem_of_mem_roleOperands gives
        obtain ⟨same, known, there⟩ := after.bound at_n operand among name label
        rw [resolved] at known
        cases known
        exact .inl (labelled there mem)
    · exact .inr ⟨none, dropped.mono grows.diagnostics⟩
  · intro n decoded at_n kind role table leads
    exact grows.tables _ (h.visited (correctOverruns_instructions explored at_n) leads)
  · intro table mem
    rw [show s.correct.script.tableAddresses = s.script.tableAddresses from
      (correctOverruns_still explored).2] at mem
    obtain ⟨kind, role, use, labels, there, filed⟩ := h.filed table mem
    obtain ⟨aligned, slot⟩ := Script.entryAt?_eq_some there
    obtain ⟨keep, still⟩ := grows.pointerTables slot
    refine ⟨kind, role, use.mono grows, labels.take keep, Script.entryAt?_of_slot aligned still, ?_⟩
    intro branches k a bound named
    obtain ⟨target, named', stands⟩ := after.bound still k _ (List.getElem?_eq_getElem bound)
    have same := Int.ofNat_inj.mp (named'.symm.trans named)
    rw [List.length_take] at bound
    exact labelled (same ▸ stands) (filed branches k a (by omega) named)

theorem explore_roled (setting : Setting) (stats : Stats) :
    Exploring setting stats fun s => Balanced setting.image s.script ∧ Roled setting s where
  named := by
    obtain ⟨-, tables, none⟩ := named_unexplored setting.image setting.options.maxEntrypoints
    refine ⟨(named_moves ..).balanced (.blank _) (.blank _ _), fun at_n => absurd at_n none,
      fun at_n => absurd at_n none, fun table mem => ?_, fun mem => by cases mem⟩
    have mem : table ∈ (findEntrypoints setting.image setting.options.maxEntrypoints 0
      (.blank setting.image.size)).tableAddresses := mem
    rw [tables] at mem
    exact absurd mem Std.ExtTreeSet.not_mem_empty
  ask := fun {s addresses} _ ⟨balanced, h⟩ => by
    refine ⟨balanced, h.quiet .rfl rfl (fun _ => rfl) rfl fun mem => ?_⟩
    rcases List.mem_append.mp mem with branch | mem
    · obtain ⟨_, -, eq⟩ := List.mem_map.mp branch
      cases eq
    · exact mem
  run := fun explored steps ⟨balanced, h⟩ =>
    ⟨steps.moves.balanced explored balanced,
      Steps.invariant (P := fun p => Roled setting p.session) (fun step => step.roled) steps
        explored h⟩
  correct := fun explored ⟨balanced, h⟩ =>
    ⟨(correctOverruns_moves ..).balanced explored balanced, h.correct explored balanced⟩

end Recovery

/-- What the exploration sets of a script of the image say of an instruction. -/
structure Attributed (catalogue : Catalogue) (image : Image) (script : Script)
    (decoded : Instruction) : Prop where
  /-- A target has the role its operand gives it, unless the operand carries no
  label and an entry that named the target was cut off its table. -/
  targets : ∀ {role operand target}, (role, operand) ∈ decoded.roleOperands catalogue →
    operand.resolved = some target → Target image target →
    target ∈ script.roleSet role ∨
      operand.mode.isInline = false ∧ Dropped image script.diagnostics target
  /-- A table that the instruction leads to was scanned for one of its uses, and
  if for branches, what it still names has the role of that use. -/
  tables : ∀ {kind role table}, (kind, role, table) ∈ decoded.branchTables catalogue →
    ∃ first given labels, TableUse catalogue image script first given table ∧
      script.entryAt? table = some (.pointerTable table labels) ∧
      (first = .branches → ∀ name ∈ labels, ∃ a, script.labels.addressOf? name = some a ∧
        a ∈ script.roleSet given)
  /-- So what it still names has the role of the instruction if the table has no
  other use. -/
  sole : ∀ {role table}, (.branches, role, table) ∈ decoded.branchTables catalogue →
    (∀ {kind given}, TableUse catalogue image script kind given table →
      kind = .branches ∧ given = role) →
    ∃ labels, script.entryAt? table = some (.pointerTable table labels) ∧
      ∀ name ∈ labels, ∃ a, script.labels.addressOf? name = some a ∧ a ∈ script.roleSet role

namespace Recovery

/-- **Every instruction finds the roles it gave**, unless nothing but a dropped
table entry held on to the target, or the table was scanned for another. -/
theorem disassemble_attributed {catalogue : Catalogue} {options : Options} {image : Image}
    {script : Script} (h : disassemble catalogue options image = .ok script) {n : Nat}
    {decoded : Instruction} (at_n : script.entries[n]? = some (.instruction decoded)) :
    Attributed catalogue image script decoded := by
  have inline := (disassemble_moves h).labelled at_n
  obtain ⟨s, answer, rfl⟩ := disassemble_cases h
  obtain ⟨explored, before, roled⟩ := (explore_roled ⟨image, catalogue, options⟩ {}).explored answer
  have moves := settle_moves image s
  have grows := moves.grows explored
  have balanced := moves.balanced explored before
  have roles (role : Role) : (settle image s).roleSet role = s.script.roleSet role := by
    rw [settle_eq]
    cases role <;> rfl
  have found := settle_found at_n id
  have tables {kind : TableKind} {role : Role} {table : Nat}
      (leads : (kind, role, table) ∈ decoded.branchTables catalogue) :
      ∃ first given labels, TableUse catalogue image (settle image s) first given table ∧
        (settle image s).entryAt? table = some (.pointerTable table labels) ∧
        (first = .branches → ∀ name ∈ labels, ∃ a,
          (settle image s).labels.addressOf? name = some a ∧
            a ∈ (settle image s).roleSet given) := by
    obtain ⟨first, given, use, labels, there, filed⟩ :=
      roled.filed table (roled.visited found leads)
    obtain ⟨aligned, slot⟩ := Script.entryAt?_eq_some there
    obtain ⟨keep, still⟩ := grows.pointerTables slot
    refine ⟨first, given, labels.take keep, use.mono grows,
      Script.entryAt?_of_slot aligned still, ?_⟩
    intro branches name mem
    obtain ⟨k, at_k⟩ := List.getElem?_of_mem mem
    obtain ⟨a, named, stands⟩ := balanced.bound still k name at_k
    have bound := (List.getElem?_eq_some_iff.mp at_k).1
    rw [List.length_take] at bound
    refine ⟨a, balanced.sound.addressOf?_eq_some_iff.mpr stands, ?_⟩
    rw [roles]
    exact filed branches k a (by omega) named
  refine ⟨?_, tables, ?_⟩
  · intro role operand target gives resolved valid
    rw [roles]
    refine (roled.targets found gives resolved valid).imp_right ?_
    rintro ⟨none, dropped⟩
    refine ⟨?_, dropped.mono grows.diagnostics⟩
    rw [← inline operand (Instruction.mem_of_mem_roleOperands gives), none]
    rfl
  · intro role table leads sole
    obtain ⟨first, given, labels, use, there, named⟩ := tables leads
    obtain ⟨rfl, rfl⟩ := sole use
    exact ⟨labels, there, named rfl⟩

/-- The jump through a table in the sample. -/
def sampleJump : Instruction :=
  ⟨4, .jmpTable, 0, [⟨8, .immediate, [0], some 0, none⟩,
    ⟨12, .inline1, [0x09000003], some 16, some "LABEL_1"⟩]⟩

theorem disassemble_attributed_sample :
    ∃ script, disassemble sampleCatalogue {} sampleImage = .ok script ∧
      script.entries[1]? = some (.instruction sampleJump) ∧
      Attributed sampleCatalogue sampleImage script sampleJump := by
  obtain ⟨script, h, there⟩ := disassemble_within_holds sampleCatalogue {} sampleImage 8
    (fun script => script.entries[1]? = some (.instruction sampleJump)) (by decide +kernel)
  exact ⟨script, h, there, disassemble_attributed h there⟩

/-- An entry point; a `gosub` to the last word by its address; a `gosub_table`
and a move that points at the second entry of its table; a return; the table,
the second entry of which names the last word; two returns. -/
def forgottenImage : Image := #[
  0x00000004,
  0x00000148, 0x00000034,
  0x0000024a, 0x02000000, 0x09000007,
  0x00000208, 0x09000005, 0x02000001,
  0x00000049,
  0x00000002, 0x00000003,
  0x00000049, 0x00000049]

/-- An entry point; a `gosub_table` and a `jmp_table` through the one table
behind them; the return that it names. -/
def sharedImage : Image := #[
  0x00000004,
  0x0000024a, 0x02000000, 0x09000006,
  0x00000244, 0x02000000, 0x09000003,
  0x00000001,
  0x00000049]

/-- A role can be lost in both ways: with the entry that was cut off, though the
`gosub` still leads there; and with the table that was scanned before. -/
theorem roles_lost :
    (∃ script, disassemble {} {} forgottenImage = .ok script ∧
      script.entries[1]? = some (.instruction
        ⟨4, .gosub, 0, [⟨8, .immediate, [0x34], some 52, none⟩]⟩) ∧
      52 ∉ script.roleSet .subroutine) ∧
    ∃ script, disassemble {} {} sharedImage = .ok script ∧
      script.entries[4]? = some (.instruction ⟨16, .jmpTable, 0,
        [⟨20, .storage, [0x02000000], none, none⟩,
          ⟨24, .inline1, [0x09000003], some 28, some "LABEL_1"⟩]⟩) ∧
      script.entryAt? 28 = some (.pointerTable 28 ["LABEL_2"]) ∧
      script.labels.addressOf? "LABEL_2" = some 32 ∧
      32 ∉ script.roleSet .jumpDestination := by
  constructor
  · exact disassemble_within_holds {} {} forgottenImage 8
      (fun script => script.entries[1]? = some (.instruction
        ⟨4, .gosub, 0, [⟨8, .immediate, [0x34], some 52, none⟩]⟩) ∧
        52 ∉ script.roleSet .subroutine) (by decide +kernel)
  · exact disassemble_within_holds {} {} sharedImage 8
      (fun script => script.entries[4]? = some (.instruction ⟨16, .jmpTable, 0,
        [⟨20, .storage, [0x02000000], none, none⟩,
          ⟨24, .inline1, [0x09000003], some 28, some "LABEL_1"⟩]⟩) ∧
        script.entryAt? 28 = some (.pointerTable 28 ["LABEL_2"]) ∧
        script.labels.addressOf? "LABEL_2" = some 32 ∧
        32 ∉ script.roleSet .jumpDestination) (by decide +kernel)

end Recovery
end EventScript
