/-
A label table after any history of operations.

Three things hold whatever was done to a table (`LabelTable.Backed`): an address
is listed as long as it has a name, no count is zero, and a name that is counted
stands somewhere. The rest of what one expects of a table (`Coherent`), that a
name stands at one address and there once, and that a listed name is counted, is
kept by every operation but one: minting. The counter looks at no name but those
it handed out, so a name given from outside that the counter has yet to reach is
minted a second time. Hence the table stays coherent just as long as each minted
name stands nowhere yet, which is so when no such name is given.
-/
import Mathlib.Data.List.Induction
import EventScript.Proofs.LabelTable

namespace EventScript.LabelTable

/-! ## Operations -/

/-- What may be done to a label table. -/
inductive Operation where
  | add (address : Nat)
  | addUnique (address : Nat)
  | addNamed (address : Nat) (name : String)
  | release (name : String)
  deriving DecidableEq, Repr

/-- The table after an operation. -/
def Operation.apply (table : LabelTable) : Operation → LabelTable
  | .add address => (table.add address).2
  | .addUnique address => (table.addUnique address).2
  | .addNamed address name => (table.addNamed address name).2
  | .release name => (table.release name).2

/-- The table after some operations on an empty one. -/
def run (operations : List Operation) : LabelTable := operations.foldl Operation.apply {}

theorem run_concat (operations : List Operation) (operation : Operation) :
    run (operations ++ [operation]) = operation.apply (run operations) := by
  simp [run]

/-- Whether an operation mints a name. -/
def Operation.Mints (table : LabelTable) : Operation → Prop
  | .add address => table.nameAt? address = none
  | .addUnique _ => True
  | .addNamed .. | .release _ => False

/-- If an operation mints a name, the name stands nowhere yet. -/
def Operation.Fresh (table : LabelTable) (operation : Operation) : Prop :=
  operation.Mints table → ∀ address, mintedName table.nextIndex ∉ table.namesAt address

/-- What an operation can do: mint a name, bind the name it was given if that
stands nowhere, refer once more to a name that stands somewhere, or give a
reference back. -/
inductive Effect (table : LabelTable) : Operation → LabelTable → Prop
  | mint {operation : Operation} (mints : operation.Mints table) (address : Nat) :
    Effect table operation (table.addUnique address).2
  | bind (address : Nat) {name : String} (new : ∀ other, name ∉ table.namesAt other) :
    Effect table (.addNamed address name) ((table.append address name).acquire name)
  | refer {operation : Operation} (mintless : ¬ operation.Mints table) {name : String}
    {address : Nat} (mem : name ∈ table.namesAt address) :
    Effect table operation (table.acquire name)
  | release (name : String) : Effect table (.release name) (table.release name).2

theorem Operation.effect (table : LabelTable) (operation : Operation) :
    Effect table operation (operation.apply table) := by
  cases operation with
  | add address =>
    rw [apply, LabelTable.add]
    split
    · rename_i name named
      exact .refer (by simp [Mints, named]) (List.mem_of_mem_head? named)
    · rename_i unnamed
      exact .mint (by simpa [Mints] using unnamed) address
  | addUnique address => exact .mint (by simp [Mints]) address
  | addNamed address name =>
    rw [apply, LabelTable.addNamed]
    cases found : table.addressOf? name with
    | none => exact .bind address (addressOf?_eq_none_iff.mp found)
    | some other => exact .refer (by simp [Mints]) (mem_namesAt_of_addressOf? found)
  | release name => exact .release name

/-! ## What holds of every table -/

/-- An address is listed as long as it has a name, a name that is counted has a
reference, and it stands somewhere. -/
structure Backed (table : LabelTable) : Prop where
  listed : table.Listed
  held : ∀ {name : String} {count}, table.references[name]? = some count → 1 ≤ count
  standing : ∀ {name : String}, name ∈ table.references → ∃ address, name ∈ table.namesAt address

theorem Backed.empty : Backed {} where
  listed := by simp [Listed, contains, namesAt]
  held := by simp
  standing := by simp

theorem Backed.append {table : LabelTable} (h : table.Backed) (address : Nat) (name : String) :
    (table.append address name).Backed where
  listed := h.listed.append address name
  held := h.held
  standing := fun counted => by
    obtain ⟨other, mem⟩ := h.standing counted
    exact ⟨other, mem_namesAt_append.mpr (.inl mem)⟩

/-- A name that stands somewhere is given a count. -/
theorem Backed.count {table : LabelTable} (h : table.Backed) {name : String} {address : Nat}
    (mem : name ∈ table.namesAt address) {count : Nat} (pos : 1 ≤ count) (next : Nat) :
    Backed { table with
      references := table.references.insert name count
      nextIndex := next } where
  listed := h.listed
  held := fun {other k} found => by
    simp only [Std.ExtTreeMap.getElem?_insert] at found
    split at found
    · cases found
      exact pos
    · exact h.held found
  standing := fun {other} counted => by
    rw [Std.ExtTreeMap.mem_insert, Std.compare_eq_iff_eq] at counted
    rcases counted with rfl | old
    · exact ⟨address, mem⟩
    · exact h.standing old

theorem references_unlist (table : LabelTable) (name : String) :
    (table.unlist name).references = table.references := by
  rw [unlist]
  split <;> rfl

theorem Backed.release {table : LabelTable} (h : table.Backed) (name : String) :
    (table.release name).2.Backed := by
  refine ⟨h.listed.release name, ?_, ?_⟩
  · intro other count
    rw [LabelTable.release]
    split
    · exact h.held
    · split
      · rename_i k _ more
        intro found
        simp only [Std.ExtTreeMap.getElem?_insert] at found
        split at found
        · cases found
          omega
        · exact h.held found
      · intro found
        simp only [references_unlist, Std.ExtTreeMap.getElem?_erase] at found
        split at found
        · cases found
        · exact h.held found
  · intro other
    rw [LabelTable.release]
    split
    · exact h.standing
    · split
      · rename_i k some _
        intro counted
        simp only [Std.ExtTreeMap.mem_insert, Std.compare_eq_iff_eq] at counted
        refine h.standing (counted.elim ?_ id)
        rintro rfl
        simp [Std.ExtTreeMap.mem_iff_isSome_getElem?, some]
      · intro counted
        simp only [references_unlist, Std.ExtTreeMap.mem_erase, ne_eq,
          Std.compare_eq_iff_eq] at counted
        obtain ⟨ne, old⟩ := counted
        obtain ⟨address, mem⟩ := h.standing old
        refine ⟨address, ?_⟩
        -- only the name given back is taken off, wherever the table finds it
        rw [namesAt_unlist]
        split
        · exact List.mem_filter.mpr ⟨mem, by simpa using Ne.symm ne⟩
        · exact mem

theorem Backed.step {table after : LabelTable} {operation : Operation} (h : table.Backed)
    (effect : Effect table operation after) : after.Backed := by
  cases effect with
  | mint _ address =>
    exact (h.append address _).count (mem_namesAt_append.mpr (.inr ⟨rfl, rfl⟩)) Nat.le.refl _
  | bind address new =>
    exact (h.append address _).count (mem_namesAt_append.mpr (.inr ⟨rfl, rfl⟩)) (by omega) _
  | refer _ mem => exact h.count mem (by omega) _
  | release name => exact h.release name

theorem run_backed (operations : List Operation) : (run operations).Backed := by
  induction operations using List.reverseRecOn with
  | nil => exact .empty
  | append_singleton operations operation ih =>
    rw [run_concat]
    exact ih.step (operation.effect _)

/-! ## Coherent tables -/

/-- A name stands at one address and there once, and the names that stand
somewhere are the names that are counted. -/
structure Coherent (table : LabelTable) : Prop extends table.Distinct, table.Backed where
  counted : ∀ {name : String} {address}, name ∈ table.namesAt address → name ∈ table.references

theorem Coherent.empty : Coherent {} where
  toDistinct := Sound.empty.distinct
  toBacked := .empty
  counted := by simp [namesAt]

/-- A name that comes to stand at an address stood nowhere before. -/
theorem Distinct.new_of_append {table : LabelTable} {address : Nat} {name : String}
    (h : (table.append address name).Distinct) (other : Nat) : name ∉ table.namesAt other := by
  intro mem
  have last : name ∈ (table.append address name).namesAt address :=
    mem_namesAt_append.mpr (.inr ⟨rfl, rfl⟩)
  obtain rfl := h.unique (mem_namesAt_append.mpr (.inl mem)) last
  have nodup := h.nodup other
  rw [namesAt_append, if_pos rfl, List.nodup_append] at nodup
  exact nodup.2.2 name mem name (List.mem_singleton.mpr rfl) rfl

/-- A name that stands nowhere is put at an address and given a count. -/
theorem Coherent.enter {table : LabelTable} (h : table.Coherent) {name : String}
    (new : ∀ other, name ∉ table.namesAt other) (address : Nat) {count : Nat} (pos : 1 ≤ count)
    (next : Nat) :
    Coherent { table.append address name with
      references := table.references.insert name count
      nextIndex := next } := by
  have distinct := h.toDistinct.append new address
  refine ⟨⟨distinct.unique, distinct.nodup⟩, ?_, fun {other a} mem => ?_⟩
  · exact (h.toBacked.append address _).count (mem_namesAt_append.mpr (.inr ⟨rfl, rfl⟩)) pos next
  · rw [Std.ExtTreeMap.mem_insert, Std.compare_eq_iff_eq]
    rcases mem_namesAt_append.mp mem with old | ⟨-, rfl⟩
    · exact .inr (h.counted old)
    · exact .inl rfl

theorem Coherent.acquire {table : LabelTable} (h : table.Coherent) {name : String} {address : Nat}
    (mem : name ∈ table.namesAt address) : (table.acquire name).Coherent where
  toDistinct := ⟨h.unique, h.nodup⟩
  toBacked := h.toBacked.count mem (by omega) _
  counted := fun mem => Std.ExtTreeMap.mem_insert.mpr (.inr (h.counted mem))

theorem Coherent.release {table : LabelTable} (h : table.Coherent) (name : String) :
    (table.release name).2.Coherent := by
  refine ⟨h.toDistinct.release name, h.toBacked.release name, fun {other address} mem => ?_⟩
  rw [h.toDistinct.namesAt_release] at mem
  revert mem
  rw [LabelTable.release]
  split
  · exact h.counted
  · split
    · exact fun mem => Std.ExtTreeMap.mem_insert.mpr (.inr (h.counted mem))
    · intro mem
      obtain ⟨mem, ne⟩ := List.mem_filter.mp mem
      rw [references_unlist, Std.ExtTreeMap.mem_erase, ne_eq, Std.compare_eq_iff_eq]
      exact ⟨fun eq => by simp [eq] at ne, h.counted mem⟩

/-- **One operation** keeps a table coherent just when what it mints is fresh. -/
theorem Coherent.step_iff {table after : LabelTable} {operation : Operation} (h : table.Coherent)
    (effect : Effect table operation after) : after.Coherent ↔ operation.Fresh table := by
  cases effect with
  | mint mints address =>
    refine ⟨fun k _ => ?_, fun fresh => h.enter (fresh mints) address Nat.le.refl _⟩
    have distinct : (table.append address (mintedName table.nextIndex)).Distinct :=
      ⟨k.unique, k.nodup⟩
    exact distinct.new_of_append
  | bind address new =>
    exact iff_of_true (h.enter new address (by omega) _)
      (by simp [Operation.Fresh, Operation.Mints])
  | refer mintless mem =>
    exact iff_of_true (h.acquire mem) (by simp [Operation.Fresh, mintless])
  | release name =>
    exact iff_of_true (h.release name) (by simp [Operation.Fresh, Operation.Mints])

/-- **A history** keeps its table coherent throughout just when each of its
operations mints a fresh name or none. -/
theorem coherent_throughout_iff (operations : List Operation) :
    (∀ done, done <+: operations → (run done).Coherent) ↔
      ∀ done operation, done ++ [operation] <+: operations → operation.Fresh (run done) := by
  induction operations using List.reverseRecOn with
  | nil => simp [run, Coherent.empty]
  | append_singleton operations last ih =>
    have step : (run operations).Coherent →
        ((run (operations ++ [last])).Coherent ↔ last.Fresh (run operations)) := fun h => by
      rw [run_concat]
      exact h.step_iff (last.effect _)
    constructor
    · intro all
      have early := ih.mp fun done before => all done (List.prefix_concat_iff.mpr (.inr before))
      intro done operation before
      rcases List.prefix_concat_iff.mp before with eq | before
      · obtain ⟨rfl, rfl⟩ := List.append_singleton_inj.mp eq
        exact (step (all done (List.prefix_append ..))).mp (all _ (List.prefix_refl _))
      · exact early done operation before
    · intro fresh
      have early := ih.mpr fun done operation before =>
        fresh done operation (List.prefix_concat_iff.mpr (.inr before))
      intro done before
      rcases List.prefix_concat_iff.mp before with rfl | before
      · exact (step (early _ (List.prefix_refl _))).mpr (fresh _ _ (List.prefix_refl _))
      · exact early done before

/-! ## Names the counter has yet to reach -/

/-- Every minted name in use was minted before the next one. -/
def Behind (table : LabelTable) : Prop :=
  ∀ index address, mintedName index ∈ table.namesAt address → index < table.nextIndex

/-- A name that an operation gives is none that the counter has yet to mint. -/
def Operation.Reserved (table : LabelTable) (operation : Operation) : Prop :=
  ∀ index address, operation = .addNamed address (mintedName index) → index < table.nextIndex

theorem Behind.fresh {table : LabelTable} (h : table.Behind) (operation : Operation) :
    operation.Fresh table := by
  intro _ address mem
  exact Nat.lt_irrefl _ (h _ address mem)

theorem mem_namesAt_of_release {table : LabelTable} {name other : String} {address : Nat}
    (mem : other ∈ (table.release name).2.namesAt address) : other ∈ table.namesAt address := by
  revert mem
  rw [release]
  split
  · exact id
  · split
    · exact id
    · rw [namesAt_unlist]
      split
      · exact fun mem => (List.mem_filter.mp mem).1
      · exact id

theorem Behind.step {table after : LabelTable} {operation : Operation} (h : table.Behind)
    (reserved : operation.Reserved table) (effect : Effect table operation after) :
    after.Behind := by
  intro index address mem
  cases effect with
  | mint _ other =>
    rcases mem_namesAt_append.mp mem with old | ⟨-, eq⟩
    · exact Nat.lt_succ_of_lt (h index address old)
    · rw [mintedName_injective eq]
      exact Nat.lt_succ_self _
  | bind other new =>
    rcases mem_namesAt_append.mp mem with old | ⟨-, eq⟩
    · exact h index address old
    · exact reserved index other (by rw [eq])
  | refer _ _ => exact h index address mem
  | release name =>
    rw [nextIndex_release]
    exact h index address (mem_namesAt_of_release mem)

theorem run_behind {operations : List Operation}
    (reserved : ∀ done operation, done ++ [operation] <+: operations →
      operation.Reserved (run done)) : (run operations).Behind := by
  induction operations using List.reverseRecOn with
  | nil => simp [Behind, run, namesAt]
  | append_singleton operations last ih =>
    rw [run_concat]
    refine (ih ?_).step (reserved _ _ (List.prefix_refl _)) (last.effect _)
    intro done operation before
    exact reserved done operation (List.prefix_concat_iff.mpr (.inr before))

/-- **The table after any operations.** An address is listed as long as it has a
name, and the names that are counted have a reference and stand somewhere. The
table is coherent all along just when each minted name stands nowhere yet, and it
is if no operation gives a name that the counter has yet to mint. -/
theorem run_coherent (operations : List Operation) :
    (run operations).Backed ∧
    ((∀ done, done <+: operations → (run done).Coherent) ↔
      ∀ done operation, done ++ [operation] <+: operations → operation.Fresh (run done)) ∧
    ((∀ done operation, done ++ [operation] <+: operations → operation.Reserved (run done)) →
      (run operations).Coherent) := by
  refine ⟨run_backed operations, coherent_throughout_iff operations, fun reserved => ?_⟩
  refine (coherent_throughout_iff operations).mpr ?_ operations (List.prefix_refl _)
  intro done operation before
  have early : ∀ start other, start ++ [other] <+: done → other.Reserved (run start) := by
    intro start other first
    exact reserved start other (first.trans ((List.prefix_append ..).trans before))
  exact (run_behind early).fresh operation

/-- A history in which a given name aliases a minted one, a minted name is given
again, and the oldest name of an address goes. -/
def aliasing : List Operation :=
  [.add 16, .addNamed 32 "MAIN", .addNamed 32 "LABEL_0", .addUnique 32, .release "MAIN"]

theorem run_coherent_aliasing :
    (run aliasing).toList = [(16, ["LABEL_0"]), (32, ["LABEL_1"])] ∧
      (run aliasing).refCount "LABEL_0" = 2 ∧ (run aliasing).Coherent := by
  refine ⟨by decide +kernel, by decide +kernel, (run_coherent aliasing).2.2 ?_⟩
  rintro done _ ⟨rest, eq⟩ index address rfl
  rcases done with _ | ⟨_, _ | ⟨_, _ | ⟨_, _ | ⟨_, _ | ⟨_, _⟩⟩⟩⟩⟩
  all_goals simp [aliasing] at eq
  · obtain ⟨rfl, ⟨rfl, name⟩, rfl⟩ := eq
    simp [mintedName, stem, String.ext_iff] at name
  · obtain ⟨rfl, rfl, ⟨rfl, name⟩, rfl⟩ := eq
    have zero : index = 0 := mintedName_injective (name.trans (by decide +kernel))
    subst zero
    decide +kernel

/-- A name is given that the counter then mints at another address: it stands at
both, and once its count is given back it stands at one of them uncounted. -/
theorem minted_name_in_use :
    ¬ (run [.addNamed 16 "LABEL_0", .addUnique 32]).Coherent ∧
      "LABEL_0" ∈ (run [.addNamed 16 "LABEL_0", .addUnique 32, .release "LABEL_0"]).namesAt 32 ∧
      (run [.addNamed 16 "LABEL_0", .addUnique 32, .release "LABEL_0"]).refCount "LABEL_0" = 0 := by
  refine ⟨?_, by decide +kernel, by decide +kernel⟩
  intro h
  have first : "LABEL_0" ∈ (run [.addNamed 16 "LABEL_0", .addUnique 32]).namesAt 16 := by
    decide +kernel
  have second : "LABEL_0" ∈ (run [.addNamed 16 "LABEL_0", .addUnique 32]).namesAt 32 := by
    decide +kernel
  exact absurd (h.unique first second) (by decide)

end EventScript.LabelTable
