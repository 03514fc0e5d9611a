/-
Label accounting. A script holds one reference on a label for each time an entry
mentions it, no more and no less (`Balanced.counted`). References are taken when
an entry is placed and given back when a table is cut; so a name goes exactly
when the last entry that mentions it does, and until then it stands at the
address it was taken for.

The argument is one step lemma for each kind of change: `Balanced.claims` for an
entry that is placed with the references it takes, `Balanced.recut` for a table
that is cut and gives references back.
-/
import Mathlib.Data.List.Basic
import EventScript.Proofs.Bounded
import EventScript.Proofs.Placement

namespace EventScript

/-- The names an entry mentions, each as often as it does. -/
def Entry.names : Entry → List String
  | .entrypoint _ destination => [destination]
  | .instruction decoded => decoded.operands.filterMap Operand.label
  | .pointerTable _ labels => labels
  | _ => []

/-- How often the entries of a script mention a name. -/
def Script.mentions (script : Script) (name : String) : Nat :=
  (script.entries.toList.flatMap Entry.names).count name

/-- Each name an entry mentions stands at the address it was taken for: the word
of an entry point, what an operand resolves to, or what a word of a table names. -/
def Entry.Resolves (image : Image) (stands : String → Nat → Prop) : Entry → Prop
  | .entrypoint address name => stands name (image.wordAt address).toNat
  | .instruction decoded => ∀ operand ∈ decoded.operands, ∀ name, operand.label = some name →
      ∃ target, operand.resolved = some target ∧ stands name target
  | .pointerTable address labels => ∀ (k : Nat) (name : String), labels[k]? = some name →
      ∃ target : Nat, tableDestination address (image.wordAt (address + 4 * k)) = target ∧
        stands name target
  | _ => True

/-! ## Counting mentions -/

theorem Entry.names_of_width? {e : Entry} (h : e.width? = none) : e.names = [] := by
  cases e with
  | operandSlot | continuation => rfl
  | _ => cases h

theorem count_flatten_set {lists : List (List String)} {n : Nat} {old : List String}
    (at_n : lists[n]? = some old) (new : List String) (name : String) :
    (lists.set n new).flatten.count name + old.count name =
      lists.flatten.count name + new.count name := by
  induction lists generalizing n with
  | nil => cases at_n
  | cons first rest ih =>
    cases n with
    | zero =>
      cases at_n
      simp only [List.set_cons_zero, List.flatten_cons, List.count_append]
      omega
    | succ n =>
      have := ih at_n
      simp only [List.set_cons_succ, List.flatten_cons, List.count_append]
      omega

theorem Script.mentions_eq (script : Script) (name : String) :
    script.mentions name = (script.entries.toList.map Entry.names).flatten.count name := by
  rw [mentions, List.flatMap_def]

/-- Mentions are counted slot by slot. -/
theorem mentions_congr {s t : Script}
    (same : ∀ m : Nat, t.entries[m]?.map Entry.names = s.entries[m]?.map Entry.names)
    (name : String) : t.mentions name = s.mentions name := by
  have lists : t.entries.toList.map Entry.names = s.entries.toList.map Entry.names := by
    refine List.ext_getElem? fun m => ?_
    simpa using same m
  rw [Script.mentions_eq, Script.mentions_eq, lists]

/-- A change of one slot changes the mentions by what is mentioned there. -/
theorem mentions_update {s t : Script} {n : Nat} {old new : Entry}
    (old_at : s.entries[n]? = some old) (new_at : t.entries[n]? = some new)
    (same : ∀ m : Nat, m ≠ n → t.entries[m]?.map Entry.names = s.entries[m]?.map Entry.names)
    (name : String) :
    t.mentions name + old.names.count name = s.mentions name + new.names.count name := by
  have lists : t.entries.toList.map Entry.names =
      (s.entries.toList.map Entry.names).set n new.names := by
    refine List.ext_getElem? fun m => ?_
    by_cases eq : m = n
    · subst eq
      have inside := (Array.getElem?_eq_some_iff.mp old_at).1
      rw [List.getElem?_set_self (by simpa using inside)]
      simp [new_at]
    · rw [List.getElem?_set_ne (Ne.symm eq)]
      simpa using same m eq
  rw [Script.mentions_eq, Script.mentions_eq, lists]
  exact count_flatten_set (by simp [old_at]) new.names name

theorem mentions_pos {s : Script} {n : Nat} {e : Entry} {name : String}
    (at_n : s.entries[n]? = some e) (mem : name ∈ e.names) : 0 < s.mentions name := by
  rw [Script.mentions, List.count_pos_iff, List.mem_flatMap]
  exact ⟨e, Array.mem_toList_iff.mpr (Array.mem_of_getElem? at_n), mem⟩

theorem Claims.names_rest {before after : Array Entry} {n : Nat} {e : Entry}
    (c : Claims before n e after) {m : Nat} (other : m ≠ n) :
    after[m]?.map Entry.names = before[m]?.map Entry.names := by
  rcases c.rest other with same | ⟨free, k, t, rfl, tail, at_m⟩
  · rw [same]
  · rw [free, at_m]
    have later := Entry.width?_of_mem_tail (List.mem_of_getElem? tail)
    exact congrArg some (Entry.names_of_width? later)

theorem Recut.names_rest {before after : Array Entry} {n keep : Nat} {labels : List String}
    (c : Recut before n labels keep after) {m : Nat} (other : m ≠ n) :
    after[m]?.map Entry.names = before[m]?.map Entry.names := by
  by_cases inner : n < m ∧ m < n + keep
  · obtain ⟨sealed, e, at_m, loose⟩ := c.kept inner.1 inner.2
    rw [sealed, at_m]
    rcases loose with rfl | rfl | ⟨_, _, rfl⟩ <;> rfl
  by_cases own : n + keep ≤ m ∧ m < n + labels.length ∧ before[m]? = some (.continuation (4 * n))
  · rw [c.freed own.1 own.2.1 own.2.2, own.2.2]
    rfl
  · rw [c.rest other inner own]

/-! ## The balance -/

/-- An address that can carry a label: that of a slot of the image. -/
def Landed (image : Image) (address : Nat) : Prop :=
  address % 4 = 0 ∧ address < image.byteLength

/-- As many references are held on a name as entries mention it, and it stands
at the address it was taken for. -/
structure Balanced (image : Image) (s : Script) : Prop where
  sound : s.labels.Sound
  counted : ∀ name, s.labels.refCount name = s.mentions name
  landed : ∀ {address name}, name ∈ s.labels.namesAt address → Landed image address
  bound : ∀ {n : Nat} {e : Entry}, s.entries[n]? = some e →
    e.Resolves image fun name address => name ∈ s.labels.namesAt address

/-- The references an entry takes: addresses with their names. -/
structure References (image : Image) (e : Entry) (taken : List (Nat × String)) : Prop where
  names : e.names = taken.map Prod.snd
  resolves : e.Resolves image fun name address => (address, name) ∈ taken
  landed : ∀ {address name}, (address, name) ∈ taken → Landed image address

namespace Entry

theorem Resolves.mono {image : Image} {P Q : String → Nat → Prop} {e : Entry}
    (imp : ∀ name ∈ e.names, ∀ address, P name address → Q name address)
    (h : e.Resolves image P) : e.Resolves image Q := by
  cases e with
  | entrypoint address name => exact imp name (List.mem_singleton.mpr rfl) _ h
  | instruction decoded =>
    intro operand mem name label
    obtain ⟨target, resolved, there⟩ := h operand mem name label
    exact ⟨target, resolved, imp name (List.mem_filterMap.mpr ⟨operand, mem, label⟩) _ there⟩
  | pointerTable address labels =>
    intro k name label
    obtain ⟨target, named, there⟩ := h k name label
    exact ⟨target, named, imp name (List.mem_of_getElem? label) _ there⟩
  | _ => trivial

theorem Resolves.of_width? {image : Image} {P : String → Nat → Prop} {e : Entry}
    (h : e.width? = none) : e.Resolves image P := by
  cases e with
  | operandSlot | continuation => trivial
  | _ => cases h

/-- What a cut table still names, it named before. -/
theorem Resolves.take {image : Image} {P : String → Nat → Prop} {address : Nat}
    {labels : List String} (keep : Nat) (h : (pointerTable address labels).Resolves image P) :
    (pointerTable address (labels.take keep)).Resolves image P := by
  intro k name label
  rw [List.getElem?_take] at label
  split at label
  · exact h k name label
  · cases label

end Entry

namespace Balanced

variable {image : Image} {s t : Script}

theorem blank (image : Image) (size : Nat) : Balanced image (.blank size) := by
  refine ⟨.empty, fun name => ?_, ?_, ?_⟩
  · have none : (Script.blank size).mentions name = 0 := by
      rw [Script.mentions_eq]
      simp [Script.blank, Entry.names]
    rw [none]
    simp [Script.blank, LabelTable.refCount]
  · intro address name mem
    simp [Script.blank, LabelTable.namesAt] at mem
  · intro n e at_n
    simp only [Script.blank, Array.getElem?_replicate] at at_n
    split at at_n
    · cases at_n
      trivial
    · cases at_n

/-- An entry is placed and takes its references. -/
theorem claims (h : Balanced image s) {n : Nat} {e : Entry} {taken : List (Nat × String)}
    (c : Claims s.entries n e t.entries) (references : References image e taken)
    (takes : s.labels.Takes taken t.labels) : Balanced image t := by
  refine ⟨takes.sound, fun name => ?_, ?_, ?_⟩
  · have update := mentions_update c.free c.head (fun m other => c.names_rest other) name
    rw [takes.counted, h.counted, ← references.names]
    simpa [Entry.names] using update.symm
  · intro address name mem
    rcases takes.new address (List.ne_nil_of_mem mem) with old | new
    · obtain ⟨first, mem⟩ := List.exists_mem_of_ne_nil _ old
      exact h.landed mem
    · obtain ⟨⟨target, name⟩, taken, rfl⟩ := List.mem_map.mp new
      exact references.landed taken
  · intro m other at_m
    rcases c.cases_of_after at_m with old | ⟨rfl, rfl⟩ | ⟨k, rfl, tail⟩
    · exact (h.bound old).mono fun _ _ _ there => takes.kept there
    · exact references.resolves.mono fun _ _ _ there => takes.there there
    · exact .of_width? (Entry.width?_of_mem_tail (List.mem_of_getElem? tail))

/-- A table is cut and gives back the references it does not keep. -/
theorem corrected (h : Balanced image s) {n keep : Nat} {labels : List String}
    (c : s.Corrected n labels keep t) : Balanced image t := by
  have gives := c.gives h.sound
  have counted : ∀ name, t.labels.refCount name = t.mentions name := fun name => by
    have update := mentions_update c.entries.old c.entries.new
      (fun m other => c.entries.names_rest other) name
    have parts : labels.count name =
        (labels.take keep).count name + (labels.drop keep).count name := by
      rw [← List.count_append, List.take_append_drop]
    simp only [Entry.names] at update
    rw [gives.counted, h.counted]
    omega
  refine ⟨gives.sound, counted, fun mem => h.landed ((gives.kept _ _).mp mem).1, ?_⟩
  intro m e at_m
  -- A name that is still mentioned has not lost its last reference.
  have still : ∀ name ∈ e.names, ∀ address, name ∈ s.labels.namesAt address →
      name ∈ t.labels.namesAt address := fun name mem address there =>
    (gives.kept _ _).mpr ⟨there, counted name ▸ mentions_pos at_m mem⟩
  rcases c.entries.cases_of_after at_m with ⟨rfl, rfl⟩ | ⟨-, -, rfl⟩ | rfl | ⟨old, -⟩
  · exact ((h.bound c.entries.old).take keep).mono still
  · trivial
  · trivial
  · exact (h.bound old).mono still

end Balanced

namespace Recovery

/-! ## What is taken -/

theorem landed_of_isValidOp {image : Image} {address : Nat}
    (h : Likelihood.isValidOp image address = true) : Landed image address := by
  rw [Likelihood.isValidOp, Bool.and_eq_true] at h
  obtain ⟨header, decoded⟩ := Option.isSome_iff_exists.mp h.2
  rw [Image.headerAt?] at decoded
  split at decoded
  · rename_i aligned
    obtain ⟨word, at_slot, -⟩ := Option.bind_eq_some_iff.mp decoded
    have inside := (Array.getElem?_eq_some_iff.mp at_slot).1
    refine ⟨aligned, ?_⟩
    rw [Image.byteLength]
    omega
  · cases decoded

theorem entrypoint_references {image : Image} {n : Nat} {word : Word} (name : String)
    (word_at : image[n]? = some word) (valid : Likelihood.isValidOp image word.toNat = true) :
    References image (.entrypoint (4 * n) name) [(word.toNat, name)] := by
  refine ⟨rfl, ?_, ?_⟩
  · have here : image.wordAt (4 * n) = word := by
      rw [Image.wordAt, show 4 * n / 4 = n by omega, word_at]
      rfl
    show (_, _) ∈ [_]
    rw [here]
    exact List.mem_singleton.mpr rfl
  · intro address other mem
    cases List.mem_singleton.mp mem
    exact landed_of_isValidOp valid

theorem Tabled.references {image : Image} {s : Script} {table : Nat} {destinations : List Nat}
    (h : Tabled image s table destinations) {labels : List String}
    (length : labels.length = destinations.length) :
    References image (.pointerTable table labels) (destinations.zip labels) := by
  refine ⟨?_, ?_, ?_⟩
  · exact (List.map_snd_zip (Nat.le_of_eq length)).symm
  · intro k name label
    have bound := (List.getElem?_eq_some_iff.mp label).1
    have at_k := List.getElem?_eq_getElem (show k < destinations.length by omega)
    refine ⟨_, h.named at_k, ?_⟩
    refine List.mem_of_getElem? (i := k) ?_
    rw [List.getElem?_zip_eq_some]
    exact ⟨at_k, label⟩
  · intro address name mem
    have mem := (List.of_mem_zip mem).1
    obtain ⟨k, at_k⟩ := List.getElem?_of_mem mem
    have named := h.named at_k
    have inside := h.inside address mem
    have aligned := h.aligned
    rw [tableDestination] at named
    exact ⟨by omega, by omega⟩

/-- The reference an operand holds. -/
def reference? (operand : Operand) : Option (Nat × String) :=
  operand.resolved.bind fun target => operand.label.map fun name => (target, name)

theorem reference?_eq_some_iff {operand : Operand} {target : Nat} {name : String} :
    reference? operand = some (target, name) ↔
      operand.resolved = some target ∧ operand.label = some name := by
  simp [reference?, Option.bind_eq_some_iff]

/-- Labelling an operand takes the reference it holds then. -/
theorem takes_labelOperand {labels : LabelTable} (h : labels.Sound) {operand : Operand}
    (unlabelled : operand.label = none) :
    labels.Takes (reference? (labelOperand labels operand).1).toList
      (labelOperand labels operand).2 := by
  rw [labelOperand]
  split
  · split
    · rename_i target resolved
      simp only [reference?, resolved, Option.bind_some, Option.map_some, Option.toList_some]
      exact h.takes_add target
    · rename_i unknown
      simp only [reference?, unknown, Option.bind_none, Option.toList_none]
      exact .none h
  · have none : reference? operand = none := by simp [reference?, unlabelled]
    rw [none]
    exact .none h

theorem takes_labelOperands {labels : LabelTable} (h : labels.Sound) {operands : List Operand}
    (unlabelled : ∀ operand ∈ operands, operand.label = none) :
    labels.Takes ((labelOperands labels operands).1.filterMap reference?)
      (labelOperands labels operands).2 := by
  induction operands generalizing labels with
  | nil => exact .none h
  | cons operand rest ih =>
    obtain ⟨first, others⟩ := List.forall_mem_cons.mp unlabelled
    have taken := takes_labelOperand h first
    have all := taken.append (ih taken.sound others)
    rw [labelOperands, List.filterMap_cons]
    simp only
    split
    · rename_i none
      rwa [none] at all
    · rename_i reference some
      rwa [some] at all

/-- Only inline operands are labelled, with the name of what they resolve to. -/
theorem label_labelOperand {labels : LabelTable} {operand : Operand} {name : String}
    (unlabelled : operand.label = none)
    (label : (labelOperand labels operand).1.label = some name) :
    (labelOperand labels operand).1.mode.isInline = true ∧
      ∃ target, (labelOperand labels operand).1.resolved = some target := by
  revert label
  rw [labelOperand]
  split
  · rename_i inline
    split
    · rename_i target resolved
      exact fun _ => ⟨inline, target, resolved⟩
    · simp [unlabelled]
  · simp [unlabelled]

theorem label_labelOperands {labels : LabelTable} {operands : List Operand}
    (unlabelled : ∀ operand ∈ operands, operand.label = none) {operand : Operand}
    (mem : operand ∈ (labelOperands labels operands).1) {name : String}
    (label : operand.label = some name) :
    operand.mode.isInline = true ∧ ∃ target, operand.resolved = some target := by
  induction operands generalizing labels with
  | nil => cases mem
  | cons first rest ih =>
    obtain ⟨none, others⟩ := List.forall_mem_cons.mp unlabelled
    rw [labelOperands] at mem
    rcases List.mem_cons.mp mem with rfl | mem
    · exact label_labelOperand none label
    · exact ih others mem

theorem resolve_of_isInline {mode : Mode} {header : Nat} {words : List Word} {target : Int}
    (inline : mode.isInline = true) (h : mode.resolve header words = some target) :
    ∃ distance : Int, target = header + distance * 4 := by
  obtain ⟨first, -, h⟩ := Option.bind_eq_some_iff.mp h
  cases mode with
  | inline1 | inline2 | inline3 | inlineTable1 | inlineTable2 | inlineTable3 | inlineTable4 =>
    exact ⟨_, (Option.some.inj h).symm⟩
  | _ => cases inline

/-- What an inline operand points at lies in the image. -/
theorem Read.landed {image : Image} {diagnostics : List Diagnostic} {header cursor target : Nat}
    {operand : Operand} (h : Read image diagnostics header cursor operand)
    (aligned : header % 4 = 0) (inline : operand.mode.isInline = true)
    (resolved : operand.resolved = some target) : Landed image target := by
  cases h with
  | kept word supported inside near =>
    obtain ⟨value, known, rfl⟩ := Option.map_eq_some_iff.mp resolved
    obtain ⟨distance, eq⟩ := resolve_of_isInline inline known
    have within : ¬ (value < 0 ∨ (image.byteLength : Int) ≤ value) :=
      fun out => near value known ⟨inline, out⟩
    exact ⟨by omega, by omega⟩
  | zeroed => cases inline

theorem ReadAll.mem {image : Image} {diagnostics : List Diagnostic} {header cursor : Nat}
    {operands : List Operand} (h : ReadAll image diagnostics header cursor operands)
    {operand : Operand} (mem : operand ∈ operands) :
    ∃ place, Read image diagnostics header place operand := by
  induction h with
  | nil => cases mem
  | cons first _ ih =>
    rcases List.mem_cons.mp mem with rfl | mem
    · exact ⟨_, first⟩
    · exact ih mem

theorem Readable.references {image : Image} {s : Script} {read : Instruction}
    (h : Readable image s read) :
    References image (.instruction (placeInstruction s read).1)
      ((labelOperands s.labels read.operands).1.filterMap reference?) := by
  refine ⟨?_, ?_, ?_⟩
  · show List.filterMap Operand.label _ = _
    rw [List.map_filterMap]
    refine List.filterMap_congr fun operand mem => ?_
    cases label : operand.label with
    | none => simp [reference?, label]
    | some name =>
      obtain ⟨-, target, resolved⟩ := label_labelOperands h.unlabelled mem label
      simp [reference?, label, resolved]
  · intro operand mem name label
    obtain ⟨-, target, resolved⟩ := label_labelOperands h.unlabelled mem label
    refine ⟨target, resolved, List.mem_filterMap.mpr ⟨operand, mem, ?_⟩⟩
    exact reference?_eq_some_iff.mpr ⟨resolved, label⟩
  · intro address name taken
    obtain ⟨operand, mem, reference⟩ := List.mem_filterMap.mp taken
    obtain ⟨resolved, label⟩ := reference?_eq_some_iff.mp reference
    obtain ⟨inline, -⟩ := label_labelOperands h.unlabelled mem label
    obtain ⟨place, found⟩ := (h.operands.labelled s.labels).mem mem
    have aligned := (Script.entryAt?_eq_some h.free).1
    exact found.landed (by omega) inline resolved

/-! ## The account of a recovery -/

theorem Move.balanced {image : Image} {s t : Script} (move : Move image s t)
    (explored : Explored image s) (h : Balanced image s) : Balanced image t := by
  cases move with
  | aside aside => cases aside with
    | note keeps entries labels =>
      refine ⟨labels ▸ h.sound, fun name => ?_, ?_, ?_⟩
      · rw [labels, h.counted, Script.mentions, Script.mentions, entries]
      · rw [labels]
        exact h.landed
      · rw [labels, entries]
        exact h.bound
    | @table address destinations keeps found entries labels =>
      have length := s.labels.length_addAll destinations
      exact h.claims (entries ▸ found.claims length) (found.references length)
        (labels ▸ h.sound.takes_addAll destinations)
  | entrypoint word_at valid free named =>
    subst named
    exact h.claims (entrypoint_claims free) (entrypoint_references _ word_at valid)
      (h.sound.takes_addUnique _)
  | instruction readable placed =>
    subst placed
    refine h.claims (placeInstruction_claims readable explored.size) readable.references ?_
    have taken := takes_labelOperands h.sound readable.unlabelled
    simp only [placeInstruction, Script.setEntry]
    rwa [claimOperands_eq]
  | @correct head corrected =>
    subst corrected
    obtain ⟨same, -⟩ | ⟨n, labels, keep, -, c⟩ := Script.correctTable_cases explored.laid head
    · rwa [same]
    · exact h.corrected c
  | @text text found laid =>
    subst laid
    have none : References image (.encodedString text) [] := ⟨rfl, trivial, fun mem => by cases mem⟩
    refine h.claims found.claims none ?_
    rw [Script.labels_fill]
    exact .none h.sound
  | data filled =>
    subst filled
    refine ⟨h.sound, fun name => ?_, h.landed, fun at_m => ?_⟩
    · rw [mentions_congr fun m => ?_]
      · exact h.counted name
      · rw [getElem?_fillData, Option.map_map]
        congr 1
        funext e
        cases e <;> rfl
    · rcases fillData_cases at_m with ⟨-, rfl⟩ | ⟨old, -⟩
      · trivial
      · exact h.bound old

end Recovery

/-- The account of the labels of a script of the image. -/
structure Accounted (image : Image) (script : Script) : Prop where
  /-- A name counts a reference for each time an entry mentions it. -/
  counted : ∀ name, script.labels.refCount name = script.mentions name
  listed : ∀ {address names}, (address, names) ∈ script.labels.toList →
    address % 4 = 0 ∧ address < image.byteLength ∧ names ≠ [] ∧ names.Nodup
  held : ∀ {address names name}, (address, names) ∈ script.labels.toList → name ∈ names →
    1 ≤ script.labels.refCount name
  /-- No two addresses carry one name. -/
  unique : ∀ {a b names others name}, (a, names) ∈ script.labels.toList →
    (b, others) ∈ script.labels.toList → name ∈ names → name ∈ others → a = b
  /-- Every name an entry mentions is found at the address it was taken for. -/
  found : ∀ {n : Nat} {e : Entry}, script.entries[n]? = some e →
    e.Resolves image fun name address => script.labels.addressOf? name = some address

theorem Balanced.accounted {image : Image} {script : Script} (h : Balanced image script) :
    Accounted image script := by
  have stored : ∀ {address names}, (address, names) ∈ script.labels.toList →
      script.labels.namesAt address = names ∧ script.labels.contains address = true :=
    fun {address names} mem => by
      rw [LabelTable.toList, Std.ExtTreeMap.mem_toList_iff_getElem?_eq_some] at mem
      refine ⟨LabelTable.namesAt_eq mem, ?_⟩
      rw [LabelTable.contains, Std.ExtTreeMap.contains_eq_isSome_getElem?, mem]
      rfl
  refine ⟨h.counted, ?_, ?_, ?_, ?_⟩
  · intro address names mem
    obtain ⟨rfl, contained⟩ := stored mem
    have some := (h.sound.listed address).mp contained
    obtain ⟨name, carried⟩ := List.exists_mem_of_ne_nil _ some
    obtain ⟨aligned, inside⟩ := h.landed carried
    exact ⟨aligned, inside, some, h.sound.nodup address⟩
  · intro address names name mem carried
    obtain ⟨rfl, -⟩ := stored mem
    exact (h.sound.counted name).mpr ⟨address, carried⟩
  · intro a b names others name mem mem' carried carried'
    obtain ⟨rfl, -⟩ := stored mem
    obtain ⟨rfl, -⟩ := stored mem'
    exact h.sound.unique carried carried'
  · intro n e at_n
    exact (h.bound at_n).mono fun name _ address there => h.sound.addressOf?_eq_some_iff.mpr there

namespace Recovery

theorem Moves.balanced {image : Image} {s t : Script} (h : Moves image s t)
    (explored : Explored image s) (start : Balanced image s) : Balanced image t := by
  have both := h.invariant (P := fun s => Explored image s ∧ Balanced image s)
    (fun move held => ⟨held.1.move move, move.balanced held.1 held.2⟩) ⟨explored, start⟩
  exact both.2

/-- **Labels are accounted for over a whole recovery**: every name counts its
mentions, and stands at one address of the image, the one it was taken for. -/
theorem disassemble_accounted {catalogue : Catalogue} {options : Options} {image : Image}
    {script : Script} (h : disassemble catalogue options image = .ok script) :
    Accounted image script :=
  ((disassemble_moves h).balanced (.blank image) (.blank image image.size)).accounted

/-- In the sample the call and the second entry of the table find their labels where they
lead, and the count of either label is that of its mentions. -/
theorem disassemble_accounted_sample :
    ∃ script, disassemble sampleCatalogue {} sampleImage = .ok script ∧
      Accounted sampleImage script ∧
      script.entries[10]? = some (.instruction sampleGosub) ∧
      script.labels.addressOf? "LABEL_5" = some 52 ∧
      script.labels.refCount "LABEL_5" = script.mentions "LABEL_5" ∧
      script.entries[4]? = some (.pointerTable 16 ["LABEL_2", "LABEL_3"]) ∧
      script.labels.addressOf? "LABEL_3" = some 48 ∧
      script.labels.refCount "LABEL_3" = script.mentions "LABEL_3" := by
  obtain ⟨script, h, at_four, at_ten, -⟩ := sample_disassembles
  have accounted := disassemble_accounted h
  obtain ⟨target, resolved, called⟩ := accounted.found at_ten _ List.mem_cons_self "LABEL_5" rfl
  cases resolved
  obtain ⟨destination, named, listed⟩ := accounted.found at_four 1 "LABEL_3" rfl
  obtain rfl : destination = 48 := Int.ofNat_inj.mp (named.symm.trans (by decide))
  exact ⟨script, h, accounted, at_ten, called, accounted.counted _, at_four, listed,
    accounted.counted _⟩

end Recovery
end EventScript
