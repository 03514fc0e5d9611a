/-
What the readers of an image find. Each reader goes over the words of an image
and the slots of a script; here stands once what its answer says about both, so
that nothing below has to open a reader again.

* `readOperands_ok`: operands follow each other, each holds the words of the
  image or is a zero in the place of a pointer that leads outside, and their
  slots are free (`ReadAll`).
* `scanBranches_found`, `scanData_found`: the destinations of a table are those
  its words name, and its slots are free (`Tabled`).
* `collectCodes_found`: the codes of a text are the half-words of the image, and
  their slots are free (`Texted`).
-/
import EventScript.Proofs.Layout
import EventScript.Recovery

namespace EventScript

/-- The half-word number `half` behind an address, two a word and the low one first. -/
def Image.halfAt (image : Image) (address half : Nat) : UInt16 :=
  let word := image.wordAt (address + 4 * (half / 2))
  if half % 2 = 0 then word.low else word.high

namespace Recovery

/-! ## Operands -/

/-- The words of the operand at `cursor`, whose first word is `first`. -/
def wordsOfOperand (image : Image) (cursor : Nat) (first : Word) : List Word :=
  (image.extract (cursor / 4) (cursor / 4 + (Mode.ofWord first).width first)).toList

/-- Whether an operand that resolves to `target` points outside the image. -/
def Astray (image : Image) (mode : Mode) (target : Int) : Prop :=
  mode.isInline = true ∧ (target < 0 ∨ (image.byteLength : Int) ≤ target)

/-- The operand read at `cursor`, for a header at `header`: the words of the
image, or a zero in the place of a pointer that leads outside, which was noted. -/
inductive Read (image : Image) (diagnostics : List Diagnostic) (header cursor : Nat) :
    Operand → Prop
  | kept {first : Word} {label : Option String} (word : image[cursor / 4]? = some first)
      (supported : (Mode.ofWord first).isSupported = true)
      (inside : cursor / 4 + (Mode.ofWord first).width first ≤ image.size)
      (near : ∀ target, (Mode.ofWord first).resolve header (wordsOfOperand image cursor first) =
        some target → ¬ Astray image (Mode.ofWord first) target) :
      Read image diagnostics header cursor
        { address := cursor
          mode := Mode.ofWord first
          rawWords := wordsOfOperand image cursor first
          resolved := ((Mode.ofWord first).resolve header
            (wordsOfOperand image cursor first)).map Int.toNat
          label }
  | zeroed {first : Word} {target : Int} (word : image[cursor / 4]? = some first)
      (inside : cursor / 4 + (Mode.ofWord first).width first ≤ image.size)
      (resolved : (Mode.ofWord first).resolve header (wordsOfOperand image cursor first) =
        some target)
      (astray : Astray image (Mode.ofWord first) target)
      (noted : ⟨cursor, .pointerOutOfRange target⟩ ∈ diagnostics) :
      Read image diagnostics header cursor (.zeroed cursor (wordsOfOperand image cursor first))

/-- Operands read one behind the other, from `cursor` on. -/
inductive ReadAll (image : Image) (diagnostics : List Diagnostic) (header : Nat) :
    Nat → List Operand → Prop
  | nil {cursor : Nat} : ReadAll image diagnostics header cursor []
  | cons {cursor : Nat} {operand : Operand} {rest : List Operand} :
      Read image diagnostics header cursor operand →
      ReadAll image diagnostics header (cursor + 4 * operand.width) rest →
      ReadAll image diagnostics header cursor (operand :: rest)

theorem Read.mono {image : Image} {old new : List Diagnostic} {header cursor : Nat}
    {operand : Operand} (more : ∀ d ∈ old, d ∈ new) (h : Read image old header cursor operand) :
    Read image new header cursor operand := by
  cases h with
  | kept word supported inside near => exact .kept word supported inside near
  | zeroed word inside resolved astray noted =>
    exact .zeroed word inside resolved astray (more _ noted)

theorem ReadAll.mono {image : Image} {old new : List Diagnostic} {header cursor : Nat}
    {operands : List Operand} (more : ∀ d ∈ old, d ∈ new)
    (h : ReadAll image old header cursor operands) :
    ReadAll image new header cursor operands := by
  induction h with
  | nil => exact .nil
  | cons first _ ih => exact .cons (first.mono more) ih

theorem Read.address {image : Image} {diagnostics : List Diagnostic} {header cursor : Nat}
    {operand : Operand} (h : Read image diagnostics header cursor operand) :
    operand.address = cursor := by
  cases h <;> rfl

theorem length_wordsOfOperand {image : Image} {cursor : Nat} {first : Word}
    (inside : cursor / 4 + (Mode.ofWord first).width first ≤ image.size) :
    (wordsOfOperand image cursor first).length = (Mode.ofWord first).width first := by
  simp only [wordsOfOperand, Array.length_toList, Array.size_extract]
  omega

/-- An operand covers words of the image. -/
theorem Read.width_le {image : Image} {diagnostics : List Diagnostic} {header cursor : Nat}
    {operand : Operand} (h : Read image diagnostics header cursor operand) :
    cursor / 4 + operand.width ≤ image.size := by
  cases h with
  | kept _ _ inside _ => simpa [Operand.width, length_wordsOfOperand inside] using inside
  | zeroed _ inside _ _ _ =>
    simpa [Operand.width, Operand.zeroed, length_wordsOfOperand inside] using inside

theorem ReadAll.width_le {image : Image} {diagnostics : List Diagnostic} {header cursor : Nat}
    {operands : List Operand} (h : ReadAll image diagnostics header cursor operands)
    (start : cursor / 4 ≤ image.size) :
    cursor / 4 + Operand.widthOfAll operands ≤ image.size := by
  induction h with
  | nil => simpa [Operand.widthOfAll] using start
  | @cons cursor operand rest first _ ih =>
    have := first.width_le
    have := ih (by omega)
    simp only [Operand.widthOfAll]
    omega

theorem readOperand_ok {image : Image} {entries : Array Entry} {header cursor : Nat}
    {operand : Operand} {problem : Option Problem}
    (h : readOperand image entries header cursor = .ok (operand, problem)) :
    Read image (problem.map (Diagnostic.mk cursor)).toList header cursor operand ∧
      operand.label = none ∧
      ∀ k, k < operand.width → ∀ e, entries[cursor / 4 + k]? = some e → e = .unset := by
  simp only [readOperand] at h
  split at h
  · cases h
  rename_i first word
  split at h
  · cases h
  rename_i supported
  split at h
  · cases h
  rename_i long
  split at h
  · cases h
  rename_i taken
  have inside : cursor / 4 + (Mode.ofWord first).width first ≤ image.size := by omega
  have free : ∀ k, k < (Mode.ofWord first).width first → ∀ e,
      entries[cursor / 4 + k]? = some e → e = .unset := by
    intro k bound e at_k
    obtain ⟨lt, rfl⟩ := Array.getElem?_eq_some_iff.mp at_k
    refine Decidable.byContradiction fun other => taken (Array.any_eq_true.mpr ⟨k, ?_, ?_⟩)
    · simp only [Array.size_extract]
      omega
    · rw [Array.getElem_extract]
      revert other
      cases entries[cursor / 4 + k] <;> simp [Entry.isUnset]
  split at h
  · rename_i target astray
    cases h
    obtain ⟨resolved, far⟩ := Option.filter_eq_some_iff.mp astray
    refine ⟨.zeroed word inside resolved ?_ (by simp), rfl, ?_⟩
    · simpa [Astray] using far
    · intro k bound
      refine free k ?_
      simp only [Operand.width, Operand.zeroed, List.length_modifyHead] at bound
      exact length_wordsOfOperand inside ▸ bound
  · rename_i near
    cases h
    refine ⟨.kept word (by simpa using supported) inside fun target resolved astray => ?_, rfl, ?_⟩
    · have := Option.filter_eq_none_iff.mp near target resolved
      simp [Astray] at astray
      simp_all
    · exact fun k bound => free k (length_wordsOfOperand inside ▸ bound)

theorem readOperands_ok {image : Image} {entries : Array Entry} {header count cursor : Nat}
    {diagnostics : List Diagnostic} {operands : List Operand}
    (h : readOperands image entries header count cursor = (diagnostics, .ok operands)) :
    operands.length = count ∧ ReadAll image diagnostics header cursor operands ∧
      (∀ operand ∈ operands, operand.label = none) ∧
      ∀ k, k < Operand.widthOfAll operands → ∀ e,
        entries[cursor / 4 + k]? = some e → e = .unset := by
  induction count generalizing cursor diagnostics operands with
  | zero =>
    cases h
    exact ⟨rfl, .nil, by simp, fun k bound => absurd bound (by simp [Operand.widthOfAll])⟩
  | succ count ih =>
    rw [readOperands] at h
    split at h
    · cases h
    rename_i operand problem read
    obtain ⟨first, unlabelled, free⟩ := readOperand_ok read
    cases more : readOperands image entries header count (cursor + 4 * operand.width) with
    | mk others result =>
    rw [more] at h
    cases result with
    | error => cases h
    | ok rest =>
      obtain ⟨length, all, unlabelled_rest, free_rest⟩ := ih more
      cases h
      refine ⟨by simp [length], .cons (first.mono ?_) (all.mono ?_), ?_, fun k bound e at_k => ?_⟩
      · exact fun d mem => List.mem_append_left _ mem
      · exact fun d mem => List.mem_append_right _ mem
      · exact List.forall_mem_cons.mpr ⟨unlabelled, unlabelled_rest⟩
      · by_cases inFirst : k < operand.width
        · exact free k inFirst e at_k
        · simp only [Operand.widthOfAll] at bound
          refine free_rest (k - operand.width) (by omega) e ?_
          have index : (cursor + 4 * operand.width) / 4 + (k - operand.width) = cursor / 4 + k := by
            omega
          rwa [index]

/-! ## Tables -/

/-- A table at `table` with the given destinations: its slots are free, and each
destination is the one its word names. -/
structure Tabled (image : Image) (script : Script) (table : Nat) (destinations : List Nat) :
    Prop where
  nonempty : destinations ≠ []
  free : ∀ k, k < destinations.length → script.isUnset (table + 4 * k) = true
  named : ∀ {k d : Nat}, destinations[k]? = some d →
    tableDestination table (image.wordAt (table + 4 * k)) = d
  inside : ∀ d ∈ destinations, d + 4 ≤ image.byteLength

theorem Tabled.aligned {image : Image} {s : Script} {table : Nat} {destinations : List Nat}
    (h : Tabled image s table destinations) : table = 4 * (table / 4) := by
  have first := h.free 0 (List.length_pos_iff.mpr h.nonempty)
  rw [Nat.mul_zero, Nat.add_zero] at first
  exact (Script.slot_of_isUnset first).1

theorem Tabled.unset {image : Image} {s : Script} {table : Nat} {destinations : List Nat}
    (h : Tabled image s table destinations) {k : Nat} (bound : k < destinations.length) :
    s.entries[table / 4 + k]? = some .unset := by
  have at_k := (Script.slot_of_isUnset (h.free k bound)).2
  rwa [show (table + 4 * k) / 4 = table / 4 + k by omega] at at_k

theorem branchEntry?_found {setting : Setting} {script : Script} {kind : TableKind}
    {table entry destination : Nat} {window : Window}
    (h : branchEntry? setting script kind table entry window = some destination) :
    script.isUnset entry = true ∧
      tableDestination table (setting.image.wordAt entry) = destination ∧
      destination + 4 ≤ setting.image.byteLength := by
  simp only [ branchEntry?, Option.ite_none_right_eq_some, Option.some.injEq, Bool.and_eq_true,
    decide_eq_true_eq] at h
  obtain ⟨⟨⟨⟨⟨free, _⟩, _⟩, low⟩, high⟩, _, rfl⟩ := h
  refine ⟨free, ?_, ?_⟩ <;> omega

theorem dataEntry?_found {setting : Setting} {script : Script} {texts : Bool}
    {table entry destination : Nat} {window : Window}
    (h : dataEntry? setting script texts table entry window = some destination) :
    script.isUnset entry = true ∧
      tableDestination table (setting.image.wordAt entry) = destination ∧
      destination + 4 ≤ setting.image.byteLength := by
  simp only [ dataEntry?, Option.ite_none_right_eq_some, Option.some.injEq, Bool.and_eq_true,
    decide_eq_true_eq] at h
  obtain ⟨⟨⟨⟨free, _⟩, low⟩, high⟩, _, rfl⟩ := h
  refine ⟨free, ?_, ?_⟩ <;> omega

/-- What stands at the entries of a table, from the one at `entry` on. -/
def Entries (image : Image) (script : Script) (table entry : Nat) (destinations : List Nat) :
    Prop :=
  ∀ (k d : Nat), destinations[k]? = some d → script.isUnset (entry + 4 * k) = true ∧
    tableDestination table (image.wordAt (entry + 4 * k)) = d ∧ d + 4 ≤ image.byteLength

theorem Entries.tabled {image : Image} {script : Script} {table : Nat} {destinations : List Nat}
    (h : Entries image script table table destinations) (nonempty : destinations ≠ []) :
    Tabled image script table destinations where
  nonempty := nonempty
  free := fun k bound => (h k _ (List.getElem?_eq_getElem bound)).1
  named := fun {k d} at_k => (h k d at_k).2.1
  inside := fun d mem => by
    obtain ⟨k, at_k⟩ := List.getElem?_of_mem mem
    exact (h k d at_k).2.2

theorem Entries.nil {image : Image} {script : Script} {table entry : Nat} :
    Entries image script table entry [] := by
  simp [Entries]

theorem Entries.cons {image : Image} {script : Script} {table entry d : Nat}
    {destinations : List Nat} (first : script.isUnset entry = true ∧
      tableDestination table (image.wordAt entry) = d ∧ d + 4 ≤ image.byteLength)
    (h : Entries image script table (entry + 4) destinations) :
    Entries image script table entry (d :: destinations) := by
  intro k other at_k
  cases k with
  | zero =>
    cases at_k
    simpa using first
  | succ k =>
    have := h k other (by simpa using at_k)
    rwa [show entry + 4 + 4 * k = entry + 4 * (k + 1) by omega] at this

/-- Scanning a branch table only takes references on the labels of its
destinations, in order, and may record their role. -/
structure Scanned (before : Script) (found : List (Nat × String)) (after : Script) : Prop where
  entries : after.entries = before.entries
  diagnostics : after.diagnostics = before.diagnostics
  labels : before.labels.addAll (found.map (·.1)) = (found.map (·.2), after.labels)

theorem scanBranches_found {setting : Setting} {kind : TableKind} {role : Role}
    {table room entry : Nat} {window : Window} {script after : Script}
    {found : List (Nat × String)}
    (h : scanBranches setting kind role table room entry window script = (found, after)) :
    Entries setting.image script table entry (found.map (·.1)) ∧ Scanned script found after := by
  induction room generalizing entry window script found after with
  | zero =>
    cases h
    exact ⟨.nil, rfl, rfl, rfl⟩
  | succ room ih =>
    rw [scanBranches] at h
    split at h
    · cases h
      exact ⟨.nil, rfl, rfl, rfl⟩
    rename_i destination first
    -- Recording a role changes neither the entries nor the labels.
    have noted : ∃ noted : Script, noted.entries = script.entries ∧
        noted.diagnostics = script.diagnostics ∧ noted.labels = script.labels ∧
        ((destination, (noted.labels.add destination).1) ::
            (scanBranches setting kind role table room (entry + 4) (window.widen destination)
              { noted with labels := (noted.labels.add destination).2 }).1,
          (scanBranches setting kind role table room (entry + 4) (window.widen destination)
            { noted with labels := (noted.labels.add destination).2 }).2) = (found, after) := by
      cases kind with
      | branches =>
        refine ⟨script.record role destination, ?_, ?_, ?_, h⟩ <;> cases role <;> rfl
      | tables => exact ⟨script, rfl, rfl, rfl, h⟩
    obtain ⟨noted, entries, diagnostics, labels, eq⟩ := noted
    cases more : scanBranches setting kind role table room (entry + 4) (window.widen destination)
      { noted with labels := (noted.labels.add destination).2 } with
    | mk rest last =>
    rw [more] at eq
    cases eq
    obtain ⟨slots, scanned⟩ := ih more
    refine ⟨.cons (branchEntry?_found first) ?_, ?_, ?_, ?_⟩
    · intro k d at_k
      simpa [Script.isUnset, Script.entryAt?, entries] using slots k d at_k
    · rw [scanned.entries, entries]
    · rw [scanned.diagnostics, diagnostics]
    · have rest_labels := scanned.labels
      simp only [labels] at rest_labels ⊢
      simp [LabelTable.addAll, rest_labels]

/-- Nothing leads to the first slot. -/
theorem scanBranches_low {setting : Setting} {kind : TableKind} {role : Role}
    {table room entry : Nat} {window : Window} {script after : Script}
    {found : List (Nat × String)}
    (h : scanBranches setting kind role table room entry window script = (found, after)) :
    ∀ d ∈ found.map (·.1), 4 ≤ d := by
  induction room generalizing entry window script found after with
  | zero =>
    cases h
    exact fun _ mem => absurd mem List.not_mem_nil
  | succ room ih =>
    rw [scanBranches] at h
    split at h
    · cases h
      exact fun _ mem => absurd mem List.not_mem_nil
    rename_i destination first
    have low : 4 ≤ destination := by
      simp only [ branchEntry?, Option.ite_none_right_eq_some, Option.some.injEq, Bool.and_eq_true,
        decide_eq_true_eq] at first
      obtain ⟨⟨⟨_, low⟩, _⟩, _, rfl⟩ := first
      omega
    cases h
    exact List.forall_mem_cons.mpr ⟨low, ih rfl⟩

theorem scanData_found (setting : Setting) (script : Script) (texts : Bool)
    (table room entry : Nat) (window : Window) :
    Entries setting.image script table entry
      (scanData setting script texts table room entry window) := by
  induction room generalizing entry window with
  | zero => exact .nil
  | succ room ih =>
    rw [scanData]
    split
    · exact .nil
    · rename_i destination first
      exact .cons (dataEntry?_found first) (ih (entry + 4) (window.widen destination))

/-! ## Texts -/

/-- A text spells what stands in the image: its codes are the half-words there,
and no half-word is lost behind its last code. -/
structure Spelled (image : Image) (text : EncodedString) : Prop where
  codes : ∀ {k : Nat} {code : UInt16}, text.stored[k]? = some code →
    image.halfAt text.address k = code
  whole : text.storedLength % 2 = 1 →
    (image.wordAt (text.address + 4 * (text.width - 1))).high = 0

/-- A text that can be laid out: it spells what stands there, and its slots are free. -/
structure Texted (image : Image) (script : Script) (text : EncodedString) : Prop where
  nonempty : 0 < text.storedLength
  free : ∀ k, k < text.width → script.isUnset (text.address + 4 * k) = true
  spelled : Spelled image text

theorem length_stored (text : EncodedString) : text.stored.length = text.storedLength := by
  rw [EncodedString.stored, EncodedString.storedLength, List.length_append]
  split <;> rfl

/-- One half-word of a text. -/
theorem collectCodes_succ (image : Image) (script : Script) (address room half : Nat) :
    collectCodes image script address (room + 1) half =
      if image.size ≤ (address + 4 * (half / 2)) / 4 then ([], false)
      else if half % 2 = 0 && !script.isUnset (address + 4 * (half / 2)) then ([], false)
      else if image.halfAt address half = sentinel then ([], true)
      else (image.halfAt address half :: (collectCodes image script address room (half + 1)).1,
        (collectCodes image script address room (half + 1)).2) := rfl

theorem collectCodes_found {image : Image} {script : Script} {address room half : Nat}
    {codes : List UInt16} {terminated : Bool}
    (h : collectCodes image script address room half = (codes, terminated)) {k : Nat}
    {code : UInt16} (at_k : (EncodedString.stored ⟨address, codes, terminated⟩)[k]? = some code) :
    image.halfAt address (half + k) = code ∧
      ((half + k) % 2 = 0 → script.isUnset (address + 4 * ((half + k) / 2)) = true) := by
  induction room generalizing half codes terminated k with
  | zero =>
    cases h
    simp [EncodedString.stored] at at_k
  | succ room ih =>
    rw [collectCodes_succ] at h
    split at h
    · cases h
      simp [EncodedString.stored] at at_k
    split at h
    · cases h
      simp [EncodedString.stored] at at_k
    rename_i taken
    have free : half % 2 = 0 → script.isUnset (address + 4 * (half / 2)) = true := by
      simpa using taken
    split at h
    · rename_i isSentinel
      cases h
      cases k with
      | zero =>
        cases at_k
        exact ⟨isSentinel, free⟩
      | succ k => simp [EncodedString.stored] at at_k
    · cases more : collectCodes image script address room (half + 1) with
      | mk rest last =>
      rw [more] at h
      cases h
      cases k with
      | zero =>
        cases at_k
        exact ⟨rfl, free⟩
      | succ k =>
        have := ih more (k := k) (by simpa [EncodedString.stored] using at_k)
        rwa [show half + 1 + k = half + (k + 1) by omega] at this

/-- The slots of a text are free. -/
theorem collectCodes_free {image : Image} {script : Script} {address room : Nat}
    {codes : List UInt16} {terminated : Bool}
    (h : collectCodes image script address room 0 = (codes, terminated)) {k : Nat}
    (bound : k < EncodedString.width ⟨address, codes, terminated⟩) :
    script.isUnset (address + 4 * k) = true := by
  have lt : 2 * k < (EncodedString.stored ⟨address, codes, terminated⟩).length := by
    rw [length_stored]
    simp only [EncodedString.width] at bound
    omega
  have := (collectCodes_found h (List.getElem?_eq_getElem lt)).2 (by omega)
  rwa [show (0 + 2 * k) / 2 = k by omega] at this

/-- Codes are collected until a terminator, which is none of them; or else until
there is no room for more, or up to the end of the image or a slot that is taken. -/
theorem collectCodes_ended {image : Image} {script : Script} {address room half : Nat}
    {codes : List UInt16} {terminated : Bool}
    (h : collectCodes image script address room half = (codes, terminated)) :
    sentinel ∉ codes ∧ (terminated = false → codes.length = room ∨
      image.size ≤ (address + 4 * ((half + codes.length) / 2)) / 4 ∨
      (half + codes.length) % 2 = 0 ∧
        script.isUnset (address + 4 * ((half + codes.length) / 2)) = false) := by
  induction room generalizing half codes terminated with
  | zero =>
    cases h
    exact ⟨List.not_mem_nil, fun _ => .inl rfl⟩
  | succ room ih =>
    rw [collectCodes_succ] at h
    split at h
    · rename_i out
      cases h
      exact ⟨List.not_mem_nil, fun _ => .inr (.inl out)⟩
    split at h
    · rename_i taken
      cases h
      exact ⟨List.not_mem_nil, fun _ => .inr (.inr (by simpa using taken))⟩
    split at h
    · cases h
      exact ⟨List.not_mem_nil, fun open_ => by cases open_⟩
    · rename_i other
      cases more : collectCodes image script address room (half + 1) with
      | mk rest last =>
      rw [more] at h
      cases h
      obtain ⟨plain, ended⟩ := ih more
      refine ⟨fun mem => ?_, fun open_ => ?_⟩
      · rcases List.mem_cons.mp mem with eq | mem
        · exact other eq.symm
        · exact plain mem
      · rw [List.length_cons, Nat.add_left_inj, show ∀ n, half + (n + 1) = half + 1 + n by omega]
        exact ended open_

/-- Where there is room for a code, and the slot is free, there is something to store. -/
theorem collectCodes_nonempty {image : Image} {script : Script} {address room : Nat}
    {codes : List UInt16} {terminated : Bool} (inside : address / 4 < image.size)
    (free : script.isUnset address = true)
    (h : collectCodes image script address (room + 1) 0 = (codes, terminated)) :
    0 < EncodedString.storedLength ⟨address, codes, terminated⟩ := by
  rw [collectCodes_succ, Nat.zero_div, Nat.mul_zero, Nat.add_zero, if_neg (by omega), free,
    Bool.not_true, Bool.and_false, if_neg Bool.false_ne_true] at h
  split at h <;> cases h
  · exact Nat.one_pos
  · simp only [EncodedString.storedLength, List.length_cons]
    omega

/-- What laying out a text at a free slot does: nothing if there is no code, and
else it lays out the codes there, or notes that more stands in their last word and
would be lost. -/
theorem layText_scanned (image : Image) {script : Script} {address : Nat}
    (free : script.isUnset address = true) (bound : Option Nat) :
    ∃ text : EncodedString, text.address = address ∧
      collectCodes image script address (bound.getD (2 * slotsFrom image address)) 0 =
        (text.codes, text.terminated) ∧
      (text.storedLength = 0 ∧ layText image script address bound = script ∨
        (text.storedLength % 2 = 1 ∧
            (image.wordAt (address + 4 * (text.width - 1))).high ≠ 0 ∧
          layText image script address bound = script.diagnose address .stringSkipped) ∨
        Texted image script text ∧ layText image script address bound =
          (script.setEntry address (.encodedString text)).fill (address + 4)
            (.continuation address) (text.width - 1)) := by
  rw [layText, if_pos free]
  simp only
  generalize collected : collectCodes image script address
    (bound.getD (2 * slotsFrom image address)) 0 = answer
  obtain ⟨codes, terminated⟩ := answer
  refine ⟨⟨address, codes, terminated⟩, rfl, rfl, ?_⟩
  simp only
  split
  · rename_i empty
    exact .inl ⟨empty, rfl⟩
  rename_i nonempty
  split
  · rename_i lost
    rw [Bool.and_eq_true, decide_eq_true_eq, decide_eq_true_eq] at lost
    exact .inr (.inl ⟨lost.1, lost.2, rfl⟩)
  rename_i whole
  have found := @collectCodes_found _ _ _ _ _ _ _ collected
  simp only [Nat.zero_add] at found
  refine .inr (.inr ⟨⟨by omega, ?_, ⟨?_, ?_⟩⟩, rfl⟩)
  · exact fun k bound => collectCodes_free collected bound
  · exact fun at_k => (found at_k).1
  · intro odd
    simpa [odd] using whole

/-- A text is laid out where it lies in the image, or the script is only noted on. -/
theorem layText_cases (image : Image) (script : Script) (address : Nat) (bound : Option Nat) :
    layText image script address bound = script ∨
      layText image script address bound = script.diagnose address .stringSkipped ∨
      ∃ text, text.address = address ∧ Texted image script text ∧
        layText image script address bound =
          (script.setEntry address (.encodedString text)).fill (address + 4)
            (.continuation address) (text.width - 1) := by
  by_cases free : script.isUnset address = true
  · obtain ⟨text, home, -, ⟨-, same⟩ | ⟨-, -, noted⟩ | ⟨found, laid⟩⟩ :=
      layText_scanned image free bound
    · exact .inl same
    · exact .inr (.inl noted)
    · exact .inr (.inr ⟨text, home, found, laid⟩)
  · rw [layText, if_neg free]
    exact .inl rfl

end Recovery
end EventScript
