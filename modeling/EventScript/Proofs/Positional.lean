/-
Assembly by position. Whatever the entries of a script are, recovered or
written by hand, assembly goes from slot to slot by their widths (`Strides`),
and what an entry stands for (`Script.Stands`) has the width it goes on by. So
the words of an entry come to stand at the entry's own slot, and an image is
that of a script just if they do (`assemble_eq_ok_iff`).

Assembly fails just if it comes to an entry that cannot be assembled
(`Script.Offends`), and the fault is that of the first such entry
(`assembleFrom_fails_iff`).
-/
import EventScript.Proofs.Redecoding
import EventScript.Proofs.Results

namespace EventScript

/-- Going from entry to entry by their widths, from slot `n` on, comes to slot `m`. -/
inductive Strides (entries : Array Entry) : (n m : Nat) → Prop
  | rest (n : Nat) : Strides entries n n
  | step {n m w : Nat} {e : Entry} (here : entries[n]? = some e) (width : e.width? = some w)
      (more : Strides entries (n + w) m) : Strides entries n m

namespace Strides

variable {entries : Array Entry} {n m w : Nat} {e : Entry}

theorem le (h : Strides entries n m) : n ≤ m := by
  induction h with
  | rest => exact Nat.le_refl _
  | step _ _ _ ih => omega

/-- Whoever comes further comes to the slot behind the first entry. -/
theorem tail (h : Strides entries n m) (other : m ≠ n) (here : entries[n]? = some e)
    (width : e.width? = some w) : Strides entries (n + w) m := by
  cases h with
  | rest => exact absurd rfl other
  | step there known more =>
    rw [here] at there
    cases there
    rw [width] at known
    cases known
    exact more

theorem snoc (h : Strides entries n m) (here : entries[m]? = some e) (width : e.width? = some w) :
    Strides entries n (m + w) := by
  induction h with
  | rest => exact .step here width (.rest _)
  | step there known _ ih => exact .step there known (ih here)

/-- Behind the last slot there is nowhere to go. -/
theorem eq_of_size_le (h : Strides entries n m) (out : entries.size ≤ n) : m = n := by
  cases h with
  | rest => rfl
  | step here =>
    have := (Array.getElem?_eq_some_iff.mp here).1
    omega

end Strides

namespace Script

/-- The words that an entry stands for at slot `n`. -/
inductive Stands (script : Script) (n : Nat) : Entry → List Word → Prop
  | entrypoint {address target : Nat} {name : String}
      (found : script.labels.addressOf? name = some target) :
      Stands script n (.entrypoint address name) [UInt32.ofNat target]
  | instruction {decoded : Instruction}
      (supported : ∀ operand ∈ decoded.operands, operand.mode.isSupported = true) :
      Stands script n (.instruction decoded)
        (decoded.header.encode :: decoded.operands.flatMap Operand.rawWords)
  /-- Each word is the distance of its label from the table, in words. -/
  | pointerTable {address : Nat} {labels : List String} {words : List Word}
      (distances : List.Forall₂ (fun name word => ∃ target : Nat,
        script.labels.addressOf? name = some target ∧
          word = Word.ofSigned (Int.tdiv ((target : Int) - (4 * n : Nat)) 4)) labels words) :
      Stands script n (.pointerTable address labels) words
  /-- Each word holds two codes; behind the last code there may be a zero. -/
  | encodedString {text : EncodedString} {words : List Word} (length : words.length = text.width)
      (halves : ∀ k, k < words.length → words[k]? = some (Word.ofHalves
        (text.stored[2 * k]?.getD 0) (text.stored[2 * k + 1]?.getD 0))) :
      Stands script n (.encodedString text) words
  | rawData {address : Nat} {value : Word} : Stands script n (.rawData address value) [value]

/-- Why the entry at slot `n` cannot be assembled. -/
inductive Offends (script : Script) (n : Nat) : Fault → Prop
  | owned {e : Entry} (here : script.entries[n]? = some e) (later : e.width? = none) :
      Offends script n (.orphanedSlot (4 * n))
  | overrun {e : Entry} {w : Nat} (here : script.entries[n]? = some e)
      (width : e.width? = some w) (past : script.entries.size < n + w) :
      Offends script n (.entryOverrun (4 * n) w)
  | emptyTable {address : Nat} (here : script.entries[n]? = some (.pointerTable address [])) :
      Offends script n (.emptyPointerTable (4 * n))
  | emptyText {text : EncodedString} (here : script.entries[n]? = some (.encodedString text))
      (none : text.stored = []) : Offends script n (.emptyString (4 * n))
  | unset (here : script.entries[n]? = some .unset) : Offends script n (.unsetEntry (4 * n))
  | lostEntrypoint {address : Nat} {name : String}
      (here : script.entries[n]? = some (.entrypoint address name))
      (missing : script.labels.addressOf? name = none) : Offends script n (.missingLabel name)
  /-- The fault names the first label of the table that stands nowhere. -/
  | lostLabel {address : Nat} {name : String} {before after : List String}
      (here : script.entries[n]? = some (.pointerTable address (before ++ name :: after)))
      (fits : n + (before ++ name :: after).length ≤ script.entries.size)
      (found : ∀ other ∈ before, (script.labels.addressOf? other).isSome = true)
      (missing : script.labels.addressOf? name = none) : Offends script n (.missingLabel name)
  /-- The fault names the first mode that has no encoding. -/
  | unsupported {decoded : Instruction} {operand : Operand} {before after : List Operand}
      (here : script.entries[n]? = some (.instruction decoded))
      (fits : n + decoded.width ≤ script.entries.size)
      (operands : decoded.operands = before ++ operand :: after)
      (supported : ∀ other ∈ before, other.mode.isSupported = true)
      (strange : operand.mode.isSupported = false) :
      Offends script n (.unsupportedMode operand.mode.tag)

/-- The first entry that cannot be assembled, going from slot `n`, is that at
slot `m`, and the fault says why. -/
structure Fails (script : Script) (n m : Nat) (fault : Fault) : Prop where
  strides : Strides script.entries n m
  offends : script.Offends m fault
  first : ∀ k, k < m → Strides script.entries n k → ∀ other, ¬ script.Offends k other

/-- The image has one word for each slot of the script, and at every slot that
assembly comes to stand the words of the entry there, as many as it is wide. -/
structure Positional (script : Script) (out : Image) : Prop where
  size : out.size = script.entries.size
  stands : ∀ {n : Nat} {e : Entry}, Strides script.entries 0 n →
    script.entries[n]? = some e → ∃ words, script.Stands n e words ∧ words ≠ [] ∧
      e.width? = some words.length ∧ out.Holds n words

end Script

/-! ## What an entry stands for -/

theorem length_rawWords (operands : List Operand) :
    (operands.flatMap Operand.rawWords).length = Operand.widthOfAll operands := by
  induction operands with
  | nil => rfl
  | cons operand rest ih =>
    rw [List.flatMap_cons, List.length_append, ih]
    rfl

theorem length_packCodes (codes : List UInt16) :
    (packCodes codes).length = (codes.length + 1) / 2 := by
  fun_induction packCodes codes with
  | case1 => rfl
  | case2 => simp
  | case3 low high rest ih =>
    simp only [List.length_cons, ih]
    omega

theorem getElem?_packCodes {codes : List UInt16} {k : Nat} (bound : k < (packCodes codes).length) :
    (packCodes codes)[k]? =
      some (Word.ofHalves (codes[2 * k]?.getD 0) (codes[2 * k + 1]?.getD 0)) := by
  fun_induction packCodes codes generalizing k with
  | case1 => cases bound
  | case2 low =>
    obtain rfl : k = 0 := by simpa using bound
    rfl
  | case3 low high rest ih =>
    cases k with
    | zero => rfl
    | succ k => exact ih (by simpa using bound)

namespace Operand

theorem words_eq_ok_iff {operand : Operand} {words : List Word} :
    operand.words = .ok words ↔ operand.mode.isSupported = true ∧ operand.rawWords = words := by
  rw [Operand.words]
  split
  · rename_i supported
    simp [supported]
  · rename_i strange
    simp [strange]

theorem words_eq_error_iff {operand : Operand} {fault : Fault} :
    operand.words = .error fault ↔
      operand.mode.isSupported = false ∧ fault = .unsupportedMode operand.mode.tag := by
  rw [Operand.words]
  split
  · rename_i supported
    simp [supported]
  · rename_i strange
    simp [strange, eq_comm]

end Operand

/-- The words of operands that can be assembled are their own. -/
theorem operandWords_eq_ok_iff {operands : List Operand} {words : List Word} :
    operandWords operands = .ok words ↔
      (∀ operand ∈ operands, operand.mode.isSupported = true) ∧
        words = operands.flatMap Operand.rawWords := by
  have own : ∀ lists, operands.mapM Operand.words = .ok lists ↔
      (∀ operand ∈ operands, operand.mode.isSupported = true) ∧
        operands.map Operand.rawWords = lists := by
    intro lists
    simp only [mapM_eq_ok_iff, Operand.words_eq_ok_iff]
    rw [List.forall₂_and_left, ← List.forall₂_map_left_iff, List.forall₂_eq_eq_eq]
  rw [operandWords, map_eq_ok_iff]
  constructor
  · rintro ⟨lists, read, rfl⟩
    obtain ⟨supported, rfl⟩ := (own lists).mp read
    exact ⟨supported, List.flatMap_def.symm⟩
  · rintro ⟨supported, rfl⟩
    exact ⟨_, (own _).mpr ⟨supported, rfl⟩, List.flatMap_def⟩

/-- The fault of operands names the first mode without an encoding. -/
theorem operandWords_eq_error_iff {operands : List Operand} {fault : Fault} :
    operandWords operands = .error fault ↔ ∃ before operand after,
      operands = before ++ operand :: after ∧
        (∀ other ∈ before, other.mode.isSupported = true) ∧
        operand.mode.isSupported = false ∧ fault = .unsupportedMode operand.mode.tag := by
  rw [operandWords, map_eq_error_iff, mapM_eq_error_iff]
  simp only [Operand.words_eq_ok_iff, Operand.words_eq_error_iff, exists_and_left, exists_eq',
    and_true]

namespace Script

variable {script : Script} {n : Nat} {e : Entry} {words : List Word} {fault : Fault}

theorem labelAddress_eq_ok_iff {name : String} {target : Nat} :
    script.labelAddress name = .ok target ↔ script.labels.addressOf? name = some target := by
  cases found : script.labels.addressOf? name with
  | none => simp [labelAddress, found]
  | some other => simp [labelAddress, found]

theorem labelAddress_eq_error_iff {name : String} :
    script.labelAddress name = .error fault ↔
      script.labels.addressOf? name = none ∧ fault = .missingLabel name := by
  cases found : script.labels.addressOf? name with
  | none => simp [labelAddress, found, eq_comm]
  | some other => simp [labelAddress, found]

/-- A table is read label by label, each on its own. -/
theorem tableWords_eq {table : Nat} {labels : List String} :
    script.tableWords table labels = labels.mapM fun name =>
      (script.labelAddress name).map fun target : Nat =>
        Word.ofSigned (Int.tdiv ((target : Int) - table) 4) := by
  rw [tableWords]
  congr 1
  funext name
  cases script.labelAddress name <;> rfl

/-- **Assembly writes what an entry stands for.** -/
theorem entryWords_eq_ok_iff :
    script.entryWords (4 * n) e = .ok words ↔ script.Stands n e words := by
  cases e with
  | unset | operandSlot | continuation => exact iff_of_false nofun nofun
  | entrypoint address name =>
    rw [entryWords, map_eq_ok_iff]
    constructor
    · rintro ⟨target, found, rfl⟩
      exact .entrypoint (labelAddress_eq_ok_iff.mp found)
    · rintro ⟨found⟩
      exact ⟨_, labelAddress_eq_ok_iff.mpr found, rfl⟩
  | instruction decoded =>
    rw [entryWords, Instruction.words, map_eq_ok_iff]
    constructor
    · rintro ⟨operands, known, rfl⟩
      obtain ⟨supported, rfl⟩ := operandWords_eq_ok_iff.mp known
      exact .instruction supported
    · rintro ⟨⟩
      rename_i supported
      exact ⟨_, operandWords_eq_ok_iff.mpr ⟨supported, rfl⟩, rfl⟩
  | pointerTable address labels =>
    rw [entryWords, tableWords_eq, mapM_eq_ok_iff]
    simp only [map_eq_ok_iff, labelAddress_eq_ok_iff]
    constructor
    · exact .pointerTable
    · rintro ⟨⟩
      assumption
  | encodedString text =>
    have length : (packCodes text.stored).length = text.width := by
      rw [length_packCodes, Recovery.length_stored, EncodedString.width]
    rw [entryWords, Except.ok.injEq]
    constructor
    · rintro rfl
      exact .encodedString length fun k bound => getElem?_packCodes bound
    · rintro ⟨⟩
      rename_i same halves
      refine List.ext_getElem (length.trans same.symm) fun k bound inside => ?_
      apply Option.some_injective
      rw [← List.getElem?_eq_getElem bound, ← List.getElem?_eq_getElem inside, halves k inside,
        getElem?_packCodes bound]
  | rawData address value =>
    rw [entryWords, Except.ok.injEq]
    constructor
    · rintro rfl
      exact .rawData
    · rintro ⟨⟩
      rfl

/-- An entry is as wide as the words it stands for. -/
theorem Stands.width? (h : script.Stands n e words) : e.width? = some words.length := by
  cases h with
  | entrypoint | rawData => rfl
  | instruction =>
    rw [List.length_cons, length_rawWords, Nat.add_comm]
    rfl
  | pointerTable distances =>
    rw [← distances.length_eq]
    rfl
  | encodedString length =>
    rw [length]
    rfl

/-! ## Going on behind an entry -/

theorem entryWidth_eq_ok_iff {w : Nat} :
    script.entryWidth n e = .ok w ↔
      e.width? = some w ∧ 0 < w ∧ n + w ≤ script.entries.size := by
  refine ⟨fun h => ?_, fun ⟨width, pos, fits⟩ => entryWidth_eq width pos fits⟩
  have pos := entryWidth_pos h
  rw [entryWidth] at h
  split at h
  · cases h
  · rename_i width known
    split at h
    · cases h
    · rename_i fits
      split at h
      · cases h
      · cases h
        exact ⟨known, pos, Nat.not_lt.mp fits⟩

/-- Assembly can go on behind the entry at slot `n`, with its words. -/
structure Places (script : Script) (n : Nat) (e : Entry) (words : List Word) : Prop where
  stands : script.Stands n e words
  nonempty : words ≠ []
  fits : n + words.length ≤ script.entries.size

theorem places_iff : script.Places n e words ↔
    script.entryWidth n e = .ok words.length ∧ script.entryWords (4 * n) e = .ok words := by
  rw [entryWidth_eq_ok_iff, entryWords_eq_ok_iff]
  constructor
  · intro h
    exact ⟨⟨h.stands.width?, List.length_pos_iff.mpr h.nonempty, h.fits⟩, h.stands⟩
  · rintro ⟨⟨-, pos, fits⟩, stands⟩
    exact ⟨stands, List.length_pos_iff.mp pos, fits⟩

/-- An entry that stands for words and has a width to go on by goes on by just
as many. -/
theorem Stands.places {w : Nat} (h : script.Stands n e words)
    (width : script.entryWidth n e = .ok w) : w = words.length ∧ script.Places n e words := by
  obtain ⟨known, pos, fits⟩ := entryWidth_eq_ok_iff.mp width
  obtain rfl : w = words.length := Option.some.inj (known.symm.trans h.width?)
  exact ⟨rfl, h, List.length_pos_iff.mp pos, fits⟩

/-- An entry without a width to go on by offends. -/
theorem Offends.of_width (here : script.entries[n]? = some e)
    (wrong : script.entryWidth n e = .error fault) : script.Offends n fault := by
  rw [entryWidth] at wrong
  split at wrong
  · rename_i later
    cases wrong
    exact .owned here later
  · rename_i w width
    split at wrong
    · rename_i past
      cases wrong
      exact .overrun here width past
    · split at wrong
      · rename_i zero
        subst zero
        cases wrong
        cases e with
        | operandSlot | continuation | unset | entrypoint | rawData => cases width
        | instruction decoded =>
          have := Option.some.inj width
          rw [Instruction.width] at this
          omega
        | pointerTable address labels =>
          cases List.length_eq_zero_iff.mp (Option.some.inj width)
          exact .emptyTable here
        | encodedString text =>
          have none : text.width = 0 := Option.some.inj width
          rw [EncodedString.width] at none
          refine .emptyText here (List.length_eq_zero_iff.mp ?_)
          rw [Recovery.length_stored]
          omega
      · cases wrong

/-- An entry without words offends. -/
theorem Offends.of_words {w : Nat} (here : script.entries[n]? = some e)
    (width : script.entryWidth n e = .ok w)
    (wrong : script.entryWords (4 * n) e = .error fault) : script.Offends n fault := by
  obtain ⟨width, -, fits⟩ := entryWidth_eq_ok_iff.mp width
  cases e with
  | operandSlot | continuation => cases width
  | unset =>
    cases wrong
    exact .unset here
  | encodedString | rawData => cases wrong
  | entrypoint address name =>
    rw [entryWords, map_eq_error_iff, labelAddress_eq_error_iff] at wrong
    obtain ⟨missing, rfl⟩ := wrong
    exact .lostEntrypoint here missing
  | pointerTable address labels =>
    rw [entryWords, tableWords_eq, mapM_eq_error_iff] at wrong
    obtain ⟨before, name, after, rfl, found, lost⟩ := wrong
    obtain ⟨missing, rfl⟩ := labelAddress_eq_error_iff.mp (map_eq_error_iff.mp lost)
    cases width
    refine .lostLabel here fits (fun other mem => ?_) missing
    obtain ⟨_, known⟩ := found other mem
    obtain ⟨target, stands, -⟩ := map_eq_ok_iff.mp known
    rw [labelAddress_eq_ok_iff.mp stands]
    rfl
  | instruction decoded =>
    rw [entryWords, Instruction.words, map_eq_error_iff, operandWords_eq_error_iff] at wrong
    obtain ⟨before, operand, after, operands, supported, strange, rfl⟩ := wrong
    cases width
    exact .unsupported here fits operands supported strange

/-- The width of an entry that offends is at fault, or its words are. -/
theorem Offends.wrong (h : script.Offends n fault) : ∃ e, script.entries[n]? = some e ∧
    (script.entryWidth n e = .error fault ∨
      (∃ w, script.entryWidth n e = .ok w) ∧ script.entryWords (4 * n) e = .error fault) := by
  cases h with
  | owned here later =>
    refine ⟨_, here, .inl ?_⟩
    rw [entryWidth, later]
  | overrun here width past =>
    refine ⟨_, here, .inl ?_⟩
    rw [entryWidth, width]
    exact if_pos past
  | emptyTable here =>
    have inside := (Array.getElem?_eq_some_iff.mp here).1
    exact ⟨_, here, .inl (if_neg (Nat.not_lt.mpr inside.le))⟩
  | @emptyText text here none =>
    have inside := (Array.getElem?_eq_some_iff.mp here).1
    have zero : text.width = 0 := by
      rw [EncodedString.width, ← Recovery.length_stored, none]
      rfl
    refine ⟨_, here, .inl ?_⟩
    rw [entryWidth, Entry.width?, zero]
    exact if_neg (Nat.not_lt.mpr inside.le)
  | unset here =>
    have inside := (Array.getElem?_eq_some_iff.mp here).1
    exact ⟨_, here, .inr ⟨⟨1, entryWidth_eq rfl Nat.one_pos inside⟩, rfl⟩⟩
  | lostEntrypoint here missing =>
    have inside := (Array.getElem?_eq_some_iff.mp here).1
    refine ⟨_, here, .inr ⟨⟨1, entryWidth_eq rfl Nat.one_pos inside⟩, ?_⟩⟩
    rw [entryWords, map_eq_error_iff]
    exact labelAddress_eq_error_iff.mpr ⟨missing, rfl⟩
  | @lostLabel _ name before after here fits found missing =>
    have pos : 0 < (before ++ name :: after).length := by
      rw [List.length_append, List.length_cons]
      omega
    refine ⟨_, here, .inr ⟨⟨_, entryWidth_eq rfl pos fits⟩, ?_⟩⟩
    rw [entryWords, tableWords_eq, mapM_eq_error_iff]
    refine ⟨_, _, _, rfl, fun other mem => ?_, ?_⟩
    · obtain ⟨target, known⟩ := Option.isSome_iff_exists.mp (found other mem)
      exact ⟨_, map_eq_ok_iff.mpr ⟨target, labelAddress_eq_ok_iff.mpr known, rfl⟩⟩
    · exact map_eq_error_iff.mpr (labelAddress_eq_error_iff.mpr ⟨missing, rfl⟩)
  | @unsupported decoded _ _ _ here fits operands supported strange =>
    have pos : 0 < decoded.width := by
      rw [Instruction.width]
      omega
    refine ⟨_, here, .inr ⟨⟨_, entryWidth_eq rfl pos fits⟩, ?_⟩⟩
    rw [entryWords, Instruction.words, map_eq_error_iff]
    exact operandWords_eq_error_iff.mpr ⟨_, _, _, operands, supported, strange, rfl⟩

theorem offends_iff (here : script.entries[n]? = some e) :
    script.Offends n fault ↔ script.entryWidth n e = .error fault ∨
      (∃ w, script.entryWidth n e = .ok w) ∧ script.entryWords (4 * n) e = .error fault := by
  constructor
  · intro h
    obtain ⟨other, there, wrong⟩ := h.wrong
    cases here.symm.trans there
    exact wrong
  · rintro (wrong | ⟨⟨w, width⟩, wrong⟩)
    · exact .of_width here wrong
    · exact .of_words here width wrong

theorem Offends.inside (h : script.Offends n fault) : n < script.entries.size := by
  obtain ⟨e, here, -⟩ := h.wrong
  exact (Array.getElem?_eq_some_iff.mp here).1

/-- Assembly goes on behind an entry, or the entry offends. -/
theorem places_or_offends (here : script.entries[n]? = some e) :
    (∃ words, script.Places n e words) ∨ ∃ fault, script.Offends n fault := by
  cases width : script.entryWidth n e with
  | error fault => exact .inr ⟨fault, (offends_iff here).mpr (.inl width)⟩
  | ok w =>
    cases own : script.entryWords (4 * n) e with
    | error fault => exact .inr ⟨fault, (offends_iff here).mpr (.inr ⟨⟨w, width⟩, own⟩)⟩
    | ok words => exact .inl ⟨words, ((entryWords_eq_ok_iff.mp own).places width).2⟩

theorem Places.not_offends (h : script.Places n e words)
    (here : script.entries[n]? = some e) : ¬ script.Offends n fault := by
  obtain ⟨width, own⟩ := places_iff.mp h
  rw [offends_iff here, width, own]
  rintro (wrong | ⟨-, wrong⟩) <;> cases wrong

/-! ## From slot to slot -/

theorem assembleFrom_eq_ok_iff (here : script.entries[n]? = some e) :
    script.assembleFrom n = .ok words ↔ ∃ own more, script.Places n e own ∧
      script.assembleFrom (n + own.length) = .ok more ∧ words = own ++ more := by
  rw [assembleFrom_head here]
  simp only [bind_eq_ok_iff, map_eq_ok_iff]
  constructor
  · rintro ⟨w, width, own, known, more, rest, rfl⟩
    obtain ⟨rfl, places⟩ := (entryWords_eq_ok_iff.mp known).places width
    exact ⟨own, more, places, rest, rfl⟩
  · rintro ⟨own, more, places, rest, rfl⟩
    obtain ⟨width, known⟩ := places_iff.mp places
    exact ⟨_, width, own, known, more, rest, rfl⟩

theorem assembleFrom_eq_error_iff (here : script.entries[n]? = some e) :
    script.assembleFrom n = .error fault ↔ script.Offends n fault ∨
      ∃ own, script.Places n e own ∧ script.assembleFrom (n + own.length) = .error fault := by
  rw [assembleFrom_head here, offends_iff here]
  simp only [bind_eq_error_iff, map_eq_error_iff]
  constructor
  · rintro (wrong | ⟨w, width, wrong | ⟨own, known, rest⟩⟩)
    · exact .inl (.inl wrong)
    · exact .inl (.inr ⟨⟨w, width⟩, wrong⟩)
    · obtain ⟨rfl, places⟩ := (entryWords_eq_ok_iff.mp known).places width
      exact .inr ⟨own, places, rest⟩
  · rintro ((wrong | ⟨⟨w, width⟩, wrong⟩) | ⟨own, places, rest⟩)
    · exact .inl wrong
    · exact .inr ⟨w, width, .inl wrong⟩
    · obtain ⟨width, known⟩ := places_iff.mp places
      exact .inr ⟨_, width, .inr ⟨own, known, rest⟩⟩

/-- The words that assembly writes from slot `n` on fill the script, and each
entry it comes to stands where its slot is. -/
theorem assembleFrom_stands {n : Nat} {words : List Word} (le : n ≤ script.entries.size)
    (known : script.assembleFrom n = .ok words) :
    n + words.length = script.entries.size ∧ ∀ {m : Nat} {e : Entry}, Strides script.entries n m →
      script.entries[m]? = some e → ∃ before own after, script.Places m e own ∧
        words = before ++ own ++ after ∧ n + before.length = m := by
  by_cases inside : n < script.entries.size
  · have here := Array.getElem?_eq_getElem inside
    obtain ⟨own, more, places, rest, rfl⟩ := (assembleFrom_eq_ok_iff here).mp known
    have pos := List.length_pos_iff.mpr places.nonempty
    obtain ⟨size, stands⟩ := assembleFrom_stands places.fits rest
    refine ⟨by rw [List.length_append]; omega, fun {m e} strides there => ?_⟩
    by_cases first : m = n
    · subst first
      cases here.symm.trans there
      exact ⟨[], own, more, places, rfl, rfl⟩
    · obtain ⟨before, others, after, placed, eq, position⟩ :=
        stands (strides.tail first here places.stands.width?) there
      refine ⟨own ++ before, others, after, placed, ?_, ?_⟩
      · rw [eq, List.append_assoc, List.append_assoc, List.append_assoc]
      · rw [List.length_append]
        omega
  · rw [assembleFrom_end (Nat.not_lt.mp inside)] at known
    cases known
    refine ⟨by simp; omega, fun {m e} strides there => ?_⟩
    have := strides.eq_of_size_le (Nat.not_lt.mp inside)
    exact absurd (Array.getElem?_eq_some_iff.mp there).1 (by omega)
termination_by script.entries.size - n

end Script

theorem Image.Holds.of_append {before words after : List Word} :
    Image.Holds (before ++ words ++ after).toArray before.length words := by
  intro k w at_k
  have bound := (List.getElem?_eq_some_iff.mp at_k).1
  rw [List.getElem?_toArray, List.append_assoc, List.getElem?_append_right (by omega),
    Nat.add_sub_cancel_left, List.getElem?_append_left bound, at_k]

/-- An image is long enough for the words it holds. -/
theorem Image.Holds.fits {image : Image} {n : Nat} {words : List Word} (h : image.Holds n words)
    (le : n ≤ image.size) : n + words.length ≤ image.size := by
  by_contra short
  have last := h (words.length - 1) _ (List.getElem?_eq_getElem (by omega))
  have := (Array.getElem?_eq_some_iff.mp last).1
  omega

/-- The image from slot `n` on, where it holds the given words. -/
theorem Image.Holds.drop {image : Image} {n : Nat} {words : List Word} (h : image.Holds n words) :
    image.toList.drop n = words ++ image.toList.drop (n + words.length) := by
  induction words generalizing n with
  | nil => rfl
  | cons w rest ih =>
    have here := h 0 w rfl
    have more : image.Holds (n + 1) rest := fun k v at_k => by
      rw [Nat.add_right_comm]
      exact h (k + 1) v at_k
    obtain ⟨inside, rfl⟩ := Array.getElem?_eq_some_iff.mp here
    rw [List.drop_eq_getElem_cons (by simpa using inside), ih more, List.cons_append,
      List.length_cons, Nat.add_right_comm, Nat.add_assoc, Array.getElem_toList]
    rfl

namespace Script

variable {script : Script} {out : Image}

/-- No entry that stands by position reaches past the image. -/
theorem Positional.fits {n w : Nat} {e : Entry} (h : script.Positional out)
    (strides : Strides script.entries 0 n) (here : script.entries[n]? = some e)
    (width : e.width? = some w) : n + w ≤ out.size := by
  obtain ⟨words, -, -, known, holds⟩ := h.stands strides here
  obtain rfl := Option.some.inj (width.symm.trans known)
  have inside := (Array.getElem?_eq_some_iff.mp here).1
  exact holds.fits (h.size ▸ inside.le)

/-- What stands by position is what assembly writes. -/
theorem Positional.assembleFrom {n : Nat} (h : script.Positional out)
    (strides : Strides script.entries 0 n) : script.assembleFrom n = .ok (out.toList.drop n) := by
  by_cases inside : n < script.entries.size
  · have here := Array.getElem?_eq_getElem inside
    obtain ⟨words, stands, nonempty, width, holds⟩ := h.stands strides here
    have pos := List.length_pos_iff.mpr nonempty
    have fits := h.size ▸ h.fits strides here width
    exact (assembleFrom_eq_ok_iff here).mpr ⟨words, _, ⟨stands, nonempty, fits⟩,
      h.assembleFrom (strides.snoc here width), holds.drop⟩
  · have out := Nat.not_lt.mp inside
    rw [assembleFrom_end out, List.drop_eq_nil_of_le (by simpa [h.size] using out)]
termination_by script.entries.size - n

/-- **An image is that of a script just if every entry stands in it by position.** -/
theorem assemble_eq_ok_iff : script.assemble = .ok out ↔ script.Positional out := by
  rw [assemble, map_eq_ok_iff]
  constructor
  · rintro ⟨words, known, rfl⟩
    obtain ⟨size, stands⟩ := assembleFrom_stands (Nat.zero_le _) known
    refine ⟨by simpa using size, fun {n e} strides here => ?_⟩
    obtain ⟨before, own, after, places, rfl, position⟩ := stands strides here
    refine ⟨own, places.stands, places.nonempty, places.stands.width?, ?_⟩
    rw [← position, Nat.zero_add]
    exact .of_append
  · intro h
    exact ⟨_, h.assembleFrom (.rest 0), rfl⟩

/-- Assembly fails from slot `n` on just as the first entry does that offends. -/
theorem assembleFrom_fails_iff {n : Nat} {fault : Fault} :
    script.assembleFrom n = .error fault ↔ ∃ m, script.Fails n m fault := by
  by_cases inside : n < script.entries.size
  · have here := Array.getElem?_eq_getElem inside
    rw [assembleFrom_eq_error_iff here]
    constructor
    · rintro (offends | ⟨own, places, wrong⟩)
      · exact ⟨n, .rest n, offends, fun k lt strides => absurd strides.le (by omega)⟩
      · have width := places.stands.width?
        have pos := List.length_pos_iff.mpr places.nonempty
        obtain ⟨m, fails⟩ := assembleFrom_fails_iff.mp wrong
        refine ⟨m, .step here width fails.strides, fails.offends, fun k lt strides other => ?_⟩
        by_cases first : k = n
        · exact first ▸ places.not_offends here
        · exact fails.first k lt (strides.tail first here width) other
    · rintro ⟨m, fails⟩
      by_cases first : m = n
      · exact .inl (first ▸ fails.offends)
      · have ahead : n < m := Nat.lt_of_le_of_ne fails.strides.le (Ne.symm first)
        rcases places_or_offends here with ⟨own, places⟩ | ⟨other, offends⟩
        · have width := places.stands.width?
          have pos := List.length_pos_iff.mpr places.nonempty
          refine .inr ⟨own, places, assembleFrom_fails_iff.mpr
            ⟨m, fails.strides.tail first here width, fails.offends,
              fun k lt strides => fails.first k lt (.step here width strides)⟩⟩
        · exact absurd offends (fails.first n ahead (.rest n) other)
  · rw [assembleFrom_end (Nat.not_lt.mp inside)]
    refine iff_of_false nofun ?_
    rintro ⟨m, fails⟩
    have := fails.strides.eq_of_size_le (Nat.not_lt.mp inside)
    exact absurd fails.offends.inside (by omega)
termination_by script.entries.size - n

/-- **Assembly is by position**, for every script. It gives the image in which
every entry that going by widths comes to stands at its own slot; and if there
is an entry on that way that cannot be assembled, it fails as the first such. -/
theorem assemble_positional (script : Script) :
    (∀ out, script.assemble = .ok out ↔ script.Positional out) ∧
      ∀ fault, script.assemble = .error fault ↔ ∃ n, script.Fails 0 n fault := by
  refine ⟨fun out => assemble_eq_ok_iff, fun fault => ?_⟩
  rw [assemble, map_eq_error_iff, assembleFrom_fails_iff]

end Script
end EventScript
