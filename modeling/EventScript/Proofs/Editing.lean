/-
Editing an operand. A script may be changed by hand before it is assembled
again: here the words of one operand give way to as many others
(`Script.reword`). No width changes, so assembly comes to the same slots, and
what it writes there changes in the words of the operand alone
(`Image.overwrite`). Slots that assembly does not come to are not written, and
editing them changes nothing.
-/
import EventScript.Proofs.Positional

namespace EventScript

/-! ## Words written over -/

namespace Image

/-- Writes words over those from slot `n` on. -/
def overwrite (image : Image) (n : Nat) : List Word → Image
  | [] => image
  | w :: rest => overwrite (image.setIfInBounds n w) (n + 1) rest

variable {image : Image} {n m : Nat} {words more : List Word}

@[simp] theorem size_overwrite (image : Image) (n : Nat) (words : List Word) :
    (image.overwrite n words).size = image.size := by
  induction words generalizing image n with
  | nil => rfl
  | cons w rest ih => rw [overwrite, ih, Array.size_setIfInBounds]

/-- Writing over some words leaves the others as they are. -/
theorem getElem?_overwrite {k : Nat} (outside : k < n ∨ n + words.length ≤ k) :
    (image.overwrite n words)[k]? = image[k]? := by
  induction words generalizing image n with
  | nil => rfl
  | cons w rest ih =>
    rw [List.length_cons] at outside
    rw [overwrite, ih (by omega), Array.getElem?_setIfInBounds_ne (by omega)]

theorem holds_overwrite (fits : n + words.length ≤ image.size) :
    (image.overwrite n words).Holds n words := by
  induction words generalizing image n with
  | nil => exact fun k w at_k => nomatch at_k
  | cons w rest ih =>
    rw [List.length_cons] at fits
    intro k v at_k
    cases k with
    | zero =>
      cases at_k
      rw [overwrite, getElem?_overwrite (.inl (by omega))]
      exact Array.getElem?_setIfInBounds_self_of_lt (by omega)
    | succ k =>
      rw [overwrite, show n + (k + 1) = n + 1 + k by omega]
      exact ih (by rw [Array.size_setIfInBounds]; omega) k v at_k

/-- Words beside those written over stay. -/
theorem Holds.overwrite (h : image.Holds m more)
    (apart : m + more.length ≤ n ∨ n + words.length ≤ m) :
    (image.overwrite n words).Holds m more := by
  intro k w at_k
  have bound := (List.getElem?_eq_some_iff.mp at_k).1
  rw [getElem?_overwrite (by omega)]
  exact h k w at_k

theorem Holds.append (h : image.Holds n words) (k : image.Holds (n + words.length) more) :
    image.Holds n (words ++ more) := by
  intro i w at_i
  by_cases first : i < words.length
  · rw [List.getElem?_append_left first] at at_i
    exact h i w at_i
  · rw [List.getElem?_append_right (by omega)] at at_i
    have := k _ w at_i
    rwa [show n + words.length + (i - words.length) = n + i by omega] at this

end Image

/-! ## Ways of the same widths -/

namespace Strides

variable {entries others : Array Entry} {n m k w : Nat} {e : Entry}

/-- Where one goes depends on the widths alone. -/
theorem congr (same : ∀ k : Nat, (entries[k]?).map Entry.width? = (others[k]?).map Entry.width?)
    (h : Strides entries n m) : Strides others n m := by
  induction h with
  | rest => exact .rest _
  | @step n m w e here width _ ih =>
    have there := same n
    rw [here, Option.map_some, width] at there
    obtain ⟨other, found, known⟩ := Option.map_eq_some_iff.mp there.symm
    exact .step found known ih

/-- Of two slots that one comes to, one comes from the earlier to the later. -/
theorem onward (h : Strides entries k n) (more : Strides entries k m) (le : n ≤ m) :
    Strides entries n m := by
  induction h with
  | rest => exact more
  | @step k n w e here width rest ih =>
    by_cases first : m = k
    · have := rest.le
      obtain rfl : m = n := by omega
      exact .rest m
    · exact ih (more.tail first here width) le

/-- Entries that one comes to lie side by side. -/
theorem apart (h : Strides entries k n) (more : Strides entries k m) (lt : n < m)
    (here : entries[n]? = some e) (width : e.width? = some w) : n + w ≤ m :=
  ((h.onward more lt.le).tail lt.ne' here width).le

end Strides

/-! ## The edit -/

def Operand.reword (operand : Operand) (words : List Word) : Operand :=
  { operand with rawWords := words }

/-- Puts words in the place of those of operand `j`. -/
def Instruction.reword (decoded : Instruction) (j : Nat) (words : List Word) : Instruction :=
  { decoded with operands := decoded.operands.modify j (·.reword words) }

/-- The slot behind the operands before operand `j` of the instruction at slot `n`. -/
def Instruction.operandSlot (decoded : Instruction) (n j : Nat) : Nat :=
  n + 1 + Operand.widthOfAll (decoded.operands.take j)

def Entry.reword (j : Nat) (words : List Word) : Entry → Entry
  | .instruction decoded => .instruction (decoded.reword j words)
  | e => e

/-- Puts words in the place of those of operand `j` of the instruction at slot `n`. -/
def Script.reword (script : Script) (n j : Nat) (words : List Word) : Script :=
  { script with entries := script.entries.modify n (Entry.reword j words) }

namespace Instruction

variable {decoded : Instruction} {operand : Operand} {j : Nat} {words : List Word}

/-- The words of the operands, cut at operand `j`. -/
theorem rawWords_split (at_j : decoded.operands[j]? = some operand) :
    decoded.operands.flatMap Operand.rawWords =
      (decoded.operands.take j).flatMap Operand.rawWords ++ operand.rawWords ++
        (decoded.operands.drop (j + 1)).flatMap Operand.rawWords := by
  obtain ⟨bound, rfl⟩ := List.getElem?_eq_some_iff.mp at_j
  conv_lhs => rw [← List.take_append_drop j decoded.operands, List.drop_eq_getElem_cons bound]
  rw [List.flatMap_append, List.flatMap_cons, List.append_assoc]

theorem rawWords_reword (at_j : decoded.operands[j]? = some operand) :
    (decoded.reword j words).operands.flatMap Operand.rawWords =
      (decoded.operands.take j).flatMap Operand.rawWords ++ words ++
        (decoded.operands.drop (j + 1)).flatMap Operand.rawWords := by
  obtain ⟨bound, rfl⟩ := List.getElem?_eq_some_iff.mp at_j
  rw [reword, List.modify_eq_take_cons_drop bound, List.flatMap_append, List.flatMap_cons,
    List.append_assoc]
  rfl

theorem header_reword : (decoded.reword j words).header = decoded.header := by
  simp [header, reword]

theorem width_reword (at_j : decoded.operands[j]? = some operand)
    (length : words.length = operand.rawWords.length) :
    (decoded.reword j words).width = decoded.width := by
  rw [width, width, ← length_rawWords, ← length_rawWords, rawWords_reword at_j,
    rawWords_split at_j]
  simp only [List.length_append, length]

/-- The words of an operand lie inside its instruction. -/
theorem operandSlot_fits (at_j : decoded.operands[j]? = some operand) (n : Nat) :
    decoded.operandSlot n j + operand.rawWords.length ≤ n + decoded.width := by
  rw [operandSlot, width, ← length_rawWords, ← length_rawWords, rawWords_split at_j]
  simp only [List.length_append]
  omega

theorem isSupported_reword
    (h : ∀ operand ∈ decoded.operands, operand.mode.isSupported = true) :
    ∀ operand ∈ (decoded.reword j words).operands, operand.mode.isSupported = true := by
  intro operand mem
  obtain ⟨k, at_k⟩ := List.mem_iff_getElem?.mp mem
  rw [reword, List.getElem?_modify] at at_k
  obtain ⟨old, found, rfl⟩ := Option.map_eq_some_iff.mp at_k
  have supported := h old (List.mem_iff_getElem?.mpr ⟨k, found⟩)
  split <;> exact supported

/-- Where an instruction stands, the edited one stands after its operand was
written over. -/
theorem holds_reword {out : Image} {n : Nat} (at_j : decoded.operands[j]? = some operand)
    (length : words.length = operand.rawWords.length)
    (fits : decoded.operandSlot n j + words.length ≤ out.size)
    (h : out.Holds n (decoded.header.encode :: decoded.operands.flatMap Operand.rawWords)) :
    (out.overwrite (decoded.operandSlot n j) words).Holds n
      ((decoded.reword j words).header.encode ::
        (decoded.reword j words).operands.flatMap Operand.rawWords) := by
  have slot : decoded.operandSlot n j = n + (decoded.header.encode ::
      (decoded.operands.take j).flatMap Operand.rawWords).length := by
    rw [List.length_cons, length_rawWords, operandSlot]
    omega
  rw [rawWords_split at_j, ← List.cons_append, ← List.cons_append] at h
  rw [header_reword, rawWords_reword at_j, ← List.cons_append, ← List.cons_append]
  refine .append (.append (h.left.left.overwrite (.inl slot.ge)) ?_) ?_
  · rw [← slot]
    exact Image.holds_overwrite fits
  · have after := h.right
    rw [List.length_append, ← Nat.add_assoc, ← slot] at after ⊢
    rw [← length] at after
    exact after.overwrite (.inr (Nat.le_refl _))

end Instruction

namespace Script

variable {script : Script} {out : Image} {n j : Nat} {decoded : Instruction} {operand : Operand}
  {words : List Word}

/-- What an entry stands for rests on the labels alone. -/
theorem Stands.of_labels {other : Script} {e : Entry} (h : script.Stands n e words)
    (same : other.labels = script.labels) : other.Stands n e words := by
  cases h with
  | entrypoint found => exact .entrypoint (same ▸ found)
  | instruction supported => exact .instruction supported
  | pointerTable distances => exact .pointerTable (same ▸ distances)
  | encodedString length halves => exact .encodedString length halves
  | rawData => exact .rawData

theorem getElem?_reword {m : Nat} (other : m ≠ n) :
    (script.reword n j words).entries[m]? = script.entries[m]? := by
  rw [reword, Array.getElem?_modify, if_neg (Ne.symm other)]

theorem getElem?_reword_self (here : script.entries[n]? = some (.instruction decoded)) :
    (script.reword n j words).entries[n]? = some (.instruction (decoded.reword j words)) := by
  rw [reword, Array.getElem?_modify, if_pos rfl, here]
  rfl

theorem size_reword : (script.reword n j words).entries.size = script.entries.size :=
  Array.size_modify

section Reword

variable (here : script.entries[n]? = some (.instruction decoded))
  (at_j : decoded.operands[j]? = some operand) (length : words.length = operand.rawWords.length)
include here at_j length

/-- Assembly comes to the same slots. -/
theorem strides_reword {m : Nat} (h : Strides (script.reword n j words).entries 0 m) :
    Strides script.entries 0 m := by
  refine h.congr fun k => ?_
  by_cases self : k = n
  · subst self
    rw [getElem?_reword_self here, here]
    exact congrArg some (congrArg some (Instruction.width_reword at_j length))
  · rw [getElem?_reword self]

theorem Positional.operandSlot_fits (h : script.Positional out)
    (reached : Strides script.entries 0 n) :
    decoded.operandSlot n j + words.length ≤ out.size := by
  rw [length]
  exact (Instruction.operandSlot_fits at_j n).trans (h.fits reached here rfl)

/-- A slot that assembly does not come to may hold what it will. -/
theorem Positional.reword_unreached (h : script.Positional out)
    (unreached : ¬ Strides script.entries 0 n) : (script.reword n j words).Positional out where
  size := h.size.trans size_reword.symm
  stands {m e} strides there := by
    have reached := strides_reword here at_j length strides
    have other : m ≠ n := fun eq => unreached (eq ▸ reached)
    rw [getElem?_reword other] at there
    obtain ⟨own, stands, rest⟩ := h.stands reached there
    exact ⟨own, stands.of_labels rfl, rest⟩

/-- The new words stand where the old ones stood. -/
theorem Positional.reword (h : script.Positional out) (reached : Strides script.entries 0 n) :
    (script.reword n j words).Positional (out.overwrite (decoded.operandSlot n j) words) where
  size := by rw [Image.size_overwrite, h.size, size_reword]
  stands {m e} strides there := by
    have arrived := strides_reword here at_j length strides
    have inside := decoded.operandSlot_fits at_j n
    have fits := h.operandSlot_fits here at_j length reached
    by_cases self : m = n
    · subst self
      obtain rfl := Option.some.inj ((getElem?_reword_self here).symm.trans there)
      obtain ⟨own, stands, -, -, holds⟩ := h.stands arrived here
      cases stands
      rename_i supported
      have stands : (script.reword m j words).Stands m (.instruction (decoded.reword j words)) _ :=
        .instruction (Instruction.isSupported_reword supported)
      exact ⟨_, stands, List.cons_ne_nil _ _, stands.width?,
        Instruction.holds_reword at_j length fits holds⟩
    · rw [getElem?_reword self] at there
      obtain ⟨own, stands, nonempty, width, holds⟩ := h.stands arrived there
      refine ⟨own, stands.of_labels rfl, nonempty, width, holds.overwrite ?_⟩
      rcases Nat.lt_or_gt_of_ne self with before | behind
      · have := arrived.apart reached before there width
        left
        rw [Instruction.operandSlot]
        omega
      · have := reached.apart arrived behind here rfl
        right
        omega

end Reword

/-- **Editing an operand is local.** The words of one operand of a script that
can be assembled give way to as many others: it still can be, and the image
changes nowhere but in those words. They are the new ones, if assembly comes to
the instruction at all. -/
theorem assemble_reword (assembles : script.assemble = .ok out)
    (here : script.entries[n]? = some (.instruction decoded))
    (at_j : decoded.operands[j]? = some operand)
    (length : words.length = operand.rawWords.length) :
    ∃ edited, (script.reword n j words).assemble = .ok edited ∧ edited.size = out.size ∧
      (∀ k, k < decoded.operandSlot n j ∨ decoded.operandSlot n j + words.length ≤ k →
        edited[k]? = out[k]?) ∧
      (Strides script.entries 0 n → edited.Holds (decoded.operandSlot n j) words) ∧
      (¬ Strides script.entries 0 n → edited = out) := by
  have positional := assemble_eq_ok_iff.mp assembles
  by_cases reached : Strides script.entries 0 n
  · have fits := positional.operandSlot_fits here at_j length reached
    have rewritten := positional.reword here at_j length reached
    refine ⟨_, assemble_eq_ok_iff.mpr rewritten, Image.size_overwrite .., ?_, ?_, ?_⟩
    · exact fun k outside => Image.getElem?_overwrite outside
    · exact fun _ => Image.holds_overwrite fits
    · exact fun unreached => absurd reached unreached
  · have same := positional.reword_unreached here at_j length reached
    exact ⟨out, assemble_eq_ok_iff.mpr same, rfl, fun _ _ => rfl, fun h => absurd h reached,
      fun _ => rfl⟩

/-- A move of the number 5 to a place in storage. -/
def storeFive : Instruction where
  address := 0
  opcode := .mov
  parameter := 0
  operands := [⟨4, .immediate, [5], some 5, none⟩, ⟨8, .storage, [0x02000002], none, none⟩]

def storing : Script where
  entries := #[.instruction storeFive, .operandSlot 0 0, .operandSlot 0 1]

theorem assemble_storing : storing.assemble = .ok #[0x208, 5, 0x02000002] := by
  have words : storing.assembleFrom 0 = .ok ([0x208, 5, 0x02000002] ++ []) :=
    assembleFrom_step rfl rfl (by decide) (by decide) rfl (assembleFrom_end (by decide))
  rw [assemble, words]
  rfl

/-- With the number 7 in the place of 5, the move assembles to the same words but one. -/
theorem assemble_reword_storing : Strides storing.entries 0 0 ∧
    ∃ edited, (storing.reword 0 0 [7]).assemble = .ok edited ∧
      edited.toList = [0x208, 7, 0x02000002] := by
  have length : ([7] : List Word).length = ([5] : List Word).length := rfl
  obtain ⟨edited, assembles, -, others, own, -⟩ :=
    assemble_reword (n := 0) (j := 0) assemble_storing rfl rfl length
  refine ⟨.rest 0, edited, assembles, List.ext_getElem? fun k => ?_⟩
  rw [Array.getElem?_toList]
  match k with
  | 0 => exact others 0 (.inl (by decide))
  | 1 => exact own (.rest 0) 0 7 rfl
  | k + 2 =>
    rw [others (k + 2) (.inr (Nat.le_add_left 2 k)), List.getElem?_toArray]
    rfl

end Script
end EventScript
