/-
What each move does to the entries of a script. Naming an entry point, placing
an instruction or a table and laying out a text claim free slots (`Claims`);
correcting a table cuts and seals it (`Recut`); taking the rest for data gives
each free slot the word that stands there. So every move keeps a script laid
(`Move.laid`), and what is claimed stays claimed.
-/
import EventScript.Proofs.Layout
import EventScript.Proofs.Move
import EventScript.Proofs.Overrun

namespace EventScript

namespace Recovery

/-! ## Instructions -/

/-- Labelling operands leaves what was read. -/
theorem ReadAll.labelled {image : Image} {diagnostics : List Diagnostic} {header cursor : Nat}
    {operands : List Operand} (h : ReadAll image diagnostics header cursor operands)
    (labels : LabelTable) :
    ReadAll image diagnostics header cursor (labelOperands labels operands).1 := by
  induction h generalizing labels with
  | nil => exact .nil
  | @cons cursor operand rest first _ ih =>
    have relabelled : Read image diagnostics header cursor (labelOperand labels operand).1 ∧
        (labelOperand labels operand).1.width = operand.width := by
      cases first with
      | kept word supported inside near =>
        rw [labelOperand]
        split
        · split
          · exact ⟨.kept word supported inside near, rfl⟩
          · exact ⟨.kept word supported inside near, rfl⟩
        · exact ⟨.kept word supported inside near, rfl⟩
      | zeroed word inside resolved astray noted =>
        exact ⟨.zeroed word inside resolved astray noted, rfl⟩
    rw [labelOperands]
    refine .cons relabelled.1 ?_
    rw [relabelled.2]
    exact ih _

theorem widthOfAll_labelOperands (labels : LabelTable) (operands : List Operand) :
    Operand.widthOfAll (labelOperands labels operands).1 = Operand.widthOfAll operands := by
  induction operands generalizing labels with
  | nil => rfl
  | cons operand rest ih =>
    have same : (labelOperand labels operand).1.width = operand.width := by
      rw [labelOperand]
      split
      · split <;> rfl
      · rfl
    simp only [labelOperands, Operand.widthOfAll, same, ih]

theorem length_labelOperands (labels : LabelTable) (operands : List Operand) :
    (labelOperands labels operands).1.length = operands.length := by
  induction operands generalizing labels with
  | nil => rfl
  | cons operand rest ih => simp [labelOperands, ih]

theorem claimOperands_eq (script : Script) (header index : Nat) (operands : List Operand) :
    claimOperands script header index operands =
      { script with entries := (claimOperands script header index operands).entries } := by
  induction operands generalizing script index with
  | nil => rfl
  | cons operand rest ih =>
    rw [claimOperands, ih, Script.fill_eq]

@[simp] theorem size_claimOperands (script : Script) (header index : Nat)
    (operands : List Operand) :
    (claimOperands script header index operands).entries.size = script.entries.size := by
  induction operands generalizing script index with
  | nil => rfl
  | cons operand rest ih => simp [claimOperands, ih]

theorem getElem?_claimOperands {image : Image} {diagnostics : List Diagnostic}
    {header cursor : Nat} {operands : List Operand}
    (h : ReadAll image diagnostics header cursor operands) {script : Script}
    (fits : cursor / 4 + Operand.widthOfAll operands ≤ script.entries.size) (index m : Nat) :
    (claimOperands script header index operands).entries[m]? =
      if cursor / 4 ≤ m ∧ m < cursor / 4 + Operand.widthOfAll operands then
        (operandSlots header index operands)[m - cursor / 4]?
      else script.entries[m]? := by
  induction h generalizing script index with
  | nil =>
    rw [claimOperands, if_neg]
    simp only [Operand.widthOfAll]
    omega
  | @cons cursor operand rest first _ ih =>
    have address := first.address
    have slot : (cursor + 4 * operand.width) / 4 = cursor / 4 + operand.width := by omega
    have total : Operand.widthOfAll (operand :: rest) =
        operand.width + Operand.widthOfAll rest := rfl
    rw [claimOperands, ih (by rw [Script.size_fill]; omega), Script.getElem?_fill, address, slot,
      operandSlots]
    by_cases later : cursor / 4 + operand.width ≤ m ∧
        m < cursor / 4 + operand.width + Operand.widthOfAll rest
    · rw [if_pos later, if_pos (by omega),
        List.getElem?_append_right (by simp only [List.length_replicate]; omega)]
      congr 1
      simp only [List.length_replicate]
      omega
    · rw [if_neg later]
      by_cases here : cursor / 4 ≤ m ∧ m < cursor / 4 + operand.width
      · rw [if_pos (by omega), if_pos (by omega),
          List.getElem?_append_left (by simp only [List.length_replicate]; omega),
          List.getElem?_replicate, if_pos (by omega)]
      · rw [if_neg (by omega), if_neg (by omega)]

theorem placeInstruction_claims {image : Image} {s : Script} {read : Instruction}
    (readable : Readable image s read) (size : s.entries.size = image.size) :
    Claims s.entries (read.address / 4) (.instruction (placeInstruction s read).1)
      (placeInstruction s read).2.entries := by
  obtain ⟨aligned, free⟩ := Script.entryAt?_eq_some readable.free
  have inside := (Array.getElem?_eq_some_iff.mp free).1
  have slot : (read.address + 4) / 4 = read.address / 4 + 1 := by omega
  have fits := readable.operands.width_le (by omega)
  rw [slot] at fits
  have width := widthOfAll_labelOperands s.labels read.operands
  have slots := @getElem?_claimOperands _ _ _ _ _ (readable.operands.labelled s.labels)
    { s with labels := (labelOperands s.labels read.operands).2 }
    (by simp only [slot, width]; omega) 0
  simp only [slot, width] at slots
  have length := length_operandSlots read.address 0 (labelOperands s.labels read.operands).1
  have behind : Entry.tail (.instruction (placeInstruction s read).1) =
      operandSlots read.address 0 (labelOperands s.labels read.operands).1 := rfl
  have after : ∀ m, (placeInstruction s read).2.entries[m]? =
      if m = read.address / 4 then some (.instruction (placeInstruction s read).1)
      else (claimOperands { s with labels := (labelOperands s.labels read.operands).2 }
        read.address 0 (labelOperands s.labels read.operands).1).entries[m]? := by
    intro m
    rw [placeInstruction, Script.getElem?_setEntry, size_claimOperands]
    by_cases eq : m = read.address / 4
    · rw [if_pos eq, if_pos ⟨eq, eq ▸ inside⟩]
    · rw [if_neg eq, if_neg fun both => eq both.1]
  refine ⟨?_, free, ?_, ?_, ?_, ?_, ?_⟩
  · simp [placeInstruction]
  · rw [after, if_pos rfl]
  · exact congrArg some aligned
  · refine ⟨1 + Operand.widthOfAll (labelOperands s.labels read.operands).1, rfl, by omega, ?_⟩
    omega
  · intro m other
    rw [after, if_neg other, slots]
    by_cases here : read.address / 4 + 1 ≤ m ∧
        m < read.address / 4 + 1 + Operand.widthOfAll read.operands
    · rw [if_pos here]
      have bound : m < s.entries.size := by omega
      have unset := readable.room (m - (read.address / 4 + 1)) (by omega) _
        (Array.getElem?_eq_getElem (by omega))
      refine .inr ⟨?_, m - (read.address / 4 + 1), _, by omega,
        List.getElem?_eq_getElem (by rw [behind]; omega), ?_⟩
      · rw [Array.getElem?_eq_getElem bound, ← unset]
        congr 2
        omega
      · rw [List.getElem?_eq_getElem (by omega)]
        rfl
    · exact .inl (if_neg here)
  · intro _ k t tail
    obtain ⟨bound, -⟩ := List.getElem?_eq_some_iff.mp tail
    rw [behind] at bound
    rw [after, if_neg (by omega), slots, if_pos (by omega),
      show read.address / 4 + 1 + k - (read.address / 4 + 1) = k by omega]
    exact tail

/-! ## Entry points, tables and texts -/

theorem entrypoint_claims {s : Script} {n : Nat} {name : String}
    (free : s.entries[n]? = some .unset) :
    Claims s.entries n (.entrypoint (4 * n) name)
      (s.setEntry (4 * n) (.entrypoint (4 * n) name)).entries := by
  have inside := (Array.getElem?_eq_some_iff.mp free).1
  have slot : 4 * n / 4 = n := by omega
  refine ⟨by simp, free, ?_, rfl, ⟨1, rfl, by omega, by omega⟩, ?_, ?_⟩
  · rw [Script.getElem?_setEntry, slot, if_pos ⟨rfl, inside⟩]
  · intro m other
    rw [Script.getElem?_setEntry, slot, if_neg fun both => other both.1]
    exact .inl rfl
  · intro _ k t tail
    cases tail

theorem Tabled.claims {image : Image} {s : Script} {table : Nat} {destinations : List Nat}
    (h : Tabled image s table destinations) {labels : List String}
    (length : labels.length = destinations.length) :
    Claims s.entries (table / 4) (.pointerTable table labels)
      (s.entries.setIfInBounds (table / 4) (.pointerTable table labels)) := by
  have pos := List.length_pos_iff.mpr h.nonempty
  have first := h.unset pos
  rw [Nat.add_zero] at first
  have last := (Array.getElem?_eq_some_iff.mp (h.unset (Nat.sub_lt pos Nat.one_pos))).1
  have inside := (Array.getElem?_eq_some_iff.mp first).1
  refine ⟨by simp, first, ?_, congrArg some h.aligned, ⟨labels.length, rfl, by omega, by omega⟩, ?_,
    ?_⟩
  · rw [Array.getElem?_setIfInBounds, if_pos rfl, if_pos inside]
  · intro m other
    rw [Array.getElem?_setIfInBounds_ne (Ne.symm other)]
    exact .inl rfl
  · intro open_
    cases open_

theorem Texted.unset {image : Image} {s : Script} {text : EncodedString} (h : Texted image s text)
    {k : Nat} (bound : k < text.width) : s.entries[text.address / 4 + k]? = some .unset := by
  have at_k := (Script.slot_of_isUnset (h.free k bound)).2
  rwa [show (text.address + 4 * k) / 4 = text.address / 4 + k by omega] at at_k

theorem Texted.width_pos {image : Image} {s : Script} {text : EncodedString}
    (h : Texted image s text) : 0 < text.width := by
  have := h.nonempty
  simp only [EncodedString.width]
  omega

theorem Texted.aligned {image : Image} {s : Script} {text : EncodedString}
    (h : Texted image s text) : text.address = 4 * (text.address / 4) :=
  (Script.slot_of_isUnset (h.free 0 h.width_pos)).1

theorem Texted.claims {image : Image} {s : Script} {text : EncodedString}
    (h : Texted image s text) :
    Claims s.entries (text.address / 4) (.encodedString text)
      ((s.setEntry text.address (.encodedString text)).fill (text.address + 4)
        (.continuation text.address) (text.width - 1)).entries := by
  have pos := h.width_pos
  have first := h.unset pos
  rw [Nat.add_zero] at first
  have last := (Array.getElem?_eq_some_iff.mp (h.unset (Nat.sub_lt pos Nat.one_pos))).1
  have inside := (Array.getElem?_eq_some_iff.mp first).1
  have slot : (text.address + 4) / 4 = text.address / 4 + 1 := by omega
  refine ⟨by simp, first, ?_, congrArg some h.aligned, ⟨text.width, rfl, pos, by omega⟩, ?_, ?_⟩
  · rw [Script.getElem?_fill, if_neg (by omega), Script.getElem?_setEntry, if_pos ⟨rfl, inside⟩]
  · intro m other
    have beside : (s.setEntry text.address (.encodedString text)).entries[m]? = s.entries[m]? := by
      rw [Script.getElem?_setEntry, if_neg fun both => other both.1]
    rw [Script.getElem?_fill, slot, Script.size_setEntry, beside]
    by_cases here : text.address / 4 + 1 ≤ m ∧
        m < text.address / 4 + 1 + (text.width - 1) ∧ m < s.entries.size
    · rw [if_pos here]
      have unset := h.unset (k := m - text.address / 4) (by omega)
      rw [show text.address / 4 + (m - text.address / 4) = m by omega] at unset
      refine .inr ⟨unset, m - text.address / 4 - 1, _, by omega, ?_, rfl⟩
      rw [Entry.tail, List.getElem?_replicate, if_pos (by omega)]
    · exact .inl (if_neg here)
  · intro _ k t tail
    obtain ⟨bound, rfl⟩ := List.getElem?_eq_some_iff.mp tail
    simp only [Entry.tail, List.length_replicate] at bound
    rw [Script.getElem?_fill, slot, Script.size_setEntry, if_pos (by omega)]
    simp [Entry.tail]

/-! ## The rest as data -/

theorem getElem?_fillData (image : Image) (s : Script) (m : Nat) :
    (fillData image s).entries[m]? = s.entries[m]?.map fun e =>
      if e.isUnset then .rawData (4 * m) (image.wordAt (4 * m)) else e := by
  simp [fillData]

/-- Each slot holds a raw word then, if it was free, and else what it held. -/
theorem fillData_cases {image : Image} {s : Script} {m : Nat} {e : Entry}
    (at_m : (fillData image s).entries[m]? = some e) :
    (s.entries[m]? = some .unset ∧ e = .rawData (4 * m) (image.wordAt (4 * m))) ∨
      (s.entries[m]? = some e ∧ e ≠ .unset) := by
  rw [getElem?_fillData, Option.map_eq_some_iff] at at_m
  obtain ⟨old, at_old, eq⟩ := at_m
  by_cases free : old = .unset
  · subst free
    exact .inl ⟨at_old, eq.symm⟩
  · have claimed : old.isUnset = false := by cases old <;> simp_all [Entry.isUnset]
    rw [claimed] at eq
    cases eq
    exact .inr ⟨at_old, free⟩

theorem fillData_stays {image : Image} {s : Script} {m : Nat} {e : Entry}
    (at_m : s.entries[m]? = some e) (claimed : e ≠ .unset) :
    (fillData image s).entries[m]? = some e := by
  have claimed : e.isUnset = false := by cases e <;> simp_all [Entry.isUnset]
  rw [getElem?_fillData, at_m, Option.map_some, claimed]
  rfl

theorem fillData_tailAt {image : Image} {s : Script} {m : Nat} {e : Entry}
    (h : TailAt s.entries m e) : TailAt (fillData image s).entries m e := by
  intro k t tail
  refine fillData_stays (h tail) ?_
  rintro rfl
  have := Entry.width?_of_mem_tail (List.mem_of_getElem? tail)
  cases this

theorem fillData_laid {image : Image} {s : Script} (h : Laid s.entries) :
    Laid (fillData image s).entries := by
  refine ⟨?_, ?_, ?_, ?_⟩
  · intro m e a at_m home
    rcases fillData_cases at_m with ⟨-, rfl⟩ | ⟨old, -⟩
    · cases home
      rfl
    · exact h.home old home
  · intro m e w at_m width
    have size : (fillData image s).entries.size = s.entries.size := by simp [fillData]
    rcases fillData_cases at_m with ⟨free, rfl⟩ | ⟨old, -⟩
    · cases width
      exact size ▸ h.room free rfl
    · exact size ▸ h.room old width
  · intro m e at_m open_
    rcases fillData_cases at_m with ⟨-, rfl⟩ | ⟨old, -⟩
    · intro k t tail
      cases tail
    · exact fillData_tailAt (h.solid old open_)
  · intro m e at_m width
    rcases fillData_cases at_m with ⟨-, rfl⟩ | ⟨old, -⟩
    · cases width
    · obtain ⟨n, head, k, at_n, tail, rfl⟩ := h.owned old width
      refine ⟨n, head, k, fillData_stays at_n ?_, tail, rfl⟩
      rintro rfl
      cases tail

/-! ## Every move -/

/-- What an entry says of the image is so. -/
def Faithful (image : Image) (diagnostics : List Diagnostic) : Entry → Prop
  | .instruction decoded => Headed image decoded ∧
      ReadAll image diagnostics decoded.address (decoded.address + 4) decoded.operands
  | .encodedString text => Spelled image text
  | .rawData address value => value = image.wordAt address
  | _ => True

theorem Faithful.mono {image : Image} {old new : List Diagnostic} {e : Entry}
    (more : ∀ d ∈ old, d ∈ new) (h : Faithful image old e) : Faithful image new e := by
  cases e with
  | instruction decoded => exact ⟨h.1, h.2.mono more⟩
  | _ => exact h

/-- What later slots and tables say of the image is not said by them alone. -/
theorem Faithful.of_width?_eq_none {image : Image} {diagnostics : List Diagnostic} {e : Entry}
    (h : e.width? = none) : Faithful image diagnostics e := by
  cases e with
  | operandSlot | continuation => trivial
  | _ => cases h

/-- What a move does to the entries of a script. -/
inductive Effect (image : Image) (s t : Script) : Prop
  | none (entries : t.entries = s.entries)
  | placed {n : Nat} {e : Entry} (claims : Claims s.entries n e t.entries)
      (faithful : Faithful image t.diagnostics e)
  | corrected {n keep : Nat} {labels : List String}
      (recut : Recut s.entries n labels keep t.entries)
  | filled (data : t.entries = (fillData image s).entries)

theorem Move.keeps {image : Image} {s t : Script} (h : Move image s t) (laid : Laid s.entries) :
    Keeps s t := by
  cases h with
  | aside aside => exact aside.grows.toKeeps
  | entrypoint _ _ _ named =>
    subst named
    exact .of_visited (fun _ m => m) rfl rfl
  | @instruction read _ placed =>
    subst placed
    have same : (placeInstruction s read).2.diagnostics = s.diagnostics := by
      simp only [placeInstruction, Script.setEntry]
      rw [claimOperands_eq]
    exact .of_visited (fun _ m => same ▸ m) (placeInstruction_branches ..)
      (placeInstruction_tableAddresses ..)
  | @correct head corrected =>
    subst corrected
    obtain ⟨same, -⟩ | ⟨n, labels, keep, -, c⟩ := Script.correctTable_cases laid head
    · rw [same]
      exact .rfl
    · refine .of_visited (fun d mem => ?_) c.branches c.tables
      rw [c.diagnostics]
      exact List.mem_append_left _ mem
  | text _ laid =>
    subst laid
    refine .of_visited (fun d mem => ?_) (fill_branches ..) (fill_tableAddresses ..)
    rw [Script.diagnostics_fill]
    exact mem
  | data filled =>
    subst filled
    exact .of_visited (fun _ m => m) rfl rfl

/-- **Every move** leaves the entries, claims free slots, corrects a table or
takes the rest for data. -/
theorem Move.effect {image : Image} {s t : Script} (h : Move image s t) (laid : Laid s.entries)
    (size : s.entries.size = image.size) : Effect image s t := by
  have keeps := h.keeps laid
  cases h with
  | aside aside => cases aside with
    | note _ entries => exact .none entries
    | @table address destinations _ found entries =>
      have claims := found.claims (s.labels.length_addAll destinations)
      rw [← entries] at claims
      exact .placed claims trivial
  | @entrypoint n word _ _ free named =>
    subst named
    exact .placed (n := n) (entrypoint_claims free) trivial
  | @instruction read readable placed =>
    subst placed
    refine .placed (n := read.address / 4) (placeInstruction_claims readable size) ⟨?_, ?_⟩
    · obtain ⟨header, decoded, opcode, parameter, count⟩ := readable.header
      exact ⟨header, decoded, opcode, parameter, (length_labelOperands ..).trans count⟩
    · exact (readable.operands.mono keeps.diagnostics).labelled s.labels
  | @correct head corrected =>
    subst corrected
    obtain ⟨same, -⟩ | ⟨n, labels, keep, -, c⟩ := Script.correctTable_cases laid head
    · exact .none (by rw [same])
    · exact .corrected c.entries
  | @text text found laid =>
    subst laid
    exact .placed (n := text.address / 4) found.claims found.spelled
  | data filled =>
    subst filled
    exact .filled rfl

/-- **No move loses what was found.** -/
theorem Move.grows {image : Image} {s t : Script} (h : Move image s t) (laid : Laid s.entries)
    (size : s.entries.size = image.size) : Grows s t := by
  have keeps := h.keeps laid
  cases h.effect laid size with
  | none entries => exact .of_stays keeps fun at_n _ => entries ▸ at_n
  | placed claims => exact .of_stays keeps fun at_n claimed => claims.stays at_n claimed
  | filled data => exact .of_stays keeps fun at_n claimed => data ▸ fillData_stays at_n claimed
  | @corrected n keep labels recut =>
    -- Neither a table nor loose: the cut leaves it.
    have fast : ∀ {m : Nat} {e : Entry}, s.entries[m]? = some e → e.isTable = false →
        ¬ e.Loose (4 * n) → t.entries[m]? = some e := fun {m e} at_m other fast => by
      refine recut.stays at_m ?_ fast
      rintro rfl
      rw [recut.old] at at_m
      cases at_m
      cases other
    refine ⟨keeps, fun at_m => fast at_m rfl ?_, fun at_m => fast at_m rfl ?_,
      fun {m address names} at_m => ?_⟩
    · rintro (eq | eq | ⟨_, _, eq⟩) <;> cases eq
    · rintro (eq | eq | ⟨_, _, eq⟩) <;> cases eq
    · by_cases eq : m = n
      · subst eq
        rw [recut.old] at at_m
        cases at_m
        exact ⟨keep, recut.new⟩
      · refine ⟨names.length, ?_⟩
        rw [List.take_length]
        refine recut.stays at_m eq ?_
        rintro (eq | eq | ⟨_, _, eq⟩) <;> cases eq

/-- What holds of the entries of a script while it is explored. -/
structure Explored (image : Image) (s : Script) : Prop where
  size : s.entries.size = image.size
  laid : Laid s.entries
  faithful : ∀ {n : Nat} {e : Entry}, s.entries[n]? = some e → Faithful image s.diagnostics e

theorem Explored.blank (image : Image) : Explored image (.blank image.size) := by
  refine ⟨by simp [Script.blank], Laid.blank image.size, fun {n e} at_n => ?_⟩
  simp only [Script.blank, Array.getElem?_replicate] at at_n
  split at at_n
  · cases at_n
    trivial
  · cases at_n

theorem Explored.move {image : Image} {s t : Script} (h : Explored image s)
    (move : Move image s t) : Explored image t := by
  have more := (move.keeps h.laid).diagnostics
  cases move.effect h.laid h.size with
  | none entries =>
    refine ⟨by rw [entries, h.size], entries ▸ h.laid, fun at_n => ?_⟩
    exact (h.faithful (entries ▸ at_n)).mono more
  | placed claims faithful =>
    refine ⟨by rw [claims.size, h.size], claims.laid h.laid, fun at_n => ?_⟩
    rcases claims.cases_of_after at_n with old | ⟨rfl, rfl⟩ | ⟨k, rfl, tail⟩
    · exact (h.faithful old).mono more
    · exact faithful
    · exact .of_width?_eq_none (Entry.width?_of_mem_tail (List.mem_of_getElem? tail))
  | corrected recut =>
    refine ⟨by rw [recut.size, h.size], recut.laid h.laid, fun at_n => ?_⟩
    rcases recut.cases_of_after at_n with ⟨rfl, rfl⟩ | ⟨-, -, rfl⟩ | rfl | ⟨old, -⟩
    · trivial
    · trivial
    · trivial
    · exact (h.faithful old).mono more
  | filled data =>
    refine ⟨by simp [data, fillData, h.size], data ▸ fillData_laid h.laid, fun at_n => ?_⟩
    rcases fillData_cases (data ▸ at_n) with ⟨-, rfl⟩ | ⟨old, -⟩
    · rfl
    · exact (h.faithful old).mono more

/-- **Every script on the way of a recovery is laid**, and what it says of the
image is so. -/
theorem Moves.explored {image : Image} {s t : Script} (h : Moves image s t)
    (start : Explored image s) : Explored image t :=
  h.invariant (P := Explored image) (fun move explored => explored.move move) start

theorem Moves.grows {image : Image} {s t : Script} (h : Moves image s t)
    (start : Explored image s) : Grows s t := by
  have both := h.invariant (P := fun t => Explored image t ∧ Grows s t)
    (fun move held =>
      ⟨held.1.move move, held.2.trans (move.grows held.1.laid held.1.size)⟩) ⟨start, .rfl⟩
  exact both.2

end Recovery
end EventScript
