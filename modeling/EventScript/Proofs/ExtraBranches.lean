/-
Extra branches only add code. They are explored when all else is, on the script
that the entry points led to; so whatever was found before stays, and only
tables may be cut shorter by what is found now (`Widens`).

Branches that were probed already add nothing: they are taken off the worklist
one after the other, and correcting the tables once more changes nothing, as
every table is sealed and no label names a slot inside one (`Settled`,
`correctOverruns_settled`).
-/
import EventScript.Proofs.Classification
import EventScript.Proofs.Independence
import EventScript.Proofs.Work

namespace EventScript

/-! ## Correcting the tables a second time -/

/-- No label names a slot inside a table, but for the tables at some heads. -/
def ClearBut (heads : List Nat) (script : Script) : Prop :=
  ∀ n address labels, script.entries[n]? = some (.pointerTable address labels) →
    4 * n ∈ heads ∨ ∀ m, n < m → m < n + labels.length → script.labels.contains (4 * m) = false

/-- Correcting a table clears it and names no slot. -/
theorem ClearBut.correctTable {script : Script} {head : Nat} {rest : List Nat}
    (laid : Laid script.entries) (sound : script.labels.Sound)
    (h : ClearBut (head :: rest) script) :
    (script.correctTable head).labels.Sound ∧ ClearBut rest (script.correctTable head) := by
  obtain ⟨same, none⟩ | ⟨m, old, keep, rfl, c⟩ := Script.correctTable_cases laid head
  · rw [same]
    refine ⟨sound, fun n address labels at_n => ?_⟩
    exact (h n address labels at_n).imp_left fun pending =>
      (List.mem_cons.mp pending).resolve_left (none at_n)
  · have gives := c.gives sound
    refine ⟨gives.sound, fun n address labels at_n => ?_⟩
    rcases c.entries.cases_of_after at_n with ⟨rfl, eq⟩ | ⟨-, -, eq⟩ | eq | ⟨before, other, -⟩
    · cases eq
      refine .inr fun k low high => gives.unnamed sound (c.unnamed low ?_)
      rw [List.length_take] at high
      omega
    · cases eq
    · cases eq
    · rcases h n address labels before with pending | clear
      · exact .inl ((List.mem_cons.mp pending).resolve_left (by omega))
      · exact .inr fun k low high => gives.unnamed sound (clear k low high)

theorem correctTables_clear {heads : List Nat} {script : Script} (laid : Laid script.entries)
    (sound : script.labels.Sound) (h : ClearBut heads script) :
    ClearBut [] (heads.foldl Script.correctTable script) := by
  induction heads generalizing script with
  | nil => exact h
  | cons head rest ih =>
    obtain ⟨still, clear⟩ := h.correctTable laid sound
    exact ih (Script.correctTable_laid laid head) still clear

/-- A script that correcting the tables leaves as it is. -/
structure Settled (script : Script) : Prop where
  sealed : Sealed script.entries
  clear : ∀ {n m address : Nat} {labels : List String},
    script.entries[n]? = some (.pointerTable address labels) →
    n < m → m < n + labels.length → script.labels.contains (4 * m) = false

theorem correctOverruns_settled {script : Script} (laid : Laid script.entries)
    (sound : script.labels.Sound) : Settled script.correctOverruns where
  sealed := correctOverruns_sealed laid
  clear := fun {n m address labels} at_n low high => by
    have clear := correctTables_clear laid sound fun _ _ _ table => .inl (mem_tableHeads table)
    exact (clear n address labels at_n).resolve_left List.not_mem_nil m low high

namespace Script

theorem setEntry_same {script : Script} {address : Nat} {e : Entry}
    (there : script.entries[address / 4]? = some e) : script.setEntry address e = script := by
  have same : script.entries.setIfInBounds (address / 4) e = script.entries := by
    refine Array.ext_getElem? fun m => ?_
    rw [Array.getElem?_setIfInBounds]
    split
    · rename_i eq
      rw [← eq, there, if_pos (Array.getElem?_eq_some_iff.mp there).1]
    · rfl
  rw [setEntry, same]

theorem fill_same {script : Script} {address count : Nat} {e : Entry}
    (there : ∀ k, k < count → script.entries[address / 4 + k]? = some e) :
    script.fill address e count = script := by
  induction count generalizing address with
  | zero => rfl
  | succ count ih =>
    rw [fill, setEntry_same (there 0 (Nat.succ_pos count))]
    refine ih fun k bound => ?_
    rw [show (address + 4) / 4 + k = address / 4 + (k + 1) by omega]
    exact there (k + 1) (by omega)

/-- A table that nothing runs into keeps all its slots. -/
theorem ownSlots_all {script : Script} {head room n : Nat}
    (own : ∀ k, n ≤ k → k < n + room → script.claimedFrom head (head + 4 * k) = false) :
    script.ownSlots head room n = n + room := by
  induction room generalizing n with
  | zero => rfl
  | succ room ih =>
    rw [ownSlots, own n (Nat.le_refl n) (by omega)]
    simp only [Bool.false_eq_true, if_false]
    rw [ih fun k low high => own k (by omega) (by omega)]
    omega

end Script

/-- **A table of a settled script is left as it is.** -/
theorem Settled.correctTable {script : Script} (laid : Laid script.entries)
    (settled : Settled script) (head : Nat) : script.correctTable head = script := by
  rw [Script.correctTable]
  split
  · rename_i address labels at_head
    obtain ⟨aligned, slot⟩ := Script.entryAt?_eq_some at_head
    have home : address = 4 * (head / 4) := laid.home slot rfl
    have nonempty : 0 < labels.length := (laid.room slot rfl).1
    rw [← aligned] at home
    subst home
    have sealed : ∀ k, k < labels.length - 1 →
        script.entries[address / 4 + 1 + k]? = some (.continuation address) := fun k bound => by
      refine settled.sealed _ _ slot ?_
      simp [Entry.tail, bound]
    have own : ∀ k, 1 ≤ k → k < 1 + (labels.length - 1) →
        script.claimedFrom address (address + 4 * k) = false := fun k low high => by
      have there : script.entryAt? (address + 4 * k) = some (.continuation address) := by
        have at_k := sealed (k - 1) (by omega)
        rw [show address / 4 + 1 + (k - 1) = (address + 4 * k) / 4 by omega] at at_k
        exact Script.entryAt?_of_slot (by omega) at_k
      have unnamed := settled.clear slot (m := address / 4 + k) (by omega) (by omega)
      rw [show 4 * (address / 4 + k) = address + 4 * k by omega] at unnamed
      simp [Script.claimedFrom, there, unnamed]
    simp only [Script.ownSlots_all own]
    rw [if_neg (by omega)]
    refine Script.fill_same fun k bound => ?_
    rw [show (address + 4) / 4 + k = address / 4 + 1 + k by omega]
    exact sealed k (by omega)
  · rfl

/-- **Correcting the tables of a settled script changes nothing.** -/
theorem Settled.correctOverruns {script : Script} (laid : Laid script.entries)
    (settled : Settled script) : script.correctOverruns = script := by
  rw [Script.correctOverruns]
  generalize script.tableHeads = heads
  induction heads with
  | nil => rfl
  | cons head rest ih => rw [List.foldl_cons, settled.correctTable laid, ih]

namespace Recovery

/-! ## Branches that were probed before -/

theorem drain_probed {setting : Setting} {s : Session} (empty : s.worklist = [])
    {addresses : List Nat} (probed : ∀ a ∈ addresses, a ∈ s.script.branches) :
    drain setting (s.ask addresses) = .ok s := by
  induction addresses with
  | nil => exact drain_nil empty
  | cons a rest ih =>
    obtain ⟨first, others⟩ := List.forall_mem_cons.mp probed
    have pending : (s.ask (a :: rest)).worklist = .branch a :: (s.ask rest).worklist := rfl
    have seen : runProbe setting (.branch a) { s.ask (a :: rest) with
        worklist := (s.ask rest).worklist } = .ok (s.ask rest) := by
      rw [runProbe, probeBranch, if_pos]
      · rfl
      · simpa [Session.ask] using first
    rw [drain_cons pending, seen]
    exact ih others

theorem exploreBranches_probed {setting : Setting} {s : Session} (empty : s.worklist = [])
    (laid : Laid s.script.entries) (settled : Settled s.script) {addresses : List Nat}
    (probed : ∀ a ∈ addresses, a ∈ s.script.branches) :
    exploreBranches setting addresses s = .ok s := by
  rw [exploreBranches, pushAll_branches, drain_probed empty probed]
  simp only [settled.correctOverruns laid]

/-! ## The same image with and without extra branches -/

theorem explore_plain {setting : Setting} (plain : setting.options.extraBranches = [])
    (stats : Stats) :
    explore setting stats = exploreBranches setting
      (Session.named setting stats).script.entrypoints (.named setting stats) := by
  rw [explore_eq, plain]
  cases exploreBranches setting _ (Session.named setting stats) <;> rfl

/-- With extra branches, exploration goes on where it ends without. -/
theorem explore_extra {setting : Setting} (plain : setting.options.extraBranches = [])
    (extra : List Nat) (stats : Stats) :
    explore (setting.vary setting.catalogue extra) stats =
      (explore setting stats).bind fun s => if extra.isEmpty then .ok s
        else exploreBranches setting extra s := by
  have alike {addresses : List Nat} {s : Session} :
      exploreBranches (setting.vary setting.catalogue extra) addresses s =
        exploreBranches setting addresses s := exploreBranches_alike rfl addresses
  have named : Session.named (setting.vary setting.catalogue extra) stats =
      Session.named setting stats := rfl
  rw [explore_plain plain, explore_eq, alike, named]
  simp only [Setting.vary_extra, alike]

end Recovery

/-- What was found in `s` is found in `t`, though its tables may be shorter there. -/
structure Widens (s t : Script) : Prop where
  entrypoints : ∀ {n address : Nat} {name : String},
    s.entries[n]? = some (.entrypoint address name) →
    t.entries[n]? = some (.entrypoint address name)
  instructions : ∀ {n : Nat} {decoded : Instruction},
    s.entries[n]? = some (.instruction decoded) → t.entries[n]? = some (.instruction decoded)
  branches : ∀ a ∈ s.branches, a ∈ t.branches
  tables : ∀ a ∈ s.tableAddresses, a ∈ t.tableAddresses
  pointerTables : ∀ {n address : Nat} {labels : List String},
    s.entries[n]? = some (.pointerTable address labels) →
    ∃ kept, kept ≠ [] ∧ kept <+: labels ∧ t.entries[n]? = some (.pointerTable address kept)

namespace Recovery

theorem settle_widens {image : Image} {s t : Session} (explored : Explored image s.script)
    (moves : Moves image s.script t.script) : Widens (settle image s) (settle image t) := by
  have found := moves.explored explored
  have grows := Moves.grows (moves.trans (settle_moves image t)) explored
  have laid := ((settle_moves image t).explored found).laid
  obtain ⟨branches, tables⟩ := settle_still image s
  refine ⟨fun at_n => grows.entrypoints (settle_found at_n id),
    fun at_n => grows.instructions (settle_found at_n id),
    fun a mem => grows.branches a (branches ▸ mem),
    fun a mem => grows.tables a (tables ▸ mem), fun at_n => ?_⟩
  obtain ⟨keep, there⟩ := grows.pointerTables (settle_found at_n id)
  exact ⟨_, List.length_pos_iff.mp (laid.room there rfl).1, List.take_prefix _ _, there⟩

/-- Without extra branches, exploration ends with a settled script. -/
theorem explore_settled {setting : Setting} (plain : setting.options.extraBranches = [])
    {stats : Stats} {s : Session} (h : explore setting stats = .ok s) : Settled s.script := by
  rw [explore_plain plain, exploreBranches] at h
  split at h
  · cases h
  · rename_i u drained
    cases h
    have moves : Moves setting.image (.blank setting.image.size) u.script :=
      (named_moves setting.image setting.options.maxEntrypoints).trans (drain_moves drained).1
    have balanced := moves.balanced (.blank setting.image) (.blank setting.image _)
    exact correctOverruns_settled (moves.explored (.blank setting.image)).laid balanced.sound

theorem disassemble_of_explore {catalogue : Catalogue} {options : Options} {image : Image}
    {s : Session} (h : explore ⟨image, catalogue, options⟩ {} = .ok s) :
    disassemble catalogue options image = .ok (settle image s) := by
  rw [disassemble, recover, h]

/-- **Extra branches only add code.** Whatever is recovered without them stays;
and if all of them were probed anyway, they change nothing at all. -/
theorem disassemble_extra {catalogue : Catalogue} {options : Options} {image : Image}
    (plain : options.extraBranches = []) (extra : List Nat) {script : Script}
    (h : disassemble catalogue options image = .ok script) :
    (∀ wider, disassemble catalogue { options with extraBranches := extra } image = .ok wider →
      Widens script wider) ∧
      ((∀ a ∈ extra, a ∈ script.branches) →
        disassemble catalogue { options with extraBranches := extra } image = .ok script) := by
  obtain ⟨s, answer, rfl⟩ := disassemble_cases h
  obtain ⟨moves, empty⟩ := explore_moves answer
  have explored := moves.explored (.blank image)
  have more : explore ⟨image, catalogue, { options with extraBranches := extra }⟩ {} =
      if extra.isEmpty then .ok s else exploreBranches ⟨image, catalogue, options⟩ extra s := by
    have goesOn := @explore_extra ⟨image, catalogue, options⟩ plain extra {}
    rw [answer] at goesOn
    exact goesOn
  constructor
  · intro wider found
    obtain ⟨t, again, rfl⟩ := disassemble_cases found
    refine settle_widens explored ?_
    rw [more] at again
    split at again
    · cases again
      exact .refl
    · exact (exploreBranches_moves again).1
  · intro probed
    rw [(settle_still image s).1] at probed
    refine disassemble_of_explore ?_
    rw [more, exploreBranches_probed empty explored.laid (explore_settled plain answer) probed]
    exact ite_self _

/-- An entry point; a jump through the table of two behind it; the return that both
its entries name; code that nothing leads to, a move that points at the second entry. -/
def islandImage : Image := #[
  0x00000004,
  0x00000244, 0x00000000, 0x09000003,
  0x00000002, 0x00000002,
  0x00000049,
  0x00000208, 0x0900fffe, 0x02000001,
  0x00000049]

theorem disassemble_extra_island :
    ∃ script wider, disassemble {} {} islandImage = .ok script ∧
      disassemble {} { extraBranches := [24] } islandImage = .ok script ∧
      disassemble {} { extraBranches := [28] } islandImage = .ok wider ∧
      Widens script wider ∧
      script.entries[4]? = some (.pointerTable 16 ["LABEL_2", "LABEL_2"]) ∧
      wider.entries[4]? = some (.pointerTable 16 ["LABEL_2"]) ∧
      script.entries[7]? = some (.rawData 28 0x208) ∧
      wider.entries[7]? = some (.instruction ⟨28, .mov, 0, [
        ⟨32, .inline1, [0x0900fffe], some 20, some "LABEL_3"⟩,
        ⟨36, .storage, [0x02000001], none, none⟩]⟩) := by
  obtain ⟨script, h, probed, table, data⟩ := disassemble_within_holds {} {} islandImage 8
    (fun script => 24 ∈ script.branches ∧
      script.entries[4]? = some (.pointerTable 16 ["LABEL_2", "LABEL_2"]) ∧
      script.entries[7]? = some (.rawData 28 0x208)) (by decide +kernel)
  obtain ⟨wider, more, shorter, code⟩ := disassemble_within_holds {} { extraBranches := [28] }
    islandImage 8 (fun wider => wider.entries[4]? = some (.pointerTable 16 ["LABEL_2"]) ∧
      wider.entries[7]? = some (.instruction ⟨28, .mov, 0, [
        ⟨32, .inline1, [0x0900fffe], some 20, some "LABEL_3"⟩,
        ⟨36, .storage, [0x02000001], none, none⟩]⟩)) (by decide +kernel)
  have same := (disassemble_extra rfl [24] h).2 (by simpa using probed)
  have widens := (disassemble_extra rfl [28] h).1 wider more
  exact ⟨script, wider, h, same, more, widens, table, shorter, data, code⟩

end Recovery
end EventScript
