/-
Recovery with a bound on the work. `drain` ends because there are only so many
addresses to visit; given a number of probes that suffices, the same answer
comes from a plain recursion on that number, which can be evaluated.
-/
import EventScript.Recovery

namespace EventScript.Recovery

/-- Works off at most `fuel` probes; there is no answer if more are pending. -/
def drainWithin (setting : Setting) : (fuel : Nat) → Session → Option Session
  | 0, _ => none
  | fuel + 1, s =>
    match s.worklist with
    | [] => some s
    | probe :: rest =>
      match runProbe setting probe { s with worklist := rest } with
      | .error _ => none
      | .ok t => drainWithin setting fuel t

/-- Explores the branches at some addresses within a bound on the probes. -/
def exploreBranchesWithin (setting : Setting) (fuel : Nat) (addresses : List Nat) (s : Session) :
    Option Session :=
  (drainWithin setting fuel (s.pushAll (addresses.reverse.map Probe.branch))).map fun s =>
    { s with script := s.script.correctOverruns }

/-- Explores within a bound on the probes of each round. -/
def exploreWithin (setting : Setting) (fuel : Nat) : Option Session :=
  let script := findEntrypoints setting.image setting.options.maxEntrypoints 0
    (.blank setting.image.size)
  (exploreBranchesWithin setting fuel script.entrypoints { script }).bind fun s =>
    if setting.options.extraBranches.isEmpty then some s
    else exploreBranchesWithin setting fuel setting.options.extraBranches s

theorem drain_of_drainWithin {setting : Setting} {fuel : Nat} {s t : Session}
    (h : drainWithin setting fuel s = some t) : drain setting s = .ok t := by
  induction fuel generalizing s with
  | zero => cases h
  | succ fuel ih =>
    rw [drainWithin] at h
    split at h
    · rename_i empty
      cases h
      exact drain_nil empty
    · rename_i probe rest pending
      rw [drain_cons pending]
      split at h
      · cases h
      · rename_i u ran
        rw [ran]
        exact ih h

theorem exploreBranches_of_within {setting : Setting} {fuel : Nat} {addresses : List Nat}
    {s t : Session} (h : exploreBranchesWithin setting fuel addresses s = some t) :
    exploreBranches setting addresses s = .ok t := by
  obtain ⟨u, drained, rfl⟩ := Option.map_eq_some_iff.mp h
  rw [exploreBranches, drain_of_drainWithin drained]

theorem explore_of_exploreWithin {setting : Setting} {fuel : Nat} {s : Session}
    (h : exploreWithin setting fuel = some s) : explore setting {} = .ok s := by
  obtain ⟨t, first, more⟩ := Option.bind_eq_some_iff.mp h
  simp only [explore, exploreBranches_of_within first]
  split at more
  · rename_i plain
    cases more
    rw [if_pos plain]
  · rename_i extra
    rw [if_neg extra, exploreBranches_of_within more]

theorem disassemble_of_exploreWithin {catalogue : Catalogue} {options : Options} {image : Image}
    {fuel : Nat} {s : Session} (explored : exploreWithin ⟨image, catalogue, options⟩ fuel = some s) :
    disassemble catalogue options image = .ok (settle image s) := by
  rw [disassemble, recover, explore_of_exploreWithin explored]

/-- **A recovery that ends within a bound** succeeds, and what can be checked of the script
it ends with holds of it. -/
theorem disassemble_within_holds (catalogue : Catalogue) (options : Options) (image : Image)
    (fuel : Nat) (p : Script → Prop) [DecidablePred p]
    (ends : (exploreWithin ⟨image, catalogue, options⟩ fuel).any fun s =>
      decide (p (settle image s))) :
    ∃ script, disassemble catalogue options image = .ok script ∧ p script := by
  obtain ⟨s, explored, holds⟩ := (Option.any_eq_true ..).mp ends
  exact ⟨_, disassemble_of_exploreWithin explored, of_decide_eq_true holds⟩

/-! ## A sample -/

/-- A catalogue of one call, which shows a text. -/
def sampleCatalogue : Catalogue where
  methods := [{
    name := "show"
    parameters := [{ direction := "in", type := "string", name := "text" }] }]

/-- An entry point; a jump through a table of two; a call with a text, a pointer
that leads outside, and a subroutine call; the two returns; the text; a number. -/
def sampleImage : Image := #[
  0x00000004,
  0x00000244, 0x00000000, 0x09000003,
  0x00000002, 0x00000008,
  0x00000138, 0x09000008,
  0x0000011b, 0x09007fff,
  0x00000148, 0x09000003,
  0x00000049,
  0x00000049,
  0xa0ff0021,
  0x12345678]

/-- The subroutine call of the sample. -/
def sampleGosub : Instruction :=
  ⟨40, .gosub, 0, [⟨44, .inline1, [0x09000003], some 52, some "LABEL_5"⟩]⟩

theorem sample_disassembles : ∃ script, disassemble sampleCatalogue {} sampleImage = .ok script ∧
    script.entries[4]? = some (.pointerTable 16 ["LABEL_2", "LABEL_3"]) ∧
    script.entries[10]? = some (.instruction sampleGosub) ∧ 16 ∈ script.tableAddresses ∧
    script.diagnostics = [⟨36, .pointerOutOfRange 0x2001c⟩] :=
  disassemble_within_holds sampleCatalogue {} sampleImage 8 _ (by decide +kernel)

end EventScript.Recovery
