/-
What exploration asks the texts of. A text is asked for as its instruction is
taken, and a table of texts as it is scanned, with the destinations that its words
name (`TextRequest.Named`); nothing is taken back (`Session.Asks`). So when
exploration ends, every text that a call points at was asked for, and neither text
nor data stands anywhere yet (`Asked`).
-/
import EventScript.Proofs.Exploration

namespace EventScript

open Recovery

/-- The texts that the operands of a call point at. -/
def Instruction.textTargets (catalogue : Catalogue) (decoded : Instruction) : List Nat :=
  match decoded.opcode with
  | .call =>
    match catalogue.method? decoded.parameter with
    | some method => (method.parameters.zip decoded.operands).filterMap
        fun (parameter, operand) =>
      if parameter.isString && operand.mode.isInline && !operand.mode.isTable then
        operand.resolved
      else none
    | none => []
  | _ => []

/-- Whether an entry is data. -/
def Entry.isData : Entry → Bool
  | .rawData .. => true
  | _ => false

/-- Whether an entry is placed only when exploration is over: text or data. -/
def Entry.isLate : Entry → Bool
  | .encodedString _ | .rawData .. => true
  | _ => false

/-- No entry of the given kind stands anywhere. -/
def Script.Without (kind : Entry → Bool) (script : Script) : Prop :=
  ∀ (n : Nat) (e : Entry), script.entries[n]? = some e → kind e = false

/-- The destinations of a table are those its words name. -/
def Recovery.TextRequest.Named (image : Image) : TextRequest → Prop
  | .single _ => True
  | .table head destinations => ∀ k d : Nat, destinations[k]? = some d →
      tableDestination head (image.wordAt (head + 4 * k)) = d

/-- A kind of entry that has a width is not placed by placing another. -/
theorem Script.Without.claims {kind : Entry → Bool} {s t : Script} {n : Nat} {e : Entry}
    (h : s.Without kind) (heads : ∀ t, t.width? = none → kind t = false)
    (c : Claims s.entries n e t.entries) (other : kind e = false) : t.Without kind := by
  intro m new at_m
  rcases c.cases_of_after at_m with old | ⟨-, rfl⟩ | ⟨k, -, tail⟩
  · exact h m new old
  · exact other
  · exact heads new (Entry.width?_of_mem_tail (List.mem_of_getElem? tail))

theorem Entry.isData_of_width? {e : Entry} (h : e.width? = none) : e.isData = false := by
  cases e <;> first | rfl | cases h

theorem Entry.isLate_of_width? {e : Entry} (h : e.width? = none) : e.isLate = false := by
  cases e <;> first | rfl | cases h

namespace Recovery

variable {setting : Setting} {s t : Session}

/-! ## Neither text nor data -/

theorem Asides.early {image : Image} {s t : Script} (asides : Asides image s t)
    (h : s.Without Entry.isLate) : t.Without Entry.isLate := by
  induction asides with
  | refl => exact h
  | @tail u _ _ aside ih =>
    cases aside with
    | note _ entries =>
      intro n e at_n
      exact ih n e (entries ▸ at_n)
    | @table address destinations _ found entries =>
      have claims := found.claims (u.labels.length_addAll destinations)
      rw [← entries] at claims
      exact ih.claims (fun _ => Entry.isLate_of_width?) claims rfl

theorem correctOverruns_early {image : Image} {script : Script} (explored : Explored image script)
    (h : script.Without Entry.isLate) : script.correctOverruns.Without Entry.isLate := by
  intro n e at_n
  cases e with
  | encodedString | rawData => exact h n _ (correctOverruns_old explored at_n (by simp) rfl rfl)
  | _ => rfl

/-! ## Asking -/

/-- Nothing that was asked for is taken back, and of tables nothing is asked but
what their words name. -/
structure Session.Asks (image : Image) (s t : Session) : Prop where
  kept : ∀ request ∈ s.requests, request ∈ t.requests
  named : ∀ request ∈ t.requests, request ∈ s.requests ∨ request.Named image

namespace Session.Asks

theorem of_eq {image : Image} (same : t.requests = s.requests) : s.Asks image t :=
  ⟨fun _ mem => same ▸ mem, fun _ mem => .inl (same ▸ mem)⟩

theorem request {image : Image} (s : Session) {request : TextRequest}
    (named : request.Named image) : s.Asks image (s.request request) := by
  refine ⟨fun other mem => List.mem_append_left _ mem, fun other mem => ?_⟩
  rcases List.mem_append.mp mem with old | new
  · exact .inl old
  · rw [List.mem_singleton.mp new]
    exact .inr named

theorem trans {image : Image} {u : Session} (h : s.Asks image t) (k : t.Asks image u) :
    s.Asks image u := by
  refine ⟨fun request mem => k.kept request (h.kept request mem), fun request mem => ?_⟩
  rcases k.named request mem with before | named
  · exact h.named request before
  · exact .inr named

end Session.Asks

theorem probeTable_requests {address : Nat} {kind : TableKind} {role : Role}
    (h : probeTable setting address kind role s = .ok t) : t.requests = s.requests := by
  rw [probeTable] at h
  split at h
  · cases h
    rfl
  simp only at h
  split at h <;> cases h
  rfl

theorem probeData_asks (address : Nat) (texts : Bool) (s : Session) :
    s.Asks setting.image (probeData setting address texts s) := by
  rw [probeData]
  split
  · simp only
    split
    · exact .of_eq rfl
    split
    · have found := scanData_found setting s.script texts address
        (slotsFrom setting.image address) address (.start setting.image)
      have named : (TextRequest.table address _).Named setting.image :=
        fun k d at_k => (found k d at_k).2.1
      exact ⟨(Session.Asks.request s named).kept, (Session.Asks.request s named).named⟩
    · exact .of_eq rfl
  · exact .of_eq rfl

theorem Side.asks (h : Side setting s t) : s.Asks setting.image t := by
  cases h with
  | note => exact .of_eq rfl
  | record role => cases role <;> exact .of_eq rfl
  | queue => exact .of_eq rfl
  | request => exact .request _ trivial
  | table scanned => exact .of_eq (probeTable_requests scanned)
  | data => exact probeData_asks ..

theorem Sides.asks (h : Sides setting s t) : s.Asks setting.image t := by
  induction h with
  | refl => exact .of_eq rfl
  | tail _ side ih => exact ih.trans side.asks

/-- The texts of a call are asked for. -/
theorem followOperands_texts {opcode : Opcode} {operands : List Operand}
    {parameters : List Parameter}
    (h : followOperands setting opcode operands parameters s = .ok t)
    {parameter : Parameter} {operand : Operand} {target : Nat}
    (mem : (parameter, operand) ∈ parameters.zip operands) (texts : parameter.isString = true)
    (inline : operand.mode.isInline = true) (direct : operand.mode.isTable = false)
    (resolved : operand.resolved = some target) : .single target ∈ t.requests := by
  induction operands generalizing parameters s with
  | nil => simp at mem
  | cons first rest ih =>
    cases parameters with
    | nil => simp at mem
    | cons parameter' parameters =>
    rw [followOperands] at h
    split at h
    · cases h
    rename_i u followed
    rcases List.mem_cons.mp mem with eq | mem
    · cases eq
      simp only [followOperand, resolved, inline, direct, List.head?_cons, Option.any_some,
        texts] at followed
      cases followed
      exact (followOperands_sides h).asks.kept _ (List.mem_append_right _ List.mem_cons_self)
    · exact ih h mem

/-- Taking an instruction asks for the texts it points at. -/
theorem takeInstruction_texts {read : Instruction} {next : Nat} {flow : Flow}
    (h : takeInstruction setting read next s = .ok (flow, t)) {target : Nat}
    (mem : target ∈ (placeInstruction s.script read).1.textTargets setting.catalogue) :
    .single target ∈ t.requests := by
  rw [takeInstruction] at h
  simp only at h
  generalize (placeInstruction s.script read).1 = decoded at *
  split at h
  · cases h
  rename_i u followed
  rw [Instruction.textTargets] at mem
  split at mem
  · rename_i call
    split at mem
    · rename_i method known
      obtain ⟨⟨parameter, operand⟩, among, gives⟩ := List.mem_filterMap.mp mem
      simp only [Option.ite_none_right_eq_some, Bool.and_eq_true, Bool.not_eq_true'] at gives
      obtain ⟨⟨⟨texts, inline⟩, direct⟩, resolved⟩ := gives
      rw [Setting.methodOf?, if_pos call, known] at followed
      exact (transfer_sides h).asks.kept _
        (followOperands_texts followed among texts inline direct resolved)
    · cases mem
  · cases mem

/-! ## Over a whole exploration -/

/-- What a session knows of texts: it laid out none, but asked for every one that a
call points at. -/
structure Asked (setting : Setting) (s : Session) : Prop where
  early : s.script.Without Entry.isLate
  named : ∀ request ∈ s.requests, request.Named setting.image
  texts : ∀ {n : Nat} {decoded : Instruction},
    s.script.entries[n]? = some (.instruction decoded) →
    ∀ target ∈ decoded.textTargets setting.catalogue, .single target ∈ s.requests

/-- A step that places no instruction. -/
theorem Asked.quiet (h : Asked setting s) (asides : Asides setting.image s.script t.script)
    (requests : t.requests = s.requests) : Asked setting t where
  early := asides.early h.early
  named := fun request mem => h.named request (requests ▸ mem)
  texts := fun at_n target mem => requests ▸ h.texts (asides.instructions at_n) target mem

theorem readInstruction_requests {cursor : Nat} {found : Option Instruction}
    (h : readInstruction setting cursor s = .ok (found, t)) : t.requests = s.requests := by
  rw [readInstruction] at h
  simp only at h
  split at h
  · cases h
    rfl
  split at h
  · cases h
  split at h <;> cases h <;> rfl

/-- **Every step asks for the texts of the instruction it takes.** -/
theorem Step.asked {p q : Point} (step : Step setting p q)
    (explored : Explored setting.image p.session.script) (h : Asked setting p.session) :
    Asked setting q.session := by
  cases step with
  | seen => exact h.quiet .refl rfl
  | begun => exact h.quiet (.single (insertBranch_aside ..)) rfl
  | table _ scanned =>
    have same := probeTable_requests scanned
    exact h.quiet (probeTable_adds scanned).script same
  | out => exact h
  | joined => exact h
  | blocked => exact h.quiet (Session.Adds.diagnose ..).script rfl
  | unread _ _ read =>
    exact h.quiet (readInstruction_adds read).script (readInstruction_requests read)
  | @taken start cursor s t u read flow inside free found taken =>
    obtain ⟨-, readable⟩ := readInstruction_readable found free
    have adds := readInstruction_adds found
    have explored := adds.script.moves.explored explored
    have noted : Asked setting t := h.quiet adds.script (readInstruction_requests found)
    have sides := takeInstruction_sides taken
    have asks : t.Asks setting.image u := ⟨sides.asks.kept, sides.asks.named⟩
    refine ⟨?_, fun request mem => ?_, fun at_n target mem => ?_⟩
    · exact sides.adds.script.early
        (noted.early.claims (fun _ => Entry.isLate_of_width?)
          (placeInstruction_claims readable explored.size) rfl)
    · exact (asks.named request mem).elim (noted.named request) id
    · rcases (takeInstruction_instructions explored readable taken).2 at_n with old | ⟨-, rfl⟩
      · exact asks.kept _ (noted.texts old target mem)
      · exact takeInstruction_texts taken mem

theorem findEntrypoints_early (image : Image) (room n : Nat) {script : Script}
    (h : script.Without Entry.isLate) :
    (findEntrypoints image room n script).Without Entry.isLate := by
  intro m e at_m
  rcases findEntrypoints_entries at_m with ⟨_, _, rfl⟩ | before
  · rfl
  · exact h m e before

/-- **When exploration ends, every text that a call points at was asked for**, and
none was laid out. -/
theorem explore_asked (setting : Setting) (stats : Stats) :
    Exploring setting stats (Asked setting) where
  named := by
    obtain ⟨-, -, none⟩ := named_unexplored setting.image setting.options.maxEntrypoints
    refine ⟨findEntrypoints_early setting.image _ 0 fun n e at_n => ?_,
      fun request mem => (by cases mem), fun at_n => absurd at_n none⟩
    simp only [Script.blank, Array.getElem?_replicate, Option.ite_none_right_eq_some] at at_n
    cases at_n.2
    rfl
  ask := fun _ h => h.quiet .refl rfl
  run := fun explored steps h => Steps.invariant (P := fun p => Asked setting p.session)
    (fun step => step.asked) steps explored h
  correct := fun explored h => ⟨correctOverruns_early explored h.early, h.named,
    fun at_n => h.texts (correctOverruns_instructions explored at_n)⟩

end Recovery
end EventScript
