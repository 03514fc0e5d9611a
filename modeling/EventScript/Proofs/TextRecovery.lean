/-
Texts are recovered faithfully. What is laid out at an address are the half-words
of the image there up to the first sentinel, and where none ends them, something
bars their way: the image ends, another entry stands there, or a label, which is
that of the next text of the same table (`Barred`). While texts are laid out,
nothing that was claimed changes (`Settles`), so what barred a text bars it in the
end. And a text that a call points at is laid out unless something stands there,
or it is noted that it was skipped.
-/
import EventScript.Proofs.Grounds
import EventScript.Proofs.TextRequests

namespace EventScript

open Recovery

/-- Something other than data stands at an address. -/
def Script.Claimed (script : Script) (a : Nat) : Prop :=
  ∃ e, script.entryAt? a = some e ∧ e ≠ .unset ∧ e.isData = false

/-- No text goes on at an address: the image ends before it, something other than
data stands there, or a label does. -/
def Barred (image : Image) (script : Script) (a : Nat) : Prop :=
  image.byteLength ≤ a ∨ script.Claimed a ∨ script.labels.contains a = true

/-- A text has no sentinel among its codes, and where none is behind them either,
it could not go on. -/
structure Ended (image : Image) (script : Script) (text : EncodedString) : Prop where
  plain : sentinel ∉ text.codes
  barred : text.terminated = false → Barred image script (text.address + 4 * text.width)

namespace Recovery

/-! ## What settling keeps -/

/-- Nothing that is claimed changes, nor any label, and what was noted stays. -/
structure Settles (s t : Script) : Prop where
  stays : ∀ {n : Nat} {e : Entry}, s.entries[n]? = some e → e ≠ .unset →
    t.entries[n]? = some e
  diagnostics : ∀ d ∈ s.diagnostics, d ∈ t.diagnostics
  labels : t.labels = s.labels

namespace Settles

variable {image : Image} {s t u : Script}

theorem rfl : Settles s s := ⟨fun at_n _ => at_n, fun _ mem => mem, Eq.refl _⟩

theorem trans (h : Settles s t) (k : Settles t u) : Settles s u where
  stays := fun at_n claimed => k.stays (h.stays at_n claimed) claimed
  diagnostics := fun d mem => k.diagnostics d (h.diagnostics d mem)
  labels := k.labels.trans h.labels

theorem layText (image : Image) (s : Script) (address : Nat) (bound : Option Nat) :
    Settles s (layText image s address bound) := by
  rcases layText_cases image s address bound with same | noted | ⟨text, rfl, found, laid⟩
  · rw [same]
    exact .rfl
  · rw [noted]
    exact ⟨fun at_n _ => at_n, fun d mem => List.mem_append_left _ mem, Eq.refl _⟩
  · rw [laid]
    refine ⟨found.claims.stays, fun d mem => ?_, Script.labels_fill ..⟩
    rwa [Script.diagnostics_fill]

theorem answers (image : Image) (requests : List TextRequest) (s : Script) :
    Settles s (requests.foldl (answer image) s) :=
  answers_induction (P := Settles s)
    (fun address bound h => h.trans (.layText image _ address bound)) requests .rfl

theorem fillData (image : Image) (s : Script) : Settles s (fillData image s) :=
  ⟨fillData_stays, fun _ mem => mem, Eq.refl _⟩

end Settles

theorem Claimed.mono {s t : Script} (settles : Settles s t) {a : Nat} (h : s.Claimed a) :
    t.Claimed a := by
  obtain ⟨e, at_a, claimed, other⟩ := h
  obtain ⟨aligned, slot⟩ := Script.entryAt?_eq_some at_a
  exact ⟨e, Script.entryAt?_of_slot aligned (settles.stays slot claimed), claimed, other⟩

theorem Ended.mono {image : Image} {s t : Script} (settles : Settles s t) {text : EncodedString}
    (h : Ended image s text) : Ended image t text where
  plain := h.plain
  barred := fun open_ => (h.barred open_).imp_right fun here =>
    here.imp (Claimed.mono settles) fun labelled => settles.labels ▸ labelled

/-! ## One text -/

/-- What is not free was claimed, as long as nothing is taken for data. -/
theorem claimed_of_taken {image : Image} {script : Script}
    (size : script.entries.size = image.size) (noData : script.Without Entry.isData) {a : Nat}
    (aligned : a % 4 = 0) (taken : script.isUnset a = false) :
    image.byteLength ≤ a ∨ script.Claimed a := by
  cases at_slot : script.entries[a / 4]? with
  | none =>
    have out := Array.getElem?_eq_none_iff.mp at_slot
    refine .inl ?_
    simp only [Image.byteLength]
    omega
  | some e =>
    have there := Script.entryAt?_of_slot (by omega) at_slot
    refine .inr ⟨e, there, ?_, noData _ e at_slot⟩
    rintro rfl
    simp [Script.isUnset, there, Entry.isUnset] at taken

/-- The room for a text ends at the image, or at a label. -/
def Room (script : Script) (address : Nat) : Option Nat → Prop
  | none => True
  | some room => ∃ next, next % 4 = 0 ∧ address < next ∧ room = (next - address) / 2 ∧
      script.labels.contains next = true

/-- **The codes that are collected are all there is.** -/
theorem ended_of_collected {image : Image} {script : Script}
    (size : script.entries.size = image.size) (noData : script.Without Entry.isData)
    {text : EncodedString} {bound : Option Nat} (aligned : text.address % 4 = 0)
    (room : Room script text.address bound)
    (collected : collectCodes image script text.address
      (bound.getD (2 * slotsFrom image text.address)) 0 = (text.codes, text.terminated)) :
    Ended image script text := by
  obtain ⟨plain, ended⟩ := collectCodes_ended collected
  refine ⟨plain, fun open_ => ?_⟩
  have width : text.width = (text.codes.length + 1) / 2 := by
    simp [EncodedString.width, EncodedString.storedLength, open_]
  rcases ended open_ with full | out | ⟨even, taken⟩
  · cases bound with
    | none =>
      refine .inl ?_
      simp only [Option.getD_none, slotsFrom] at full
      simp only [Image.byteLength]
      omega
    | some room =>
      obtain ⟨next, whole, later, rfl, labelled⟩ := room
      rw [Option.getD_some] at full
      rw [show text.address + 4 * text.width = next by omega]
      exact .inr (.inr labelled)
  · refine .inl ?_
    simp only [Image.byteLength]
    omega
  · rw [show (0 + text.codes.length) / 2 = text.width by omega] at taken
    exact (claimed_of_taken size noData (by omega) taken).imp_right .inl

/-! ## Answering requests -/

/-- What is kept while requests are answered. -/
structure Answering (image : Image) (script : Script) : Prop where
  explored : Explored image script
  balanced : Balanced image script
  noData : script.Without Entry.isData
  texts : ∀ {n : Nat} {text : EncodedString},
    script.entries[n]? = some (.encodedString text) → Ended image script text

namespace Answering

variable {image : Image} {script : Script}

theorem layText (h : Answering image script) {address : Nat} {bound : Option Nat}
    (room : Room script address bound) : Answering image (layText image script address bound) := by
  have moves := layText_moves image script address bound
  refine ⟨moves.explored h.explored, moves.balanced h.explored h.balanced, ?_, ?_⟩
  · rcases layText_cases image script address bound with same | noted | ⟨text, rfl, found, laid⟩
    · rw [same]
      exact h.noData
    · rw [noted]
      exact h.noData
    · rw [laid]
      exact h.noData.claims (fun _ => Entry.isData_of_width?) found.claims rfl
  · intro n text at_n
    refine Ended.mono (.layText image script address bound) ?_
    by_cases free : script.isUnset address = true
    · obtain ⟨text, rfl, collected, ⟨-, same⟩ | ⟨-, -, noted⟩ | ⟨found, laid⟩⟩ :=
        layText_scanned image free bound
      · rw [same] at at_n
        exact h.texts at_n
      · rw [noted] at at_n
        exact h.texts at_n
      · rw [laid] at at_n
        rcases found.claims.cases_of_after at_n with old | ⟨-, eq⟩ | ⟨k, -, tail⟩
        · exact h.texts old
        · cases eq
          have aligned := found.aligned
          exact ended_of_collected h.explored.size h.noData (by omega) room collected
        · cases Entry.width?_of_mem_tail (List.mem_of_getElem? tail)
    · rw [Recovery.layText, if_neg free] at at_n
      exact h.texts at_n

/-- Texts are laid out up to the next of them, which is labelled. -/
theorem layTexts (h : Answering image script) {addresses : List Nat}
    (ordered : addresses.Pairwise (· < ·))
    (labelled : ∀ a ∈ addresses, a % 4 = 0 ∧ script.labels.contains a = true) :
    Answering image (layTexts image script addresses) := by
  fun_induction Recovery.layTexts image script addresses with
  | case1 => exact h
  | case2 script address => exact h.layText trivial
  | case3 script address next rest ih =>
    obtain ⟨later, ordered⟩ := List.pairwise_cons.mp ordered
    obtain ⟨-, labelled⟩ := List.forall_mem_cons.mp labelled
    have same := (Settles.layText image script address (some ((next - address) / 2))).labels
    have behind := labelled next List.mem_cons_self
    refine ih (h.layText ?_) ordered fun a mem => ?_
    · exact ⟨next, behind.1, later next List.mem_cons_self, rfl, behind.2⟩
    · rw [same]
      exact labelled a mem

/-- What an entry of a table names is labelled, as long as the table keeps it. -/
theorem answer (h : Answering image script) {request : TextRequest} (named : request.Named image) :
    Answering image (answer image script request) := by
  cases request with
  | single address => exact h.layText trivial
  | table head destinations =>
    refine h.layTexts (pairwise_ascending _) fun d mem => ?_
    obtain ⟨k, at_k⟩ := List.getElem?_of_mem (mem_ascending.mp mem)
    rw [List.getElem?_take] at at_k
    split at at_k
    · rename_i address labels at_head
      obtain ⟨kept, at_k⟩ := Option.ite_none_right_eq_some.mp at_k
      obtain ⟨aligned, slot⟩ := Script.entryAt?_eq_some at_head
      have home : address = 4 * (head / 4) := h.explored.laid.home slot rfl
      obtain ⟨target, leads, stands⟩ := h.balanced.bound slot k _ (List.getElem?_eq_getElem kept)
      rw [home, ← aligned] at leads
      have same : target = d := Int.ofNat_inj.mp (leads.symm.trans (named k d at_k))
      subst same
      exact ⟨(h.balanced.landed stands).1,
        (h.balanced.sound.listed target).mpr (List.ne_nil_of_mem stands)⟩
    · rw [if_neg (Nat.not_lt_zero k)] at at_k
      cases at_k

theorem answers (h : Answering image script) {requests : List TextRequest}
    (named : ∀ request ∈ requests, request.Named image) :
    Answering image (requests.foldl (Recovery.answer image) script) := by
  induction requests generalizing script with
  | nil => exact h
  | cons request rest ih =>
    obtain ⟨first, others⟩ := List.forall_mem_cons.mp named
    exact ih (h.answer first) others

/-- A text that is asked for on its own is laid out, unless its slot is taken or it
is skipped. -/
theorem claims (h : Answering image script) {a : Nat} (landed : Landed image a) :
    (Recovery.answer image script (.single a)).Claimed a ∨
      ⟨a, .stringSkipped⟩ ∈ (Recovery.answer image script (.single a)).diagnostics := by
  obtain ⟨aligned, inside⟩ := landed
  rw [Recovery.answer]
  by_cases free : script.isUnset a = true
  · simp only [Image.byteLength] at inside
    obtain ⟨text, rfl, collected, ⟨empty, -⟩ | ⟨-, -, noted⟩ | ⟨found, laid⟩⟩ :=
      layText_scanned image free none
    · -- There is room for a code at least.
      have room : 2 * slotsFrom image text.address =
          2 * slotsFrom image text.address - 1 + 1 := by
        simp only [slotsFrom]
        omega
      rw [Option.getD_none, room] at collected
      have some := collectCodes_nonempty (by omega) free collected
      exact absurd empty (Nat.pos_iff_ne_zero.mp some)
    · rw [noted]
      exact .inr (List.mem_append_right _ List.mem_cons_self)
    · rw [laid]
      exact .inl ⟨_, Script.entryAt?_of_slot found.aligned found.claims.head, by simp, rfl⟩
  · refine .inl ?_
    rw [Recovery.layText, if_neg free]
    rcases claimed_of_taken h.explored.size h.noData aligned (by simpa using free) with
      out | claimed
    · omega
    · exact claimed

end Answering

/-- When exploration ends, no text is laid out yet. -/
theorem Asked.answering {setting : Setting} {s : Session} (h : Asked setting s)
    (explored : Explored setting.image s.script) (balanced : Balanced setting.image s.script) :
    Answering setting.image s.script where
  explored
  balanced
  noData := fun n e at_n => by
    have early := h.early n e at_n
    cases e <;> first | rfl | cases early
  texts := fun {n text} at_n => by cases h.early n _ at_n

end Recovery

/-! ## The texts of a script -/

/-- The text at slot `n` is what the image holds there: its codes are the half-words
from there on, up to the first sentinel or to where it could not go on. -/
structure Transcribed (image : Image) (script : Script) (n : Nat) (text : EncodedString) :
    Prop where
  address : text.address = 4 * n
  fits : n + text.width ≤ image.size
  codes : ∀ (k : Nat) (code : UInt16), text.codes[k]? = some code → image.halfAt (4 * n) k = code
  plain : sentinel ∉ text.codes
  terminator : text.terminated = true → image.halfAt (4 * n) text.codes.length = sentinel
  /-- Nothing is lost behind an odd number of half-words. -/
  padding : text.storedLength % 2 = 1 → (image.wordAt (4 * (n + text.width - 1))).high = 0
  barred : text.terminated = false → Barred image script (4 * (n + text.width))

namespace Recovery

/-- **Texts are recovered faithfully, and none is lost silently.** Every text of a
recovered script is what the image holds there; and where a call points at a text,
something other than data stands, or the text was skipped, which was noted. -/
theorem disassemble_transcribed {catalogue : Catalogue} {options : Options} {image : Image}
    {script : Script} (h : disassemble catalogue options image = .ok script) :
    (∀ (n : Nat) (text : EncodedString), script.entries[n]? = some (.encodedString text) →
      Transcribed image script n text) ∧
    ∀ (n : Nat) (decoded : Instruction), script.entries[n]? = some (.instruction decoded) →
      decoded.opcode = .call → ∀ method, catalogue.method? decoded.parameter = some method →
      ∀ parameter operand, (parameter, operand) ∈ method.parameters.zip decoded.operands →
      parameter.isString = true → operand.mode.isInline = true → operand.mode.isTable = false →
      ∃ target, operand.resolved = some target ∧
        (script.Claimed target ∨ ⟨target, .stringSkipped⟩ ∈ script.diagnostics) := by
  have moves := disassemble_moves h
  have whole := moves.explored (.blank image)
  have accounted := moves.balanced (.blank image) (.blank image image.size)
  have inline := fun {n decoded} => @Moves.labelled image script moves n decoded
  obtain ⟨s, answer, rfl⟩ := disassemble_cases h
  obtain ⟨explored, asked⟩ := (explore_asked ⟨image, catalogue, options⟩ {}).explored answer
  have balanced := (explore_moves answer).1.balanced (.blank image) (.blank image image.size)
  have start : Answering image s.script := asked.answering explored balanced
  have settles : Settles (s.requests.foldl (Recovery.answer image) s.script) (settle image s) :=
    .fillData image _
  constructor
  · intro n text at_n
    have laid : (s.requests.foldl (Recovery.answer image) s.script).entries[n]? =
        some (.encodedString text) := by
      rcases fillData_cases at_n with ⟨-, eq⟩ | ⟨old, -⟩
      · cases eq
      · exact old
    obtain ⟨plain, barred⟩ := Ended.mono settles ((start.answers asked.named).texts laid)
    have home : text.address = 4 * n := whole.laid.home at_n rfl
    have spelled : Spelled image text := whole.faithful at_n
    rw [home] at barred
    obtain ⟨pos, fits⟩ := whole.laid.room at_n rfl
    refine ⟨home, whole.size ▸ fits, fun k code at_k => ?_, plain, fun closed => ?_,
      fun odd => ?_, fun open_ => ?_⟩
    · rw [← home]
      refine spelled.codes ?_
      rwa [EncodedString.stored, List.getElem?_append_left (List.getElem?_eq_some_iff.mp at_k).1]
    · rw [← home]
      refine spelled.codes ?_
      rw [EncodedString.stored, closed, List.getElem?_append_right (Nat.le_refl _), Nat.sub_self]
      rfl
    · have whole := spelled.whole odd
      rwa [home, show 4 * n + 4 * (text.width - 1) = 4 * (n + text.width - 1) by omega] at whole
    · rw [Nat.mul_add]
      exact barred open_
  · intro n decoded at_n call method known parameter operand mem texts isInline direct
    have among := (List.of_mem_zip mem).2
    obtain ⟨name, label⟩ := Option.isSome_iff_exists.mp ((inline at_n operand among).trans isInline)
    obtain ⟨target, resolved, stands⟩ := accounted.bound at_n operand among name label
    have landed := accounted.landed stands
    have asks : .single target ∈ s.requests := by
      refine asked.texts (settle_found at_n id) target ?_
      rw [Instruction.textTargets, call, known]
      exact List.mem_filterMap.mpr ⟨_, mem, by simp [texts, isInline, direct, resolved]⟩
    -- What was claimed or noted when the text was asked for stays until the end.
    obtain ⟨front, back, split⟩ := List.append_of_mem asks
    have named := fun request (mem : request ∈ front) =>
      asked.named request (split ▸ List.mem_append_left _ mem)
    have later : Settles (Recovery.answer image (front.foldl (Recovery.answer image) s.script)
        (.single target)) (settle image s) := by
      refine .trans (.answers image back _) ?_
      rwa [split, List.foldl_append] at settles
    exact ⟨target, resolved, ((start.answers named).claims landed).imp (Claimed.mono later)
      (later.diagnostics _)⟩

/-- The call of the sample, which shows a text. -/
def sampleCall : Instruction :=
  ⟨24, .call, 0, [⟨28, .inline1, [0x09000008], some 56, some "LABEL_4"⟩]⟩

theorem disassemble_transcribed_sample :
    ∃ script, disassemble sampleCatalogue {} sampleImage = .ok script ∧
      script.entries[14]? = some (.encodedString ⟨56, [0x21], true⟩) ∧
      Transcribed sampleImage script 14 ⟨56, [0x21], true⟩ ∧
      script.entries[6]? = some (.instruction sampleCall) ∧
      (script.Claimed 56 ∨ ⟨56, .stringSkipped⟩ ∈ script.diagnostics) := by
  obtain ⟨script, h, text, call⟩ := disassemble_within_holds sampleCatalogue {} sampleImage 8
    (fun script => script.entries[14]? = some (.encodedString ⟨56, [0x21], true⟩) ∧
      script.entries[6]? = some (.instruction sampleCall)) (by decide +kernel)
  obtain ⟨texts, calls⟩ := disassemble_transcribed h
  have parameter : Parameter.isString ⟨"in", "string", "text", "", .none⟩ = true := by
    simp [Parameter.isString, Text.sameLetters_eq]
  obtain ⟨target, resolved, found⟩ :=
    calls 6 sampleCall call rfl _ rfl _ _ List.mem_cons_self parameter rfl rfl
  cases resolved
  exact ⟨script, h, text, texts 14 _ text, call, found⟩

end Recovery
end EventScript
