/-
A text that is cut at labels loses nothing. Labels may point anywhere into a text,
also at the middle of a code or behind the last one, and the cut is then moved to
the next code before it. Cuts never go back, since labels are met in the order of
their addresses; so every piece is a slice of the text (`textLines_checked`), and
the pieces, read back one behind the other, are the whole text (`cutText_whole`).
-/
import EventScript.Listing
import EventScript.Proofs.GameText
import EventScript.Proofs.InRange

namespace EventScript.Listing

/-! ## Slices -/

namespace Checked

open Recovery.Checked (slice sub)

/-- The lines of a text from its code `start` on, with slices that have to lie in
the text and cuts that have to lie behind its address: else there is no answer. -/
def cutText (labels : LabelTable) (names : Renaming) (text : EncodedString) (address : Nat) :
    List Nat → (start : Nat) → Option (List Line)
  | [], start => do
    let codes ← slice text.codes.toArray start text.codes.length
    some [textLine codes.toList text.terminated]
  | label :: rest, start => do
    let cut := min ((← sub label address) / 2) text.codes.length
    let codes ← slice text.codes.toArray start cut
    let lines ← cutText labels names text address rest cut
    some (textLine codes.toList false :: labelLines labels names label ++ lines)

def textLines (labels : LabelTable) (names : Renaming) (address : Nat) (text : EncodedString) :
    Option (List Line) :=
  cutText labels names text address (labelsInside labels address text) 0

end Checked

/-- Cuts that do not go back: ascending, behind the address of the text, and none
before its code `start`. -/
structure Onward (text : EncodedString) (address : Nat) (inside : List Nat) (start : Nat) :
    Prop where
  within : start ≤ text.codes.length
  ascending : inside.Pairwise (· < ·)
  behind : ∀ label ∈ inside, address < label ∧ start ≤ (label - address) / 2

/-- The next cut comes behind this one. -/
theorem Onward.tail {text : EncodedString} {address label start : Nat} {rest : List Nat}
    (h : Onward text address (label :: rest) start) :
    start ≤ min ((label - address) / 2) text.codes.length ∧
      Onward text address rest (min ((label - address) / 2) text.codes.length) := by
  obtain ⟨first, others⟩ := List.forall_mem_cons.mp h.behind
  obtain ⟨lower, ascending⟩ := List.pairwise_cons.mp h.ascending
  have within := h.within
  refine ⟨by omega, Nat.min_le_right _ _, ascending, fun later mem => ⟨(others later mem).1, ?_⟩⟩
  have := lower later mem
  omega

theorem labelsInside_onward (labels : LabelTable) (address : Nat) (text : EncodedString) :
    Onward text address (labelsInside labels address text) 0 := by
  refine ⟨Nat.zero_le _, ?_, fun label mem => ⟨?_, Nat.zero_le _⟩⟩
  · rw [labelsInside, LabelTable.toList, Std.ExtTreeMap.map_fst_toList_eq_keys]
    refine List.Pairwise.filter _ (Std.ExtTreeMap.ordered_keys.imp fun {a b} lower => ?_)
    exact Nat.compare_eq_lt.mp lower
  · rw [labelsInside, List.mem_filter, Bool.and_eq_true, decide_eq_true_eq] at mem
    exact mem.2.1

theorem cutText_checked (labels : LabelTable) (names : Renaming) {text : EncodedString}
    {address start : Nat} {inside : List Nat} (onward : Onward text address inside start) :
    Checked.cutText labels names text address inside start =
      some (cutText labels names text address inside start) := by
  have sliced {start stop : Nat} (order : start ≤ stop) (within : stop ≤ text.codes.length) :
      ∃ codes, Recovery.Checked.slice text.codes.toArray start stop = some codes ∧
        codes.toList = (text.codes.take stop).drop start := by
    refine ⟨_, Recovery.Checked.slice_eq order within, ?_⟩
    rw [Array.toList_extract, List.extract_eq_take_drop, List.drop_take]
  induction inside generalizing start with
  | nil =>
    obtain ⟨codes, found, eq⟩ := sliced onward.within (Nat.le_refl _)
    rw [Checked.cutText, found, cutText]
    simp [eq]
  | cons label rest ih =>
    obtain ⟨order, later⟩ := onward.tail
    obtain ⟨codes, found, eq⟩ := sliced order (Nat.min_le_right _ _)
    have behind := (onward.behind label List.mem_cons_self).1
    rw [Checked.cutText, Recovery.Checked.sub_eq (by omega), Option.bind_eq_bind, Option.bind_some]
    dsimp only
    rw [found, cutText, ih later]
    simp [eq]

theorem textLines_checked (labels : LabelTable) (names : Renaming) (address : Nat)
    (text : EncodedString) :
    Checked.textLines labels names address text = some (textLines labels names address text) :=
  cutText_checked labels names (labelsInside_onward labels address text)

/-! ## Bodies -/

/-- The game text on a line. -/
def Line.body? : Line → Option String
  | .text body => some body
  | _ => none

/-- The pieces of game text on lines, in order. -/
def bodies (lines : List Line) : List String := lines.filterMap Line.body?

/-- A piece of game text keeps the sentinel off its end. -/
def OpenEnded (body : String) : Prop := Glyph.openEnd <:+ body.toList

theorem bodies_cons (line : Line) (lines : List Line) :
    bodies (line :: lines) = line.body?.toList ++ bodies lines := by
  rw [bodies, bodies, List.filterMap_cons]
  cases line.body? <;> rfl

theorem bodies_append (front lines : List Line) :
    bodies (front ++ lines) = bodies front ++ bodies lines := List.filterMap_append

theorem bodies_labelLines (labels : LabelTable) (names : Renaming) (address : Nat) :
    bodies (labelLines labels names address) = [] := by
  simp [bodies, labelLines, Line.body?]

/-- What stands on the lines of a cut text: pieces that keep the sentinel off
their end, the last one only if it does not follow, and read back one behind the
other they are the codes of the text that are stored from code `start` on. -/
structure Whole (text : EncodedString) (start : Nat) (front : List String) (last : String) :
    Prop where
  front_open : ∀ body ∈ front, OpenEnded body
  last_open : OpenEnded last ↔ text.terminated = false
  read_back : ∃ parts, (front ++ [last]).mapM Glyph.encode = .ok parts ∧
    parts.flatten = text.codes.drop start ++ if text.terminated then [sentinel] else []

theorem openEnded_ended (codes : List UInt16) (terminated : Bool) :
    OpenEnded (Glyph.decode codes ++ if terminated then "" else String.ofList Glyph.openEnd) ↔
      terminated = false := by
  cases terminated with
  | true => simpa [OpenEnded] using Glyph.decode_closed codes
  | false => simp [OpenEnded, String.toList_append]

theorem cutText_whole (labels : LabelTable) (names : Renaming) {text : EncodedString}
    {address start : Nat} {inside : List Nat} (onward : Onward text address inside start) :
    ∃ front last, bodies (cutText labels names text address inside start) = front ++ [last] ∧
      Whole text start front last := by
  induction inside generalizing start with
  | nil =>
    refine ⟨[], _, rfl, by simp, openEnded_ended _ _, [_], ?_, List.flatten_singleton⟩
    rw [List.nil_append, List.mapM_cons, Glyph.encode_ended, List.mapM_nil]
    rfl
  | cons label rest ih =>
    obtain ⟨order, later⟩ := onward.tail
    obtain ⟨front, last, shown, whole⟩ := ih later
    obtain ⟨parts, read, flat⟩ := whole.read_back
    generalize cutAt : min ((label - address) / 2) text.codes.length = cut at *
    have cutText_eq : cutText labels names text address (label :: rest) start =
        textLine ((text.codes.take cut).drop start) false ::
          (labelLines labels names label ++ cutText labels names text address rest cut) := by
      rw [← cutAt]
      rfl
    let piece := Glyph.decode ((text.codes.take cut).drop start) ++ String.ofList Glyph.openEnd
    refine ⟨piece :: front, last, ?_,
      ⟨?_, whole.last_open, (text.codes.take cut).drop start :: parts, ?_, ?_⟩⟩
    · rw [cutText_eq, bodies_cons, bodies_append, bodies_labelLines, shown]
      rfl
    · exact List.forall_mem_cons.mpr ⟨(openEnded_ended _ false).mpr rfl, whole.front_open⟩
    · have encoded := Glyph.encode_ended ((text.codes.take cut).drop start) false
      rw [if_neg Bool.false_ne_true, if_neg Bool.false_ne_true, List.append_nil] at encoded
      rw [List.cons_append, List.mapM_cons, encoded, read]
      rfl
    · -- The piece ends where the rest of the text begins.
      rw [List.flatten_cons, flat, ← List.append_assoc, ← List.drop_append_of_le_length,
        List.take_append_drop]
      rw [List.length_take]
      omega

/-- **A text that is cut at labels loses nothing**, wherever the labels point. Every
slice that is taken lies in the text; each piece that is shown but the last keeps
the sentinel off its end, the last one does so exactly if the text is not
terminated; and read back one behind the other the pieces are the codes of the
text, and the sentinel behind them exactly if it is terminated. -/
theorem entryLines_text (listing : Listing) (catalogue : Catalogue) (labels : LabelTable)
    (names : Renaming) (address : Nat) (text : EncodedString) :
    let lines := entryLines listing catalogue labels names address (.encodedString text)
    Checked.textLines labels names address text = some lines ∧
      ∃ front last, bodies lines = front ++ [last] ∧
        (∀ body ∈ front, OpenEnded body) ∧
        (OpenEnded last ↔ text.terminated = false) ∧
        ∃ parts, (bodies lines).mapM Glyph.encode = .ok parts ∧
          parts.flatten = text.codes ++ if text.terminated then [sentinel] else [] := by
  refine ⟨textLines_checked labels names address text, ?_⟩
  obtain ⟨front, last, shown, whole⟩ :=
    cutText_whole labels names (labelsInside_onward labels address text)
  obtain ⟨parts, read, flat⟩ := whole.read_back
  exact ⟨front, last, shown, whole.front_open, whole.last_open, parts, shown ▸ read, flat⟩

end EventScript.Listing
