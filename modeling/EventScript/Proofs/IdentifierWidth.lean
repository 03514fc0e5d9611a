/-
How wide identifiers are. The width of an identifier in the image follows from the
number of characters its first word gives. The width of one that is written as text
follows from what stands between the brackets, freed of the blanks around it. So an
identifier that is listed and measured again is as wide as before if no blank stands
at its ends (`widthOfText_listed`), and may come out narrower if one does
(`padded_identifier_narrower`).
-/
import EventScript.Listing
import EventScript.Proofs.Codecs
import EventScript.Proofs.Grounds

namespace EventScript

/-! ## Texts -/

/-- A text without blanks at its ends has nothing to trim. -/
theorem Text.trim_eq_self {text : List Char} (front : ∀ c ∈ text.head?, isBlank c = false)
    (back : ∀ c ∈ text.getLast?, isBlank c = false) : trim text = text := by
  have dropped : ∀ {chars : List Char}, (∀ c ∈ chars.head?, isBlank c = false) →
      chars.dropWhile isBlank = chars := by
    intro chars plain
    cases chars with
    | nil => rfl
    | cons c rest => rw [List.dropWhile_cons, if_neg (by simp [plain c rfl])]
  rw [trim, dropped front, dropped (by rwa [List.head?_reverse]), List.reverse_reverse]

/-- An ASCII character takes one byte. -/
theorem Text.utf8ByteSize_ascii {text : List Char} (ascii : ∀ c ∈ text, c.toNat < 0x80) :
    (String.ofList text).utf8ByteSize = text.length := by
  induction text with
  | nil => rfl
  | cons c rest ih =>
    obtain ⟨first, others⟩ := List.forall_mem_cons.mp ascii
    have one : c.utf8Size = 1 := by
      rw [Char.utf8Size_eq_one_iff, UInt32.le_iff_toNat_le]
      exact Nat.le_of_lt_succ first
    rw [String.ofList_cons, String.utf8ByteSize_append, String.utf8ByteSize_singleton, one,
      ih others, List.length_cons, Nat.add_comm]

/-- What is measured of an identifier written as text: the name between the brackets,
without the blanks at its ends. -/
theorem Mode.widthOfText_brackets (name : List Char) :
    Mode.identifier.widthOfText ("id[" ++ String.ofList name ++ "]") =
      identifierWidth (String.ofList (Text.trim name)).utf8ByteSize := by
  have written : ("id[" ++ String.ofList name ++ "]").toList =
      'i' :: 'd' :: '[' :: (name ++ [']']) := by
    simp
  have whole : Text.trim ('i' :: 'd' :: '[' :: (name ++ [']'])) =
      'i' :: 'd' :: '[' :: (name ++ [']']) := by
    refine Text.trim_eq_self (fun c mem => ?_) fun c mem => ?_
    · cases mem
      decide
    · rw [← List.cons_append, ← List.cons_append, ← List.cons_append, List.getLast?_concat] at mem
      cases mem
      decide
  have found : identifierName ("id[" ++ String.ofList name ++ "]").toList = Text.trim name := by
    rw [identifierName, written, whole]
    simp
  rw [widthOfText, found]
  rfl

@[simp] theorem Mode.width_identifier (first : Word) :
    Mode.identifier.width first = identifierWidth first.p2.toNat := rfl

namespace Listing

/-- An identifier shows as many characters as its first word says, if its words hold
that many. -/
theorem length_identifierText {first : Word} {rest : List Word}
    (room : first.p2.toNat ≤ 4 * rest.length) :
    (identifierText (first :: rest)).length = first.p2.toNat := by
  rw [identifierText, List.length_map, List.length_take, Word.length_flatMap_toBytes]
  omega

end Listing

namespace Recovery

open Listing

/-! ## Identifiers of an image -/

variable {image : Image} {entries : Array Entry} {header cursor : Nat} {operand : Operand}
  {problem : Option Problem}

/-- The words of an identifier that was read: its first word, and one for every four
characters. -/
theorem readOperand_identifier
    (read : readOperand image entries header cursor = .ok (operand, problem))
    (identifier : operand.mode = .identifier) :
    ∃ first rest, operand.rawWords = first :: rest ∧
      rest.length = (first.p2.toNat + 3) / 4 := by
  cases (readOperand_ok read).1 with
  | @kept first label word supported inside near =>
    have mode : Mode.ofWord first = .identifier := identifier
    have length := length_wordsOfOperand inside
    obtain ⟨rest, words⟩ := wordsOfOperand_cons word
    rw [words, mode, Mode.width_identifier, List.length_cons, Mode.identifierWidth] at length
    exact ⟨first, rest, words, by omega⟩
  | zeroed => cases identifier

/-- An identifier that was read is as wide as its first word says: one word and one for
every four characters. Measured by what a listing shows for it, the blanks at the two
ends of its name do not count; if what is left of the name is ASCII, both widths agree
exactly if the blanks do not fill a word, and so if the name neither begins nor ends
with one. -/
theorem widthOfText_listed
    (read : readOperand image entries header cursor = .ok (operand, problem))
    (identifier : operand.mode = .identifier) :
    ∃ first text, operand.rawWords.head? = some first ∧
      (identifierText operand.rawWords).length = first.p2.toNat ∧
      operand.width = Mode.identifier.width first ∧
      Mode.identifier.width first = 1 + (first.p2.toNat + 3) / 4 ∧
      (∀ catalogue names instruction index,
        operandPieces catalogue names instruction index operand = [.plain text]) ∧
      ((∀ c ∈ Text.trim (identifierText operand.rawWords), c.toNat < 0x80) →
        Mode.identifier.widthOfText text =
          1 + ((Text.trim (identifierText operand.rawWords)).length + 3) / 4 ∧
        (Mode.identifier.widthOfText text = Mode.identifier.width first ↔
          ((Text.trim (identifierText operand.rawWords)).length + 3) / 4 =
            (first.p2.toNat + 3) / 4) ∧
        ((∀ c ∈ (identifierText operand.rawWords).head?, Text.isBlank c = false) →
          (∀ c ∈ (identifierText operand.rawWords).getLast?, Text.isBlank c = false) →
          Mode.identifier.widthOfText text = Mode.identifier.width first)) := by
  obtain ⟨first, rest, words, room⟩ := readOperand_identifier read identifier
  have count : (identifierText operand.rawWords).length = first.p2.toNat := by
    rw [words]
    exact length_identifierText (by omega)
  have width : Mode.identifier.width first = 1 + (first.p2.toNat + 3) / 4 := rfl
  refine ⟨first, "id[" ++ String.ofList (identifierText operand.rawWords) ++ "]",
    by rw [words]; rfl, count, ?_, width, fun catalogue names instruction index => ?_,
    fun plain => ?_⟩
  · rw [Operand.width, words, List.length_cons, width]
    omega
  · rw [operandPieces, identifier]
  · have shown : Mode.identifier.widthOfText
          ("id[" ++ String.ofList (identifierText operand.rawWords) ++ "]") =
        1 + ((Text.trim (identifierText operand.rawWords)).length + 3) / 4 := by
      rw [Mode.widthOfText_brackets, Text.utf8ByteSize_ascii plain, Mode.identifierWidth]
    refine ⟨shown, ?_, fun front back => ?_⟩
    · rw [shown, width]
      omega
    · rw [shown, width, Text.trim_eq_self front back, count]

/-- Of the eight characters the image has room for, the name takes the first five. -/
theorem widthOfText_listed_hello :
    readOperand #[0x19050000, 0x6c6c6568, 0x207a206f] #[.unset, .unset, .unset] 0 0 =
        .ok (⟨0, .identifier, [0x19050000, 0x6c6c6568, 0x207a206f], none, none⟩, none) ∧
      identifierText [0x19050000, 0x6c6c6568, 0x207a206f] = ['h', 'e', 'l', 'l', 'o'] ∧
      Mode.identifier.widthOfText "id[hello]" = Mode.identifier.width 0x19050000 := by
  have read : readOperand #[0x19050000, 0x6c6c6568, 0x207a206f] #[.unset, .unset, .unset] 0 0 =
      .ok (⟨0, .identifier, [0x19050000, 0x6c6c6568, 0x207a206f], none, none⟩, none) := by
    decide +kernel
  have name : identifierText [0x19050000, 0x6c6c6568, 0x207a206f] = ['h', 'e', 'l', 'l', 'o'] := by
    decide
  obtain ⟨first, text, head, -, -, -, pieces, measured⟩ := widthOfText_listed read rfl
  cases head
  have trimmed : Text.trim ['h', 'e', 'l', 'l', 'o'] = ['h', 'e', 'l', 'l', 'o'] := by decide
  obtain ⟨-, -, agree⟩ := measured (by rw [name, trimmed]; simp)
  have shown := pieces {} ∅ ⟨0, .ret, 0, []⟩ 0
  rw [operandPieces, name] at shown
  cases shown
  refine ⟨read, name, agree (fun c mem => ?_) fun c mem => ?_⟩
  all_goals
    rw [name] at mem
    cases mem
    decide

/-- A name that ends in a blank: its fifth character takes a word of its own in the
image, and is not counted in the text. -/
theorem padded_identifier_narrower :
    ∃ operand, readOperand #[0x19050000, 0x6c6c6568, 0x20] #[.unset, .unset, .unset] 0 0 =
        .ok (operand, none) ∧
      operandPieces {} ∅ ⟨0, .ret, 0, [operand]⟩ 0 operand = [.plain "id[hell ]"] ∧
      Mode.identifier.widthOfText "id[hell ]" = 2 ∧ Mode.identifier.width 0x19050000 = 3 := by
  exact ⟨⟨0, .identifier, [0x19050000, 0x6c6c6568, 0x20], none, none⟩, by decide +kernel, rfl,
    by decide +kernel, by decide⟩

end Recovery
end EventScript
