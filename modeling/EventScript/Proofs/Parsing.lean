/-
What is written is read back: a value whose parts all have a meaning comes out of
both its layouts as it was (`parse?_toCompact`, `parse?_toPretty`).

Both layouts consist of the same tokens, with blanks between them or without
(`Json.tokens`). So there are two halves. The scanner cuts either layout into
these tokens (`reads_compact`, `reads_pretty`); as a word ends only with what comes
behind it, what can be read anywhere (`Follows`) is told from what can be read only
where no word is open (`Reads`). And the builder makes the value of them again
(`build?_tokens`).
-/
import EventScript.Json.Access
import EventScript.Json.Reader
import EventScript.Proofs.Spelling

namespace EventScript.Json

/-! ## Words -/

/-- Whether a character ends the word it stands behind. -/
def isEnd (c : Char) : Bool := isBlank c || c = '"' || (mark? c).isSome

theorem isEnd_of_isNumeric {c : Char} (numeric : isNumeric c = true) : ¬ isEnd c = true := by
  have apart : [' ', '\t', '\n', '\r', '"', '[', ']', '\x7b', '\x7d', ':', ','].any isNumeric =
      false := rfl
  have other : ∀ d ∈ [' ', '\t', '\n', '\r', '"', '[', ']', '\x7b', '\x7d', ':', ','], c ≠ d :=
    fun d mem eq => List.any_eq_false.mp apart d mem (eq ▸ numeric)
  simp only [List.forall_mem_cons] at other
  simp [isEnd, isBlank, mark?, other]

/-- What is scanned as a word: a constant or a number. -/
structure IsWord (spelling : List Char) (value : Json) : Prop where
  known : word? spelling = some value
  nonempty : spelling ≠ []
  plain : ∀ c ∈ spelling, ¬ isEnd c = true

theorem isWord_null : IsWord "null".toList .null :=
  ⟨rfl, by decide, List.any_eq_false.mp rfl⟩

theorem isWord_true : IsWord "true".toList (.bool true) :=
  ⟨rfl, by decide, List.any_eq_false.mp rfl⟩

theorem isWord_false : IsWord "false".toList (.bool false) :=
  ⟨rfl, by decide, List.any_eq_false.mp rfl⟩

theorem isWord_number {spelling : List Char}
    (spelled : (Numeral.ofSpelling? spelling).isSome = true) :
    IsWord spelling (.number spelling) := by
  obtain ⟨n, known⟩ := Option.isSome_iff_exists.mp spelled
  obtain ⟨nonempty, numeric⟩ := Numeral.ofSpelling?_numeric known
  refine ⟨?_, nonempty, fun c mem => isEnd_of_isNumeric (numeric c mem)⟩
  -- No constant is a number.
  have other {word : List Char} (none : Numeral.ofSpelling? word = none) : spelling ≠ word := by
    rintro rfl
    rw [known] at none
    cases none
  rw [word?, if_neg (other (by decide)), if_neg (other (by decide)), if_neg (other (by decide)),
    known, Option.map_some]

/-! ## The scanner -/

namespace Scanner

/-- The scanner after some characters. -/
def scan? (s : Scanner) (chars : List Char) : Option Scanner := (chars.map some).foldlM step? s

theorem scan?_cons {s t : Scanner} {c : Char} (h : s.step? (some c) = some t)
    (rest : List Char) : s.scan? (c :: rest) = t.scan? rest := by
  rw [scan?, List.map_cons, List.foldlM_cons, h]
  rfl

theorem scan?_append {s t : Scanner} {chars : List Char} (h : s.scan? chars = some t)
    (rest : List Char) : s.scan? (chars ++ rest) = t.scan? rest := by
  rw [scan?] at h
  rw [scan?, List.map_append, List.foldlM_append, h]
  rfl

/-- The scanner has the given tokens, the newest first, the last of which may be
a word that is still open. -/
inductive At (tokens : List Token) : Scanner → Prop
  | between : At tokens ⟨tokens, .between⟩
  | word {before : List Token} {spelled : List Char} {value : Json}
      (known : word? spelled.reverse = some value) (eq : tokens = .word value :: before) :
      At tokens ⟨before, .word spelled⟩

/-- An open word ends where no character of a word follows. -/
theorem At.step {tokens : List Token} {s : Scanner} (h : s.At tokens) {c : Char}
    (ends : isEnd c = true) : s.step? (some c) = some (start ⟨tokens, .between⟩ c) := by
  cases h with
  | between => rfl
  | word known eq =>
    subst eq
    have delimits : (isBlank c || c = '"' || (mark? c).isSome) = true := ends
    simp only [step?, delimits, if_true, endWord?, known, Option.map_some]

theorem At.finish {tokens : List Token} {s : Scanner} (h : s.At tokens) :
    s.finish? = some tokens.reverse := by
  cases h with
  | between => rfl
  | word known eq =>
    subst eq
    simp only [finish?, endWord?, known, Option.map_some]

/-- The characters of a word are put together. -/
theorem scan?_word {tokens : List Token} {chars : List Char} (plain : ∀ c ∈ chars, ¬ isEnd c = true)
    (spelled : List Char) :
    scan? ⟨tokens, .word spelled⟩ chars = some ⟨tokens, .word (chars.reverse ++ spelled)⟩ := by
  induction chars generalizing spelled with
  | nil => rfl
  | cons c rest ih =>
    obtain ⟨first, others⟩ := List.forall_mem_cons.mp plain
    have more : ¬ (isBlank c || c = '"' || (mark? c).isSome) = true := first
    rw [scan?_cons (t := ⟨tokens, .word (c :: spelled)⟩) (by simp [step?, more]), ih others,
      List.reverse_cons, List.append_assoc]
    rfl

theorem step?_plain (tokens : List Token) (spelled : List Char) (escaped : Bool) {c : Char}
    (quote : c ≠ '"') (backslash : c ≠ '\\') :
    step? ⟨tokens, .text spelled escaped false⟩ (some c) =
      some ⟨tokens, .text (c :: spelled) false false⟩ := by
  simp [step?, spell, quote, backslash]

theorem step?_escaped (tokens : List Token) (spelled : List Char) (c : Char) :
    step? ⟨tokens, .text spelled true false⟩ (some c) =
      some ⟨tokens, .text (c :: spelled) false false⟩ := by
  simp [step?, spell]

/-- No digit is a quote or a backslash. -/
theorem plain_of_ofDigits {digits : List Char} {n : Nat} (h : Text.ofDigits? 16 digits = some n) :
    ∀ c ∈ digits, c ≠ '"' ∧ c ≠ '\\' := by
  have plain {c : Char} {value : Nat} (h : Text.digitValue? 16 c = some value) :
      c ≠ '"' ∧ c ≠ '\\' := by
    constructor
    all_goals
      rintro rfl
      cases h
  rw [Text.ofDigits?] at h
  split at h
  · cases h
  · revert h
    generalize 0 = start
    induction digits generalizing start with
    | nil => simp
    | cons c rest ih =>
      intro h
      rw [List.foldlM_cons] at h
      obtain ⟨next, first, h⟩ := Option.bind_eq_some_iff.mp h
      obtain ⟨value, digit, -⟩ := Option.map_eq_some_iff.mp first
      refine List.forall_mem_cons.mpr ⟨plain digit, ?_⟩
      cases rest with
      | nil => simp
      | cons d rest => exact ih (by simp) next h

/-- Plain characters of a text are put together. -/
theorem scan?_plain (tokens : List Token) {chars : List Char}
    (plain : ∀ c ∈ chars, c ≠ '"' ∧ c ≠ '\\') (spelled : List Char) :
    scan? ⟨tokens, .text spelled false false⟩ chars =
      some ⟨tokens, .text (chars.reverse ++ spelled) false false⟩ := by
  induction chars generalizing spelled with
  | nil => rfl
  | cons c rest ih =>
    obtain ⟨first, others⟩ := List.forall_mem_cons.mp plain
    rw [scan?_cons (step?_plain tokens spelled false first.1 first.2), ih others,
      List.reverse_cons, List.append_assoc]
    rfl

/-- A spelling is put together as it stands. -/
theorem scan?_text (tokens : List Token) {spelling : List Char}
    (spelled : (units? spelling).isSome = true) (before : List Char) :
    scan? ⟨tokens, .text before false false⟩ spelling =
      some ⟨tokens, .text (spelling.reverse ++ before) false false⟩ := by
  -- A backslash takes the character behind it along, whatever it is.
  have escape (before : List Char) (c : Char) (rest : List Char) :
      scan? ⟨tokens, .text before false false⟩ ('\\' :: c :: rest) =
        scan? ⟨tokens, .text (c :: '\\' :: before) false false⟩ rest := by
    rw [scan?_cons (t := ⟨tokens, .text ('\\' :: before) true false⟩) rfl,
      scan?_cons (step?_escaped tokens ('\\' :: before) c)]
  fun_induction units? spelling generalizing before with
  | case1 => rfl
  | case2 a b c d rest ih =>
    obtain ⟨units, h⟩ := Option.isSome_iff_exists.mp spelled
    obtain ⟨unit, number, h⟩ := Option.bind_eq_some_iff.mp h
    obtain ⟨others, known, -⟩ := Option.bind_eq_some_iff.mp h
    have digits := scan?_plain tokens (plain_of_ofDigits number) ('u' :: '\\' :: before)
    rw [escape, show a :: b :: c :: d :: rest = [a, b, c, d] ++ rest from rfl,
      scan?_append digits, ih (by rw [known]; rfl)]
    simp
  | case3 letter rest _ ih =>
    obtain ⟨units, h⟩ := Option.isSome_iff_exists.mp spelled
    obtain ⟨c, -, h⟩ := Option.bind_eq_some_iff.mp h
    obtain ⟨others, known, -⟩ := Option.bind_eq_some_iff.mp h
    rw [escape, ih (by rw [known]; rfl)]
    simp
  | case4 => cases spelled
  | case5 c rest _ _ plain ih =>
    rw [not_or, not_or] at plain
    rw [scan?_cons (step?_plain tokens before false plain.2.1 plain.2.2),
      ih (by rwa [Option.isSome_map] at spelled)]
    simp

end Scanner

/-! ## Cutting into tokens -/

/-- The characters are cut into the tokens where no word is open. -/
def Reads (chars : List Char) (tokens : List Token) : Prop :=
  ∀ before, ∃ s, Scanner.scan? ⟨before, .between⟩ chars = some s ∧ s.At (tokens.reverse ++ before)

/-- The characters are cut into the tokens also where a word is open, which they end. -/
def Follows (chars : List Char) (tokens : List Token) : Prop :=
  ∀ before (s : Scanner), s.At before →
    ∃ t, s.scan? chars = some t ∧ t.At (tokens.reverse ++ before)

theorem Reads.nil : Reads [] [] := fun _ => ⟨_, rfl, .between⟩

theorem Follows.reads {chars : List Char} {tokens : List Token} (h : Follows chars tokens) :
    Reads chars tokens :=
  fun before => h before _ .between

theorem Reads.follows {c : Char} {rest : List Char} {tokens : List Token}
    (h : Reads (c :: rest) tokens) (ends : isEnd c = true) : Follows (c :: rest) tokens := by
  intro before s at_
  obtain ⟨t, eq, read⟩ := h before
  refine ⟨t, ?_, read⟩
  rw [Scanner.scan?_cons (at_.step ends), ← eq, Scanner.scan?_cons rfl]

theorem Reads.append {first second : List Char} {tokens others : List Token}
    (h : Reads first tokens) (behind : Follows second others) :
    Reads (first ++ second) (tokens ++ others) := by
  intro before
  obtain ⟨s, front, at_⟩ := h before
  obtain ⟨t, back, read⟩ := behind _ s at_
  refine ⟨t, by rw [Scanner.scan?_append front, back], ?_⟩
  rwa [List.reverse_append, List.append_assoc]

/-- A mark is a token of its own. -/
theorem Reads.mark {c : Char} {token : Token} (known : mark? c = some token) {rest : List Char}
    {tokens : List Token} (h : Reads rest tokens) : Reads (c :: rest) (token :: tokens) := by
  have apart : ([' ', '\t', '\n', '\r', '"'].any fun d => (mark? d).isSome) = false := rfl
  have other : ∀ d ∈ [' ', '\t', '\n', '\r', '"'], c ≠ d :=
    fun d mem eq => List.any_eq_false.mp apart d mem (by rw [← eq, known]; rfl)
  simp only [List.forall_mem_cons] at other
  intro before
  obtain ⟨s, eq, read⟩ := h (token :: before)
  have first : Scanner.step? ⟨before, .between⟩ (some c) = some ⟨token :: before, .between⟩ := by
    simp [Scanner.step?, Scanner.start, isBlank, known, other]
  refine ⟨s, by rw [Scanner.scan?_cons first, eq], ?_⟩
  rwa [List.reverse_cons, List.append_assoc]

theorem Follows.mark {c : Char} {token : Token} (known : mark? c = some token) {rest : List Char}
    {tokens : List Token} (h : Reads rest tokens) : Follows (c :: rest) (token :: tokens) :=
  (h.mark known).follows (by simp [isEnd, known])

theorem Reads.blank {c : Char} (blank : isBlank c = true) {rest : List Char} {tokens : List Token}
    (h : Reads rest tokens) : Reads (c :: rest) tokens := by
  intro before
  have first : Scanner.step? ⟨before, .between⟩ (some c) = some ⟨before, .between⟩ := by
    simp [Scanner.step?, Scanner.start, blank]
  rw [Scanner.scan?_cons first]
  exact h before

/-- A new line may stand before everything. -/
theorem Follows.newline (level : Nat) {rest : List Char} {tokens : List Token}
    (h : Reads rest tokens) : Follows (newline level ++ rest) tokens := by
  have indented (count : Nat) : Reads (List.replicate count ' ' ++ rest) tokens := by
    induction count with
    | zero => exact h
    | succ count ih => exact ih.blank rfl
  exact ((indented (2 * level)).blank rfl).follows rfl

theorem Reads.word {spelling : List Char} {value : Json} (h : IsWord spelling value) :
    Reads spelling [.word value] := by
  intro before
  cases spelling with
  | nil => exact absurd rfl h.nonempty
  | cons c rest =>
    obtain ⟨first, others⟩ := List.forall_mem_cons.mp h.plain
    have opens : Scanner.step? ⟨before, .between⟩ (some c) = some ⟨before, .word [c]⟩ := by
      simp only [isEnd, Bool.or_eq_true, decide_eq_true_eq, not_or] at first
      have noMark : mark? c = none := by simpa using first.2
      simp [Scanner.step?, Scanner.start, first, noMark]
    refine ⟨_, by rw [Scanner.scan?_cons opens, Scanner.scan?_word others], ?_⟩
    exact .word (by rw [List.reverse_append, List.reverse_reverse]; exact h.known) rfl

theorem Reads.text {spelling : List Char} (spelled : (units? spelling).isSome = true) :
    Reads (quoted spelling) [.text spelling] := by
  intro before
  have closes : Scanner.step? ⟨before, .text spelling.reverse false false⟩ (some '"') =
      some ⟨.text spelling :: before, .between⟩ := by
    simp [Scanner.step?, Scanner.endText?, spelled]
  have inside := Scanner.scan?_text before spelled []
  rw [List.append_nil] at inside
  refine ⟨_, ?_, .between⟩
  rw [quoted, List.cons_append, Scanner.scan?_cons rfl]
  exact (Scanner.scan?_append inside _).trans (Scanner.scan?_cons closes [])

/-! ## The tokens of a value -/

mutual

/-- The tokens of a value. -/
def tokens : Json → List Token
  | .null => [.word .null]
  | .bool value => [.word (.bool value)]
  | .number spelling => [.word (.number spelling)]
  | .string spelling => [.text spelling]
  | .array items => .openArray :: itemTokens items ++ [.closeArray]
  | .object fields => .openObject :: fieldTokens fields ++ [.closeObject]

/-- The tokens of the items of an array. -/
def itemTokens : List Json → List Token
  | [] => []
  | [item] => tokens item
  | item :: rest => tokens item ++ .comma :: itemTokens rest

/-- The tokens of the fields of an object. -/
def fieldTokens : List (List Char × Json) → List Token
  | [] => []
  | [(name, value)] => .text name :: .colon :: tokens value
  | (name, value) :: rest => .text name :: .colon :: tokens value ++ .comma :: fieldTokens rest

end

theorem isSome_units? {spelling : List Char} (h : (unescape? spelling).isSome = true) :
    (units? spelling).isSome = true := by
  rw [unescape?, Option.isSome_map] at h
  exact Option.isSome_of_isSome_bind h

mutual

/-- The one-line layout is cut into the tokens of the value. -/
theorem reads_compact {room : Nat} :
    (value : Json) → value.isSound room = true → Reads value.compact value.tokens
  | .null, _ => .word isWord_null
  | .bool true, _ => .word isWord_true
  | .bool false, _ => .word isWord_false
  | .number spelling, sound => by
    rw [isSound] at sound
    exact .word (isWord_number (Option.isSome_of_any sound))
  | .string spelling, sound => by
    rw [isSound] at sound
    exact .text (isSome_units? sound)
  | .array items, sound => by
    rw [isSound, Bool.and_eq_true] at sound
    exact (Reads.mark rfl (reads_compactItems items sound.2)).append (.mark rfl .nil)
  | .object fields, sound => by
    rw [isSound, Bool.and_eq_true] at sound
    exact (Reads.mark rfl (reads_compactFields fields sound.2)).append (.mark rfl .nil)

theorem reads_compactItems {room : Nat} :
    (items : List Json) → areSound room items = true → Reads (compactItems items) (itemTokens items)
  | [], _ => .nil
  | [item], sound => by
    rw [areSound, Bool.and_eq_true] at sound
    exact reads_compact item sound.1
  | item :: next :: rest, sound => by
    rw [areSound, Bool.and_eq_true] at sound
    exact (reads_compact item sound.1).append
      (.mark rfl (reads_compactItems (next :: rest) sound.2))

theorem reads_compactFields {room : Nat} :
    (fields : List (List Char × Json)) → fieldsAreSound room fields = true →
      Reads (compactFields fields) (fieldTokens fields)
  | [], _ => .nil
  | [(name, value)], sound => by
    rw [fieldsAreSound, Bool.and_eq_true, Bool.and_eq_true] at sound
    exact (Reads.text (isSome_units? sound.1.1)).append
      (.mark rfl (reads_compact value sound.1.2))
  | (name, value) :: next :: rest, sound => by
    rw [fieldsAreSound, Bool.and_eq_true, Bool.and_eq_true] at sound
    exact ((Reads.text (isSome_units? sound.1.1)).append
      (.mark rfl (reads_compact value sound.1.2))).append
      (.mark rfl (reads_compactFields (next :: rest) sound.2))

end

mutual

/-- The indented layout is cut into the tokens of the value. -/
theorem reads_pretty {room : Nat} (level : Nat) :
    (value : Json) → value.isSound room = true → Reads (value.pretty level) value.tokens
  | .null, _ => .word isWord_null
  | .bool true, _ => .word isWord_true
  | .bool false, _ => .word isWord_false
  | .number spelling, sound => by
    rw [isSound] at sound
    exact .word (isWord_number (Option.isSome_of_any sound))
  | .string spelling, sound => by
    rw [isSound] at sound
    exact .text (isSome_units? sound)
  | .array [], _ | .object [], _ => (Reads.mark rfl .nil).append (.mark rfl .nil)
  | .array (item :: rest), sound => by
    rw [isSound, Bool.and_eq_true] at sound
    show Reads ('[' :: prettyItems (level + 1) (item :: rest) ++ newline level ++ [']']) _
    rw [List.append_assoc]
    exact (Reads.mark rfl (reads_prettyItems (level + 1) (item :: rest) sound.2)).append
      (.newline level (Reads.mark rfl .nil))
  | .object (field :: rest), sound => by
    rw [isSound, Bool.and_eq_true] at sound
    show Reads ('\x7b' :: prettyFields (level + 1) (field :: rest) ++ newline level ++ ['\x7d']) _
    rw [List.append_assoc]
    exact (Reads.mark rfl (reads_prettyFields (level + 1) (field :: rest) sound.2)).append
      (.newline level (Reads.mark rfl .nil))

theorem reads_prettyItems {room : Nat} (level : Nat) :
    (items : List Json) → areSound room items = true →
      Reads (prettyItems level items) (itemTokens items)
  | [], _ => .nil
  | [item], sound => by
    rw [areSound, Bool.and_eq_true] at sound
    exact (Follows.newline level (reads_pretty level item sound.1)).reads
  | item :: next :: rest, sound => by
    rw [areSound, Bool.and_eq_true] at sound
    exact (Follows.newline level (reads_pretty level item sound.1)).reads.append
      (.mark rfl (reads_prettyItems level (next :: rest) sound.2))

theorem reads_prettyFields {room : Nat} (level : Nat) :
    (fields : List (List Char × Json)) → fieldsAreSound room fields = true →
      Reads (prettyFields level fields) (fieldTokens fields)
  | [], _ => .nil
  | [(name, value)], sound => by
    rw [fieldsAreSound, Bool.and_eq_true, Bool.and_eq_true] at sound
    show Reads (newline level ++ quoted name ++ ':' :: ' ' :: pretty level value) _
    rw [List.append_assoc]
    exact (Follows.newline level ((Reads.text (isSome_units? sound.1.1)).append
      (.mark rfl ((reads_pretty level value sound.1.2).blank rfl)))).reads
  | (name, value) :: next :: rest, sound => by
    rw [fieldsAreSound, Bool.and_eq_true, Bool.and_eq_true] at sound
    show Reads (newline level ++ quoted name ++ ':' :: ' ' :: pretty level value ++
      ',' :: prettyFields level (next :: rest)) _
    rw [List.append_assoc (newline level)]
    exact (Follows.newline level ((Reads.text (isSome_units? sound.1.1)).append
      (.mark rfl ((reads_pretty level value sound.1.2).blank rfl)))).reads.append
      (.mark rfl (reads_prettyFields level (next :: rest) sound.2))

end

/-! ## The builder -/

namespace Builder

/-- The builder after some tokens. -/
def build? (b : Builder) (tokens : List Token) : Option Builder := tokens.foldlM step? b

theorem build?_append {b next : Builder} {tokens : List Token} (h : b.build? tokens = some next)
    (rest : List Token) : b.build? (tokens ++ rest) = next.build? rest := by
  rw [build?] at h
  rw [build?, List.foldlM_append, h]
  rfl

/-- The first item of an array is begun as one behind a comma is. -/
theorem build?_firstItem (around : List Open) (item : Json) (rest : List Json) :
    build? (.firstItem around) (itemTokens (item :: rest) ++ [.closeArray]) =
      build? (.awaitValue (.array [] :: around)) (itemTokens (item :: rest) ++ [.closeArray]) := by
  cases rest <;> cases item <;> rfl

/-- The first field of an object is begun as one behind a comma is. -/
theorem build?_firstName (around : List Open) (field : List Char × Json)
    (rest : List (List Char × Json)) :
    build? (.firstName around) (fieldTokens (field :: rest) ++ [.closeObject]) =
      build? (.awaitName [] around) (fieldTokens (field :: rest) ++ [.closeObject]) := by
  cases rest <;> rfl

mutual

/-- The tokens of a value are put together to the value. -/
theorem build?_tokens (around : List Open) :
    (value : Json) → build? (.awaitValue around) value.tokens = some (.done value around)
  | .null | .bool _ | .number _ | .string _ => rfl
  | .array [] | .object [] => rfl
  | .array (item :: rest) => by
    rw [tokens]
    exact (build?_firstItem around item rest).trans
      (build?_itemTokens [] around (item :: rest) (List.cons_ne_nil item rest))
  | .object (field :: rest) => by
    rw [tokens]
    exact (build?_firstName around field rest).trans
      (build?_fieldTokens [] around (field :: rest) (List.cons_ne_nil field rest))

/-- The items of an array are put behind those that it has. -/
theorem build?_itemTokens (before : List Json) (around : List Open) :
    (items : List Json) → items ≠ [] →
      build? (.awaitValue (.array before :: around)) (itemTokens items ++ [.closeArray]) =
        some (.done (.array (before.reverse ++ items)) around)
  | [], nonempty => absurd rfl nonempty
  | [item], _ => by
    rw [itemTokens, build?_append (build?_tokens _ item), ← List.reverse_cons]
    rfl
  | item :: next :: rest, _ => by
    rw [itemTokens, List.append_assoc, build?_append (build?_tokens _ item)]
    · have others :=
        build?_itemTokens (item :: before) around (next :: rest) (List.cons_ne_nil next rest)
      rw [List.reverse_cons, List.append_assoc] at others
      exact others
    all_goals simp

/-- The fields of an object are put behind those that it has. -/
theorem build?_fieldTokens (before : List (List Char × Json)) (around : List Open) :
    (fields : List (List Char × Json)) → fields ≠ [] →
      build? (.awaitName before around) (fieldTokens fields ++ [.closeObject]) =
        some (.done (.object (before.reverse ++ fields)) around)
  | [], nonempty => absurd rfl nonempty
  | [(name, value)], _ => by
    rw [fieldTokens, List.cons_append, List.cons_append]
    have first := build?_tokens (.object before name :: around) value
    refine (build?_append first [.closeObject]).trans ?_
    rw [← List.reverse_cons]
    rfl
  | (name, value) :: next :: rest, _ => by
    rw [fieldTokens, List.append_assoc]
    · have first := build?_tokens (.object before name :: around) value
      have others := build?_fieldTokens ((name, value) :: before) around (next :: rest)
        (List.cons_ne_nil next rest)
      rw [List.reverse_cons, List.append_assoc] at others
      exact (build?_append first _).trans others
    all_goals simp

end

end Builder

/-! ## Documents -/

theorem parse?_of_reads {chars : List Char} {value : Json} (h : Reads chars value.tokens) :
    parse? (String.ofList chars) = some value := by
  obtain ⟨s, scanned, read⟩ := h []
  have cut : tokens? (chars.map some) = some value.tokens := by
    have finished := read.finish
    rw [List.append_nil, List.reverse_reverse] at finished
    rw [tokens?]
    exact (congrArg (·.bind Scanner.finish?) scanned).trans finished
  have built : value.tokens.foldlM Builder.step? (.awaitValue []) = some (.done value []) :=
    Builder.build?_tokens [] value
  rw [parse?, String.toList_ofList, parseSigns?, cut, Option.bind_eq_bind, Option.bind_some, built]
  rfl

/-- **A value is read back from its text on one line**, as long as every part of
it has a meaning. -/
theorem parse?_toCompact {room : Nat} {value : Json} (sound : value.isSound room = true) :
    parse? value.toCompact = some value :=
  parse?_of_reads (reads_compact value sound)

/-- **A value is read back from its indented text**, as long as every part of it
has a meaning. -/
theorem parse?_toPretty {room : Nat} {value : Json} (sound : value.isSound room = true) :
    parse? value.toPretty = some value :=
  parse?_of_reads (reads_pretty 0 value sound)

end EventScript.Json
